import Scriptlet.Proofs.Grammar.Program
import Scriptlet.Proofs.Sites.Tree

/-!
# The grammar and sites

Tokens at other sites are the same phrases, with the sites of their trees moved along.

## Main definitions

* `Token.mapSites` — a token at another site
* `Grammar.Moves` — a kind of phrase whose trees move along with the tokens

## Main statements

* `Grammar.moves_expression`, `Grammar.moves_statement` — expressions and statements
* `Grammar.many_moves` — what a program consists of
* `Grammar.many_unique` — and it has only one reading

## Design decisions

* The inductions are on the number of tokens: a phrase inside of brackets or braces has
  fewer of them than the phrase around it.
-/

namespace Scriptlet

/-- The token with its site given by `f`. -/
def Token.mapSites (f : Site → Site) (t : Token) : Token := { t with site := f t.site }

namespace Grammar

variable {α : Type} {f : Site → Site} {g : α → α} {n : Nat}

/-- **Moving along.**  When the sites of the tokens are given by `f`, phrases of at most `n`
tokens stay such phrases, with their trees given by `g`. -/
def Moves (f : Site → Site) (g : α → α) (n : Nat) (Item : List Token → α → Prop) : Prop :=
  ∀ ⦃ts x⦄, ts.length ≤ n → Item ts x → Item (ts.map (Token.mapSites f)) (g x)

/-! ## Lists, types and parameters -/

theorem Moves.many {Item : List Token → α → Prop} (h : Moves f g n Item) :
    Moves f (List.map g) n (Many Item) := by
  intro ts xs within phrases
  induction phrases with
  | nil => exact .nil
  | cons first _ ih =>
    rw [List.length_append] at within
    rw [List.map_append]
    exact .cons (h (by omega) first) (ih (by omega))

theorem Moves.separated {Item : List Token → α → Prop} (h : Moves f g n Item) :
    Moves f (List.map g) n (Separated Item) := by
  intro ts xs within phrases
  induction phrases with
  | one first => exact .one (h within first)
  | more first comma _ ih =>
    rw [List.length_append, List.length_cons] at within
    rw [List.map_append]
    exact .more (h (by omega) first) comma (ih (by omega))

theorem Moves.listed {Item : List Token → α → Prop} (h : Moves f g n Item) :
    Moves f (List.map g) n (Listed Item) := by
  intro ts xs within phrases
  cases phrases with
  | none => exact .none
  | some phrases => exact .some (h.separated within phrases)

theorem Written.mapSites {ts : List Token} {type : DeclaredType} {site : Site}
    (h : Written ts type site) : Written (ts.map (Token.mapSites f)) type (f site) := by
  cases h with
  | @plain t base kind => exact Written.plain (t := t.mapSites f) kind
  | @array t opening closing base kind opens closes =>
    exact Written.array (t := t.mapSites f) kind opens closes

theorem moves_parameter : Moves f (Parameter.mapSites f) n Parameterized := by
  intro ts p _ h
  cases h with
  | intro written kind =>
    rw [List.map_append]
    exact .intro written.mapSites kind

/-! ## Expressions -/

theorem Moves.layer {Item : List Token → Expr → Prop} (h : Moves f (Expr.mapSites f) n Item)
    (p : Nat) : Moves f (Expr.mapSites f) n (Layer Item p) := by
  intro ts e within phrase
  induction phrase with
  | operand phrase => exact .operand (h within phrase)
  | tighter _ ih => exact .tighter (ih within)
  | operation _ kind layer mem _ left right =>
    rw [List.length_append, List.length_cons] at within
    rw [List.map_append, List.map_cons, Expr.mapSites]
    exact .operation (left (by omega)) kind layer mem (right (by omega))

theorem moves_operand (n : Nat) : Moves f (Expr.mapSites f) n Operand := by
  induction n with
  | zero =>
    intro ts e within h
    obtain rfl : ts = [] := List.length_eq_zero_iff.mp (Nat.le_zero.mp within)
    cases h
  | succ n ih =>
    intro ts e within h
    cases h with
    | literal kind => exact .literal kind
    | var kind => exact .var kind
    | unary kind mem operand =>
      rw [List.map_cons, Expr.mapSites]
      exact .unary kind mem (ih (Nat.le_of_succ_le_succ within) operand)
    | group opens phrase closes =>
      rw [List.length_cons, List.length_append] at within
      rw [List.map_cons, List.map_append]
      exact .group opens (ih.layer 0 (by omega) phrase) closes
    | array opens phrases closes =>
      rw [List.length_cons, List.length_append] at within
      rw [List.map_cons, List.map_append, Expr.mapSites, Expr.mapSitesAll_eq]
      exact .array opens ((ih.layer 0).listed (by omega) phrases) closes
    | call kind opens phrases closes =>
      rw [List.length_cons, List.length_cons, List.length_append] at within
      rw [List.map_cons, List.map_cons, List.map_append, Expr.mapSites, Expr.mapSitesAll_eq]
      exact .call kind opens ((ih.layer 0).listed (by omega) phrases) closes

theorem moves_expression (n : Nat) : Moves f (Expr.mapSites f) n Expression :=
  (moves_operand n).layer 0

/-! ## Statements -/

/-- A block has its braces besides the tokens inside. -/
theorem Moves.blockOf {Item : List Token → Stmt → Prop} (h : Moves f (Stmt.mapSites f) n Item) :
    Moves f (Block.mapSites f) (n + 1) (BlockOf Item) := by
  intro ts b within phrase
  cases phrase with
  | braces opens phrases closes =>
    rw [List.length_cons, List.length_append] at within
    rw [List.map_cons, List.map_append, Block.mapSites, Stmt.mapSitesAll_eq]
    exact .braces opens (h.many (by omega) phrases) closes

theorem Moves.chainOf {Item : List Token → Stmt → Prop} (h : Moves f (Stmt.mapSites f) n Item)
    {site : Site} {ts : List Token} {chain : Conditional} (within : ts.length ≤ n + 1)
    (phrase : ChainOf Item site ts chain) :
    ChainOf Item (f site) (ts.map (Token.mapSites f)) (chain.mapSites f) := by
  induction phrase with
  | done condition body =>
    rw [List.length_append] at within
    rw [List.map_append, Conditional.mapSites, Otherwise.mapSites]
    exact .done (moves_expression _ (Nat.le_refl _) condition) (h.blockOf (by omega) body)
  | elif condition body kind _ ih =>
    rw [List.length_append, List.length_append, List.length_cons] at within
    rw [List.map_append, List.map_append, List.map_cons, Conditional.mapSites, Otherwise.mapSites]
    exact .elif (moves_expression _ (Nat.le_refl _) condition) (h.blockOf (by omega) body) kind
      (ih (by omega))
  | last condition body kind body' =>
    rw [List.length_append, List.length_append, List.length_cons] at within
    rw [List.map_append, List.map_append, List.map_cons, Conditional.mapSites, Otherwise.mapSites]
    exact .last (moves_expression _ (Nat.le_refl _) condition) (h.blockOf (by omega) body) kind
      (h.blockOf (by omega) body')

theorem moves_statement (n : Nat) : Moves f (Stmt.mapSites f) n Statement := by
  have moved : ∀ {ts : List Token} {e : Expr}, Expression ts e →
      Expression (ts.map (Token.mapSites f)) (e.mapSites f) :=
    fun phrase => moves_expression _ (Nat.le_refl _) phrase
  induction n with
  | zero =>
    intro ts s within h
    obtain ⟨t, us, rfl, -⟩ := Parser.statement_start h
    cases within
  | succ n ih =>
    intro ts s within h
    cases h with
    | declare written kind equals phrase semicolon =>
      rw [List.map_append, List.map_cons, List.map_cons, List.map_append, Stmt.mapSites]
      exact .declare written.mapSites kind equals (moved phrase) semicolon
    | @define ts fs ps bs word opening closing type name site parameters b written fun? kind opens
        listed closes nodup body =>
      simp only [List.length_append, List.length_cons] at within
      rw [List.map_append, List.map_append, List.map_cons, List.map_cons, List.map_append,
        List.map_cons, Stmt.mapSites, Function.mapSites]
      have names : (parameters.map (Parameter.mapSites f)).map Parameter.name =
          parameters.map Parameter.name := by
        rw [List.map_map]
        rfl
      have word? : fs.map (Token.mapSites f) = [] ∨
          ∃ t, t.kind = .keyword .function ∧ fs.map (Token.mapSites f) = [t] := by
        rcases fun? with rfl | ⟨t, isFun, rfl⟩
        · exact .inl rfl
        · exact .inr ⟨t.mapSites f, isFun, rfl⟩
      exact .define written.mapSites word? kind opens
        (moves_parameter.listed (Nat.le_refl _) listed) closes (names ▸ nodup)
        (ih.blockOf (by omega) body)
    | reassign now kind equals phrase semicolon =>
      rw [List.map_cons, List.map_cons, List.map_cons, List.map_append, Stmt.mapSites]
      exact .reassign now kind equals (moved phrase) semicolon
    | block body =>
      rw [Stmt.mapSites]
      exact .block (ih.blockOf within body)
    | ret kind phrase semicolon =>
      rw [List.map_cons, List.map_append, Stmt.mapSites]
      exact .ret kind (moved phrase) semicolon
    | retVoid kind semicolon =>
      rw [Stmt.mapSites]
      exact .retVoid kind semicolon
    | branch kind chain =>
      rw [List.length_cons] at within
      rw [List.map_cons, Stmt.mapSites]
      exact .branch kind (ih.chainOf (by omega) chain)
    | loop kind condition body =>
      rw [List.length_cons, List.length_append] at within
      rw [List.map_cons, List.map_append, Stmt.mapSites]
      exact .loop kind (moved condition) (ih.blockOf (by omega) body)
    | count kind first isTo second isStep third body =>
      simp only [List.length_cons, List.length_append] at within
      rw [List.map_cons, List.map_append, List.map_cons, List.map_append, List.map_cons,
        List.map_append, Stmt.mapSites]
      exact .count kind (moved first) isTo (moved second) isStep (moved third)
        (ih.blockOf (by omega) body)
    | call kind opens phrases closes semicolon =>
      rw [List.map_cons, List.map_cons, List.map_append, Stmt.mapSites]
      exact .call kind opens ((moves_expression _).listed (Nat.le_refl _) phrases) closes semicolon
    | empty semicolon =>
      rw [Stmt.mapSites]
      exact .empty semicolon

/-! ## Sequences of statements -/

/-- **Statements at other sites.** -/
theorem many_moves {ts : List Token} {ss : List Stmt} (f : Site → Site) (h : Many Statement ts ss) :
    Many Statement (ts.map (Token.mapSites f)) (ss.map (Stmt.mapSites f)) :=
  (moves_statement ts.length).many (Nat.le_refl _) h

theorem Program.many {last : Token} {ts : List Token} {b : Block} (h : Program last ts b) :
    Many Statement ts b.statements := by
  cases h
  assumption

/-- **Programs at other sites.** -/
theorem Program.moves {last : Token} {ts : List Token} {b : Block} (f : Site → Site)
    (h : Program last ts b) :
    Program (last.mapSites f) (ts.map (Token.mapSites f)) (b.mapSites f) := by
  obtain ⟨many⟩ := h
  have site : ((ts.map (Token.mapSites f)).headD (last.mapSites f)).site =
      f (ts.headD last).site := by
    cases ts <;> rfl
  rw [Block.mapSites, Stmt.mapSitesAll_eq, ← site]
  exact .intro (many_moves f many)

theorem Many.append {Item : List Token → α → Prop} {ts us : List Token} {xs ys : List α}
    (first : Many Item ts xs) (second : Many Item us ys) : Many Item (ts ++ us) (xs ++ ys) := by
  induction first with
  | nil => exact second
  | cons item _ ih =>
    rw [List.append_assoc, List.cons_append]
    exact .cons item ih

/-- **Tokens are statements in one way only.** -/
theorem many_unique {ts : List Token} {ss ss' : List Stmt} (regular : ∀ t ∈ ts, t.Regular)
    (h : Many Statement ts ss) (h' : Many Statement ts ss') : ss = ss' := by
  -- They are programs in front of any end token.
  let last : Token := .unplaced .endOfStream
  have program : Program last ts ⟨ss, (ts.headD last).site⟩ := .intro h
  have program' : Program last ts ⟨ss', (ts.headD last).site⟩ := .intro h'
  exact congrArg Block.statements (program.unique regular rfl program')

end Grammar

end Scriptlet
