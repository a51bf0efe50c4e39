import Scriptlet.Proofs.Grammar.StatementSound

/-!
# Every statement is read

## Main definitions

* `Parser.StatementEnd` — what may follow a statement
* `Parser.StatementStart` — what a statement does not start with

## Main statements

* `Parser.statement_complete` — every statement of the grammar is read
* `Parser.program_reads` — every program is read up to the end token

## Design decisions

* Only an if chain looks at the token behind it, so what may follow a statement is
  anything but `elif` and `else`.
* A statement inside a block is followed by another one or by the closing brace.
  That neither of these starts with `elif` or `else` is all that `Many` needs.
-/

namespace Scriptlet

open Grammar

namespace Parser

/-! ## What stands around a statement -/

/-- What may follow a statement. -/
def StatementEnd (kind : TokenKind) : Prop :=
  kind ≠ .keyword .elifWord ∧ kind ≠ .keyword .elseWord

/-- What the parser of a list of statements tells a statement by. -/
def StatementStart (kind : TokenKind) : Prop :=
  kind ≠ .mark .rightBrace ∧ kind ≠ .endOfStream ∧ StatementEnd kind

theorem statement_start {ts : List Token} {s : Stmt} (h : Statement ts s) :
    Ahead StatementStart ts := by
  have first : ∀ {t : Token} {kind : TokenKind} (us : List Token), t.kind = kind →
      StatementStart kind → Ahead StatementStart (t :: us) :=
    fun us same start => .cons us (same ▸ start)
  cases h with
  | declare written =>
    obtain ⟨t, us, rfl, kind, -⟩ := written_eq_cons written
    exact first _ kind (by simp [StatementStart, StatementEnd])
  | define written =>
    obtain ⟨t, us, rfl, kind, -⟩ := written_eq_cons written
    exact first _ kind (by simp [StatementStart, StatementEnd])
  | block body =>
    obtain ⟨opens, -, -⟩ := body
    exact first _ opens (by simp [StatementStart, StatementEnd])
  | reassign kind | ret kind | retVoid kind | branch kind | loop kind | count kind | call kind
  | empty kind => exact first _ kind (by simp [StatementStart, StatementEnd])

theorem many_start {ts : List Token} {ss : List Stmt} (h : Many Statement ts ss) {t : Token}
    (us : List Token) (follow : StatementEnd t.kind) : Ahead StatementEnd (ts ++ t :: us) := by
  cases h with
  | nil => exact .cons us follow
  | cons phrase others =>
    obtain ⟨u, vs, rfl, start⟩ := statement_start phrase
    exact .cons _ start.2.2

theorem block_start {ts : List Token} {b : Block} (h : BlockOf Statement ts b) :
    Ahead ExpressionEnd ts := by
  obtain ⟨opens, -, -⟩ := h
  exact .cons _ (by rw [opens]; exact ⟨by simp, rfl⟩)

variable {item : Parser Stmt} {n bound : Nat}

/-! ## Parts of statements -/

/-- The list of statements is read if what is read at its end is known. -/
theorem statements_reads (complete : Complete item Statement (Ahead StatementEnd) n)
    {braced : Bool} {ending : Token} {rest after : List Token}
    (last : ∀ m, Reads (statements item braced (m + 1)) (ending :: rest) [] after)
    (follow : StatementEnd ending.kind) {ts : List Token} {ss : List Stmt}
    (h : Many Statement ts ss) (regular : ∀ t ∈ ts, t.Regular)
    (enough : (ts ++ ending :: rest).length ≤ bound)
    (within : (ts ++ ending :: rest).length ≤ n) :
    Reads (statements item braced bound) (ts ++ ending :: rest) ss after := by
  induction h generalizing bound with
  | nil =>
    obtain ⟨m, rfl⟩ : ∃ m, bound = m + 1 := ⟨bound - 1, by simp at enough; omega⟩
    exact last m
  | @cons ts us s ss phrase others ih =>
    -- Each statement has to be ahead of something that cannot be taken for its rest.
    have next := many_start others rest follow
    obtain ⟨t, vs, rfl, brace, ended, -⟩ := statement_start phrase
    simp only [List.append_assoc, List.cons_append, List.length_append, List.length_cons]
      at enough within ⊢
    obtain ⟨m, rfl⟩ : ∃ m, bound = m + 1 := ⟨bound - 1, by omega⟩
    have head : Reads item (t :: (vs ++ (us ++ ending :: rest))) s (us ++ ending :: rest) := by
      refine complete (fun u mem => regular u (List.mem_append_left _ mem)) phrase next ?_
      simp only [List.cons_append, List.length_append, List.length_cons]
      omega
    have tail : Reads (statements item braced m) (us ++ ending :: rest) ss after := by
      refine ih (fun u mem => regular u (List.mem_append_right _ mem)) ?_ ?_
      all_goals
        simp only [List.length_append, List.length_cons]
        omega
    refine (peek_reads t _).bind ?_
    rw [if_neg (fun both => brace both.2), if_neg ended]
    exact head.bind (tail.bind (.pure _ _))

theorem block_reads (complete : Complete item Statement (Ahead StatementEnd) n) {ts : List Token}
    {b : Block} (h : BlockOf Statement ts b) (rest : List Token) (regular : ∀ t ∈ ts, t.Regular)
    (enough : (ts ++ rest).length ≤ bound + 1) (within : (ts ++ rest).length ≤ n + 1) :
    Reads (block item bound) (ts ++ rest) b rest := by
  obtain ⟨opens, many, closes⟩ := h
  rename_i opening closing ts ss
  simp only [List.cons_append, List.append_assoc, List.nil_append, List.length_cons]
    at enough within ⊢
  have last : ∀ m, Reads (statements item true (m + 1)) (closing :: rest) [] rest := by
    intro m
    refine (peek_reads closing rest).bind ?_
    rw [if_pos ⟨rfl, closes⟩]
    exact (advance_reads closing rest).bind (.pure _ _)
  have body : Reads (statements item true bound) (ts ++ closing :: rest) ss rest :=
    statements_reads complete last (by simp [closes, StatementEnd]) many
      (fun u mem => regular u (by simp [mem])) (by omega) (by omega)
  exact (expect_reads opens _ _).bind (body.bind (.pure _ _))

/-- An expression and a block, with which loops and the links of if chains go on. -/
theorem condition_body_reads (complete : Complete item Statement (Ahead StatementEnd) n)
    {cs bs : List Token} {e : Expr} {b : Block} (condition : Expression cs e)
    (body : BlockOf Statement bs b) {rest : List Token} (hcs : ∀ t ∈ cs, t.Regular)
    (hbs : ∀ t ∈ bs, t.Regular)
    (enough : (cs ++ (bs ++ rest)).length ≤ bound) (within : (cs ++ (bs ++ rest)).length ≤ n)
    {α : Type} {p : Expr → Block → Parser α} {a : α} {after : List Token}
    (next : Reads (p e b) rest a after) :
    Reads (do
      let condition ← expression bound
      let body ← block item bound
      p condition body) (cs ++ (bs ++ rest)) a after := by
  have hcondition : Reads (expression bound) (cs ++ (bs ++ rest)) e (bs ++ rest) :=
    expression_complete bound hcs condition ((block_start body).append rest) enough
  rw [List.length_append] at enough within
  have hbody : Reads (block item bound) (bs ++ rest) b rest :=
    block_reads complete body rest hbs (by omega) (by omega)
  exact hcondition.bind (hbody.bind next)

theorem chain_length_pos {site : Site} {ts : List Token} {chain : Conditional}
    (h : ChainOf Statement site ts chain) : 0 < ts.length := by
  cases h with
  | done condition | elif condition | last condition =>
    obtain ⟨t, us, rfl, -⟩ := layer_start condition
    simp

/-- The induction follows the chain; each link takes more tokens than the one unit
of the bound that it costs. -/
theorem conditional_reads (complete : Complete item Statement (Ahead StatementEnd) n)
    {site : Site} {ts : List Token} {chain : Conditional} (h : ChainOf Statement site ts chain)
    {rest : List Token} (follow : Ahead StatementEnd rest) (regular : ∀ t ∈ ts, t.Regular)
    (enough : (ts ++ rest).length ≤ bound) (within : (ts ++ rest).length ≤ n) :
    Reads (conditional item bound site) (ts ++ rest) chain rest := by
  have nonempty := chain_length_pos h
  obtain ⟨m, rfl⟩ : ∃ m, bound = m + 1 :=
    ⟨bound - 1, by rw [List.length_append] at enough; omega⟩
  induction h generalizing m with
  | @done site cs bs e b condition body =>
    obtain ⟨t, us, rfl, notElif, notElse⟩ := follow
    rw [List.append_assoc] at enough within ⊢
    refine condition_body_reads complete condition body
      (fun u mem => regular u (List.mem_append_left _ mem))
      (fun u mem => regular u (List.mem_append_right _ mem)) enough within ?_
    refine (peek_reads t us).bind ?_
    cases kind : t.kind with
    | keyword word =>
      cases word with
      | elifWord => exact absurd kind notElif
      | elseWord => exact absurd kind notElse
      | _ => exact .pure _ _
    | _ => exact .pure _ _
  | @elif site cs bs ts word e b link condition body kind next ih =>
    have nonempty' := chain_length_pos next
    simp only [List.append_assoc, List.cons_append] at enough within ⊢
    have hnext : Reads (conditional item m word.site) (ts ++ rest) link rest := by
      simp only [List.length_append, List.length_cons] at enough within
      obtain ⟨m, rfl⟩ : ∃ k, m = k + 1 := ⟨m - 1, by omega⟩
      refine ih (fun u mem => regular u (by simp [mem])) ?_ nonempty' m ?_
      all_goals
        rw [List.length_append]
        omega
    refine condition_body_reads complete condition body
      (fun u mem => regular u (List.mem_append_left _ mem))
      (fun u mem => regular u (by simp [mem])) enough within ?_
    refine (peek_reads word _).bind ?_
    rw [kind]
    exact (advance_reads word _).bind (hnext.bind (.pure _ _))
  | @last site cs bs ts word e b b' condition body kind final =>
    simp only [List.append_assoc, List.cons_append] at enough within ⊢
    have hfinal : Reads (block item m) (ts ++ rest) b' rest := by
      simp only [List.length_append, List.length_cons] at enough within
      refine block_reads complete final _ (fun u mem => regular u (by simp [mem])) ?_ ?_
      all_goals
        rw [List.length_append]
        omega
    refine condition_body_reads complete condition body
      (fun u mem => regular u (List.mem_append_left _ mem))
      (fun u mem => regular u (by simp [mem])) enough within ?_
    refine (peek_reads word _).bind ?_
    rw [kind]
    exact (advance_reads word _).bind (hfinal.bind (.pure _ _))

theorem binding_reads {equals semicolon : String} {make : String → Site → Expr → Stmt}
    {word sign stop : Token} {es rest : List Token} {name : String} {e : Expr}
    (kind : word.kind = .identifier name) (isEquals : sign.kind = .mark .equals)
    (phrase : Expression es e) (isSemicolon : stop.kind = .mark .semicolon)
    (regular : ∀ t ∈ es, t.Regular) (enough : (es ++ stop :: rest).length ≤ bound) :
    Reads (binding bound equals semicolon make) (word :: sign :: (es ++ stop :: rest))
      (make name word.site e) rest := by
  have value : Reads (expression bound) (es ++ stop :: rest) e (stop :: rest) :=
    expression_complete bound regular phrase
      (.cons rest (by rw [isSemicolon]; exact ⟨by simp, rfl⟩)) enough
  exact (identifier_reads kind _).bind ((expect_reads isEquals _ _).bind
    (value.bind ((expect_reads isSemicolon _ _).bind (.pure _ _))))

theorem function_reads (complete : Complete item Statement (Ahead StatementEnd) n)
    {type : DeclaredType} {site : Site} {word opening closing : Token} {ps bs rest : List Token}
    {name : String} {parameters : List Parameter} {b : Block}
    (kind : word.kind = .identifier name) (opens : opening.kind = .mark .leftParen)
    (listed : Listed Parameterized ps parameters) (closes : closing.kind = .mark .rightParen)
    (nodup : (parameters.map Parameter.name).Nodup) (body : BlockOf Statement bs b)
    (hps : ∀ t ∈ ps, t.Regular) (hbs : ∀ t ∈ bs, t.Regular)
    (enough : (ps ++ closing :: (bs ++ rest)).length ≤ bound)
    (within : (ps ++ closing :: (bs ++ rest)).length ≤ n) :
    Reads (function item bound type site)
      (word :: opening :: (ps ++ closing :: (bs ++ rest)))
      (.define ⟨name, type, parameters, b, site⟩) rest := by
  have complete_parameter : Complete parameter Parameterized (Ahead fun _ => True) n :=
    fun _ _ rest _ h _ _ => parameter_reads rest h
  have hparameters : Reads (separated parameter .rightParen bound)
      (ps ++ closing :: (bs ++ rest)) parameters (bs ++ rest) := by
    refine separated_reads complete_parameter trivial trivial (by simp) ?_ listed closes hps
      enough within
    rintro _ _ ⟨written, -⟩
    obtain ⟨t, us, rfl, kind, -⟩ := written_eq_cons written
    exact .cons _ (by rw [kind]; simp)
  -- The check for repeated names comes before the body is read.
  have distinct : duplicate? [] parameters = none :=
    (duplicate?_eq_none_iff [] parameters).mpr ⟨nodup, by simp⟩
  simp only [List.length_append, List.length_cons] at enough within
  have hbody : Reads (block item bound) (bs ++ rest) b rest := by
    refine block_reads complete body rest hbs ?_ ?_
    all_goals
      rw [List.length_append]
      omega
  refine (identifier_reads kind _).bind ((expect_reads opens _ _).bind (hparameters.bind ?_))
  simp only [distinct]
  exact hbody.bind (.pure _ _)

/-- A declaration of a variable. -/
theorem declare_reads {ts es rest : List Token} {word equals semicolon : Token}
    {type : DeclaredType} {name : String} {site : Site} {e : Expr}
    (written : Written ts type site) (kind : word.kind = .identifier name)
    (isEquals : equals.kind = .mark .equals) (phrase : Expression es e)
    (isSemicolon : semicolon.kind = .mark .semicolon) (regular : ∀ t ∈ es, t.Regular)
    (enough : (es ++ semicolon :: rest).length ≤ bound) :
    Reads (declaration item bound site) (ts ++ word :: equals :: (es ++ semicolon :: rest))
      (.declare type name word.site e site) rest := by
  have value : Reads (variableDeclaration bound type site)
      (word :: equals :: (es ++ semicolon :: rest)) (.declare type name word.site e site) rest := by
    rw [variableDeclaration_eq]
    exact binding_reads kind isEquals phrase isSemicolon regular enough
  refine (typeSpec_reads written (by simp [kind])).bind ((peek_reads word _).bind ?_)
  rw [kind]
  refine (peekSecond?_reads word equals _).bind ?_
  rw [if_neg (by simp [isEquals])]
  exact value

/-- A declaration of a function. -/
theorem define_reads {ts fs us rest : List Token} {word opening : Token} {type : DeclaredType}
    {name : String} {site : Site} {s : Stmt} (written : Written ts type site)
    (fun? : fs = [] ∨ ∃ t, t.kind = .keyword .function ∧ fs = [t])
    (kind : word.kind = .identifier name) (opens : opening.kind = .mark .leftParen)
    (behind : Reads (function item bound type site) (word :: opening :: us) s rest) :
    Reads (declaration item bound site) (ts ++ (fs ++ word :: opening :: us)) s rest := by
  rcases fun? with rfl | ⟨t, isFun, rfl⟩
  · refine (typeSpec_reads written (by simp [kind])).bind ((peek_reads word _).bind ?_)
    rw [kind]
    refine (peekSecond?_reads word opening _).bind ?_
    rw [if_pos (by simp [opens])]
    exact behind
  · refine (typeSpec_reads written (by simp [isFun])).bind ((peek_reads t _).bind ?_)
    rw [isFun]
    exact (advance_reads t _).bind behind

theorem returned_reads {es rest : List Token} {semicolon : Token} {e : Expr} (site : Site)
    (phrase : Expression es e) (isSemicolon : semicolon.kind = .mark .semicolon)
    (regular : ∀ t ∈ es, t.Regular) (enough : (es ++ semicolon :: rest).length ≤ bound) :
    Reads (returned bound site) (es ++ semicolon :: rest) (.ret (some e) site) rest := by
  have value : Reads (expression bound) (es ++ semicolon :: rest) e (semicolon :: rest) :=
    expression_complete bound regular phrase
      (.cons rest (by rw [isSemicolon]; exact ⟨by simp, rfl⟩)) enough
  have notStart : ¬ OperandStart (.mark .semicolon) := by
    rintro ⟨⟩
  obtain ⟨t, us, rfl, ne⟩ := expression_start_ne notStart phrase
  refine (peek_reads t _).bind ?_
  rw [if_neg ne]
  exact value.bind ((expect_reads isSemicolon _ _).bind (.pure _ _))

theorem countedLoop_reads (complete : Complete item Statement (Ahead StatementEnd) n)
    {as cs ds bs rest : List Token} {toWord stepWord : Token} {start stop step : Expr} {b : Block}
    (site : Site) (first : Expression as start) (isTo : toWord.kind = .keyword .toWord)
    (second : Expression cs stop) (isStep : stepWord.kind = .keyword .stepWord)
    (third : Expression ds step) (body : BlockOf Statement bs b)
    (regular : ∀ t ∈ as ++ toWord :: (cs ++ stepWord :: (ds ++ bs)), t.Regular)
    (enough : (as ++ toWord :: (cs ++ stepWord :: (ds ++ (bs ++ rest)))).length ≤ bound)
    (within : (as ++ toWord :: (cs ++ stepWord :: (ds ++ (bs ++ rest)))).length ≤ n) :
    Reads (countedLoop item bound site)
      (as ++ toWord :: (cs ++ stepWord :: (ds ++ (bs ++ rest))))
      (.count start stop step b site) rest := by
  have hstart : Reads (expression bound)
      (as ++ toWord :: (cs ++ stepWord :: (ds ++ (bs ++ rest)))) start
      (toWord :: (cs ++ stepWord :: (ds ++ (bs ++ rest)))) :=
    expression_complete bound (fun u mem => regular u (by simp [mem])) first
      (.cons _ (by rw [isTo]; exact ⟨by simp, rfl⟩)) enough
  simp only [List.length_append, List.length_cons] at enough within
  have hstop : Reads (expression bound) (cs ++ stepWord :: (ds ++ (bs ++ rest))) stop
      (stepWord :: (ds ++ (bs ++ rest))) := by
    refine expression_complete bound (fun u mem => regular u (by simp [mem])) second
      (.cons _ (by rw [isStep]; exact ⟨by simp, rfl⟩)) ?_
    simp only [List.length_append, List.length_cons]
    omega
  refine hstart.bind ((expect_reads isTo _ _).bind (hstop.bind ((expect_reads isStep _ _).bind ?_)))
  refine condition_body_reads complete third body (fun u mem => regular u (by simp [mem]))
    (fun u mem => regular u (by simp [mem])) ?_ ?_ (.pure _ rest)
  all_goals
    simp only [List.length_append]
    omega

theorem callStatement_reads {es rest : List Token} {word opening closing semicolon : Token}
    {name : String} {args : List Expr} (site : Site) (opens : opening.kind = .mark .leftParen)
    (listed : Listed Expression es args) (closes : closing.kind = .mark .rightParen)
    (isSemicolon : semicolon.kind = .mark .semicolon) (regular : ∀ t ∈ es, t.Regular)
    (enough : (es ++ closing :: semicolon :: rest).length ≤ bound) :
    Reads (callStatement bound name site)
      (word :: opening :: (es ++ closing :: semicolon :: rest)) (.call name args site) rest := by
  have hargs : Reads (arguments (expression bound) bound) (es ++ closing :: semicolon :: rest) args
      (semicolon :: rest) :=
    expressions_reads (expression_complete bound) (.inl rfl) listed closes regular enough enough
  refine (peekSecond?_reads word opening _).bind ?_
  rw [opens]
  exact (advance_reads word _).bind ((advance_reads opening _).bind
    (hargs.bind ((expect_reads isSemicolon _ _).bind (.pure _ _))))

/-! ## Statements -/

/-- A statement with a type in front is a declaration. -/
theorem statementAt_of_typeName {t : Token} {base : BaseType} (regular : t.Regular)
    (kind : t.kind = .typeName base) :
    statementAt item bound t = declaration item bound t.site := by
  have flag : t.flags.dataType = true := by rw [regular, kind]; rfl
  exact if_pos flag

/-- Every statement is read once its first token has been looked at. -/
theorem statementAt_reads (complete : Complete item Statement (Ahead StatementEnd) n)
    {ts rest : List Token} {s : Stmt} (h : Statement ts s) (follow : Ahead StatementEnd rest)
    (regular : ∀ t ∈ ts, t.Regular) (enough : (ts ++ rest).length ≤ bound + 1)
    (within : (ts ++ rest).length ≤ n + 1) :
    ∃ t us, ts = t :: us ∧ Reads (statementAt item bound t) (ts ++ rest) s rest := by
  -- Only the name of a type sends the parser to declarations.
  have plain : ∀ {t : Token} {kind : TokenKind}, t ∈ ts → t.kind = kind →
      kind.flags.dataType = false → t.flags.dataType = false := by
    intro t kind mem same flag
    rw [regular t mem, same, flag]
  cases h with
  | @declare ts es word equals semicolon type name site e written kind isEquals phrase
      isSemicolon =>
    obtain ⟨t, us, hts, first, rfl⟩ := written_eq_cons written
    refine ⟨t, us ++ word :: equals :: (es ++ [semicolon]), by rw [hts]; rfl, ?_⟩
    rw [statementAt_of_typeName (regular t (by simp [hts])) first]
    simp only [List.append_assoc, List.cons_append, List.nil_append, List.length_append,
      List.length_cons] at enough ⊢
    refine declare_reads written kind isEquals phrase isSemicolon
      (fun u mem => regular u (by simp [mem])) ?_
    simp only [List.length_append, List.length_cons]
    omega
  | @define ts fs ps bs word opening closing type name site parameters b written fun? kind opens
      listed closes nodup body =>
    obtain ⟨t, us, hts, first, rfl⟩ := written_eq_cons written
    refine ⟨t, us ++ (fs ++ word :: opening :: (ps ++ closing :: bs)), by rw [hts]; rfl, ?_⟩
    rw [statementAt_of_typeName (regular t (by simp [hts])) first]
    simp only [List.append_assoc, List.cons_append, List.length_append, List.length_cons]
      at enough within ⊢
    refine define_reads written fun? kind opens ?_
    refine function_reads complete kind opens listed closes nodup body
      (fun u mem => regular u (by simp [mem])) (fun u mem => regular u (by simp [mem])) ?_ ?_
    all_goals
      simp only [List.length_append, List.length_cons]
      omega
  | @reassign es now word equals semicolon name e kind isName isEquals phrase isSemicolon =>
    refine ⟨now, _, rfl, ?_⟩
    simp only [statementAt, plain (.head _) kind rfl, kind, Bool.false_eq_true, if_false,
      List.append_assoc, List.cons_append, List.nil_append, List.length_append, List.length_cons]
      at enough ⊢
    refine (advance_reads now _).bind ?_
    rw [reassignment_eq]
    refine binding_reads isName isEquals phrase isSemicolon
      (fun u mem => regular u (by simp [mem])) ?_
    simp only [List.length_append, List.length_cons]
    omega
  | @block ts b body =>
    have reads : Reads (block item bound) (ts ++ rest) b rest :=
      block_reads complete body rest regular enough within
    obtain ⟨opens, many, closes⟩ := body
    rename_i opening closing ts ss
    refine ⟨opening, _, rfl, ?_⟩
    simp only [statementAt, plain (.head _) opens rfl, opens, Bool.false_eq_true, if_false]
    exact reads.bind (.pure _ _)
  | @ret es word semicolon e kind phrase isSemicolon =>
    refine ⟨word, _, rfl, ?_⟩
    simp only [statementAt, plain (.head _) kind rfl, kind, Bool.false_eq_true, if_false,
      List.append_assoc, List.cons_append, List.nil_append, List.length_append, List.length_cons]
      at enough ⊢
    refine (advance_reads word _).bind (returned_reads word.site phrase isSemicolon
      (fun u mem => regular u (by simp [mem])) ?_)
    simp only [List.length_append, List.length_cons]
    omega
  | @retVoid word semicolon kind isSemicolon =>
    refine ⟨word, _, rfl, ?_⟩
    simp only [statementAt, plain (.head _) kind rfl, kind, Bool.false_eq_true, if_false]
    refine (advance_reads word _).bind ((peek_reads semicolon rest).bind ?_)
    rw [if_pos isSemicolon]
    exact (advance_reads semicolon rest).bind (.pure _ _)
  | @branch ts word chain kind links =>
    refine ⟨word, _, rfl, ?_⟩
    simp only [statementAt, plain (.head _) kind rfl, kind, Bool.false_eq_true, if_false]
    have chain_reads : Reads (conditional item bound word.site) (ts ++ rest) chain rest :=
      conditional_reads complete links follow (fun u mem => regular u (.tail _ mem))
        (Nat.le_of_succ_le_succ enough) (Nat.le_of_succ_le_succ within)
    exact (advance_reads word _).bind (chain_reads.bind (.pure _ _))
  | @loop cs bs word e b kind condition body =>
    refine ⟨word, _, rfl, ?_⟩
    simp only [statementAt, plain (.head _) kind rfl, kind, Bool.false_eq_true, if_false,
      List.cons_append, List.append_assoc, List.length_cons] at enough within ⊢
    refine (advance_reads word _).bind ?_
    exact condition_body_reads complete condition body (fun u mem => regular u (by simp [mem]))
      (fun u mem => regular u (by simp [mem])) (Nat.le_of_succ_le_succ enough)
      (Nat.le_of_succ_le_succ within) (.pure _ rest)
  | @count as cs ds bs word toWord stepWord start stop step b kind first isTo second isStep third
      body =>
    refine ⟨word, _, rfl, ?_⟩
    simp only [statementAt, plain (.head _) kind rfl, kind, Bool.false_eq_true, if_false,
      List.cons_append, List.append_assoc, List.length_cons] at enough within ⊢
    refine (advance_reads word _).bind ?_
    exact countedLoop_reads complete word.site first isTo second isStep third body
      (fun u mem => regular u (.tail _ mem)) (Nat.le_of_succ_le_succ enough)
      (Nat.le_of_succ_le_succ within)
  | @call es word opening closing semicolon name args kind opens listed closes isSemicolon =>
    refine ⟨word, _, rfl, ?_⟩
    simp only [statementAt, plain (.head _) kind rfl, kind, Bool.false_eq_true, if_false,
      List.append_assoc, List.cons_append, List.nil_append, List.length_append, List.length_cons]
      at enough ⊢
    refine callStatement_reads word.site opens listed closes isSemicolon
      (fun u mem => regular u (by simp [mem])) ?_
    simp only [List.length_append, List.length_cons]
    omega
  | @empty semicolon kind =>
    refine ⟨semicolon, [], rfl, ?_⟩
    simp only [statementAt, plain (.head _) kind rfl, kind, Bool.false_eq_true, if_false]
    exact (advance_reads semicolon rest).bind (.pure _ _)

/-- **Completeness of statements.** -/
theorem statement_complete (bound : Nat) :
    Complete (statement bound) Statement (Ahead StatementEnd) bound := by
  induction bound with
  | zero =>
    intro ts s rest _ phrase _ within
    obtain ⟨t, us, rfl, -⟩ := statement_start phrase
    simp at within
  | succ bound ih =>
    intro ts s rest regular phrase follow within
    obtain ⟨t, us, rfl, reads⟩ := statementAt_reads ih phrase follow regular within within
    exact (peek_reads t _).bind (reads.bind ((note_reads _ _).bind (.pure _ _)))

/-- **Completeness of programs.** -/
theorem program_reads {ts rest : List Token} {last : Token} {b : Block}
    (h : Program last ts b) (ended : last.kind = .endOfStream) (regular : ∀ t ∈ ts, t.Regular)
    {bound : Nat} (enough : (ts ++ last :: rest).length ≤ bound) :
    Reads (program bound) (ts ++ last :: rest) b (last :: rest) := by
  obtain ⟨many⟩ := h
  rename_i ss
  have ending : ∀ m, Reads (statements (statement bound) false (m + 1)) (last :: rest) []
      (last :: rest) := by
    intro m
    refine (peek_reads last rest).bind ?_
    rw [if_neg (by simp), if_pos ended]
    exact .pure _ _
  have body : Reads (statements (statement bound) false bound) (ts ++ last :: rest) ss
      (last :: rest) :=
    statements_reads (statement_complete bound) ending (by simp [ended, StatementEnd]) many regular
      enough enough
  cases ts with
  | nil => exact (peek_reads last rest).bind (body.bind (.pure _ _))
  | cons t ts => exact (peek_reads t _).bind (body.bind (.pure _ _))

end Parser

end Scriptlet
