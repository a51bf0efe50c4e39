import Mathlib.Computability.Language
import Mathlib.Data.Fintype.EquivFin
import Mathlib.Order.CompletePartialOrder
import Scriptlet.Proofs.Parser.Alike

/-!
# The words of a phrase

The kinds of the tokens of a phrase, with all names taken to be one name, are a word.  The words
of the phrases of one kind are a language, and the productions of the grammar are inequalities
between such languages.

## Main definitions

* `Grammar.shape` — the word of a token list
* `Grammar.Spells` — a list of plain tokens for a word
* `Grammar.words` — the words of a kind of phrase
* `Grammar.single` — one token
* `Grammar.tails` — infix operators, each with an operand behind it

## Main statements

* `Grammar.expression_words` — operators and operands behind an operand are an expression
* `Grammar.listed_rename` — parameters whose names do not count can be given different ones

## Design decisions

* A word has no names, so that parameters with one name are no obstacle: they can be renamed.
* There is one inequality for each form of a phrase, with the parts grouped to the right, as a
  parser meets them.
-/

namespace Scriptlet

open scoped Computability

namespace Grammar

variable {α : Type}

/-! ## Words -/

/-- **Shape** of a token list: the kinds of its tokens, where a name is any name. -/
def shape (ts : List Token) : List TokenKind := ts.map fun t => t.kind.unnamed

@[simp] theorem shape_nil : shape [] = [] := rfl

@[simp] theorem shape_cons (t : Token) (ts : List Token) :
    shape (t :: ts) = t.kind.unnamed :: shape ts := rfl

@[simp] theorem shape_append (ts us : List Token) : shape (ts ++ us) = shape ts ++ shape us :=
  List.map_append

@[simp] theorem length_shape (ts : List Token) : (shape ts).length = ts.length := List.length_map _

/-- **Spelling.**  Tokens without text and place that have the given shape. -/
structure Spells (ts : List Token) (w : List TokenKind) : Prop where
  shape : shape ts = w
  plain : ∀ t ∈ ts, t = .unplaced t.kind

namespace Spells

variable {ts us : List Token} {v w : List TokenKind}

theorem nil : Spells [] [] := ⟨rfl, by simp⟩

theorem cons (kind : TokenKind) (h : Spells ts w) :
    Spells (.unplaced kind :: ts) ([kind.unnamed] ++ w) :=
  ⟨congrArg _ h.shape, List.forall_mem_cons.mpr ⟨rfl, h.plain⟩⟩

theorem one (kind : TokenKind) : Spells [.unplaced kind] [kind.unnamed] := .cons kind .nil

theorem append (h : Spells ts v) (h' : Spells us w) : Spells (ts ++ us) (v ++ w) :=
  ⟨by rw [shape_append, h.shape, h'.shape], List.forall_mem_append.mpr ⟨h.plain, h'.plain⟩⟩

/-- Such tokens are regular. -/
theorem regular (h : Spells ts w) : ∀ t ∈ ts, t.Regular := by
  intro t mem
  rw [h.plain t mem]
  rfl

end Spells

/-- **Words** of the phrases `Item`. -/
def words (Item : List Token → α → Prop) : Language TokenKind :=
  {w | ∃ ts a, Spells ts w ∧ Item ts a}

/-- One token of the given kind. -/
def single (kind : TokenKind) : Language TokenKind := {[kind.unnamed]}

/-! ## Lists -/

section Lists

variable {Item : List Token → α → Prop}

theorem nil_mem_many : [] ∈ words (Many Item) := ⟨[], [], .nil, .nil⟩

theorem one_le_many : 1 ≤ words (Many Item) := by
  rintro _ rfl
  exact nil_mem_many

theorem many_words : words Item * words (Many Item) ≤ words (Many Item) := by
  rintro _ ⟨v, ⟨ts, x, spells, first⟩, w, ⟨us, xs, spells', others⟩, rfl⟩
  exact ⟨ts ++ us, x :: xs, spells.append spells', .cons first others⟩

theorem one_words : words Item ≤ words (Separated Item) := by
  rintro w ⟨ts, x, spells, phrase⟩
  exact ⟨ts, [x], spells, .one phrase⟩

theorem more_words :
    words Item * (single (.mark .comma) * words (Separated Item)) ≤ words (Separated Item) := by
  rintro _ ⟨v, ⟨ts, x, spells, first⟩, _, ⟨_, rfl, w, ⟨us, xs, spells', others⟩, rfl⟩, rfl⟩
  exact ⟨_, _, spells.append (.cons (.mark .comma) spells'), .more first rfl others⟩

theorem nil_mem_listed : [] ∈ words (Listed Item) := ⟨[], [], .nil, .none⟩

theorem one_le_listed : 1 ≤ words (Listed Item) := by
  rintro _ rfl
  exact nil_mem_listed

theorem listed_words : words (Separated Item) ≤ words (Listed Item) := by
  rintro w ⟨ts, xs, spells, phrases⟩
  exact ⟨ts, xs, spells, .some phrases⟩

end Lists

/-! ## Types and parameters -/

/-- Types as they are written, wherever that is. -/
abbrev TypeAt (ts : List Token) (r : DeclaredType × Site) : Prop := Written ts r.1 r.2

theorem plain_words (base : BaseType) : single (.typeName base) ≤ words TypeAt := by
  rintro _ rfl
  exact ⟨_, (_, _), .one (.typeName base), .plain rfl⟩

theorem array_words (base : BaseType) :
    single (.typeName base) * (single (.mark .leftBracket) * single (.mark .rightBracket)) ≤
      words TypeAt := by
  rintro _ ⟨_, rfl, _, ⟨_, rfl, _, rfl, rfl⟩, rfl⟩
  have brackets := (Spells.one (.mark .rightBracket)).cons (.mark .leftBracket)
  exact ⟨_, (_, _), brackets.cons (.typeName base), .array rfl rfl rfl⟩

/-- No type is written without a token. -/
theorem length_pos_of_typeAt {w : List TokenKind} (h : w ∈ words TypeAt) : 0 < w.length := by
  obtain ⟨ts, r, spells, written⟩ := h
  obtain ⟨t, us, rfl, -⟩ := Parser.written_eq_cons written
  rw [← spells.shape, length_shape]
  exact Nat.succ_pos _

theorem parameter_words (name : String) :
    words TypeAt * single (.identifier name) ≤ words Parameterized := by
  rintro _ ⟨v, ⟨ts, r, spells, written⟩, _, rfl, rfl⟩
  exact ⟨_, _, spells.append (.one (.identifier name)), .intro written rfl⟩

/-- **Renaming** of a parameter. -/
theorem Parameterized.rename {ts : List Token} {w : List TokenKind} {p : Parameter}
    (h : Parameterized ts p) (spells : Spells ts w) (name : String) :
    ∃ us q, Spells us w ∧ Parameterized us q ∧ q.name = name := by
  obtain ⟨written, kind⟩ := h
  rename_i ts word type old site
  refine ⟨ts ++ [.unplaced (.identifier name)], _, ⟨?_, ?_⟩, .intro written rfl, rfl⟩
  · rw [← spells.shape, shape_append, shape_append, shape_cons, shape_cons, kind]
    rfl
  · have plain := (List.forall_mem_append.mp spells.plain).1
    exact List.forall_mem_append.mpr ⟨plain, by simp [Token.unplaced, Token.ofKind]⟩

/-- Parameters can be given names that differ from each other and from the given ones. -/
theorem separated_rename {ts : List Token} {w : List TokenKind} {ps : List Parameter}
    (h : Separated Parameterized ts ps) (spells : Spells ts w) (seen : Finset String) :
    ∃ us qs, Spells us w ∧ Separated Parameterized us qs ∧
      (qs.map Parameter.name).Nodup ∧ ∀ q ∈ qs, q.name ∉ seen := by
  induction h generalizing w seen with
  | one first =>
    obtain ⟨name, fresh⟩ := Infinite.exists_notMem_finset seen
    obtain ⟨us, q, spells', renamed, rfl⟩ := first.rename spells name
    exact ⟨us, [q], spells', .one renamed, by simp, by simpa using fresh⟩
  | @more ts us comma x xs first isComma _ ih =>
    obtain ⟨name, fresh⟩ := Infinite.exists_notMem_finset seen
    have front : Spells ts (shape ts) := ⟨rfl, fun t mem => spells.plain t (by simp [mem])⟩
    have back : Spells us (shape us) := ⟨rfl, fun t mem => spells.plain t (by simp [mem])⟩
    obtain ⟨ts', q, spells₁, renamed, rfl⟩ := first.rename front name
    obtain ⟨us', qs, spells₂, renamed', nodup, unseen⟩ := ih back (insert q.name seen)
    refine ⟨ts' ++ .unplaced (.mark .comma) :: us', q :: qs, ?_, .more renamed rfl renamed', ?_, ?_⟩
    · rw [← spells.shape, shape_append, shape_cons, isComma]
      exact spells₁.append (spells₂.cons (.mark .comma))
    · rw [List.map_cons, List.nodup_cons]
      refine ⟨fun mem => ?_, nodup⟩
      obtain ⟨q', mem', same⟩ := List.mem_map.mp mem
      exact unseen q' mem' (same ▸ Finset.mem_insert_self _ _)
    · refine List.forall_mem_cons.mpr ⟨fresh, fun q' mem' mem => ?_⟩
      exact unseen q' mem' (Finset.mem_insert_of_mem mem)

/-- **Parameters can be given different names.** -/
theorem listed_rename {w : List TokenKind} (h : w ∈ words (Listed Parameterized)) :
    ∃ ts ps, Spells ts w ∧ Listed Parameterized ts ps ∧ (ps.map Parameter.name).Nodup := by
  obtain ⟨ts, ps, spells, phrases⟩ := h
  cases phrases with
  | none => exact ⟨[], [], spells, .none, List.nodup_nil⟩
  | some phrases =>
    obtain ⟨us, qs, spells', renamed, nodup, -⟩ := separated_rename phrases spells ∅
    exact ⟨us, qs, spells', .some renamed, nodup⟩

/-! ## Expressions -/

section Expressions

/-- A token that is an infix operator. -/
def operators : Language TokenKind := {w | ∃ kind op, kind.binaryOp? = some op ∧ w = [kind]}

/-- **Tails**: infix operators, each with an operand behind it. -/
def tails : Language TokenKind := (operators * words Operand)∗

theorem nil_mem_tails : [] ∈ tails := Language.nil_mem_kstar _

/-- **One operation more.**  An operator and its operand behind a phrase of any layer are a phrase
of that layer, or of the operator's own one if that is looser. -/
theorem Layer.extend {Item : List Token → Expr → Prop} {p : Nat} {ts us : List Token} {e x : Expr}
    {t : Token} {op : BinaryOp} (h : Layer Item p ts e) (spells : t.kind.binaryOp? = some op)
    (item : Item us x) : ∃ e', Layer Item (min p op.precedence) (ts ++ t :: us) e' := by
  obtain ⟨sign, kind, isOp⟩ := operator_of_binaryOp? spells
  obtain ⟨layer, hlayer, mem⟩ := mem_layer_of_binaryOp? isOp
  have below : op.precedence < layers.length := precedence_lt op
  -- What stands before it is its left operand, if it is of no looser layer.
  have outside {q : Nat} {ls : List Token} {l : Expr} (le : op.precedence ≤ q)
      (left : Layer Item q ls l) : ∃ e', Layer Item op.precedence (ls ++ t :: us) e' :=
    ⟨_, .operation (left.loosen le) kind hlayer mem ((Layer.operand item).loosen below)⟩
  induction h with
  | operand phrase =>
    rw [Nat.min_eq_right (Nat.le_of_lt below)]
    exact outside (Nat.le_of_lt below) (.operand phrase)
  | @tighter p _ _ _ ih =>
    obtain ⟨e', longer⟩ := ih
    exact ⟨e', longer.loosen (by omega)⟩
  | @operation p ls rs t' l r sign' op' layer' left kind' hlayer' mem' right _ ih =>
    by_cases le : op.precedence ≤ p
    · rw [Nat.min_eq_right le]
      exact outside le (.operation left kind' hlayer' mem' right)
    · -- Otherwise it goes into the right operand of the operation.
      obtain ⟨e', longer⟩ := ih
      rw [Nat.min_eq_left (by omega)] at longer
      rw [Nat.min_eq_left (by omega), List.append_assoc]
      exact ⟨_, .operation left kind' hlayer' mem' longer⟩

theorem operand_words : words Operand ≤ words Expression := by
  rintro w ⟨ts, e, spells, phrase⟩
  exact ⟨ts, e, spells, (Layer.operand phrase).loosen (Nat.zero_le _)⟩

theorem operation_words : words Expression * (operators * words Operand) ≤ words Expression := by
  rintro _ ⟨v, ⟨ts, e, spells, phrase⟩, _,
    ⟨_, ⟨kind, op, isOp, rfl⟩, w, ⟨us, x, spells', item⟩, rfl⟩, rfl⟩
  obtain ⟨sign, rfl, -⟩ := operator_of_binaryOp? isOp
  obtain ⟨e', longer⟩ := phrase.extend (t := .unplaced (.operator sign)) isOp item
  rw [Nat.zero_min] at longer
  exact ⟨_, e', spells.append (spells'.cons (.operator sign)), longer⟩

/-- **Operators and operands behind an operand** are an expression. -/
theorem expression_words : words Operand * tails ≤ words Expression :=
  mul_kstar_le operand_words operation_words

theorem tails_mul_tails : tails * tails = tails := kstar_mul_kstar _

theorem operation_tails {kind : TokenKind} {op : BinaryOp} (isOp : kind.binaryOp? = some op) :
    single kind * (words Operand * (tails * tails)) ≤ tails := by
  have one : single kind ≤ operators := by
    rintro _ rfl
    obtain ⟨sign, rfl, -⟩ := operator_of_binaryOp? isOp
    exact ⟨_, op, isOp, rfl⟩
  rw [tails_mul_tails, ← mul_assoc]
  exact (mul_le_mul_left (mul_le_mul_left one _) _).trans mul_kstar_le_kstar

theorem literal_words (value : Literal) : single (.literal value) ≤ words Operand := by
  rintro _ rfl
  exact ⟨_, _, .one (.literal value), .literal rfl⟩

theorem var_words (name : String) : single (.identifier name) ≤ words Operand := by
  rintro _ rfl
  exact ⟨_, _, .one (.identifier name), .var rfl⟩

theorem unary_words {kind : TokenKind} {op : UnaryOp} (prefixed : kind.unaryOp? = some op) :
    single kind * words Operand ≤ words Operand := by
  obtain ⟨sign, rfl, mem⟩ := unaryOp?_eq_some_iff.mp prefixed
  rintro _ ⟨_, rfl, w, ⟨ts, e, spells, operand⟩, rfl⟩
  exact ⟨_, _, spells.cons (.operator sign), .unary rfl mem operand⟩

theorem group_words :
    single (.mark .leftParen) * (words Expression * single (.mark .rightParen)) ≤
      words Operand := by
  rintro _ ⟨_, rfl, _, ⟨w, ⟨ts, e, spells, phrase⟩, _, rfl, rfl⟩, rfl⟩
  exact ⟨_, _, (spells.append (.one (.mark .rightParen))).cons (.mark .leftParen),
    .group rfl phrase rfl⟩

theorem arrayLiteral_words :
    single (.mark .leftBracket) * (words (Listed Expression) * single (.mark .rightBracket)) ≤
      words Operand := by
  rintro _ ⟨_, rfl, _, ⟨w, ⟨ts, es, spells, phrases⟩, _, rfl, rfl⟩, rfl⟩
  exact ⟨_, _, (spells.append (.one (.mark .rightBracket))).cons (.mark .leftBracket),
    .array rfl phrases rfl⟩

theorem call_words (name : String) :
    single (.identifier name) * (single (.mark .leftParen) *
      (words (Listed Expression) * single (.mark .rightParen))) ≤ words Operand := by
  rintro _ ⟨_, rfl, _, ⟨_, rfl, _, ⟨w, ⟨ts, es, spells, phrases⟩, _, rfl, rfl⟩, rfl⟩, rfl⟩
  exact ⟨_, _, ((spells.append (.one (.mark .rightParen))).cons (.mark .leftParen)).cons
    (.identifier name), .call rfl rfl phrases rfl⟩

end Expressions

/-! ## Statements -/

section Statements

variable {Item : List Token → Stmt → Prop}

/-- Chains of tokens without place. -/
abbrev ChainAt (Item : List Token → Stmt → Prop) : List Token → Conditional → Prop :=
  ChainOf Item .unknown

/-- What closes statements: a brace, if one has opened them. -/
def closed (braced : Bool) : Language TokenKind :=
  if braced then single (.mark .rightBrace) else 1

theorem closed_false : closed false = 1 := rfl

theorem block_words :
    single (.mark .leftBrace) * (words (Many Item) * single (.mark .rightBrace)) ≤
      words (BlockOf Item) := by
  rintro _ ⟨_, rfl, _, ⟨w, ⟨ts, ss, spells, phrases⟩, _, rfl, rfl⟩, rfl⟩
  exact ⟨_, _, (spells.append (.one (.mark .rightBrace))).cons (.mark .leftBrace),
    .braces rfl phrases rfl⟩

theorem done_words : words Expression * words (BlockOf Item) ≤ words (ChainAt Item) := by
  rintro _ ⟨v, ⟨cs, e, spells, condition⟩, w, ⟨bs, b, spells', body⟩, rfl⟩
  exact ⟨_, _, spells.append spells', .done condition body⟩

theorem elif_words :
    words Expression * (words (BlockOf Item) * (single (.keyword .elifWord) * words (ChainAt Item)))
      ≤ words (ChainAt Item) := by
  rintro _ ⟨v, ⟨cs, e, spells, condition⟩, _, ⟨w, ⟨bs, b, spells', body⟩, _, ⟨_, rfl, u,
    ⟨ts, link, spells'', chain⟩, rfl⟩, rfl⟩, rfl⟩
  exact ⟨_, _, spells.append (spells'.append (spells''.cons (.keyword .elifWord))),
    .elif condition body rfl chain⟩

theorem else_words :
    words Expression * (words (BlockOf Item) * (single (.keyword .elseWord) * words (BlockOf Item)))
      ≤ words (ChainAt Item) := by
  rintro _ ⟨v, ⟨cs, e, spells, condition⟩, _, ⟨w, ⟨bs, b, spells', body⟩, _, ⟨_, rfl, u,
    ⟨ts, b', spells'', body'⟩, rfl⟩, rfl⟩, rfl⟩
  exact ⟨_, _, spells.append (spells'.append (spells''.cons (.keyword .elseWord))),
    .last condition body rfl body'⟩

end Statements

/-- What a variable declaration and a reassignment have from the name on. -/
def bindingPart : Language TokenKind :=
  single (.identifier "") * (single (.mark .equals) *
    (words Expression * single (.mark .semicolon)))

/-- What a function definition has from the name on. -/
def definitionPart : Language TokenKind :=
  single (.identifier "") * (single (.mark .leftParen) *
    (words (Listed Parameterized) * (single (.mark .rightParen) * words (BlockOf Statement))))

theorem exists_of_mem_bindingPart {w : List TokenKind} (h : w ∈ bindingPart) :
    ∃ es e, Expression es e ∧ Spells (.unplaced (.identifier "") :: .unplaced (.mark .equals) ::
      (es ++ [.unplaced (.mark .semicolon)])) w := by
  obtain ⟨_, rfl, _, ⟨_, rfl, _, ⟨v, ⟨es, e, spells, phrase⟩, _, rfl, rfl⟩, rfl⟩, rfl⟩ := h
  have ended := spells.append (.one (.mark .semicolon))
  exact ⟨es, e, phrase, (ended.cons (.mark .equals)).cons (.identifier "")⟩

/-- The parameters get different names. -/
theorem exists_of_mem_definitionPart {w : List TokenKind} (h : w ∈ definitionPart) :
    ∃ ps parameters bs b, Listed Parameterized ps parameters ∧
      (parameters.map Parameter.name).Nodup ∧ BlockOf Statement bs b ∧
      Spells (.unplaced (.identifier "") :: .unplaced (.mark .leftParen) ::
        (ps ++ .unplaced (.mark .rightParen) :: bs)) w := by
  obtain ⟨_, rfl, _, ⟨_, rfl, _, ⟨v, listed, _, ⟨_, rfl, u, ⟨bs, b, spells', body⟩, rfl⟩, rfl⟩,
    rfl⟩, rfl⟩ := h
  obtain ⟨ps, parameters, spells, listed, nodup⟩ := listed_rename listed
  have behind := spells.append (spells'.cons (.mark .rightParen))
  exact ⟨ps, parameters, bs, b, listed, nodup, body,
    (behind.cons (.mark .leftParen)).cons (.identifier "")⟩

theorem declare_words : words TypeAt * bindingPart ≤ words Statement := by
  rintro _ ⟨v, ⟨ts, r, spells, written⟩, w, mem, rfl⟩
  obtain ⟨es, e, phrase, spells'⟩ := exists_of_mem_bindingPart mem
  exact ⟨_, _, spells.append spells', .declare written rfl rfl phrase rfl⟩

theorem reassign_words : single (.keyword .now) * bindingPart ≤ words Statement := by
  rintro _ ⟨_, rfl, w, mem, rfl⟩
  obtain ⟨es, e, phrase, spells⟩ := exists_of_mem_bindingPart mem
  exact ⟨_, _, spells.cons (.keyword .now), .reassign rfl rfl rfl phrase rfl⟩

/-- **Function definitions.** -/
theorem define_words : words TypeAt * definitionPart ≤ words Statement := by
  rintro _ ⟨v, ⟨ts, r, spells, written⟩, w, mem, rfl⟩
  obtain ⟨ps, parameters, bs, b, listed, nodup, body, spells'⟩ := exists_of_mem_definitionPart mem
  exact ⟨_, _, spells.append spells', .define written (.inl rfl) rfl rfl listed rfl nodup body⟩

theorem defineFun_words :
    words TypeAt * (single (.keyword .function) * definitionPart) ≤ words Statement := by
  rintro _ ⟨v, ⟨ts, r, spells, written⟩, _, ⟨_, rfl, w, mem, rfl⟩, rfl⟩
  obtain ⟨ps, parameters, bs, b, listed, nodup, body, spells'⟩ := exists_of_mem_definitionPart mem
  exact ⟨_, _, spells.append (spells'.cons (.keyword .function)),
    .define written (.inr ⟨_, rfl, rfl⟩) rfl rfl listed rfl nodup body⟩

/-- What a declaration has behind its type. -/
def declarationPart : Language TokenKind :=
  single (.keyword .function) * definitionPart + definitionPart + bindingPart

/-- **Declarations** of functions and of variables. -/
theorem declaration_words : words TypeAt * declarationPart ≤ words Statement := by
  rw [declarationPart, mul_add, mul_add]
  exact add_le (add_le defineFun_words define_words) declare_words

theorem blockStatement_words : words (BlockOf Statement) ≤ words Statement := by
  rintro w ⟨ts, b, spells, body⟩
  exact ⟨ts, _, spells, .block body⟩

theorem ret_words :
    single (.keyword .returnWord) * (words Expression * single (.mark .semicolon)) ≤
      words Statement := by
  rintro _ ⟨_, rfl, _, ⟨w, ⟨ts, e, spells, phrase⟩, _, rfl, rfl⟩, rfl⟩
  exact ⟨_, _, (spells.append (.one (.mark .semicolon))).cons (.keyword .returnWord),
    .ret rfl phrase rfl⟩

theorem retVoid_words :
    single (.keyword .returnWord) * single (.mark .semicolon) ≤ words Statement := by
  rintro _ ⟨_, rfl, _, rfl, rfl⟩
  exact ⟨_, _, .cons (.keyword .returnWord) (.one (.mark .semicolon)), .retVoid rfl rfl⟩

theorem branch_words :
    single (.keyword .ifWord) * words (ChainAt Statement) ≤ words Statement := by
  rintro _ ⟨_, rfl, w, ⟨ts, chain, spells, phrase⟩, rfl⟩
  exact ⟨_, _, spells.cons (.keyword .ifWord), .branch rfl phrase⟩

theorem loop_words :
    single (.keyword .whileWord) * (words Expression * words (BlockOf Statement)) ≤
      words Statement := by
  rintro _ ⟨_, rfl, _, ⟨v, ⟨cs, e, spells, condition⟩, w, ⟨bs, b, spells', body⟩, rfl⟩, rfl⟩
  exact ⟨_, _, (spells.append spells').cons (.keyword .whileWord), .loop rfl condition body⟩

theorem count_words :
    single (.keyword .fromWord) * (words Expression * (single (.keyword .toWord) *
      (words Expression * (single (.keyword .stepWord) *
        (words Expression * words (BlockOf Statement)))))) ≤ words Statement := by
  rintro _ ⟨_, rfl, _, ⟨u, ⟨as, e, spells₁, start⟩, _, ⟨_, rfl, _, ⟨v, ⟨cs, e', spells₂, stop⟩,
    _, ⟨_, rfl, _, ⟨w, ⟨ds, e'', spells₃, step⟩, x, ⟨bs, b, spells₄, body⟩, rfl⟩, rfl⟩, rfl⟩, rfl⟩,
    rfl⟩, rfl⟩
  have behindStep := (spells₃.append spells₄).cons (.keyword .stepWord)
  have behindTo := (spells₂.append behindStep).cons (.keyword .toWord)
  exact ⟨_, _, (spells₁.append behindTo).cons (.keyword .fromWord),
    .count rfl start rfl stop rfl step body⟩

theorem callStatement_words (name : String) :
    single (.identifier name) * (single (.mark .leftParen) * (words (Listed Expression) *
      (single (.mark .rightParen) * single (.mark .semicolon)))) ≤ words Statement := by
  rintro _ ⟨_, rfl, _, ⟨_, rfl, _, ⟨w, ⟨ts, es, spells, phrases⟩, _, ⟨_, rfl, _, rfl, rfl⟩, rfl⟩,
    rfl⟩, rfl⟩
  have ended := spells.append ((Spells.one (.mark .semicolon)).cons (.mark .rightParen))
  exact ⟨_, _, (ended.cons (.mark .leftParen)).cons (.identifier name),
    .call rfl rfl phrases rfl rfl⟩

theorem empty_words : single (.mark .semicolon) ≤ words Statement := by
  rintro _ rfl
  exact ⟨_, _, .one (.mark .semicolon), .empty rfl⟩

/-- No statement is empty. -/
theorem length_pos_of_statement {w : List TokenKind} (h : w ∈ words Statement) : 0 < w.length := by
  obtain ⟨ts, s, spells, phrase⟩ := h
  obtain ⟨t, us, rfl, -⟩ := Parser.statement_start phrase
  rw [← spells.shape, length_shape]
  exact Nat.succ_pos _

end Grammar

end Scriptlet
