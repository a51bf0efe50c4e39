import Scriptlet.Parser.Expr
import Scriptlet.Proofs.Grammar.Basic

/-!
# How infix operators group

Operands with infix operators between them can be put together to many trees.  Precedence
and the direction in which a level groups leave one of them.

## Main definitions

* `Grammar.Infix` — an infix operator with its token
* `Grammar.OperatorTree` — a tree of infix operators above operands
* `Grammar.OperatorTree.pieces` — its operands and operators from left to right
* `Grammar.OperatorTree.Grouped` — the tree is what precedence and direction ask for
* `Grammar.Factor` — operands, with expressions that are grouped in this way inside

## Main statements

* `Grammar.OperatorTree.Grouped.unique` — one tree for each sequence of pieces

## Design decisions

* A bracketed operation is an operand like any other, though its expression is that of an
  operation too.  So the trees are a type of their own, where the leaves are known.
* Which way an operator groups is read off its token.  Trees are determined by their pieces
  only if all operators of one level say the same.
-/

namespace Scriptlet

namespace Grammar

/-- Two cuts of one list are the same cut, or one is further right. -/
theorem cases_of_append_cons {α : Type} {l r l' r' : List α} {a a' : α}
    (h : l ++ a :: r = l' ++ a' :: r') :
    (l = l' ∧ a = a' ∧ r = r') ∨
    (∃ between, l' = l ++ a :: between ∧ r = between ++ a' :: r') ∨
    ∃ between, l = l' ++ a' :: between ∧ r' = between ++ a :: r := by
  rcases List.append_eq_append_iff.mp h with ⟨between, hl, hr⟩ | ⟨between, hl, hr⟩
  · cases between with
    | nil =>
      obtain ⟨rfl, rfl⟩ := List.cons.inj hr
      exact .inl ⟨by simpa using hl.symm, rfl, rfl⟩
    | cons b between =>
      obtain ⟨rfl, rfl⟩ := List.cons.inj hr
      exact .inr (.inl ⟨between, hl, rfl⟩)
  · cases between with
    | nil =>
      obtain ⟨rfl, rfl⟩ := List.cons.inj hr
      exact .inl ⟨by simpa using hl, rfl, rfl⟩
    | cons b between =>
      obtain ⟨rfl, rfl⟩ := List.cons.inj hr
      exact .inr (.inr ⟨between, hl, rfl⟩)

/-! ## Trees of operators -/

/-- **Infix operator** with the token that spells it. -/
structure Infix where
  /-- The token. -/
  token : Token
  /-- The operator. -/
  op : BinaryOp
  /-- The token spells the operator. -/
  spells : token.kind.binaryOp? = some op

namespace Infix

/-- How tightly an operator binds. -/
def precedence (o : Infix) : Nat := o.op.precedence

/-- Whether an operator groups to the right. -/
def toRight (o : Infix) : Bool := o.token.flags.rightToLeft

/-- What an operator on its left has to bind at least, to be taken first. -/
def leftLeast (o : Infix) : Nat := if o.toRight then o.precedence + 1 else o.precedence

/-- What an operator on its right has to bind at least, to be taken first. -/
def rightLeast (o : Infix) : Nat := if o.toRight then o.precedence else o.precedence + 1

theorem precedence_le_leftLeast (o : Infix) : o.precedence ≤ o.leftLeast := by
  unfold leftLeast
  split <;> omega

theorem precedence_le_rightLeast (o : Infix) : o.precedence ≤ o.rightLeast := by
  unfold rightLeast
  split <;> omega

theorem rightLeast_le (o : Infix) : o.rightLeast ≤ o.precedence + 1 := by
  unfold rightLeast
  split <;> omega

theorem leftLeast_le (o : Infix) : o.leftLeast ≤ o.precedence + 1 := by
  unfold leftLeast
  split <;> omega

/-- **Agreement.**  Operators of one level group in one direction. -/
def Agrees (o o' : Infix) : Prop := o.precedence = o'.precedence → o.toRight = o'.toRight

/-- Of two operators that agree, not both can take the other one first. -/
theorem Agrees.not_both {o o' : Infix} (h : o.Agrees o') (right : o.rightLeast ≤ o'.precedence)
    (left : o'.leftLeast ≤ o.precedence) : False := by
  have level : o.precedence = o'.precedence :=
    Nat.le_antisymm (Nat.le_trans o.precedence_le_rightLeast right)
      (Nat.le_trans o'.precedence_le_leftLeast left)
  unfold rightLeast at right
  unfold leftLeast at left
  rw [h level] at right
  cases direction : o'.toRight with
  | true =>
    rw [direction, if_pos rfl] at left
    omega
  | false =>
    rw [direction, if_neg Bool.false_ne_true] at right
    omega

end Infix

/-- **Tree of infix operators.**  A leaf is an operand, with the tokens that it is written
with. -/
inductive OperatorTree where
  /-- An operand. -/
  | operand (tokens : List Token) (e : Expr)
  /-- An operation. -/
  | operation (left : OperatorTree) (sign : Infix) (right : OperatorTree)

/-- **Piece** of a tree: an operand or an operator. -/
inductive OperatorTree.Piece where
  /-- An operand. -/
  | operand (tokens : List Token) (e : Expr)
  /-- An operator. -/
  | operator (sign : Infix)

/-- The tokens of a piece. -/
def OperatorTree.Piece.tokens : OperatorTree.Piece → List Token
  | .operand tokens _ => tokens
  | .operator sign => [sign.token]

namespace OperatorTree

/-- The expression that a tree stands for.  An operation has the site of its operator. -/
def expr : OperatorTree → Expr
  | operand _ e => e
  | operation left sign right => .binary sign.op left.expr right.expr sign.token.site

/-- The operands and operators of a tree from left to right. -/
def pieces : OperatorTree → List Piece
  | operand tokens e => [.operand tokens e]
  | operation left sign right => left.pieces ++ .operator sign :: right.pieces

/-- The tokens of a tree. -/
def tokens (t : OperatorTree) : List Token := t.pieces.flatMap Piece.tokens

/-- The operator at the root, if there is one, binds at least as tightly as `p`. -/
def Binds (p : Nat) : OperatorTree → Prop
  | operand .. => True
  | operation _ sign _ => p ≤ sign.precedence

/-- **Grouped tree.**  On a level that groups to the left, the operator at the root of a left
operand binds as tightly or tighter, and that of a right one binds tighter.  On a level that
groups to the right it is the other way round. -/
inductive Grouped : OperatorTree → Prop where
  /-- An operand. -/
  | leaf {tokens : List Token} {e : Expr} : Grouped (.operand tokens e)
  /-- An operation. -/
  | node {left right : OperatorTree} {sign : Infix} : left.Grouped → right.Grouped →
      left.Binds sign.leftLeast → right.Binds sign.rightLeast →
      Grouped (.operation left sign right)

theorem Binds.loosen {p q : Nat} {t : OperatorTree} (h : t.Binds q) (le : p ≤ q) : t.Binds p := by
  cases t with
  | operand => trivial
  | operation => exact Nat.le_trans le h

@[simp] theorem pieces_operand (ts : List Token) (e : Expr) :
    (operand ts e).pieces = [.operand ts e] := rfl

@[simp] theorem pieces_operation (left right : OperatorTree) (sign : Infix) :
    (operation left sign right).pieces = left.pieces ++ .operator sign :: right.pieces := rfl

@[simp] theorem tokens_operand (ts : List Token) (e : Expr) : (operand ts e).tokens = ts := by
  simp [tokens, Piece.tokens]

@[simp] theorem tokens_operation (left right : OperatorTree) (sign : Infix) :
    (operation left sign right).tokens = left.tokens ++ sign.token :: right.tokens := by
  simp [tokens, Piece.tokens]

theorem pieces_ne_nil (t : OperatorTree) : t.pieces ≠ [] := by
  cases t <;> simp

/-- An operation is no operand. -/
theorem pieces_operation_ne (left right : OperatorTree) (sign : Infix) (ts : List Token)
    (e : Expr) : (operation left sign right).pieces ≠ (operand ts e).pieces := by
  intro same
  have lengths := congrArg List.length same
  simp only [pieces_operand, pieces_operation, List.length_append, List.length_cons,
    List.length_nil] at lengths
  have := List.length_pos_iff.mpr left.pieces_ne_nil
  omega

/-- In a grouped tree no operator binds looser than the one at the root. -/
theorem Grouped.le_precedence {t : OperatorTree} (h : t.Grouped) {p : Nat} (root : t.Binds p)
    {sign : Infix} (mem : .operator sign ∈ t.pieces) : p ≤ sign.precedence := by
  induction h generalizing p with
  | leaf => simp at mem
  | @node left right o _ _ hleft hright ihl ihr =>
    have below : p ≤ o.precedence := root
    simp only [pieces_operation, List.mem_append, List.mem_cons, Piece.operator.injEq] at mem
    rcases mem with mem | rfl | mem
    · exact Nat.le_trans below (ihl (hleft.loosen o.precedence_le_leftLeast) mem)
    · exact below
    · exact Nat.le_trans below (ihr (hright.loosen o.precedence_le_rightLeast) mem)

/-- An operator in the right operand of a grouped tree is tight enough for that. -/
theorem Grouped.rightLeast_le {left right : OperatorTree} {o o' : Infix}
    (h : Grouped (.operation left o right)) (mem : .operator o' ∈ right.pieces) :
    o.rightLeast ≤ o'.precedence := by
  cases h with
  | node _ hright _ binds => exact hright.le_precedence binds mem

/-- An operator in the left operand of a grouped tree is tight enough for that. -/
theorem Grouped.leftLeast_le {left right : OperatorTree} {o o' : Infix}
    (h : Grouped (.operation left o right)) (mem : .operator o' ∈ left.pieces) :
    o.leftLeast ≤ o'.precedence := by
  cases h with
  | node hleft _ binds _ => exact hleft.le_precedence binds mem

/-- **One tree for each sequence of pieces**, if the operators of each level agree. -/
theorem Grouped.unique {t t' : OperatorTree} (h : t.Grouped) (h' : t'.Grouped)
    (agree : ∀ o o', .operator o ∈ t.pieces → .operator o' ∈ t.pieces → o.Agrees o')
    (same : t.pieces = t'.pieces) : t = t' := by
  induction t generalizing t' with
  | operand ts e =>
    cases t' with
    | operand ts' e' => simpa using same
    | operation left' o' right' => exact absurd same.symm (pieces_operation_ne left' right' o' ts e)
  | operation left o right ihl ihr =>
    cases t' with
    | operand ts' e' => exact absurd same (pieces_operation_ne left right o ts' e')
    | operation left' o' right' =>
      have here : .operator o ∈ (operation left o right).pieces := by simp
      have there : .operator o' ∈ (operation left o right).pieces := by
        rw [same]
        simp
      -- The roots are at one place, or each is inside of an operand of the other one.
      rcases cases_of_append_cons same with ⟨lefts, roots, rights⟩ | ⟨between, inside, beyond⟩ |
        ⟨between, inside, beyond⟩
      · cases roots
        cases h with
        | node hleft hright _ _ =>
          cases h' with
          | node hleft' hright' _ _ =>
            have inner : ∀ {part : OperatorTree},
                (∀ piece ∈ part.pieces, piece ∈ (operation left o right).pieces) →
                ∀ a b, .operator a ∈ part.pieces → .operator b ∈ part.pieces → a.Agrees b :=
              fun sub a b ha hb => agree a b (sub _ ha) (sub _ hb)
            rw [ihl hleft hleft' (inner fun _ mem => by simp [mem]) lefts,
              ihr hright hright' (inner fun _ mem => by simp [mem]) rights]
      · have right : o.rightLeast ≤ o'.precedence := h.rightLeast_le (by simp [beyond])
        have left : o'.leftLeast ≤ o.precedence := h'.leftLeast_le (by simp [inside])
        exact ((agree o o' here there).not_both right left).elim
      · have right : o'.rightLeast ≤ o.precedence := h'.rightLeast_le (by simp [beyond])
        have left : o.leftLeast ≤ o'.precedence := h.leftLeast_le (by simp [inside])
        exact ((agree o' o there here).not_both right left).elim

end OperatorTree

/-! ## Grouped expressions -/

/-- **Operand** above the phrases `Inner`, which stand in brackets, in array literals and as
arguments. -/
inductive OperandOf (Inner : List Token → Expr → Prop) : List Token → Expr → Prop where
  /-- A constant. -/
  | literal {t : Token} {value : Literal} :
      t.kind = .literal value → OperandOf Inner [t] (.literal value t.site)
  /-- A variable. -/
  | var {t : Token} {name : String} :
      t.kind = .identifier name → OperandOf Inner [t] (.var name t.site)
  /-- A prefix operation. -/
  | unary {t : Token} {ts : List Token} {e : Expr} {sign : Sign} {op : UnaryOp} :
      t.kind = .operator sign → (sign, op) ∈ prefixes → OperandOf Inner ts e →
      OperandOf Inner (t :: ts) (.unary op e t.site)
  /-- A phrase in brackets. -/
  | group {opening closing : Token} {ts : List Token} {e : Expr} :
      opening.kind = .mark .leftParen → Inner ts e → closing.kind = .mark .rightParen →
      OperandOf Inner (opening :: (ts ++ [closing])) e
  /-- An array literal. -/
  | array {opening closing : Token} {ts : List Token} {es : List Expr} :
      opening.kind = .mark .leftBracket → Listed Inner ts es →
      closing.kind = .mark .rightBracket →
      OperandOf Inner (opening :: (ts ++ [closing])) (.array es opening.site)
  /-- A call. -/
  | call {word opening closing : Token} {ts : List Token} {name : String} {es : List Expr} :
      word.kind = .identifier name → opening.kind = .mark .leftParen → Listed Inner ts es →
      closing.kind = .mark .rightParen →
      OperandOf Inner (word :: opening :: (ts ++ [closing])) (.call name es word.site)

/-- The operands of the grammar have expressions inside. -/
theorem OperandOf.operand {ts : List Token} {e : Expr} (h : OperandOf Expression ts e) :
    Operand ts e := by
  induction h with
  | literal kind => exact .literal kind
  | var kind => exact .var kind
  | unary kind mem _ ih => exact .unary kind mem ih
  | group opens inner closes => exact .group opens inner closes
  | array opens listed closes => exact .array opens listed closes
  | call kind opens listed closes => exact .call kind opens listed closes

/-- **Grouped expression** above the phrases `Item`, with operators that bind `least` or
tighter. -/
inductive GroupedOf (Item : List Token → Expr → Prop) (least : Nat) :
    List Token → Expr → Prop where
  /-- The only form. -/
  | intro {t : OperatorTree} : t.Grouped → t.Binds least →
      (∀ ts e, .operand ts e ∈ t.pieces → Item ts e) → GroupedOf Item least t.tokens t.expr

namespace GroupedOf

variable {Item : List Token → Expr → Prop}

/-- An item can stand wherever a grouped expression can. -/
theorem item {ts : List Token} {e : Expr} (least : Nat) (h : Item ts e) :
    GroupedOf Item least ts e := by
  have tree : GroupedOf Item least (OperatorTree.operand ts e).tokens
      (OperatorTree.operand ts e).expr := by
    refine .intro .leaf trivial fun us e' mem => ?_
    simp only [OperatorTree.pieces_operand, List.mem_singleton,
      OperatorTree.Piece.operand.injEq] at mem
    obtain ⟨rfl, rfl⟩ := mem
    exact h
  rwa [OperatorTree.tokens_operand] at tree

theorem loosen {p q : Nat} {ts : List Token} {e : Expr} (h : GroupedOf Item q ts e) (le : p ≤ q) :
    GroupedOf Item p ts e := by
  obtain ⟨grouped, binds, items⟩ := h
  exact .intro grouped (binds.loosen le) items

/-- Two grouped expressions on the sides of an operator, if each is tight enough for its
side. -/
theorem operation {o : Infix} {ls rs : List Token} {l r : Expr}
    (hl : GroupedOf Item o.leftLeast ls l) (hr : GroupedOf Item o.rightLeast rs r) :
    GroupedOf Item o.precedence (ls ++ o.token :: rs) (.binary o.op l r o.token.site) := by
  obtain @⟨left, grouped, binds, items⟩ := hl
  obtain @⟨right, grouped', binds', items'⟩ := hr
  have tree : GroupedOf Item o.precedence (left.operation o right).tokens
      (left.operation o right).expr := by
    refine .intro (.node grouped grouped' binds binds') (Nat.le_refl _) fun us e mem => ?_
    simp only [OperatorTree.pieces_operation, List.mem_append, List.mem_cons, reduceCtorEq,
      false_or] at mem
    exact mem.elim (items us e) (items' us e)
  rwa [OperatorTree.tokens_operation] at tree

end GroupedOf

/-- **Factor**: an operand whose inner expressions are grouped, whatever the flags of the
tokens say. -/
inductive Factor : List Token → Expr → Prop where
  /-- The only form. -/
  | intro {ts : List Token} {e : Expr} : OperandOf (GroupedOf Factor 0) ts e → Factor ts e

end Grammar

end Scriptlet
