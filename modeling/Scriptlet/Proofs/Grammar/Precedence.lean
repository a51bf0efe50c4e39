import Scriptlet.Proofs.Append.Scan
import Scriptlet.Proofs.Grammar.Program

/-!
# Precedence and direction decide the tree

An expression is read to the one tree of its operands and operators that is grouped by
precedence and direction, and it goes on as far as it can.

## Main statements

* `Parser.binary_grouped` — what is read is grouped, inside of brackets as well
* `Parser.binary_unique_tree` — no other tree of the same pieces is grouped

## Design decisions

* Nothing is asked of the tokens but that the operators of each level agree on their
  direction.  The direction of a level is then a function of the level.
-/

namespace Scriptlet

open Grammar

/-- An operator of a tree is one of its tokens. -/
theorem Grammar.OperatorTree.token_mem {t : OperatorTree} {o : Infix}
    (h : .operator o ∈ t.pieces) : o.token ∈ t.tokens :=
  List.mem_flatMap.mpr ⟨.operator o, h, List.mem_singleton_self _⟩

/-- Operators that agree have a direction for each level. -/
theorem Grammar.exists_direction {ts : List Token}
    (agree : ∀ o o' : Infix, o.token ∈ ts → o'.token ∈ ts → o.Agrees o') :
    ∃ direction : Nat → Bool, ∀ o : Infix, o.token ∈ ts → o.toRight = direction o.precedence := by
  classical
  refine ⟨fun p => decide (∃ o : Infix, o.token ∈ ts ∧ o.precedence = p ∧ o.toRight = true),
    fun o mem => ?_⟩
  cases toRight : o.toRight with
  | true => exact (decide_eq_true ⟨o, mem, rfl, toRight⟩).symm
  | false =>
    refine (decide_eq_false ?_).symm
    rintro ⟨o', mem', level, toRight'⟩
    rw [← agree o' o mem' mem level, toRight'] at toRight
    cases toRight

/-- The tokens of a text group to the left. -/
theorem toRight_eq_false_of_tokenize {source file : String} {ts : List Token}
    (h : tokenize source file = .ok ts) {o : Infix} (mem : o.token ∈ ts) : o.toRight = false :=
  Parser.rightToLeft_eq_false ((regular_and_ended h).1 _ mem) o.spells

namespace Parser

/-- **What is read is grouped**, down to the expressions inside of factors. -/
theorem binary_grouped {Good : Token → Prop} {direction : Nat → Bool}
    (levels : ∀ o : Infix, Good o.token → o.toRight = direction o.precedence)
    {bound least : Nat} {c c' : Cursor} {e : Expr} (good : ∀ t ∈ c.tokens, Good t)
    (enough : c.tokens.length ≤ bound) (h : binary bound least c = .ok e c') :
    ∃ used, c.tokens = used ++ c'.tokens ∧ GroupedOf Factor least used e ∧
      Stops least c'.tokens := by
  induction bound generalizing least c c' e with
  | zero => exact absurd h not_ok_of_throw
  | succ bound ih =>
    have inside : SoundOn Good (binary bound 0) (GroupedOf Factor 0) bound := by
      intro c c' e good within h
      obtain ⟨used, taken, tree, -⟩ := ih good within h
      exact ⟨used, taken, tree⟩
    have factors : SoundOn Good (factor (binary bound 0) (bound + 1)) Factor (bound + 1) :=
      (factor_sound inside (bound + 1)).mono fun _ _ operand => .intro operand
    exact binary_ok factors direction levels good enough h

/-- **Precedence and direction decide the tree.**  The tokens of a text all group to the
left.  Wherever the operators of each level agree on their direction, an expression whose
operators bind `least` is read to the only grouped tree of its factors and operators, and
no operator that binds `least` is left in front of the rest. -/
theorem binary_unique_tree (ts : List Token) :
    (∀ source file, tokenize source file = .ok ts →
      ∀ o : Infix, o.token ∈ ts → o.toRight = false) ∧
    ((∀ o o' : Infix, o.token ∈ ts → o'.token ∈ ts → o.Agrees o') →
      ∀ bound least log e c, ts.length ≤ bound → binary bound least ⟨ts, log⟩ = .ok e c →
        ∃ tree : OperatorTree, ts = tree.tokens ++ c.tokens ∧ tree.expr = e ∧
          (∀ us a, .operand us a ∈ tree.pieces → Factor us a) ∧
          (∀ o : Infix, .operator o ∈ tree.pieces → least ≤ o.precedence) ∧
          Stops least c.tokens ∧ tree.Grouped ∧
          ∀ other : OperatorTree, other.pieces = tree.pieces → other.Grouped → other = tree) := by
  refine ⟨fun source file h o mem => toRight_eq_false_of_tokenize h mem, ?_⟩
  intro agree bound least log e c enough h
  obtain ⟨direction, levels⟩ := exists_direction agree
  obtain ⟨used, taken, grouped, stops⟩ :=
    binary_grouped levels (c := ⟨ts, log⟩) (fun t mem => mem) enough h
  obtain @⟨tree, grouped, binds, factors⟩ := grouped
  have inside : ∀ o : Infix, .operator o ∈ tree.pieces → o.token ∈ ts := by
    intro o mem
    rw [show ts = tree.tokens ++ c.tokens from taken]
    exact List.mem_append_left _ (OperatorTree.token_mem mem)
  refine ⟨tree, taken, rfl, factors, fun o mem => grouped.le_precedence binds mem, stops, grouped,
    fun other same grouped' => ?_⟩
  exact (grouped.unique grouped' (fun o o' mem mem' => agree o o' (inside o mem) (inside o' mem'))
    same.symm).symm

/-- The tokens of `a - b - c ;`, where both operators are marked as grouping to the right. -/
def marked : List Token :=
  let minus := (Token.unplaced (.operator .minus)).addFlags { rightToLeft := true }
  [.unplaced (.identifier "a"), minus, .unplaced (.identifier "b"), minus,
    .unplaced (.identifier "c"), .unplaced (.mark .semicolon)]

/-- With the marks, the operators of `a - b - c` are read from right to left. -/
theorem binary_unique_tree_of_marked :
    (∀ o o' : Infix, o.token ∈ marked → o'.token ∈ marked → o.Agrees o') ∧
    marked.length ≤ 6 ∧
    binary 6 0 ⟨marked, .silent⟩ = .ok
      (.binary .sub (.var "a" .unknown)
        (.binary .sub (.var "b" .unknown) (.var "c" .unknown) .unknown) .unknown)
      ⟨[.unplaced (.mark .semicolon)], .silent⟩ ∧
    ∃ tree : OperatorTree, tree.Grouped ∧ tree.expr =
      .binary .sub (.var "a" .unknown)
        (.binary .sub (.var "b" .unknown) (.var "c" .unknown) .unknown) .unknown := by
  have flagged : ∀ t ∈ marked, t.kind.binaryOp?.isSome → t.flags.rightToLeft = true := by decide
  have toRight : ∀ o : Infix, o.token ∈ marked → o.toRight = true :=
    fun o mem => flagged o.token mem (by rw [o.spells]; rfl)
  have agree : ∀ o o' : Infix, o.token ∈ marked → o'.token ∈ marked → o.Agrees o' :=
    fun o o' mem mem' _ => (toRight o mem).trans (toRight o' mem').symm
  have read := (binary_unique_tree marked).2 agree 6 0 .silent _ _ (by decide) rfl
  obtain ⟨tree, -, same, -, -, -, grouped, -⟩ := read
  exact ⟨agree, by decide, rfl, tree, grouped, same⟩

end Parser

end Scriptlet
