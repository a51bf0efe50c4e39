import Scriptlet.Proofs.Return.Reference
import Scriptlet.Proofs.State

/-!
# Which returns are executed

A statement that ends normally has executed no `return`, and one that returns has
executed exactly one, which stands inside of it and gave the value.

## Main definitions

* `Structured.Ending.Tells` — what an ending says about the executed returns
* `Structured.Reports` — all successes of an execution have such endings

## Main statements

* `Structured.stmt_reports`, `Structured.block_reports` — statements and blocks
-/

namespace Scriptlet

namespace Structured

open Eval

variable {σ α : Type}

/-- **What an ending tells.**  Either nothing was returned and no `return` was
executed, or one was, with the property `P`, and what it gave is returned. -/
inductive Ending.Tells (P : Stmt → Prop) : Ending → Prop where
  /-- Nothing is returned. -/
  | normal : Tells P ⟨.normal, []⟩
  /-- A value is returned. -/
  | returned {s : Stmt} {v : Value} : P s → Tells P ⟨.returned v, [(s, v)]⟩

theorem Ending.Tells.mono {P Q : Stmt → Prop} {e : Ending} (h : e.Tells P)
    (weaker : ∀ s, P s → Q s) : e.Tells Q := by
  cases h with
  | normal => exact .normal
  | returned holds => exact .returned (weaker _ holds)

/-- **Reporting.**  The endings of all successes tell of returns with the property `P`. -/
def Reports (P : Stmt → Prop) (x : Eval σ Ending) : Prop :=
  ∀ m e m', x m = .ok e m' → e.Tells P

namespace Reports

variable {P : Stmt → Prop}

theorem bind {x : Eval σ α} {f : α → Eval σ Ending} (h : ∀ a, Reports P (f a)) :
    Reports P (x >>= f) := by
  intro m e m' ran
  obtain ⟨a, m₁, -, next⟩ := ok_of_bind ran
  exact h a m₁ e m' next

theorem pure {e : Ending} (h : e.Tells P) : Reports P (pure e : Eval σ Ending) := by
  intro m e' m' ran
  obtain ⟨rfl, -⟩ := ok_of_pure ran
  exact h

theorem outOfFuel : Reports P (Eval.outOfFuel : Eval σ Ending) :=
  fun _ _ _ ran => absurd ran not_ok_of_throw

theorem mono {Q : Stmt → Prop} {x : Eval σ Ending} (h : Reports P x) (weaker : ∀ s, P s → Q s) :
    Reports Q x :=
  fun m e m' ran => (h m e m' ran).mono weaker

/-- **Sequencing.**  The second execution runs only if the first one has executed no
return. -/
theorem followedBy {first rest : Eval σ Ending} (hfirst : Reports P first)
    (hrest : Reports P rest) : Reports P (followedBy first rest) := by
  intro m e m' ran
  obtain ⟨before, m₁, hbefore, next⟩ := ok_of_bind ran
  cases hfirst m before m₁ hbefore with
  | normal =>
    obtain ⟨after, m₂, hafter, last⟩ := ok_of_bind next
    obtain ⟨rfl, -⟩ := ok_of_pure last
    exact hrest m₁ after m₂ hafter
  | returned holds =>
    obtain ⟨rfl, -⟩ := ok_of_pure next
    exact .returned holds

theorem inChild {frame : Frame} {x : Eval σ Ending} (h : Reports P x) :
    Reports P (inChild frame x) := by
  refine bind fun scope => bind fun _ => ?_
  intro m e m' ran
  unfold inFrame at ran
  dsimp only at ran
  split at ran
  · next inner =>
    cases ran
    exact h _ _ _ inner
  · cases ran

end Reports

/-! ## Constructs -/

section Constructs

variable {P : Stmt → Prop} {eval : Expr → Eval σ (Option Value)} {run : Block → Eval σ Ending}

theorem statements_reports {exec : Stmt → Eval σ Ending} {ss : List Stmt}
    (h : ∀ s ∈ ss, Reports P (exec s)) : Reports P (statements exec ss) := by
  induction ss with
  | nil => exact .pure .normal
  | cons s ss ih => exact (h s (.head _)).followedBy (ih fun t mem => h t (.tail _ mem))

mutual

theorem branch_reports :
    ∀ chain : Conditional, (∀ b ∈ chain.blocks, Reports P (run b)) →
      Reports P (branch eval run chain)
  | ⟨condition, body, next, _⟩, h => by
    rw [branch]
    refine .bind fun holds => ?_
    cases holds with
    | true => exact (h body (.head _)).inChild
    | false => exact otherwise_reports next fun b mem => h b (.tail _ mem)

theorem otherwise_reports :
    ∀ next : Otherwise, (∀ b ∈ next.blocks, Reports P (run b)) →
      Reports P (otherwise eval run next)
  | .done, _ => by
    rw [otherwise]
    exact .pure .normal
  | .elif link, h => by
    rw [otherwise]
    exact branch_reports link h
  | .last body _, h => by
    rw [otherwise]
    exact (h body (.head _)).inChild

end

theorem repeatWhile_reports {condition : Eval σ Bool} {body : Eval σ Ending}
    (h : Reports P body) (fuel : Nat) : Reports P (repeatWhile condition body fuel) := by
  induction fuel with
  | zero => exact .outOfFuel
  | succ fuel ih =>
    refine .bind fun holds => ?_
    cases holds with
    | true => exact h.followedBy ih
    | false => exact .pure .normal

theorem countFrom_reports {stop step : Number} {body : Number → Eval σ Ending}
    (h : ∀ x, Reports P (body x)) (fuel : Nat) (counter : Number) :
    Reports P (countFrom stop step body fuel counter) := by
  induction fuel generalizing counter with
  | zero => exact .outOfFuel
  | succ fuel ih =>
    unfold countFrom
    split
    · exact (h counter).followedBy (ih _)
    · exact .pure .normal

theorem count_reports {start stop step : Expr} {body : Block} {site : Site} {fuel : Nat}
    (h : Reports P (run body)) : Reports P (count eval run start stop step body site fuel) :=
  .bind fun _ => .bind fun _ => .bind fun _ => .bind fun _ => .bind fun _ =>
    countFrom_reports (fun _ => h.inChild) fuel _

end Constructs

/-! ## The evaluator -/

/-- A return inside of a statement. -/
def ReturnInside (t s : Stmt) : Prop := s.isReturn = true ∧ s.Inside t

/-- **Statements** execute returns that stand inside of them. -/
theorem stmt_reports (host : Host σ) (unknown : UnknownFunctions) (fuel : Nat) (t : Stmt) :
    Reports (ReturnInside t) (stmt host unknown fuel t) := by
  induction fuel generalizing t with
  | zero => exact .outOfFuel
  | succ fuel ih =>
    -- What stands inside of a block of `t` stands inside of `t`.
    have inner : ∀ b ∈ t.blocks,
        Reports (ReturnInside t) (statements (stmt host unknown fuel) b.statements) := by
      intro b hb
      refine statements_reports fun u hu => (ih u).mono ?_
      rintro s ⟨isReturn, inside⟩
      exact ⟨isReturn, .within hb hu inside⟩
    unfold stmt
    refine .bind fun _ => ?_
    cases t with
    -- A call runs a body that does not stand inside of it, but tells nothing of that.
    | declare | reassign | define | call => exact .bind fun _ => .pure .normal
    | block body => exact (inner body (.head _)).inChild
    | branch chain => exact branch_reports chain inner
    | loop condition body site => exact repeatWhile_reports (inner body (.head _)).inChild fuel
    | count start stop step body site => exact count_reports (inner body (.head _))
    | ret value site =>
      cases value with
      | none => exact .pure (.returned ⟨rfl, .self⟩)
      | some value => exact .bind fun v => .pure (.returned ⟨rfl, .self⟩)
    | empty site => exact .pure .normal

/-- **Blocks** execute returns that they contain. -/
theorem block_reports (host : Host σ) (unknown : UnknownFunctions) (fuel : Nat) (b : Block) :
    Reports (fun s => s.isReturn = true ∧ b.Contains s) (block host unknown fuel b) := by
  refine statements_reports fun t ht => (stmt_reports host unknown fuel t).mono ?_
  rintro s ⟨isReturn, inside⟩
  exact ⟨isReturn, t, ht, inside⟩

end Structured

end Scriptlet
