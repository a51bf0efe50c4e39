import Scriptlet.Proofs.Loop.Counter
import Scriptlet.Proofs.Number.Order

/-!
# Loops whose bodies give nothing

A body that gives a value or fails ends the loop.  A loop whose body does neither runs until its
counter has passed the end, so how often it runs is a question about numbers: the condition of the
loop is an order of values, and so is the check of the header.

## Main definitions

* `Eval.Iterated` — iterations that give nothing lead from one machine to another one
* `Eval.Steady` — no iteration of a loop gives a value or fails
* `CountedLoop.Steady` — the same of a counted loop of a script
* `Eval.bounds` — the numbers of a header, before they are checked

## Main statements

* `Eval.countFrom_of_steady` — a steady loop ends where its counter passes the end
* `Eval.countFrom_ne_fault` — it does not fail
* `Eval.countFrom_of_endless` — it uses up all fuel if the counter never does
* `counting_iff` — the condition of a loop in terms of values
* `checkLoop_eq_ok_iff` — the check of a header accepts what meets the condition at the start
* `header_of_bounds` — a header is its numbers and then their check

## Design decisions

* Iterations are followed along the run.  What the body would do on other machines, or with
  counters that the loop does not reach, does not matter.
* The number of iterations of a loop is not read off its fuel.  It is the number of sightings of
  its counter.
-/

namespace Scriptlet

open Eval

variable {σ : Type}

/-! ## Iterations -/

theorem counterAt_succ (first increment : Number) (k : ℕ) :
    counterAt first increment (k + 1) = counterAt first increment k + increment :=
  Function.iterate_succ_apply' _ _ _

namespace Eval

/-- **Iterations that give nothing:** `k` of them, the first one with the counter `x`, lead from
one machine to another one. -/
inductive Iterated (increment : Number) (body : Number → Eval σ (Option Value)) :
    Number → Machine σ → ℕ → Machine σ → Prop where
  /-- No iteration. -/
  | zero {x : Number} {m : Machine σ} : Iterated increment body x m 0 m
  /-- One iteration in front of the others. -/
  | succ {x : Number} {k : ℕ} {m m' m'' : Machine σ} : body x m = .ok none m' →
    Iterated increment body (x + increment) m' k m'' →
    Iterated increment body x m (k + 1) m''

/-- **Steady loop.**  As long as it goes on, its iterations give no value and do not fail. -/
def Steady (last increment : Number) (body : Number → Eval σ (Option Value)) (first : Number)
    (m : Machine σ) : Prop :=
  ∀ k m', Iterated increment body first m k m' →
    counting last increment (counterAt first increment k) = true →
    ∃ m'', body (counterAt first increment k) m' = .ok none m''

namespace Steady

variable {last increment first : Number} {body : Number → Eval σ (Option Value)} {m : Machine σ}

theorem head (h : Steady last increment body first m)
    (goes : counting last increment first = true) : ∃ m', body first m = .ok none m' :=
  h 0 m .zero goes

theorem tail (h : Steady last increment body first m) {m' : Machine σ}
    (ran : body first m = .ok none m') : Steady last increment body (first + increment) m' :=
  fun k _ iterated goes => h (k + 1) _ (.succ ran iterated) goes

end Steady

variable {last increment : Number} {body : Number → Eval σ (Option Value)}

/-- **A steady loop ends** where its counter passes the end. -/
theorem countFrom_of_steady {first : Number} {m : Machine σ}
    (steady : Steady last increment body first m) {n fuel : ℕ} (enough : n < fuel)
    (counts : ∀ j < n, counting last increment (counterAt first increment j) = true)
    (passed : counting last increment (counterAt first increment n) = false) :
    ∃ m', countFrom last increment body fuel first m = .ok none m' := by
  -- One iteration less is left of the loop that starts at the next counter.
  induction n generalizing fuel first m with
  | zero =>
    obtain ⟨fuel, rfl⟩ := Nat.exists_eq_add_of_lt enough
    exact ⟨m, countFrom_of_passed passed _ m⟩
  | succ n ih =>
    obtain ⟨fuel, rfl⟩ : ∃ k, fuel = k + 1 := ⟨fuel - 1, by omega⟩
    have goes : counting last increment first = true := counts 0 n.succ_pos
    obtain ⟨m', ran⟩ := steady.head goes
    rw [countFrom_of_counting goes, ran]
    exact ih (steady.tail ran) (by omega) (fun j less => counts (j + 1) (by omega)) passed

/-- **A steady loop whose counter never passes the end** uses up all fuel. -/
theorem countFrom_of_endless {first : Number} {m : Machine σ}
    (steady : Steady last increment body first m) (fuel : ℕ)
    (counts : ∀ j, counting last increment (counterAt first increment j) = true) :
    ∃ m', countFrom last increment body fuel first m = .error .outOfFuel m' := by
  induction fuel generalizing first m with
  | zero => exact ⟨m, rfl⟩
  | succ fuel ih =>
    have goes : counting last increment first = true := counts 0
    obtain ⟨m', ran⟩ := steady.head goes
    rw [countFrom_of_counting goes, ran]
    exact ih (steady.tail ran) fun j => counts (j + 1)

/-- A steady loop does not fail, however much fuel there is. -/
theorem countFrom_ne_fault {first : Number} {m m' : Machine σ}
    (steady : Steady last increment body first m) (fuel : ℕ) (e : RuntimeError) :
    countFrom last increment body fuel first m ≠ .error (.fault e) m' := by
  induction fuel generalizing first m with
  | zero => exact nofun
  | succ fuel ih =>
    cases goes : counting last increment first with
    | false =>
      rw [countFrom_of_passed goes]
      exact nofun
    | true =>
      obtain ⟨m', ran⟩ := steady.head goes
      rw [countFrom_of_counting goes, ran]
      exact ih (steady.tail ran)

end Eval

/-! ## The condition and the check -/

section

variable {first last increment counter : Number} {l : WithBotTop ℚ} {a b s : ℚ}

/-- **The condition of a loop:** its counter is not behind its end, seen in the direction of its
step. -/
theorem counting_iff (hl : Number.extended? counter = some l) (hb : Number.value? last = some b)
    (hs : Number.value? increment = some s) : counting last increment counter = true ↔
      (0 < s ∧ l ≤ b) ∨ (s < 0 ∧ (b : WithBotTop ℚ) ≤ l) := by
  rw [← Number.extended?_eq_some_coe_iff] at hb hs
  simp only [counting, Bool.or_eq_true, Bool.and_eq_true, decide_eq_true_eq,
    Number.lt_iff Number.extended?_zero hs, Number.lt_iff hs Number.extended?_zero,
    Number.le_iff hl hb, Number.le_iff hb hl, WithBotTop.coe_lt_coe]

/-- The condition at a counter that is finite. -/
theorem counting_iff_of_value? (ha : Number.value? counter = some a)
    (hb : Number.value? last = some b) (hs : Number.value? increment = some s) :
    counting last increment counter = true ↔ s ≠ 0 ∧ 0 ≤ s * (b - a) := by
  rw [counting_iff (Number.extended?_eq_some_coe_iff.mpr ha) hb hs, WithBotTop.coe_le_coe,
    WithBotTop.coe_le_coe]
  rcases lt_trichotomy s 0 with down | rfl | up
  · have turned : s * (b - a) = -s * (a - b) := by ring
    rw [turned, mul_nonneg_iff_of_pos_left (neg_pos.mpr down)]
    simp [down, down.ne, down.not_gt]
  · simp
  · simp [up, up.ne', up.not_gt, mul_nonneg_iff_of_pos_left]

/-- **The check of a header** accepts finite numbers that meet the condition at the start, and no
others. -/
theorem checkLoop_eq_ok_iff (ha : Number.value? first = some a) (hb : Number.value? last = some b)
    (hs : Number.value? increment = some s) :
    Operation.checkLoop first last increment = .ok () ↔ counting last increment first = true := by
  rw [counting_iff (Number.extended?_eq_some_coe_iff.mpr ha) hb hs, WithBotTop.coe_le_coe,
    WithBotTop.coe_le_coe]
  rw [← Number.extended?_eq_some_coe_iff] at ha hb hs
  simp only [Operation.checkLoop, Bool.and_eq_true, decide_eq_true_eq,
    Number.beq_iff hs Number.extended?_zero, Number.lt_iff ha hb, Number.lt_iff hb ha,
    Number.lt_iff hs Number.extended?_zero, Number.lt_iff Number.extended?_zero hs,
    WithBotTop.coe_lt_coe, WithBotTop.coe_injective.eq_iff]
  rcases lt_trichotomy s 0 with down | rfl | up
  · simp [down, down.ne, down.not_gt]
  · simp
  · simp [up, up.ne', up.not_gt]

/-- A refused header is refused under the heading of loops. -/
theorem kind_of_checkLoop {fault : Fault}
    (h : Operation.checkLoop first last increment = .error fault) :
    fault.kind = .loopConfiguration := by
  unfold Operation.checkLoop at h
  split_ifs at h <;> cases h <;> rfl

end

/-! ## Headers -/

namespace Eval

/-- **Bounds** of a loop: its start, its end and its step, evaluated and not yet checked. -/
def bounds (eval : Expr → Eval σ (Option Value)) (l : CountedLoop) :
    Eval σ (Number × Number × Number) := do
  note (.evaluating l.stmt.kind l.stmt.site)
  let first ← demandNumber eval l.start
  let last ← demandNumber eval l.stop
  let increment ← demandNumber eval l.step
  return (first, last, increment)

/-- The check of a header and the event behind it. -/
def configure (l : CountedLoop) :
    Number × Number × Number → Eval σ (Number × Number × Number)
  | (first, last, increment) => do
    check l.site (Operation.checkLoop first last increment)
    note (.loopConfigured first last increment)
    return (first, last, increment)

theorem header_eq_bind (eval : Expr → Eval σ (Option Value)) (l : CountedLoop) :
    header eval l = bounds eval l >>= configure l := by
  simp only [header, bounds, configure, bind_assoc, pure_bind]

variable {eval : Expr → Eval σ (Option Value)} {l : CountedLoop} {m m₁ : Machine σ}
  {first last increment : Number}

/-- **A header is its numbers and then their check.** -/
theorem header_of_bounds (h : bounds eval l m = .ok (first, last, increment) m₁) :
    header eval l m = configure l (first, last, increment) m₁ := by
  rw [header_eq_bind]
  show EStateM.bind _ _ m = _
  unfold EStateM.bind
  rw [h]

theorem configure_of_ok (h : Operation.checkLoop first last increment = .ok ()) :
    ∃ m', configure l (first, last, increment) m₁ = .ok (first, last, increment) m' := by
  rw [configure, h]
  exact ⟨_, rfl⟩

theorem configure_of_error {fault : Fault}
    (h : Operation.checkLoop first last increment = .error fault) :
    configure l (first, last, increment) m₁ = .error (.fault ⟨fault, l.site⟩) m₁ := by
  rw [configure, h]
  rfl

end Eval

/-! ## Loops of scripts -/

namespace CountedLoop

variable (host : Host σ) (config : Config) (fuel : ℕ) (l : CountedLoop)

/-- One iteration of the loop. -/
def iteration (x : Number) : Eval σ (Option Value) :=
  inChild (counterFrame x) (block host config fuel l.body)

/-- **Steady loop of a script.**  Behind its header, none of its iterations gives a value or
fails. -/
def Steady (m : Machine σ) : Prop :=
  ∀ first last increment m₁,
    header (expr host config fuel) l m = .ok (first, last, increment) m₁ →
    Eval.Steady last increment (l.iteration host config fuel) first m₁

end CountedLoop

namespace Eval

variable {host : Host σ} {config : Config} {fuel : ℕ} {l : CountedLoop} {m m₁ : Machine σ}
  {first last increment : Number}

theorem stmt_of_header (h : header (expr host config fuel) l m = .ok (first, last, increment) m₁) :
    stmt host config (fuel + 1) l.stmt m =
      countFrom last increment (l.iteration host config fuel) fuel first m₁ := by
  rw [stmt_count_eq]
  show EStateM.bind _ _ m = _
  unfold EStateM.bind
  rw [h]
  rfl

theorem stmt_of_header_error {stop : Stop}
    (h : header (expr host config fuel) l m = .error stop m₁) :
    stmt host config (fuel + 1) l.stmt m = .error stop m₁ := by
  rw [stmt_count_eq]
  show EStateM.bind _ _ m = _
  unfold EStateM.bind
  rw [h]

/-- **A loop that ended without a value** has seen all counters up to the one that passed the
end. -/
theorem sightings_of_ended {n : ℕ} {m' : Machine σ}
    (h : header (expr host config fuel) l m = .ok (first, last, increment) m₁)
    (ended : stmt host config (fuel + 1) l.stmt m = .ok none m')
    (counts : ∀ j < n, counting last increment (counterAt first increment j) = true)
    (passed : counting last increment (counterAt first increment n) = false) :
    Sighted.sightings host config fuel l m = counters first increment n := by
  obtain ⟨k, seen, goesOn, behind⟩ := Sighted.sightings_of_header h
  rw [ended] at behind
  generalize result : EStateM.Result.ok (none : Option Value) m' = r at behind
  cases behind with
  | passed after =>
    obtain less | rfl | more := Nat.lt_trichotomy k n
    · exact absurd (counts k less) (by simp [after])
    · exact seen
    · exact absurd (goesOn n more) (by simp [passed])
  | stopped gave => exact absurd result.symm (gave m')
  | spent => cases result

end Eval

end Scriptlet
