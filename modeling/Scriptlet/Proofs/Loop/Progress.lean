import Scriptlet.Proofs.Loop.Iterations
import Scriptlet.Proofs.Number.Sum

/-!
# Progress of counted loops

The check of a header looks at signs only, and a step that leads toward the end need not get there:
a counter that is large enough absorbs the step, since their sum is rounded to the counter itself.
This is the only thing that can go wrong.  A loop over finite numbers ends unless its counter gets
stuck on its way, and when it gets stuck then it does so for good.

## Main definitions

* `Number.Ahead` — a number is as far as another one, seen in a direction
* `Progresses` — no counter on the way to the end absorbs the step

## Main statements

* `Number.ahead_add` — a sum is as far as the number that the step was added to
* `Number.absorbed` — a sum of the same value is the same number
* `counterAt_injective` — counters that do not absorb the step are all different
* `passes_iff_progresses` — a counter passes the end exactly if there is progress
* `Eval.count_progress` — loops with progress end, and those without it do not

## Design decisions

* There are only finitely many numbers.  That counters are all different is therefore enough, and
  nothing is said about how far each step leads.
* The number of iterations does not depend on the loop, only on the numbers of its header.
-/

namespace Scriptlet

open Eval

variable {σ : Type}

/-! ## Directions -/

namespace Number

/-- **Ahead:** in the direction of `s`, the number `y` is as far as `x`. -/
def Ahead (s : ℚ) (x y : Number) : Prop :=
  ∃ a b, extended? x = some a ∧ extended? y = some b ∧ (0 < s → a ≤ b) ∧ (s < 0 → b ≤ a)

section

variable {s p : ℚ} {x y z increment : Number}

theorem Ahead.trans (h : Ahead s x y) (h' : Ahead s y z) : Ahead s x z := by
  obtain ⟨a, b, ha, hb, up, down⟩ := h
  obtain ⟨b', c, hb', hc, up', down'⟩ := h'
  obtain rfl : b = b' := Option.some_inj.mp (hb.symm.trans hb')
  exact ⟨a, c, ha, hc, fun direction => (up direction).trans (up' direction),
    fun direction => (down' direction).trans (down direction)⟩

/-- Numbers that are as far as each other have the same value. -/
theorem Ahead.antisymm (h : Ahead s x y) (h' : Ahead s y x) (nonzero : s ≠ 0) :
    extended? x = extended? y := by
  obtain ⟨a, b, ha, hb, up, down⟩ := h
  obtain ⟨b', a', hb', ha', up', down'⟩ := h'
  obtain rfl : b = b' := Option.some_inj.mp (hb.symm.trans hb')
  obtain rfl : a = a' := Option.some_inj.mp (ha.symm.trans ha')
  rw [ha, hb, Option.some_inj]
  rcases lt_or_gt_of_ne nonzero with direction | direction
  · exact le_antisymm (down' direction) (down direction)
  · exact le_antisymm (up direction) (up' direction)

/-- **A sum is ahead** of the number that the step was added to. -/
theorem ahead_add {l : WithBotTop ℚ} (hx : extended? x = some l) (hs : value? increment = some s) :
    Ahead s x (x + increment) := by
  cases hp : value? x with
  | some p =>
    obtain rfl : l = p := by
      rwa [extended?_eq_some_coe_iff.mpr hp, Option.some_inj, eq_comm] at hx
    obtain ⟨l', sum, rounds⟩ := extended?_add hp hs
    have between := rounds p (representable_of_value? hp)
    exact ⟨p, l', hx, sum, fun up => between.1 (by linarith), fun down => between.2 (by linarith)⟩
  | none =>
    exact ⟨l, l, hx, extended?_add_of_infinite hx hp hs, fun _ => le_rfl, fun _ => le_rfl⟩

/-- Numbers of the same value are the same, unless they are zeros. -/
theorem eq_of_extended?_eq {l : WithBotTop ℚ} (hx : extended? x = some l)
    (hy : extended? y = some l) (nonzero : l ≠ (0 : ℚ)) : x = y := by
  obtain ⟨-, -, same | ⟨rfl, -⟩ | ⟨-, rfl⟩⟩ :=
    Float.beq_iff_ne_nan_and_eq.mp ((beq_iff hx hy).mpr rfl)
  · exact same
  · exact absurd (Option.some_inj.mp (hx.symm.trans extended?_zero)) nonzero
  · exact absurd (Option.some_inj.mp (hy.symm.trans extended?_zero)) nonzero

/-- **Absorbed:** a sum that has the value of the number is that number. -/
theorem absorbed {l : WithBotTop ℚ} (hx : extended? x = some l) (hs : value? increment = some s)
    (nonzero : s ≠ 0) (same : extended? (x + increment) = extended? x) : x + increment = x := by
  rw [hx] at same
  refine eq_of_extended?_eq same hx ?_
  -- A zero absorbs nothing.
  rintro rfl
  have zero : value? x = some 0 := extended?_eq_some_coe_iff.mp hx
  have sum : value? (x + increment) = some (0 + s) :=
    value?_add zero hs (by rw [zero_add]; exact representable_of_value? hs)
  rw [extended?_eq_some_coe_iff.mp same, zero_add, Option.some_inj] at sum
  exact nonzero sum.symm

end

theorem value?_of_view {x : Number} {m : ℕ} {e : ℤ} (h : view x = .finite false m e) :
    value? x = some (m * 2 ^ e : ℚ) := by
  rw [value?, h, View.value?, if_neg Bool.false_ne_true, one_mul]

theorem value?_one : value? 1 = some 1 := by
  have view : view 1 = .finite false (2 ^ 52) (-52) := by decide +kernel
  rw [value?_of_view view]
  norm_num

/-- There are only finitely many numbers. -/
instance finite : Finite Number :=
  Finite.of_injective Float.toBits fun _ _ => Float.toBits_inj.mp

end Number

/-! ## Counters on their way -/

/-- **Progress:** no counter on the way to the end absorbs the step. -/
def Progresses (first last increment : Number) : Prop :=
  ∀ k, counting last increment (counterAt first increment k) = true →
    counterAt first increment (k + 1) ≠ counterAt first increment k

section

variable {first last increment : Number} {a b s : ℚ}

theorem ahead_counterAt (ha : first.value? = some a) (hs : increment.value? = some s) {j k : ℕ}
    (h : j ≤ k) : Number.Ahead s (counterAt first increment j) (counterAt first increment k) := by
  have number (k : ℕ) : ∃ l, (counterAt first increment k).extended? = some l := by
    induction k with
    | zero => exact ⟨a, Number.extended?_eq_some_coe_iff.mpr ha⟩
    | succ k ih =>
      obtain ⟨l, value⟩ := ih
      obtain ⟨-, l', -, sum, -⟩ := Number.ahead_add value hs
      rw [counterAt_succ]
      exact ⟨l', sum⟩
  induction k, h using Nat.le_induction with
  | base =>
    obtain ⟨l, value⟩ := number j
    exact ⟨l, l, value, value, fun _ => le_rfl, fun _ => le_rfl⟩
  | succ k _ ih =>
    obtain ⟨l, value⟩ := number k
    rw [counterAt_succ]
    exact ih.trans (Number.ahead_add value hs)

/-- The condition of a loop says that its end is ahead. -/
theorem counting_iff_ahead (ha : first.value? = some a) (hb : last.value? = some b)
    (hs : increment.value? = some s) (nonzero : s ≠ 0) (k : ℕ) :
    counting last increment (counterAt first increment k) = true ↔
      Number.Ahead s (counterAt first increment k) last := by
  obtain ⟨l, -, value, -⟩ := ahead_counterAt ha hs k.le_refl
  have stop := Number.extended?_eq_some_coe_iff.mpr hb
  rw [counting_iff value hb hs]
  constructor
  · rintro (⟨up, inside⟩ | ⟨down, inside⟩)
    · exact ⟨l, b, value, stop, fun _ => inside, fun down => absurd up down.not_gt⟩
    · exact ⟨l, b, value, stop, fun up => absurd up down.not_gt, fun _ => inside⟩
  · rintro ⟨l', b', value', stop', up, down⟩
    obtain rfl : l = l' := Option.some_inj.mp (value.symm.trans value')
    obtain rfl : (b : WithBotTop ℚ) = b' := Option.some_inj.mp (stop.symm.trans stop')
    exact (lt_or_gt_of_ne nonzero).symm.imp (fun h => ⟨h, up h⟩) fun h => ⟨h, down h⟩

/-- **Counters that do not absorb the step are all different.** -/
theorem counterAt_injective (ha : first.value? = some a) (hs : increment.value? = some s)
    (nonzero : s ≠ 0)
    (moves : ∀ k, counterAt first increment (k + 1) ≠ counterAt first increment k) :
    Function.Injective (counterAt first increment) := by
  have different {j k : ℕ} (less : j < k) :
      counterAt first increment j ≠ counterAt first increment k := by
    intro same
    -- The next counter is ahead of this one, and this one, which is reached again, is ahead of it.
    have forth := ahead_counterAt ha hs (Nat.le_succ j)
    have back := ahead_counterAt ha hs (Nat.succ_le_of_lt less)
    rw [← same] at back
    obtain ⟨l, -, value, -⟩ := ahead_counterAt ha hs j.le_refl
    have stuck := back.antisymm forth nonzero
    rw [Nat.succ_eq_add_one, counterAt_succ] at stuck
    exact moves j ((counterAt_succ ..).trans (Number.absorbed value hs nonzero stuck))
  intro j k same
  rcases Nat.lt_trichotomy j k with less | equal | more
  · exact absurd same (different less)
  · exact equal
  · exact absurd same.symm (different more)

/-- A counter that has absorbed the step stays what it is. -/
theorem counterAt_of_absorbed {k : ℕ}
    (stuck : counterAt first increment (k + 1) = counterAt first increment k) (j : ℕ) :
    counterAt first increment (k + j) = counterAt first increment k := by
  induction j with
  | zero => rfl
  | succ j ih => rw [← Nat.add_assoc, counterAt_succ, ih, ← counterAt_succ, stuck]

/-- **A counter passes the end exactly if there is progress.** -/
theorem passes_iff_progresses (ha : first.value? = some a) (hb : last.value? = some b)
    (hs : increment.value? = some s) (nonzero : s ≠ 0) :
    (∃ k, counting last increment (counterAt first increment k) = false) ↔
      Progresses first last increment := by
  have toward := counting_iff_ahead ha hb hs nonzero
  constructor
  · rintro ⟨j, passed⟩ k goes stuck
    rw [Bool.eq_false_iff, Ne, toward] at passed
    rw [toward] at goes
    rcases Nat.le_total j k with before | behind
    · exact passed ((ahead_counterAt ha hs before).trans goes)
    · obtain ⟨i, rfl⟩ := Nat.exists_eq_add_of_le behind
      rw [counterAt_of_absorbed stuck] at passed
      exact passed goes
  · intro progress
    by_contra never
    push Not at never
    have goes (k : ℕ) : counting last increment (counterAt first increment k) = true :=
      Bool.of_not_eq_false (never k)
    exact not_injective_infinite_finite _
      (counterAt_injective ha hs nonzero fun k => progress k (goes k))

end

/-! ## Loops -/

/-- **Steady loop over given numbers:** its header gives these, and no iteration gives a value or
fails. -/
structure CountedLoop.SteadyOver (first last increment : Number) (host : Host σ) (config : Config)
    (fuel : ℕ) (l : CountedLoop) (m : Machine σ) : Prop where
  /-- The numbers of the header, which were accepted. -/
  configured : ∃ m₁, header (expr host config fuel) l m = .ok (first, last, increment) m₁
  /-- The iterations. -/
  steady : l.Steady host config fuel m

namespace Eval

variable {first last increment : Number} {a b s : ℚ}

/-- An accepted step is not zero. -/
theorem nonzero_of_accepted (ha : first.value? = some a) (hb : last.value? = some b)
    (hs : increment.value? = some s)
    (accepted : Operation.checkLoop first last increment = .ok ()) : s ≠ 0 := by
  rw [checkLoop_eq_ok_iff ha hb hs, counting_iff_of_value? ha hb hs] at accepted
  exact accepted.1

/-- **Which counted loops end.**  Of the finite numbers that the check of a header accepts, those
with progress lead the counter past the end, and those without progress do not.  Loops with the
former, whatever is around them, end after the same number of iterations, unless their bodies end
them earlier; loops with the latter never do. -/
theorem count_progress (ha : first.value? = some a) (hb : last.value? = some b)
    (hs : increment.value? = some s)
    (accepted : Operation.checkLoop first last increment = .ok ()) :
    ((∃ k, counting last increment (counterAt first increment k) = false) ↔
      Progresses first last increment) ∧
    (Progresses first last increment →
      ∃ n, ∀ (σ : Type) (host : Host σ) (config : Config) (fuel : ℕ) (l : CountedLoop)
        (m : Machine σ), n < fuel → l.SteadyOver first last increment host config fuel m →
        ∃ m', stmt host config (fuel + 1) l.stmt m = .ok none m') ∧
    (¬ Progresses first last increment →
      ∀ (σ : Type) (host : Host σ) (config : Config) (fuel : ℕ) (l : CountedLoop) (m : Machine σ),
        l.SteadyOver first last increment host config fuel m →
        ∃ m', stmt host config (fuel + 1) l.stmt m = .error .outOfFuel m') := by
  have passes := passes_iff_progresses ha hb hs (nonzero_of_accepted ha hb hs accepted)
  refine ⟨passes, fun progress => ?_, fun stuck => ?_⟩
  · -- The first counter that has passed the end tells the number of iterations.
    have ends := passes.mpr progress
    refine ⟨Nat.find ends, fun σ host config fuel l m enough h => ?_⟩
    obtain ⟨m₁, header⟩ := h.configured
    rw [stmt_of_header header]
    exact countFrom_of_steady (h.steady _ _ _ _ header) enough
      (fun j less => Bool.of_not_eq_false (Nat.find_min ends less)) (Nat.find_spec ends)
  · intro σ host config fuel l m h
    obtain ⟨m₁, header⟩ := h.configured
    rw [stmt_of_header header]
    refine countFrom_of_endless (h.steady _ _ _ _ header) fuel fun k => ?_
    exact Bool.of_not_eq_false fun passed => stuck (passes.mp ⟨k, passed⟩)

/-- From one to three. -/
theorem count_progress_of_literals :
    let number (x : Number) : Expr := .literal (.number x) .unknown
    let loop : CountedLoop :=
      ⟨number 1, number 3, number 1, ⟨[.empty .unknown], .unknown⟩, .unknown⟩
    let m : Machine Sink := .start (.ofLimit none) .silent
    ∃ n, ∀ fuel, n < fuel →
      ∃ m', stmt Standard.host {} (fuel + 1) loop.stmt m = .ok none m' := by
  intro number loop m
  have three : Number.value? 3 = some 3 := by
    have view : Number.view 3 = .finite false (3 * 2 ^ 51) (-51) := by decide +kernel
    rw [Number.value?_of_view view]
    norm_num
  have accepted : Operation.checkLoop 1 3 1 = .ok () := by decide +kernel
  have passed : counting 3 1 (counterAt 1 1 3) = false := by decide +kernel
  have result := count_progress Number.value?_one three Number.value?_one accepted
  obtain ⟨n, ends⟩ := result.2.1 (result.1.mp ⟨3, passed⟩)
  refine ⟨n, fun fuel enough => ends Sink Standard.host {} fuel loop m enough ⟨?_, ?_⟩⟩
  · obtain ⟨fuel, rfl⟩ : ∃ k, fuel = k + 1 := ⟨fuel - 1, by omega⟩
    exact ⟨m, rfl⟩
  · obtain ⟨fuel, rfl⟩ : ∃ k, fuel = k + 1 := ⟨fuel - 1, by omega⟩
    exact fun _ _ _ _ _ _ _ _ _ => ⟨_, rfl⟩

/-- **An accepted loop that does not end:** adding one to the start is rounded back to it. -/
theorem not_progress_of_large :
    let start : Number := 9007199254740992
    let stop : Number := 9007199254740994
    let number (x : Number) : Expr := .literal (.number x) .unknown
    let loop : CountedLoop :=
      ⟨number start, number stop, number 1, ⟨[.empty .unknown], .unknown⟩, .unknown⟩
    let m : Machine Sink := .start (.ofLimit none) .silent
    (start.value? = some (2 ^ 53) ∧ stop.value? = some (2 ^ 53 + 2) ∧
      Number.value? 1 = some 1 ∧ Operation.checkLoop start stop 1 = .ok ()) ∧
    (∀ k, counting stop 1 (counterAt start 1 k) = true) ∧
    ∀ fuel, ∃ m', stmt Standard.host {} (fuel + 2) loop.stmt m = .error .outOfFuel m' := by
  intro start stop number loop m
  have goes (k : ℕ) : counting stop 1 (counterAt start 1 k) = true := by
    have stuck : counterAt start 1 (0 + 1) = counterAt start 1 0 := by decide +kernel
    have same := counterAt_of_absorbed stuck k
    rw [Nat.zero_add] at same
    rw [same]
    decide +kernel
  have accepted : Operation.checkLoop start stop 1 = .ok () := by decide +kernel
  refine ⟨⟨?_, ?_, Number.value?_one, accepted⟩, goes, fun fuel => ?_⟩
  · have view : Number.view start = .finite false (2 ^ 52) 1 := by decide +kernel
    rw [Number.value?_of_view view]
    norm_num
  · have view : Number.view stop = .finite false (2 ^ 52 + 1) 1 := by decide +kernel
    rw [Number.value?_of_view view]
    norm_num
  · have evaluated : bounds (expr Standard.host {} (fuel + 1)) loop m = .ok (start, stop, 1) m :=
      rfl
    obtain ⟨m₁, configured⟩ : ∃ m₁, configure loop (start, stop, 1) m = .ok _ m₁ :=
      configure_of_ok accepted
    rw [stmt_of_header ((header_of_bounds evaluated).trans configured)]
    exact countFrom_of_endless (fun _ _ _ _ => ⟨_, rfl⟩) _ goes

end Eval

end Scriptlet
