import Scriptlet.Proofs.Congruence.Cover
import Scriptlet.Proofs.Survey.Relation

/-!
# A surveyed run is the run

Leaving out the survey after a surveyed evaluation gives the evaluation without it.

## Main definitions

* `Survey.unsurveyed` — an outcome without the survey

## Main statements

* `Survey.unsurveyed_expr`, `Survey.unsurveyed_stmt`, `Survey.unsurveyed_block` — the
  evaluator, on any machine and at any place
* `Survey.unsurveyed_execute` — sequences of programs
-/

namespace Scriptlet

namespace Survey

open Eval

variable {σ α : Type}

/-- The outcome of a surveyed evaluation, without the survey. -/
def unsurveyed :
    EStateM.Result Stop (Machine (Survey σ)) α → EStateM.Result Stop (Machine σ) α
  | .ok a m => .ok a m.unsurveyed
  | .error e m => .error e m.unsurveyed

/-- The machine on the right is the one on the left without its survey. -/
def Same (m : Machine (Survey σ)) (n : Machine σ) : Prop := n = m.unsurveyed

theorem unsurveyed_eq_of_ends {r : EStateM.Result Stop (Machine (Survey σ)) α}
    {r' : EStateM.Result Stop (Machine σ) α} (h : Ends id Same r r') : unsurveyed r = r' := by
  rw [← Ends.mapState_eq h]
  cases r <;> rfl

theorem covers_host (host : Host σ) : host.surveyed.Covers Survey.host host := by
  rintro name args site ⟨heap, ⟨origins, visits, openings, state⟩, log⟩
  simp only [Host.surveyed, World.mapHost]
  cases host.call name args site ⟨heap, state, log⟩ <;> rfl

theorem simulation_same (host : Host σ) : Simulation host.surveyed host id Same :=
  (covers_host host).simulation

theorem inside_same {x : Eval (Survey σ) α} {y : Eval σ α} (skipped : Nat) (c : Construct)
    (opener : Opener) (h : Simulates id Same α x y) :
    Simulates id Same α (inside skipped c opener x) y := by
  rintro ⟨scope, heap, ⟨origins, visits, openings, state⟩, log⟩ n same
  let opened : Survey σ :=
    ⟨⟨some c, []⟩ :: origins.drop skipped, visits, ⟨opener, scope.head?⟩ :: openings, state⟩
  have ran := h ⟨scope, ⟨heap, opened, log⟩⟩ n same
  show Ends id Same
    (match x ⟨scope, ⟨heap, opened, log⟩⟩ with
      | .ok a m => .ok a _
      | .error e m => .error e _) (y n)
  generalize x ⟨scope, ⟨heap, opened, log⟩⟩ = r at ran
  generalize y n = r' at ran
  cases ran with
  | ok a same => exact .ok a same
  | error e same => exact .error e same

/-- **The survey is not felt.** -/
theorem relates_same (host : Host σ) : Relates host (fun _ _ => True) (fun _ _ _ => True)
    fun _ => Simulates id Same where
  congruence _ := (simulation_same host).congruence
  visit _ _ h m n same := h _ n same
  declare _ name v := (simulation_same host).modifyScope fun s => by
    rw [Scope.mapSites_id, Scope.mapSites_id]
  define _ m n same := by
    cases same
    exact .ok () rfl
  resolve {α cs name k k'} none found m n same := by
    cases same
    show Ends id Same (k ((m.scope.function? name).map _) m) (k' m.scope m.unsurveyed)
    cases resolved : m.scope.function? name with
    | none => exact none m.scope resolved m _ rfl
    | some result =>
      obtain ⟨skipped, g⟩ := result
      exact found m.scope skipped g _ resolved trivial trivial m _ rfl
  inFrame _ fresh h :=
    (simulation_same host).inFrame _ fresh.functions (inside_same _ _ _ h)
  step _ _ _ := trivial
  under _ _ := trivial

variable (host : Host σ) (config : Config) (fuel : Nat)

theorem unsurveyed_expr (place : Place) (e : Expr) (m : Machine (Survey σ)) :
    unsurveyed (Survey.expr host config fuel place e m) =
      Eval.expr host config fuel e m.unsurveyed :=
  unsurveyed_eq_of_ends
    ((relates_same host).expr config fuel trivial (Node.standsIn_ret e) m _ rfl)

theorem unsurveyed_stmt (place : Place) (s : Stmt) (m : Machine (Survey σ)) :
    unsurveyed (Survey.stmt host config fuel place s m) =
      Eval.stmt host config fuel s m.unsurveyed :=
  unsurveyed_eq_of_ends ((relates_same host).stmt config fuel trivial m _ rfl)

theorem unsurveyed_block (before : Nat) (program : Block) (m : Machine (Survey σ)) :
    unsurveyed (Survey.block host config fuel before program m) =
      Eval.block host config fuel program m.unsurveyed :=
  unsurveyed_eq_of_ends ((relates_same host).block config fuel (fun _ _ _ => trivial) m _ rfl)

theorem final_unsurveyed (r : EStateM.Result Stop (Machine (Survey σ)) α) :
    final (unsurveyed r) = (final r).unsurveyed := by
  cases r <;> rfl

/-- **Sequences of programs** end the same with and without the survey. -/
theorem unsurveyed_execute (before : Nat) (runs : List Run) (m : Machine (Survey σ)) :
    (Survey.execute host before runs m).unsurveyed = m.unsurveyed.execute host runs := by
  induction runs generalizing before m with
  | nil => rfl
  | cons r runs ih =>
    rw [Survey.execute, ih, ← final_unsurveyed, unsurveyed_block]
    rfl

end Survey

end Scriptlet
