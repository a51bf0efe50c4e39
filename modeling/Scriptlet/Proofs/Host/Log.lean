import Scriptlet.Proofs.Congruence.Simulation
import Scriptlet.Proofs.Host.Blind

/-!
# The standard host does not read the log

## Main definitions

* `World.setLog` — the same world with another log
* `Standard.Agree` — two outcomes that differ in the log only
* `Alike` — two states that differ in the sites of functions and in the log only

## Main statements

* `Standard.run_setLog` — builtins
* `Standard.call_agree` — calls
* `simulation_alike` — the standard host looks neither at sites nor at the log
-/

namespace Scriptlet

/-- The world with another log. -/
def World.setLog {σ : Type} (log : Log) (w : World σ) : World σ := { w with log }

namespace Standard

variable {α : Type}

theorem besideHeap_setLog (log : Log) : BesideHeap (World.setLog log) :=
  ⟨fun _ => rfl, fun _ _ => rfl⟩

theorem emit_setLog (log : Log) (s : String) : Blind (World.setLog log) (emit s) := by
  rintro ⟨heap, sink, old⟩
  unfold Standard.emit World.setLog
  dsimp only
  cases sink.write (Text.bytes s) with
  | mk whole sink => cases whole <;> rfl

/-- **Builtins neither read nor change the log.** -/
theorem run_setLog (log : Log) (b : Builtin) (args : List Value) :
    Blind (World.setLog log) (run b args) :=
  run_blind (besideHeap_setLog log) b args fun _ => emit_setLog log

/-- **Agreement** of two outcomes, which may differ in the log only. -/
inductive Agree :
    EStateM.Result Fault (World Sink) α → EStateM.Result Fault (World Sink) α → Prop where
  /-- Both succeed. -/
  | ok {w w' : World Sink} (a : α) : w'.heap = w.heap → w'.host = w.host →
      Agree (.ok a w) (.ok a w')
  /-- Both fail. -/
  | error {w w' : World Sink} (fault : Fault) : w'.heap = w.heap → w'.host = w.host →
      Agree (.error fault w) (.error fault w')

/-- **Calls agree** on worlds that differ in the log only. -/
theorem call_agree {w w' : World Sink} (sameHeap : w'.heap = w.heap)
    (sameHost : w'.host = w.host) (name : String) (args : List Value) :
    Agree (call name args w) (call name args w') := by
  obtain ⟨heap, sink, log⟩ := w
  obtain ⟨_, _, log'⟩ := w'
  cases sameHeap
  cases sameHost
  unfold call
  cases Builtin.ofName? name with
  | none => exact .ok Reply.unrecognized rfl rfl
  | some b =>
    dsimp only
    split
    · let event : Event := .nativeCall name args.length
      -- The call is logged before the builtin runs, which is all that the log is for.
      have first := run_setLog (log.add event) b args ⟨heap, sink, log⟩
      have second := run_setLog (log'.add event) b args ⟨heap, sink, log⟩
      show Agree
        (EStateM.bind (run b args) _ (World.setLog (log.add event) ⟨heap, sink, log⟩))
        (EStateM.bind (run b args) _ (World.setLog (log'.add event) ⟨heap, sink, log⟩))
      unfold EStateM.bind
      rw [first, second]
      cases run b args ⟨heap, sink, log⟩ with
      | ok r w => exact .ok (Reply.ofResult r) rfl rfl
      | error fault w => exact .error fault rfl rfl
    · exact .error _ rfl rfl

end Standard

/-! ## Runs -/

variable {σ : Type}

/-- **Likeness.**  The states differ in the sites of functions, which are given by `f`, and
in the log.  Variables, arrays and the state of the host are the same. -/
structure Alike (f : Site → Site) (m n : Machine σ) : Prop where
  /-- The scopes are the same up to sites. -/
  scope : n.scope = m.scope.mapSites f
  /-- The arrays are the same. -/
  heap : n.world.heap = m.world.heap
  /-- The states of the host are the same. -/
  host : n.world.host = m.world.host

theorem alike_start (f : Site → Site) (state : σ) (log log' : Log) :
    Alike f (Machine.start state log) (Machine.start state log') := ⟨rfl, rfl, rfl⟩

/-- **The standard host looks neither at sites nor at the log.** -/
theorem simulation_alike (f : Site → Site) :
    Simulation Standard.host Standard.host f (Alike f) where
  scope := Alike.scope
  heap := Alike.heap
  setScope alike _ := ⟨rfl, alike.heap, alike.host⟩
  setHeap alike _ := ⟨alike.scope, rfl, alike.host⟩
  note alike _ := ⟨alike.scope, alike.heap, alike.host⟩
  ask name args site := by
    rintro ⟨scope, world⟩ ⟨scope', world'⟩ alike
    have agree := Standard.call_agree alike.heap alike.host name args
    unfold Eval.ask Standard.host
    dsimp only
    generalize Standard.call name args world = r at agree
    generalize Standard.call name args world' = r' at agree
    cases agree with
    | ok reply heap host => exact .ok reply ⟨alike.scope, heap, host⟩
    | error fault heap host => exact .error (.fault ⟨fault, site⟩) ⟨alike.scope, heap, host⟩

end Scriptlet
