import Scriptlet.Program
import Scriptlet.Proofs.Congruence.Simulation

/-!
# Hosts that know more

A host may keep more than it needs for its answers.  A run with such a host is the run with
the host that keeps only what is needed, once the rest is left out.

## Main definitions

* `World.mapHost`, `Machine.mapHost` — with another state of the host
* `Host.Covers` — a host that does what another one does, and may keep more

## Main statements

* `Program.run_start` — a source text is read in the same way for every host
* `Host.Covers.simulation`, `Host.Covers.block`, `Host.Covers.run` — runs with the two hosts
-/

namespace Scriptlet

open Eval

variable {σ τ : Type}

/-- The world with the state of the host given by `g`. -/
def World.mapHost (g : σ → τ) (w : World σ) : World τ := ⟨w.heap, g w.host, w.log⟩

/-- The machine with the state of the host given by `g`. -/
def Machine.mapHost (g : σ → τ) (m : Machine σ) : Machine τ := ⟨m.scope, m.world.mapHost g⟩

/-- **Reading a source text** needs no host: either no host gets to see a program, or all see
the same one. -/
theorem Program.run_start (config : Config) (fuel : Nat) (source file : String) (log : Log) :
    (∃ e log', ∀ {σ : Type} (host : Host σ) (state : σ),
      run host config fuel source file state log = .error (.error e) (.start state log')) ∨
    ∃ program log', ∀ {σ : Type} (host : Host σ) (state : σ),
      run host config fuel source file state log =
        ofEval (Eval.block host config fuel program) (.start state log') := by
  cases tokens : tokenize source file with
  | error e =>
    refine .inl ⟨.lex e, log, fun host state => ?_⟩
    show EStateM.bind (load source file) _ (.start state log) = _
    unfold EStateM.bind load
    rw [tokens]
  | ok ts =>
    cases parsed : Parser.start Parser.program ts (log.add (.tokenized file ts.length)) with
    | error e c =>
      refine .inl ⟨.parse e, c.log, fun host state => ?_⟩
      show EStateM.bind (load source file) _ (.start state log) = _
      unfold EStateM.bind load
      simp only [tokens, Machine.start, parsed, Machine.setLog]
    | ok program c =>
      refine .inr ⟨program, c.log.add (.parsed file program.statements.length),
        fun host state => ?_⟩
      show EStateM.bind (load source file) _ (.start state log) = _
      unfold EStateM.bind load
      simp only [tokens, Machine.start, parsed, Machine.setLog]

/-- **Covering.**  What `host` does is what `host'` does, seen through `g`. -/
def Host.Covers (g : σ → τ) (host : Host σ) (host' : Host τ) : Prop :=
  ∀ (name : String) (args : List Value) (site : Site) (w : World σ),
    mapState (World.mapHost g) (host.call name args site w) =
      host'.call name args site (w.mapHost g)

namespace Host.Covers

variable {g : σ → τ} {host : Host σ} {host' : Host τ} (h : host.Covers g host')

include h

theorem simulation : Simulation host host' id fun m n => n = m.mapHost g where
  scope := by
    rintro m _ rfl
    rw [Scope.mapSites_id]
    rfl
  heap := by
    rintro m _ rfl
    rfl
  setScope := by
    rintro m _ rfl scope
    rw [Scope.mapSites_id]
    rfl
  setHeap := by
    rintro m _ rfl heap
    rfl
  note := by
    rintro m _ rfl e
    rw [Event.mapSites_id]
    rfl
  ask name args site := by
    rintro ⟨scope, w⟩ _ rfl
    simp only [Eval.ask, Machine.mapHost, id]
    rw [← h name args site w]
    cases host.call name args site w with
    | ok reply w' => exact .ok reply rfl
    | error fault w' => exact .error (.fault ⟨fault, site⟩) rfl

/-- **Blocks** with the two hosts do the same, seen through `g`. -/
theorem block (config : Config) (fuel : Nat) (b : Block) (m : Machine σ) :
    mapState (Machine.mapHost g) (Eval.block host config fuel b m) =
      Eval.block host' config fuel b (m.mapHost g) := by
  have ends := h.simulation.framed.block config fuel b m _ rfl
  rw [Block.mapSites_id] at ends
  exact ends.mapState_eq

/-- **Runs** with the two hosts are the same, seen through `g`. -/
theorem run (config : Config) (fuel : Nat) (source file : String) (state : σ) (log : Log) :
    mapState (Machine.mapHost g) (Program.run host config fuel source file state log) =
      Program.run host' config fuel source file (g state) log := by
  obtain ⟨e, log', ran⟩ | ⟨program, log', ran⟩ := Program.run_start config fuel source file log
  · rw [ran, ran]
    rfl
  · have same := h.block config fuel program (.start state log')
    rw [ran, ran]
    show _ = Program.ofEval _ (Machine.mapHost g (.start state log'))
    unfold Program.ofEval
    rw [← same]
    cases Eval.block host config fuel program (.start state log') with
    | ok a m => rfl
    | error stop m => cases stop <;> rfl

end Host.Covers

end Scriptlet
