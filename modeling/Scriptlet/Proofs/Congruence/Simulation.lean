import Scriptlet.Proofs.Congruence.Run

/-!
# Simulations

Two runs that stay in related states and end in the same way.

## Main definitions

* `Stop.mapSites` — an early end at another site
* `Ends` — two outcomes with equal results, or with faults at corresponding sites
* `Simulates` — two evaluations that go from related states to such outcomes
* `Simulation` — a relation between states that the primitives keep

## Main statements

* `Simulation.congruence`, `Simulation.framed` — a simulation is kept by all constructs, and
  so by whole runs

## Design decisions

* A relation between states determines the scope and the heap on the right from those on the
  left.  Of the log and of the states of the hosts it says what it likes.
-/

namespace Scriptlet

open Eval

variable {σ τ : Type}

/-- The early end with its site given by `f`. -/
def Stop.mapSites (f : Site → Site) : Stop → Stop
  | .fault e => .fault { e with site := f e.site }
  | .outOfFuel => .outOfFuel

theorem Stop.mapSites_id (e : Stop) : e.mapSites id = e := by
  cases e <;> rfl

/-- **Corresponding outcomes**: in related states with equal results, or with the same fault,
whose site on the right is given by `f`. -/
inductive Ends (f : Site → Site) (S : Machine σ → Machine τ → Prop) {α : Type} :
    EStateM.Result Stop (Machine σ) α → EStateM.Result Stop (Machine τ) α → Prop where
  /-- Both succeed. -/
  | ok {m : Machine σ} {n : Machine τ} (a : α) : S m n → Ends f S (.ok a m) (.ok a n)
  /-- Both fail. -/
  | error {m : Machine σ} {n : Machine τ} (e : Stop) :
    S m n → Ends f S (.error e m) (.error (e.mapSites f) n)

theorem Ends.refl {S : Machine σ → Machine σ → Prop} (h : ∀ m, S m m) {α : Type}
    (r : EStateM.Result Stop (Machine σ) α) : Ends id S r r := by
  cases r with
  | ok a m => exact .ok a (h m)
  | error e m =>
    have ends : Ends id S (.error e m : EStateM.Result Stop (Machine σ) α)
        (.error (e.mapSites id) m) := .error e (h m)
    rwa [Stop.mapSites_id] at ends

/-- Corresponding outcomes are in related states. -/
theorem Ends.final {f : Site → Site} {S : Machine σ → Machine τ → Prop} {α : Type}
    {r : EStateM.Result Stop (Machine σ) α} {r' : EStateM.Result Stop (Machine τ) α}
    (h : Ends f S r r') : S (Eval.final r) (Eval.final r') := by
  cases h with
  | ok _ related => exact related
  | error _ related => exact related

/-- Where the state on the right is a function of the one on the left, the outcome is. -/
theorem Ends.mapState_eq {g : Machine σ → Machine τ} {α : Type}
    {r : EStateM.Result Stop (Machine σ) α} {r' : EStateM.Result Stop (Machine τ) α}
    (h : Ends id (fun m n => n = g m) r r') : mapState g r = r' := by
  cases h with
  | ok a same => rw [same, mapState]
  | error e same => rw [same, Stop.mapSites_id, mapState]

/-- **Simulating.**  From related states both evaluations go to corresponding outcomes. -/
def Simulates (f : Site → Site) (S : Machine σ → Machine τ → Prop) (α : Type) (x : Eval σ α)
    (y : Eval τ α) : Prop := ∀ m n, S m n → Ends f S (x m) (y n)

/-- **Simulation.**  A relation between states that is kept when the same is done on both
sides. -/
structure Simulation (host : Host σ) (host' : Host τ) (f : Site → Site)
    (S : Machine σ → Machine τ → Prop) : Prop where
  /-- The scopes are the same up to sites. -/
  scope : ∀ {m n}, S m n → n.scope = m.scope.mapSites f
  /-- The heaps are the same. -/
  heap : ∀ {m n}, S m n → n.world.heap = m.world.heap
  /-- The scope changes. -/
  setScope : ∀ {m n}, S m n → ∀ scope : Scope,
    S { m with scope } { n with scope := scope.mapSites f }
  /-- The heap changes. -/
  setHeap : ∀ {m n}, S m n → ∀ heap : Heap,
    S { m with world.heap := heap } { n with world.heap := heap }
  /-- An event is logged. -/
  note : ∀ {m n}, S m n → ∀ e : Event,
    S { m with world.log := m.world.log.add e }
      { n with world.log := n.world.log.add (e.mapSites f) }
  /-- The host answers a call. -/
  ask : ∀ (name : String) (args : List Value) (site : Site),
    Simulates f S Reply (Eval.ask host name args site) (Eval.ask host' name args (f site))

namespace Simulation

variable {host : Host σ} {host' : Host τ} {f : Site → Site} {S : Machine σ → Machine τ → Prop}
  (sim : Simulation host host' f S)

include sim

theorem modifyScope {g h : Scope → Scope}
    (same : ∀ s : Scope, h (s.mapSites f) = (g s).mapSites f) :
    Simulates f S Unit (Eval.modifyScope g) (Eval.modifyScope h) := by
  intro m n related
  have scopes : h n.scope = (g m.scope).mapSites f := by rw [sim.scope related, same]
  show Ends f S (.ok () { m with scope := g m.scope }) (.ok () { n with scope := h n.scope })
  rw [scopes]
  exact .ok () (sim.setScope related _)

theorem congruence : Congruence host host' f (Simulates f S) where
  pure a _ _ related := .ok a related
  bind {α β x y g h} first second m n related := by
    have before := first m n related
    show Ends f S (EStateM.bind x g m) (EStateM.bind y h n)
    unfold EStateM.bind
    generalize ran : x m = r at before
    generalize y n = r' at before
    cases before with
    | ok a related => exact second a ⟨m, _, ran⟩ _ _ related
    | error e related => exact .error e related
  fail fault site _ _ related := .error (.fault ⟨fault, site⟩) related
  outOfFuel _ _ related := .error .outOfFuel related
  scope {α g h} reads m n related := by
    show Ends f S (g m.scope m) (h n.scope n)
    rw [sim.scope related]
    exact reads m.scope m n related
  heap m n related := by
    show Ends f S (.ok m.world.heap m) (.ok n.world.heap n)
    rw [sim.heap related]
    exact .ok _ related
  modifyHeap change m n related := by
    show Ends f S (.ok () { m with world.heap := change m.world.heap })
      (.ok () { n with world.heap := change n.world.heap })
    rw [sim.heap related]
    exact .ok () (sim.setHeap related _)
  assign name v := by
    refine sim.modifyScope fun s => ?_
    rw [Scope.assign?_mapSites]
    cases s.assign? name v <;> rfl
  note e _ _ related := .ok () (sim.note related e)
  newArray items m n related := by
    show Ends f S
      (.ok (Value.array (m.world.heap.ofElements items.toArray).1)
        { m with world.heap := (m.world.heap.ofElements items.toArray).2 })
      (.ok (Value.array (n.world.heap.ofElements items.toArray).1)
        { n with world.heap := (n.world.heap.ofElements items.toArray).2 })
    rw [sim.heap related]
    exact .ok _ (sim.setHeap related _)
  ask := sim.ask

/-- A frame without functions is opened on both sides. -/
theorem enter {m : Machine σ} {n : Machine τ} (related : S m n) (skipped : Nat) {frame : Frame}
    (fresh : frame.functions = []) :
    S ⟨frame :: m.scope.drop skipped, m.world⟩ ⟨frame :: n.scope.drop skipped, n.world⟩ := by
  have same : frame.mapSites f = frame := by
    rw [Frame.mapSites, fresh, List.map_nil, ← fresh]
  have opened : frame :: n.scope.drop skipped =
      Scope.mapSites f (frame :: m.scope.drop skipped) := by
    rw [sim.scope related, Scope.mapSites_cons, same, Scope.mapSites, Scope.mapSites, List.map_drop]
  rw [opened]
  exact sim.setScope related _

/-- The frame is closed on both sides, and the frames under it are put back. -/
theorem leave {m m' : Machine σ} {n n' : Machine τ} (before : S m n) (after : S m' n')
    (skipped : Nat) :
    S ⟨m.scope.take skipped ++ m'.scope.drop 1, m'.world⟩
      ⟨n.scope.take skipped ++ n'.scope.drop 1, n'.world⟩ := by
  have closed : n.scope.take skipped ++ n'.scope.drop 1 =
      Scope.mapSites f (m.scope.take skipped ++ m'.scope.drop 1) := by
    rw [sim.scope before, sim.scope after]
    simp only [Scope.mapSites, List.map_append, List.map_take, List.map_drop]
  rw [closed]
  exact sim.setScope after _

/-- What ends in corresponding outcomes inside the frame does so with the frame around it. -/
theorem ends_inFrame {α : Type} {x : Eval σ α} {y : Eval τ α} {m : Machine σ} {n : Machine τ}
    (related : S m n) {skipped : Nat} {frame : Frame}
    (inside : Ends f S (x ⟨frame :: m.scope.drop skipped, m.world⟩)
      (y ⟨frame :: n.scope.drop skipped, n.world⟩)) :
    Ends f S (Eval.inFrame skipped frame x m) (Eval.inFrame skipped frame y n) := by
  unfold Eval.inFrame
  dsimp only
  generalize x ⟨frame :: m.scope.drop skipped, m.world⟩ = r at inside
  generalize y ⟨frame :: n.scope.drop skipped, n.world⟩ = r' at inside
  cases inside with
  | ok a after => exact .ok a (sim.leave related after skipped)
  | error e after => exact .error e (sim.leave related after skipped)

/-- **Running in a frame** without functions. -/
theorem inFrame {α : Type} {x : Eval σ α} {y : Eval τ α} (skipped : Nat) {frame : Frame}
    (fresh : frame.functions = []) (body : Simulates f S α x y) :
    Simulates f S α (Eval.inFrame skipped frame x) (Eval.inFrame skipped frame y) :=
  fun _ _ related => sim.ends_inFrame related (body _ _ (sim.enter related skipped fresh))

theorem framed : Framed host host' f (Simulates f S) (Simulates f S) where
  outer := sim.congruence
  inner := sim.congruence
  weaken := id
  inFrame := sim.inFrame
  declare name v := sim.modifyScope (Scope.declare_mapSites f name v)
  define g := sim.modifyScope (Scope.define_mapSites f g)

end Simulation

end Scriptlet
