import Scriptlet.Proofs.Congruence.Simulation

/-!
# Pursuits

Two runs that go the same way until the one on the right is stopped.  The one on the left
may go on, and what it does then no longer matters.

## Main definitions

* `Host.mute` — the host that knows no function
* `Follows` — two evaluations that go from related states to corresponding outcomes, unless
  the one on the right is stopped
* `Pursuit` — a relation between states that is kept until then
* `Pursues` — the relation between evaluations that a pursuit keeps

## Main statements

* `Pursuit.congruence`, `Pursuit.framed` — a pursuit is kept by all constructs, and so by
  whole runs

## Design decisions

* Only a host can stop the run on the right.  What the primitives do besides calls of the
  host is a simulation with the mute host on both sides.
* A stop is related to the world in which the left evaluation ends.  Every enclosing
  evaluation ends in a later one, so the relation has to survive whatever the left run does
  after that: this is why pursuing includes where the left evaluation leads.
-/

namespace Scriptlet

open Eval

variable {σ τ : Type}

/-- **Mute host.**  It knows no function. -/
def Host.mute : Host σ where
  call _ _ _ := pure .unrecognized

/-- **Following.**  From related states both evaluations go to corresponding outcomes, or
the one on the right is stopped, where `Cut` relates the world in which the left one ends, the
stop and the world at the stop. -/
def Follows (f : Site → Site) (S : Machine σ → Machine τ → Prop)
    (Cut : World σ → Stop → World τ → Prop) (α : Type) (x : Eval σ α) (y : Eval τ α) : Prop :=
  ∀ m n, S m n → Ends f S (x m) (y n) ∨
    ∃ e n', y n = .error e n' ∧ Cut (final (x m)).world e n'.world

/-- **Pursuit.**  A relation `S` between states that is kept until the run on the right is
stopped, when the world on the left only changes along `R`. -/
structure Pursuit (host : Host σ) (host' : Host τ) (f : Site → Site)
    (S : Machine σ → Machine τ → Prop) (R : World σ → World σ → Prop)
    (Cut : World σ → Stop → World τ → Prop) : Prop where
  /-- Whatever is done without the host keeps the states related. -/
  inside : Simulation Host.mute Host.mute f S
  /-- The run on the left goes along `R`. -/
  onward : Stable host fun m m' => R m.world m'.world
  /-- The host answers a call, or stops the run on the right. -/
  ask : ∀ (name : String) (args : List Value) (site : Site),
    Follows f S Cut Reply (Eval.ask host name args site) (Eval.ask host' name args (f site))
  /-- What the run on the left does later does not matter. -/
  cut : ∀ {w w' : World σ} {e : Stop} {v : World τ}, Cut w e v → R w w' → Cut w' e v

/-- **Pursuing.**  The left evaluation goes along `R`, and the right one follows it. -/
structure Pursues (f : Site → Site) (S : Machine σ → Machine τ → Prop)
    (R : World σ → World σ → Prop) (Cut : World σ → Stop → World τ → Prop) (α : Type)
    (x : Eval σ α) (y : Eval τ α) : Prop where
  /-- Where the left one leads. -/
  leads : Leads (fun m m' => R m.world m'.world) α x y
  /-- The right one goes the same way until it is stopped. -/
  follows : Follows f S Cut α x y

theorem Simulates.follows {f : Site → Site} {S : Machine σ → Machine τ → Prop}
    {Cut : World σ → Stop → World τ → Prop} {α : Type} {x : Eval σ α} {y : Eval τ α}
    (h : Simulates f S α x y) : Follows f S Cut α x y :=
  fun m n related => .inl (h m n related)

namespace Pursuit

variable {host : Host σ} {host' : Host τ} {f : Site → Site} {S : Machine σ → Machine τ → Prop}
  {R : World σ → World σ → Prop} {Cut : World σ → Stop → World τ → Prop}
  (p : Pursuit host host' f S R Cut)

include p

/-- **One evaluation behind another.**  If the first is stopped, so is the whole, and the
left run leads from its stop to its end. -/
theorem follows_bind {α β : Type} {x : Eval σ α} {y : Eval τ α} {g : α → Eval σ β}
    {h : α → Eval τ β} (first : Follows f S Cut α x y)
    (second : ∀ a, x.Yields a → Pursues f S R Cut β (g a) (h a)) :
    Follows f S Cut β (x >>= g) (y >>= h) := by
  intro m n related
  have before := first m n related
  show Ends f S (EStateM.bind x g m) (EStateM.bind y h n) ∨
    ∃ e n', EStateM.bind y h n = .error e n' ∧ Cut (final (EStateM.bind x g m)).world e n'.world
  unfold EStateM.bind
  generalize ran : x m = r at before
  generalize y n = r' at before
  obtain same | ⟨e, n', rfl, stopped⟩ := before
  · cases same with
    | ok a related => exact (second a ⟨m, _, ran⟩).follows _ _ related
    | error e related => exact .inl (.error e related)
  · refine .inr ⟨e, n', rfl, ?_⟩
    cases r with
    | ok a m' => exact p.cut stopped ((second a ⟨m, m', ran⟩).leads m')
    | error e' m' => exact stopped

theorem congruence : Congruence host host' f (Pursues f S R Cut) :=
  have leads := p.onward.congruence host' f
  have same := p.inside.congruence
  { pure := fun a => ⟨leads.pure a, (same.pure a).follows⟩
    bind := fun first second => ⟨leads.bind first.leads fun a yields => (second a yields).leads,
      p.follows_bind first.follows second⟩
    fail := fun fault site => ⟨leads.fail fault site, (same.fail fault site).follows⟩
    outOfFuel := ⟨leads.outOfFuel, same.outOfFuel.follows⟩
    scope := by
      intro α g h reads
      refine ⟨leads.scope fun s => (reads s).leads, fun m n related => ?_⟩
      show Ends f S (g m.scope m) (h n.scope n) ∨
        ∃ e n', h n.scope n = .error e n' ∧ Cut (final (g m.scope m)).world e n'.world
      rw [p.inside.scope related]
      exact (reads m.scope).follows m n related
    heap := ⟨leads.heap, same.heap.follows⟩
    modifyHeap := fun change => ⟨leads.modifyHeap change, (same.modifyHeap change).follows⟩
    assign := fun name v => ⟨leads.assign name v, (same.assign name v).follows⟩
    note := fun e => ⟨leads.note e, (same.note e).follows⟩
    newArray := fun items => ⟨leads.newArray items, (same.newArray items).follows⟩
    ask := fun name args site => ⟨leads.ask name args site, p.ask name args site⟩ }

/-- **Running in a frame** without functions. -/
theorem inFrame {α : Type} {x : Eval σ α} {y : Eval τ α} (skipped : Nat) {frame : Frame}
    (fresh : frame.functions = []) (body : Pursues f S R Cut α x y) :
    Pursues f S R Cut α (Eval.inFrame skipped frame x) (Eval.inFrame skipped frame y) := by
  constructor
  · exact (p.onward.framed host' f).inFrame skipped fresh body.leads
  · intro m n related
    have inside := body.follows _ _ (p.inside.enter related skipped fresh)
    obtain same | ⟨e, n', ran, stopped⟩ := inside
    · exact .inl (p.inside.ends_inFrame related same)
    · refine .inr ⟨e, ⟨n.scope.take skipped ++ n'.scope.drop 1, n'.world⟩, ?_, ?_⟩
      · unfold Eval.inFrame
        dsimp only
        rw [ran]
      · rw [world_final_inFrame]
        exact stopped

theorem framed : Framed host host' f (Pursues f S R Cut) (Pursues f S R Cut) where
  outer := p.congruence
  inner := p.congruence
  weaken := id
  inFrame := p.inFrame
  declare name v :=
    ⟨(p.onward.framed host' f).declare name v, (p.inside.framed.declare name v).follows⟩
  define g := ⟨(p.onward.framed host' f).define g, (p.inside.framed.define g).follows⟩

end Pursuit

end Scriptlet
