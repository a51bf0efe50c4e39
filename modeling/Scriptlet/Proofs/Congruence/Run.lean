import Scriptlet.Proofs.Congruence.Level
import Scriptlet.Proofs.Watch.Basic

/-!
# Relations between runs

What a relation has to keep so that it holds between the evaluations of whole programs.

## Main definitions

* `Framed` — a pair of congruences, one around frames and one inside of them
* `Stable` — a relation from the state before to the state after that no primitive breaks
* `Leads` — an evaluation ends, or fails, in a state so related to the one before it

## Main statements

* `Framed.expr`, `Framed.stmt`, `Framed.block` — the evaluator
* `Stable.congruence`, `Stable.framed` — relations between states as relations between
  evaluations

## Design decisions

* Inside of a frame less has to be kept than around it: a declaration changes the frame that
  it stands in, and the end of that frame makes up for it.  So there are two relations, and
  only statements that bind nothing are known to be in the stronger one.
-/

namespace Scriptlet

open Eval

variable {σ τ : Type}

/-- **Framed congruence.**  `Inner` holds of what runs inside a frame, and `Rel` of the same
with the frame around it. -/
structure Framed (host : Host σ) (host' : Host τ) (f : Site → Site)
    (Rel Inner : (α : Type) → Eval σ α → Eval τ α → Prop) : Prop where
  /-- The relation around frames. -/
  outer : Congruence host host' f Rel
  /-- The relation inside of frames. -/
  inner : Congruence host host' f Inner
  /-- The relation around frames is the stronger one. -/
  weaken : ∀ {α : Type} {x : Eval σ α} {y : Eval τ α}, Rel α x y → Inner α x y
  /-- Opening and closing a frame. -/
  inFrame : ∀ {α : Type} {x : Eval σ α} {y : Eval τ α} (skipped : Nat) {frame : Frame},
    frame.functions = [] → Inner α x y →
      Rel α (Eval.inFrame skipped frame x) (Eval.inFrame skipped frame y)
  /-- Binding a variable in the innermost frame. -/
  declare : ∀ (name : String) (v : Value),
    Inner Unit (modifyScope (Scope.declare name v)) (modifyScope (Scope.declare name v))
  /-- Binding a function in the innermost frame. -/
  define : ∀ g : Function,
    Inner Unit (modifyScope (Scope.define g)) (modifyScope (Scope.define (g.mapSites f)))

/-! ## The evaluator -/

namespace Framed

variable {host : Host σ} {host' : Host τ} {f : Site → Site}
  {Rel Inner : (α : Type) → Eval σ α → Eval τ α → Prop} (c : Framed host host' f Rel Inner)
  (config : Config)

include c

section Step

variable {fuel : Nat}
  (eval : ∀ e, Rel _ (expr host config fuel e) (expr host' config fuel (e.mapSites f)))
  (exec : ∀ s, Inner _ (stmt host config fuel s) (stmt host' config fuel (s.mapSites f)))

include exec

/-- A block in a frame of its own. -/
theorem run (skipped : Nat) {frame : Frame} (fresh : frame.functions = []) (b : Block) :
    Rel _ (Eval.inFrame skipped frame (statements config (stmt host config fuel) b.statements))
      (Eval.inFrame skipped frame
        (statements config (stmt host' config fuel) (b.mapSites f).statements)) := by
  rw [Block.statements_mapSites]
  exact c.inFrame skipped fresh (c.inner.statements fun s _ => exec s)

include eval

theorem call (name : String) (args : List Expr) (site : Site) :
    Rel _ (invoke host config (expr host config fuel) (block host config fuel) name args site)
      (invoke host' config (expr host' config fuel) (block host' config fuel) name
        (args.map (Expr.mapSites f)) (f site)) :=
  c.outer.invoke (fun e _ => eval e)
    (fun skipped g _ holds => c.run config exec skipped holds.functions g.body) config name site

theorem expr_succ (e : Expr) :
    Rel _ (expr host config (fuel + 1) e) (expr host' config (fuel + 1) (e.mapSites f)) := by
  rw [Eval.expr_succ, Eval.expr_succ]
  exact c.outer.exprWith eval (c.call config eval exec) e

/-- A statement that binds nothing keeps the relation around frames. -/
theorem stmt_succ_of_not_binding {s : Stmt} (h : s.binding = false) :
    Rel _ (stmt host config (fuel + 1) s) (stmt host' config (fuel + 1) (s.mapSites f)) := by
  rw [Eval.stmt_succ, Eval.stmt_succ]
  refine c.outer.stmtWith s eval (fun _ fresh b _ => c.run config exec 0 fresh b)
    (fun name args site _ => c.call config eval exec name args site) (fun binding => ?_)
    (fun g same => ?_) fuel
  · rw [h] at binding
    cases binding
  · rw [same] at h
    cases h

theorem stmt_succ (s : Stmt) :
    Inner _ (stmt host config (fuel + 1) s) (stmt host' config (fuel + 1) (s.mapSites f)) := by
  rw [Eval.stmt_succ, Eval.stmt_succ]
  exact c.inner.stmtWith s (fun e => c.weaken (eval e))
    (fun _ fresh b _ => c.weaken (c.run config exec 0 fresh b))
    (fun name args site _ => c.weaken (c.call config eval exec name args site))
    (fun _ => c.declare) (fun g _ => c.define g) fuel

end Step

/-- **Evaluation** of expressions, and of statements, from that with less fuel. -/
theorem expr_and_stmt (fuel : Nat) :
    (∀ e, Rel _ (expr host config fuel e) (expr host' config fuel (e.mapSites f))) ∧
      ∀ s, Inner _ (stmt host config fuel s) (stmt host' config fuel (s.mapSites f)) := by
  induction fuel with
  | zero =>
    constructor
    · intro e
      unfold expr
      exact c.outer.outOfFuel
    · intro s
      unfold stmt
      exact c.inner.outOfFuel
  | succ fuel ih => exact ⟨c.expr_succ config ih.1 ih.2, c.stmt_succ config ih.1 ih.2⟩

theorem expr (fuel : Nat) (e : Expr) :
    Rel _ (expr host config fuel e) (expr host' config fuel (e.mapSites f)) :=
  (c.expr_and_stmt config fuel).1 e

theorem stmt (fuel : Nat) (s : Stmt) :
    Inner _ (stmt host config fuel s) (stmt host' config fuel (s.mapSites f)) :=
  (c.expr_and_stmt config fuel).2 s

theorem stmt_of_not_binding (fuel : Nat) {s : Stmt} (h : s.binding = false) :
    Rel _ (Eval.stmt host config fuel s) (Eval.stmt host' config fuel (s.mapSites f)) := by
  cases fuel with
  | zero =>
    unfold Eval.stmt
    exact c.outer.outOfFuel
  | succ fuel =>
    exact c.stmt_succ_of_not_binding config (c.expr config fuel) (c.stmt config fuel) h

theorem block (fuel : Nat) (b : Block) :
    Inner _ (block host config fuel b) (block host' config fuel (b.mapSites f)) := by
  unfold Eval.block
  rw [Block.statements_mapSites]
  exact c.inner.statements fun s _ => c.stmt config fuel s

end Framed

/-! ## States before and after -/

/-- **Leading.**  From every state the evaluation ends in a related one, whether it succeeds
or fails.  The evaluation on the right does not matter. -/
def Leads {σ τ : Type} (R : Machine σ → Machine σ → Prop) (α : Type) (x : Eval σ α)
    (_ : Eval τ α) : Prop := ∀ m, R m (final (x m))

/-- **Stability.**  A relation from the state before to the state after that is kept by
everything but opening frames and binding names in the innermost one. -/
structure Stable (host : Host σ) (R : Machine σ → Machine σ → Prop) : Prop where
  /-- Nothing happens. -/
  refl : ∀ m, R m m
  /-- One thing happens after another. -/
  trans : ∀ {m m' m''}, R m m' → R m' m'' → R m m''
  /-- The heap and the log change. -/
  world : ∀ (m : Machine σ) (heap : Heap) (log : Log), R m ⟨m.scope, ⟨heap, m.world.host, log⟩⟩
  /-- A variable that is bound gets a new value. -/
  assign : ∀ {m : Machine σ} {name : String} {v : Value} {scope : Scope},
    m.scope.assign? name v = some scope → R m ⟨scope, m.world⟩
  /-- The host answers a call. -/
  ask : ∀ (name : String) (args : List Value) (site : Site) (m : Machine σ),
    R m (final (Eval.ask host name args site m))

theorem Stable.congruence {host : Host σ} {R : Machine σ → Machine σ → Prop} (h : Stable host R)
    (host' : Host τ) (f : Site → Site) : Congruence host host' f (Leads R) where
  pure _ m := h.refl m
  bind {α β x y g k} first second m := by
    have before := first m
    show R m (final (EStateM.bind x g m))
    unfold EStateM.bind
    cases ran : x m with
    | ok a m' =>
      rw [ran] at before
      exact h.trans before (second a ⟨m, m', ran⟩ m')
    | error e m' =>
      rw [ran] at before
      exact before
  fail _ _ m := h.refl m
  outOfFuel m := h.refl m
  scope reads m := reads m.scope m
  heap m := h.refl m
  modifyHeap _ m := h.world m _ _
  assign name v m := by
    show R m ⟨(m.scope.assign? name v).getD m.scope, m.world⟩
    cases bound : m.scope.assign? name v with
    | none => exact h.refl m
    | some scope => exact h.assign bound
  note _ m := h.world m _ _
  newArray _ m := h.world m _ _
  ask := h.ask

/-- Closing a frame leaves the world as it is. -/
theorem Eval.world_final_inFrame {α : Type} (skipped : Nat) (frame : Frame) (x : Eval σ α)
    (m : Machine σ) : (final (inFrame skipped frame x m)).world =
      (final (x ⟨frame :: m.scope.drop skipped, m.world⟩)).world := by
  unfold inFrame
  dsimp only
  cases x ⟨frame :: m.scope.drop skipped, m.world⟩ <;> rfl

/-- **Relations between worlds** do not see frames at all. -/
theorem Stable.framed {host : Host σ} {R : World σ → World σ → Prop}
    (h : Stable host fun m m' => R m.world m'.world) (host' : Host τ) (f : Site → Site) :
    Framed host host' f (Leads fun m m' => R m.world m'.world)
      (Leads fun m m' => R m.world m'.world) where
  outer := h.congruence host' f
  inner := h.congruence host' f
  weaken := id
  inFrame {α x y} skipped frame _ inside m := by
    show R m.world (final (Eval.inFrame skipped frame x m)).world
    rw [world_final_inFrame]
    exact inside ⟨frame :: m.scope.drop skipped, m.world⟩
  declare _ _ m := h.world m m.world.heap m.world.log
  define _ m := h.world m m.world.heap m.world.log

end Scriptlet
