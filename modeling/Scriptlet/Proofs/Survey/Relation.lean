import Scriptlet.Proofs.Congruence.Run
import Scriptlet.Proofs.Survey.Basic

/-!
# Relations between surveyed runs and runs

What a relation has to keep so that it holds between every surveyed evaluation and the
evaluation without the survey.

## Main definitions

* `Survey.entered`, `Survey.left` — the state in a new frame, and when it is closed
* `Survey.Relates` — a family of congruences, one for each nesting of constructs

## Main statements

* `Survey.final_ask`, `Survey.final_inFrame_inside` — what calls of the host and new frames
  do to a survey
* `Survey.Relates.expr`, `Survey.Relates.stmt`, `Survey.Relates.block` — the evaluator

## Design decisions

* What is known of the place of a statement is a parameter, as is what is known of the
  place that a new frame belongs to.  A relation that does not care about places takes them
  to be true of everything; then nothing is asked of the machine that the run starts with.
-/

namespace Scriptlet

namespace Survey

open Eval

variable {σ α : Type}

/-! ## Calls of the host and new frames -/

/-- A call of the host leaves the scope and the survey as they are. -/
theorem final_ask (host : Host σ) (name : String) (args : List Value) (site : Site)
    (m : Machine (Survey σ)) : ∃ heap state log,
      final (ask host.surveyed name args site m) =
        ⟨m.scope, heap, { m.world.host with host := state }, log⟩ := by
  obtain ⟨scope, heap, ⟨origins, visits, openings, state⟩, log⟩ := m
  simp only [ask, Host.surveyed]
  cases host.call name args site ⟨heap, state, log⟩ with
  | ok reply w => exact ⟨w.heap, w.host, w.log, rfl⟩
  | error fault w => exact ⟨w.heap, w.host, w.log, rfl⟩

/-- The state in a new frame, on the chain without its `skipped` innermost frames. -/
def entered (skipped : Nat) (c : Construct) (opener : Opener) (frame : Frame)
    (m : Machine (Survey σ)) : Machine (Survey σ) :=
  let survey := m.world.host
  ⟨frame :: m.scope.drop skipped, m.world.heap,
    ⟨⟨some c, []⟩ :: survey.origins.drop skipped, survey.visits,
      ⟨opener, some frame⟩ :: survey.openings, survey.host⟩, m.world.log⟩

/-- The state when the frame that was opened on `before` is closed. -/
def left (skipped : Nat) (before m : Machine (Survey σ)) : Machine (Survey σ) :=
  ⟨before.scope.take skipped ++ m.scope.drop 1, m.world.heap,
    { m.world.host with
      origins := before.world.host.origins.take skipped ++ m.world.host.origins.drop 1 },
    m.world.log⟩

/-- **A surveyed frame**: its origin comes and goes with it. -/
theorem final_inFrame_inside (skipped : Nat) (c : Construct) (opener : Opener) (frame : Frame)
    (x : Eval (Survey σ) α) (m : Machine (Survey σ)) :
    final (inFrame skipped frame (inside skipped c opener x) m) =
      left skipped m (final (x (entered skipped c opener frame m))) := by
  obtain ⟨scope, heap, ⟨origins, visits, openings, state⟩, log⟩ := m
  simp only [Eval.inFrame, inside, List.head?_cons, entered]
  generalize x _ = ran
  cases ran <;> rfl

/-! ## Relations -/

/-- **Surveyed relation.**  Under the constructs `cs`, a surveyed evaluation and one without
the survey are in `Rel cs`.  That a statement stands at a place is `At`, and that a frame for
a construct is opened on the chain without its innermost frames is `Under`. -/
structure Relates (host : Host σ) (At : Place → Stmt → Prop)
    (Under : List Construct → Nat → Construct → Prop)
    (Rel : List Construct → (α : Type) → Eval (Survey σ) α → Eval σ α → Prop) : Prop where
  /-- The primitives of the evaluator. -/
  congruence : ∀ cs, Congruence host.surveyed host id (Rel cs)
  /-- Visiting a node. -/
  visit : ∀ {α : Type} {place : Place} {s : Stmt} {node : Node} {x : Eval (Survey σ) α}
    {y : Eval σ α}, At place s → node.StandsIn s → Rel place.enclosing α x y →
      Rel place.enclosing α (Survey.visit node place >>= fun _ => x) y
  /-- Binding a variable. -/
  declare : ∀ (cs : List Construct) (name : String) (v : Value),
    Rel cs Unit (modifyScope (Scope.declare name v)) (modifyScope (Scope.declare name v))
  /-- Binding a function. -/
  define : ∀ {place : Place} {g : Function}, At place (.define g) →
    Rel place.enclosing Unit (Survey.define g place) (modifyScope (Scope.define g))
  /-- Finding a function. -/
  resolve : ∀ {α : Type} {cs : List Construct} {name : String}
    {k : Option (Nat × Function × Place) → Eval (Survey σ) α} {k' : Scope → Eval σ α},
    (∀ s, s.function? name = none → Rel cs α (k none) (k' s)) →
    (∀ s skipped g home, s.function? name = some (skipped, g) → At home (.define g) →
      Under cs skipped ⟨home, 0⟩ → Rel cs α (k (some (skipped, g, home))) (k' s)) →
    Rel cs α (Survey.resolve name >>= k) (scope >>= k')
  /-- Opening and closing a frame. -/
  inFrame : ∀ {α : Type} {cs : List Construct} {skipped : Nat} {c : Construct} {opener : Opener}
    {frame : Frame} {x : Eval (Survey σ) α} {y : Eval σ α},
    Under cs skipped c → frame.HoldsOnly opener.names → Rel (c :: c.place.enclosing) α x y →
      Rel cs α (Eval.inFrame skipped frame (Survey.inside skipped c opener x))
        (Eval.inFrame skipped frame y)
  /-- A statement inside of a statement. -/
  step : ∀ {place : Place} {s t : Stmt} {n i : Nat} {b : Block}, At place s →
    s.bodies[n]? = some b → b.statements[i]? = some t → At (.inside place n i) t
  /-- The blocks of a statement are under what encloses it. -/
  under : ∀ (place : Place) (n : Nat), Under place.enclosing 0 ⟨place, n⟩

namespace Relates

variable {host : Host σ} {At : Place → Stmt → Prop}
  {Under : List Construct → Nat → Construct → Prop}
  {Rel : List Construct → (α : Type) → Eval (Survey σ) α → Eval σ α → Prop}
  (r : Relates host At Under Rel) (config : Config)

include r

section Step

variable {fuel : Nat}
  (eval : ∀ place s e, At place s → (Node.expr e).StandsIn s →
    Rel place.enclosing _ (Survey.expr host config fuel place e)
      (Eval.expr host config fuel (e.mapSites id)))
  (exec : ∀ place s, At place s →
    Rel place.enclosing _ (Survey.stmt host config fuel place s)
      (Eval.stmt host config fuel (s.mapSites id)))

include exec

/-- The statements of a block in a frame of its own. -/
theorem run {cs : List Construct} {skipped n : Nat} {place : Place} (opener : Opener)
    {frame : Frame} {s : Stmt} {b : Block} (under : Under cs skipped ⟨place, n⟩)
    (fresh : frame.HoldsOnly opener.names) (standing : At place s)
    (written : s.bodies[n]? = some b) :
    Rel cs _
      (Eval.inFrame skipped frame (Survey.inside skipped ⟨place, n⟩ opener
        (statementsFrom config (fun i => Survey.stmt host config fuel (.inside place n i)) 0
          b.statements)))
      (Eval.inFrame skipped frame
        (statements config (Eval.stmt host config fuel) (b.mapSites id).statements)) := by
  refine r.inFrame under fresh ?_
  rw [Block.statements_mapSites, ← statementsFrom_eq _ _ 0]
  refine (r.congruence _).statementsFrom fun i t found => ?_
  rw [Nat.zero_add]
  exact exec (.inside place n i) t (r.step standing written found)

include eval

/-- **Call.** -/
theorem invoke {place : Place} {s : Stmt} {args : List Expr} (standing : At place s)
    (inside : ∀ e ∈ args, (Node.expr e).StandsIn s) (name : String) (site : Site) :
    Rel place.enclosing _
      (Survey.invoke host config (Survey.expr host config fuel place)
        (fun c b => statementsFrom config
          (fun i => Survey.stmt host config fuel (c.statement i)) 0 b.statements) name args site)
      (Eval.invoke host config (Eval.expr host config fuel)
        (fun b => statements config (Eval.stmt host config fuel) b.statements) name
        (args.map (Expr.mapSites id)) site) := by
  have arguments : ∀ e ∈ args, Rel place.enclosing _ (Survey.expr host config fuel place e)
      (Eval.expr host config fuel (e.mapSites id)) :=
    fun e mem => eval place s e standing (inside e mem)
  apply r.resolve
  · intro scope none
    simp only [none]
    exact (r.congruence _).callHost arguments config name site
  · intro scope skipped g home some defined under
    simp only [some]
    refine (r.congruence _).map _ ?_
    let body (b : Block) : Eval (Survey σ) (Option Value) :=
      Survey.inside skipped ⟨home, 0⟩ (.call g) (statementsFrom config
        (fun i => Survey.stmt host config fuel (.inside home 0 i)) 0 b.statements)
    let body' (b : Block) : Eval σ (Option Value) :=
      statements config (Eval.stmt host config fuel) b.statements
    have ran : ∀ frame : Frame, frame.HoldsOnly (g.parameters.map Parameter.name) →
        Rel place.enclosing _ (Eval.inFrame skipped frame (body g.body))
          (Eval.inFrame skipped frame (body' (g.body.mapSites id))) :=
      fun frame holds => r.run config exec (.call g) under holds defined rfl
    have called := (r.congruence place.enclosing).callFunction arguments ran site
    rwa [Function.mapSites_id] at called

theorem expr_succ {place : Place} {s : Stmt} {e : Expr} (standing : At place s)
    (inside : (Node.expr e).StandsIn s) :
    Rel place.enclosing _ (Survey.expr host config (fuel + 1) place e)
      (Eval.expr host config (fuel + 1) (e.mapSites id)) := by
  have c := r.congruence place.enclosing
  have parts : ∀ part ∈ e.parts, Rel place.enclosing _ (Survey.expr host config fuel place part)
      (Eval.expr host config fuel (part.mapSites id)) :=
    fun part mem => eval place s part standing (inside.part mem)
  unfold Survey.expr Eval.expr
  rw [Expr.kind_mapSites, Expr.site_mapSites]
  refine r.visit standing inside (c.bind (c.note (.evaluating e.kind e.site)) fun _ _ => ?_)
  cases e with
  | literal value site => exact c.pure _
  | var name site => exact c.map some (c.lookup name site)
  | unary op operand site =>
    exact c.map some (c.applyUnary (parts operand (List.mem_singleton_self _)) op site)
  | binary op left right site =>
    have operands := List.forall_mem_cons.mp parts
    exact c.map some
      (c.applyBinary operands.1 (operands.2 right (List.mem_singleton_self _)) op site)
  | array elements site =>
    rw [Expr.mapSites, Expr.mapSitesAll_eq]
    exact c.bind (c.demandAll parts) fun vs _ => c.map some (c.newArray vs)
  | call name args site =>
    rw [Expr.mapSites, Expr.mapSitesAll_eq]
    exact r.invoke config eval exec standing (fun e mem => inside.part mem) name site

theorem stmt_succ {place : Place} {s : Stmt} (standing : At place s) :
    Rel place.enclosing _ (Survey.stmt host config (fuel + 1) place s)
      (Eval.stmt host config (fuel + 1) (s.mapSites id)) := by
  have c := r.congruence place.enclosing
  have parts : ∀ e ∈ s.expressions, Rel place.enclosing _ (Survey.expr host config fuel place e)
      (Eval.expr host config fuel (e.mapSites id)) :=
    fun e mem => eval place s e standing (Node.standsIn_of_mem mem)
  unfold Survey.stmt Eval.stmt
  rw [Stmt.kind_mapSites, Stmt.site_mapSites]
  refine r.visit standing rfl (c.bind (c.note (.evaluating s.kind s.site)) fun _ _ => ?_)
  cases s with
  | declare type name nameSite value site =>
    rw [Stmt.mapSites]
    have evaluated := parts value (List.mem_singleton_self _)
    exact c.bind (c.declare evaluated (r.declare _ name)) fun _ _ => c.pure none
  | reassign name nameSite value site =>
    rw [Stmt.mapSites]
    have evaluated := parts value (List.mem_singleton_self _)
    exact c.bind (c.reassign evaluated name nameSite site) fun _ _ => c.pure none
  | define g =>
    rw [Stmt.mapSites, Function.mapSites_id]
    exact c.bind (r.define standing) fun _ _ => c.pure none
  | call name args site =>
    rw [Stmt.mapSites]
    exact r.invoke config eval exec standing (fun e mem => Node.standsIn_of_mem mem) name site
  | block body =>
    rw [Stmt.mapSites]
    exact c.inChild (r.run config exec .block (r.under place 0) Frame.holdsOnly_empty standing rfl)
  | branch chain =>
    rw [Stmt.mapSites]
    dsimp only
    rw [← branchFrom_eq _ _ 0]
    refine c.branchFrom 0 chain parts fun n b found => ?_
    rw [Nat.zero_add]
    exact r.run config exec .branch (r.under place n) Frame.holdsOnly_empty standing found
  | loop condition body site =>
    rw [Stmt.mapSites]
    have evaluated := parts condition (List.mem_singleton_self _)
    have iteration := r.run config exec .iteration (r.under place 0) Frame.holdsOnly_empty
      standing rfl
    exact c.repeatWhile (c.demandBoolean evaluated) (c.inChild iteration) fuel
  | count start stop step body site =>
    rw [Stmt.mapSites]
    exact c.count parts (fun counter => r.run config exec .countedIteration (r.under place 0)
      (Frame.holdsOnly_counterFrame counter) standing rfl) site fuel
  | ret value site =>
    cases value with
    | some value => exact c.map some (c.demand (parts value (List.mem_singleton_self _)))
    | none => exact c.pure _
  | empty site => exact c.pure none

end Step

/-- **Evaluation** of expressions, and of statements, from that with less fuel. -/
theorem expr_and_stmt (fuel : Nat) :
    (∀ place s e, At place s → (Node.expr e).StandsIn s →
      Rel place.enclosing _ (Survey.expr host config fuel place e)
        (Eval.expr host config fuel (e.mapSites id))) ∧
    ∀ place s, At place s →
      Rel place.enclosing _ (Survey.stmt host config fuel place s)
        (Eval.stmt host config fuel (s.mapSites id)) := by
  induction fuel with
  | zero =>
    constructor
    · intro place s e _ _
      unfold Survey.expr Eval.expr
      exact (r.congruence _).outOfFuel
    · intro place s _
      unfold Survey.stmt Eval.stmt
      exact (r.congruence _).outOfFuel
  | succ fuel ih =>
    exact ⟨fun _ _ _ => r.expr_succ config ih.1 ih.2, fun _ _ => r.stmt_succ config ih.1 ih.2⟩

theorem expr (fuel : Nat) {place : Place} {s : Stmt} {e : Expr} (standing : At place s)
    (inside : (Node.expr e).StandsIn s) :
    Rel place.enclosing _ (Survey.expr host config fuel place e)
      (Eval.expr host config fuel e) := by
  have h := (r.expr_and_stmt config fuel).1 place s e standing inside
  rwa [Expr.mapSites_id] at h

theorem stmt (fuel : Nat) {place : Place} {s : Stmt} (standing : At place s) :
    Rel place.enclosing _ (Survey.stmt host config fuel place s)
      (Eval.stmt host config fuel s) := by
  have h := (r.expr_and_stmt config fuel).2 place s standing
  rwa [Stmt.mapSites_id] at h

theorem block (fuel : Nat) {before : Nat} {program : Block}
    (top : ∀ i s, program.statements[i]? = some s → At (.top (before + i)) s) :
    Rel [] _ (Survey.block host config fuel before program)
      (Eval.block host config fuel program) := by
  have h : Rel [] _ (Survey.block host config fuel before program)
      (Eval.block host config fuel (program.mapSites id)) := by
    unfold Survey.block Eval.block
    rw [Block.statements_mapSites, ← statementsFrom_eq _ _ before]
    exact (r.congruence []).statementsFrom fun i s found =>
      (r.expr_and_stmt config fuel).2 (.top (before + i)) s (top i s found)
  rwa [Block.mapSites_id] at h

end Relates

end Survey

end Scriptlet
