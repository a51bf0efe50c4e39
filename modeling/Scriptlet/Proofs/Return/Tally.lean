import Scriptlet.Proofs.Congruence.Cover
import Scriptlet.Proofs.Congruence.Pursuit

/-!
# What call statements give

A call that stands as a statement may give a value that nothing asks for.  A tally of these
values tells whether the policy for block results makes a difference.

## Main definitions

* `Tally` — the values that call statements gave, with the state of the host
* `Tally.expr`, `Tally.stmt`, `Tally.block` — the evaluator with a tally
* `Tally.Agrees` — the evaluation without the tally is the same, unless something was counted

## Main statements

* `Tally.block_agrees` — blocks under two policies

## Design decisions

* The tally is part of the state of the host, so the constructs of `Scriptlet.Eval.Steps` are
  used as they are.  Only call statements differ.
* One relation serves for two policies and for one.  With one policy agreement does not
  depend on what was counted, and says that the tally changes nothing.
-/

namespace Scriptlet

open Eval

variable {σ : Type}

/-- **Tally** of a run with a host of state `σ`. -/
structure Tally (σ : Type) where
  /-- What call statements gave so far, the latest first. -/
  values : List Value
  /-- The state of the host. -/
  host : σ

/-- A host beside a tally, which it knows nothing of. -/
def Host.tallied (host : Host σ) : Host (Tally σ) where
  call name args site w :=
    mapState (World.mapHost (Tally.mk w.host.values))
      (host.call name args site (w.mapHost Tally.host))

theorem Host.covers_tallied (host : Host σ) : host.tallied.Covers Tally.host host := by
  intro name args site w
  simp only [Host.tallied]
  cases host.call name args site (w.mapHost Tally.host) <;> rfl

namespace Tally

variable {α β : Type}

/-- Counts what a call statement gave. -/
def record (r : Option Value) : Eval (Tally σ) Unit
  | ⟨scope, ⟨heap, ⟨values, state⟩, log⟩⟩ =>
    .ok () ⟨scope, ⟨heap, ⟨r.toList ++ values, state⟩, log⟩⟩

/-- Counts what an evaluation gives. -/
def recorded (x : Eval (Tally σ) (Option Value)) : Eval (Tally σ) (Option Value) := do
  let r ← x
  record r
  return r

section Evaluator

variable (host : Host σ) (config : Config)

mutual

/-- **Evaluation of an expression with a tally**, as `Eval.expr`. -/
def expr : Nat → Expr → Eval (Tally σ) (Option Value)
  | 0, _ => outOfFuel
  | fuel + 1, e =>
    let run (b : Block) : Eval (Tally σ) (Option Value) :=
      statements config (stmt fuel) b.statements
    exprWith (expr fuel) (invoke host.tallied config (expr fuel) run) e

/-- **Execution of a statement with a tally**, as `Eval.stmt`.  What a call gives is counted. -/
def stmt : Nat → Stmt → Eval (Tally σ) (Option Value)
  | 0, _ => outOfFuel
  | fuel + 1, s =>
    let run (b : Block) : Eval (Tally σ) (Option Value) :=
      statements config (stmt fuel) b.statements
    stmtWith (expr fuel) run
      (fun name args site => recorded (invoke host.tallied config (expr fuel) run name args site))
      fuel s

end

/-- **Execution of a block with a tally**, as `Eval.block`. -/
def block (fuel : Nat) (b : Block) : Eval (Tally σ) (Option Value) :=
  statements config (stmt host config fuel) b.statements

end Evaluator

/-- The machine without the tally. -/
abbrev dropped (m : Machine (Tally σ)) : Machine σ := m.mapHost Tally.host

/-- The values that were counted on a machine. -/
def counted (m : Machine (Tally σ)) : List Value := m.world.host.values

/-! ## Values are only added -/

/-- Values are only added to the tally. -/
def Adds (m m' : Machine (Tally σ)) : Prop := ∃ new, counted m' = new ++ counted m

theorem counted_ask (host : Host σ) (name : String) (args : List Value) (site : Site)
    (m : Machine (Tally σ)) : counted (final (ask host.tallied name args site m)) = counted m := by
  obtain ⟨scope, w⟩ := m
  simp only [ask, Host.tallied]
  cases host.call name args site (w.mapHost Tally.host) <;> rfl

theorem stable_adds (host : Host σ) : Stable host.tallied Adds where
  refl _ := ⟨[], rfl⟩
  trans := by
    rintro m m' m'' ⟨first, same⟩ ⟨second, same'⟩
    exact ⟨second ++ first, by rw [same', same, List.append_assoc]⟩
  world _ _ _ := ⟨[], rfl⟩
  assign _ := ⟨[], rfl⟩
  ask name args site m := ⟨[], counted_ask host name args site m⟩

/-- If nothing was counted in all, then neither in the first part nor in the second one. -/
theorem Adds.quiet {m m' m'' : Machine (Tally σ)} (first : Adds m m') (second : Adds m' m'')
    (quiet : counted m'' = counted m) : counted m' = counted m ∧ counted m'' = counted m' := by
  obtain ⟨new, same⟩ := first
  obtain ⟨new', same'⟩ := second
  rw [same', same, ← List.append_assoc] at quiet
  obtain ⟨rfl, rfl⟩ := List.append_eq_nil_iff.mp (List.append_left_eq_self.mp quiet)
  exact ⟨same, same'⟩

/-! ## Agreement -/

/-- **Agreement.**  The evaluation on the left counts values on the way.  Leaving out the tally
gives the evaluation on the right, `same` provided or that nothing was counted. -/
structure Agrees (same : Prop) (α : Type) (x : Eval (Tally σ) α) (y : Eval σ α) : Prop where
  /-- Values are only added. -/
  leads : Leads Adds α x y
  /-- The right one does the same. -/
  agrees : ∀ m, same ∨ counted (final (x m)) = counted m → mapState dropped (x m) = y (dropped m)

namespace Agrees

variable {same : Prop}

theorem of_simulates {x : Eval (Tally σ) α} {y : Eval σ α} (leads : Leads Adds α x y)
    (h : Simulates id (fun m n => n = dropped m) α x y) : Agrees same α x y :=
  ⟨leads, fun m _ => (h m _ rfl).mapState_eq⟩

/-- **One evaluation behind another.**  What comes second has to agree only if nothing was
counted before, or if that makes no difference. -/
theorem bind {x : Eval (Tally σ) α} {y : Eval σ α} {g : α → Eval (Tally σ) β} {h : α → Eval σ β}
    (host : Host σ) (first : Agrees same α x y) (leads : ∀ a, x.Yields a → Leads Adds β (g a) (h a))
    (second : ∀ a m m', x m = .ok a m' → (same ∨ counted m' = counted m) →
      Agrees same β (g a) (h a)) : Agrees same β (x >>= g) (y >>= h) where
  leads := ((stable_adds host).congruence host id).bind first.leads leads
  agrees m quiet := by
    have start := first.leads m
    have agrees := first.agrees m
    change same ∨ counted (final (EStateM.bind x g m)) = counted m at quiet
    show mapState dropped (EStateM.bind x g m) = EStateM.bind y h (dropped m)
    unfold EStateM.bind at quiet ⊢
    cases ran : x m with
    | error e m' =>
      rw [ran] at quiet agrees
      rw [← agrees quiet]
      rfl
    | ok a m' =>
      rw [ran] at start quiet agrees
      have rest := leads a ⟨m, m', ran⟩ m'
      have before : same ∨ counted m' = counted m := quiet.imp_right fun q => (start.quiet rest q).1
      have after : same ∨ counted (final (g a m')) = counted m' :=
        quiet.imp_right fun q => (start.quiet rest q).2
      rw [← agrees before]
      exact (second a m m' ran before).agrees m' after

theorem congruence (host : Host σ) : Congruence host.tallied host id (Agrees (σ := σ) same) :=
  have leads := (stable_adds host).congruence host id
  have sim := host.covers_tallied.simulation.congruence
  { pure := fun a => .of_simulates (leads.pure a) (sim.pure a)
    bind := fun first second => first.bind host (fun a yields => (second a yields).leads)
      fun a m m' ran _ => second a ⟨m, m', ran⟩
    fail := fun fault site => .of_simulates (leads.fail fault site) (sim.fail fault site)
    outOfFuel := .of_simulates leads.outOfFuel sim.outOfFuel
    scope := by
      intro α g h reads
      refine ⟨leads.scope fun s => (reads s).leads, fun m quiet => ?_⟩
      have read := (reads m.scope).agrees m quiet
      rwa [Scope.mapSites_id] at read
    heap := .of_simulates leads.heap sim.heap
    modifyHeap := fun change => .of_simulates (leads.modifyHeap change) (sim.modifyHeap change)
    assign := fun name v => .of_simulates (leads.assign name v) (sim.assign name v)
    note := fun e => .of_simulates (leads.note e) (sim.note e)
    newArray := fun items => .of_simulates (leads.newArray items) (sim.newArray items)
    ask := fun name args site =>
      .of_simulates (leads.ask name args site) (sim.ask name args site) }

/-- **Changes of the scope** count nothing. -/
theorem modifyScope (host : Host σ) (change : Scope → Scope) :
    Agrees same Unit (Eval.modifyScope change : Eval (Tally σ) Unit)
      (Eval.modifyScope change) :=
  ⟨fun m => (stable_adds host).refl m, fun _ _ => rfl⟩

/-- **Running in a frame.** -/
theorem inFrame {x : Eval (Tally σ) α} {y : Eval σ α} (skipped : Nat) (frame : Frame)
    (h : Agrees same α x y) :
    Agrees same α (Eval.inFrame skipped frame x) (Eval.inFrame skipped frame y) where
  leads m := by
    have inside := h.leads ⟨frame :: m.scope.drop skipped, m.world⟩
    unfold Adds counted at inside ⊢
    rwa [world_final_inFrame]
  agrees m quiet := by
    have inside := h.agrees ⟨frame :: m.scope.drop skipped, m.world⟩
    unfold counted at quiet inside
    rw [world_final_inFrame] at quiet
    have body := inside quiet
    unfold Eval.inFrame
    dsimp only
    rw [show y ⟨frame :: (dropped m).scope.drop skipped, (dropped m).world⟩ = _ from body.symm]
    cases x ⟨frame :: m.scope.drop skipped, m.world⟩ <;> rfl

/-- **Counting** makes no difference if there is nothing to count. -/
theorem recorded {x : Eval (Tally σ) (Option Value)} {y : Eval σ (Option Value)}
    (host : Host σ) (h : Agrees same _ x y) : Agrees same _ (Tally.recorded x) y := by
  have counts : ∀ r : Option Value, Agrees same _
      (do record r; return r : Eval (Tally σ) (Option Value)) (pure r : Eval σ (Option Value)) :=
    fun r => ⟨fun m => ⟨r.toList, rfl⟩, fun _ _ => rfl⟩
  have whole := (congruence host).bind h fun r _ => counts r
  rwa [bind_pure] at whole

/-- **Statements of a block** under two policies.  Only the value of a statement that carries
no return is treated differently, and such a value is counted. -/
theorem statements {unknown : UnknownFunctions} {p p' : BlockResults} (host : Host σ)
    (policy : same → p = p') {exec : Stmt → Eval (Tally σ) (Option Value)}
    {exec' : Stmt → Eval σ (Option Value)} (h : ∀ s, Agrees same _ (exec s) (exec' s))
    (counts : ∀ s, s.carriesReturn = false → ∀ m v m', exec s m = .ok (some v) m' →
      counted m' ≠ counted m) (ss : List Stmt) :
    Agrees same _ (Eval.statements ⟨p, unknown⟩ exec ss)
      (Eval.statements ⟨p', unknown⟩ exec' ss) := by
  have adds := (stable_adds host).congruence host id
  induction ss with
  | nil => exact (congruence host).pure none
  | cons s rest ih =>
    refine (h s).bind host (fun r _ => ?_) fun r m m' ran quiet => ?_
    · cases r with
      | none => exact ih.leads
      | some v =>
        dsimp only
        split
        · exact adds.pure (some v)
        · exact ih.leads
    · cases r with
      | none => exact ih
      | some v =>
        have ends : Config.endsBlock ⟨p, unknown⟩ s = Config.endsBlock ⟨p', unknown⟩ s := by
          cases carries : s.carriesReturn with
          | true => cases p <;> cases p' <;> simp [Config.endsBlock, carries]
          | false =>
            rcases quiet with sure | quiet
            · rw [policy sure]
            · exact absurd quiet (counts s carries m v m' ran)
        dsimp only
        rw [ends]
        split
        · exact (congruence host).pure (some v)
        · exact ih

end Agrees

/-! ## The evaluator -/

theorem ok_of_recorded {x : Eval (Tally σ) (Option Value)} {m m' : Machine (Tally σ)}
    {r : Option Value} (h : recorded x m = .ok r m') :
    ∃ m₁, x m = .ok r m₁ ∧ counted m' = r.toList ++ counted m₁ := by
  obtain ⟨r', m₁, ran, h⟩ := ok_of_bind h
  obtain ⟨_, m₂, noted, h⟩ := ok_of_bind h
  obtain ⟨rfl, rfl⟩ := ok_of_pure h
  cases noted
  exact ⟨m₁, ran, rfl⟩

/-- **A value of a statement that carries no return is counted**: the statement is a call. -/
theorem counted_ne {eval : Expr → Eval (Tally σ) (Option Value)}
    {run : Block → Eval (Tally σ) (Option Value)}
    {call : String → List Expr → Site → Eval (Tally σ) (Option Value)}
    (adds : ∀ name args site m, Adds m (final (call name args site m))) {fuel : Nat} {s : Stmt}
    (carries : s.carriesReturn = false) {m m' : Machine (Tally σ)} {v : Value}
    (h : stmtWith eval run (fun name args site => recorded (call name args site)) fuel s m =
      .ok (some v) m') : counted m' ≠ counted m := by
  obtain ⟨_, m₁, noted, h⟩ := ok_of_bind h
  have start : counted m₁ = counted m := by
    cases noted
    rfl
  cases s with
  | declare | reassign | define =>
    obtain ⟨_, _, -, h⟩ := ok_of_bind h
    cases (ok_of_pure h).1
  | empty => cases (ok_of_pure h).1
  | block | branch | loop | count | ret => cases carries
  | call name args site =>
    obtain ⟨m₂, called, same⟩ := ok_of_recorded h
    obtain ⟨new, added⟩ := adds name args site m₁
    rw [called] at added
    have added : counted m₂ = new ++ counted m₁ := added
    rw [same, added, start, ← List.append_assoc]
    intro quiet
    cases List.append_eq_nil_iff.mp (List.append_left_eq_self.mp quiet) with
    | intro nothing => cases nothing

section Evaluator

variable {same : Prop} {p p' : BlockResults} (host : Host σ) (unknown : UnknownFunctions)
  (policy : same → p = p')

include policy

/-- **The evaluator under two policies.**  The induction needs to know of statements that what
they give is counted, since that is why blocks agree. -/
theorem expr_and_stmt_agree (fuel : Nat) :
    (∀ e, Agrees same _ (expr host ⟨p, unknown⟩ fuel e) (Eval.expr host ⟨p', unknown⟩ fuel e)) ∧
    (∀ s, Agrees same _ (stmt host ⟨p, unknown⟩ fuel s) (Eval.stmt host ⟨p', unknown⟩ fuel s)) ∧
    ∀ s, s.carriesReturn = false → ∀ m v m', stmt host ⟨p, unknown⟩ fuel s m = .ok (some v) m' →
      counted m' ≠ counted m := by
  have c : Congruence host.tallied host id (Agrees same) := Agrees.congruence host
  induction fuel with
  | zero =>
    refine ⟨fun e => ?_, fun s => ?_, fun s _ m v m' ran => ?_⟩
    · unfold expr Eval.expr
      exact c.outOfFuel
    · unfold stmt Eval.stmt
      exact c.outOfFuel
    · unfold stmt at ran
      exact absurd ran not_ok_of_throw
  | succ fuel ih =>
    obtain ⟨exprs, stmts, counts⟩ := ih
    have evals : ∀ e, Agrees same _ (expr host ⟨p, unknown⟩ fuel e)
        (Eval.expr host ⟨p', unknown⟩ fuel (e.mapSites id)) := by
      intro e
      rw [Expr.mapSites_id]
      exact exprs e
    have runs : ∀ skipped frame (b : Block), Agrees same _
        (inFrame skipped frame (block host ⟨p, unknown⟩ fuel b))
        (inFrame skipped frame (Eval.block host ⟨p', unknown⟩ fuel (b.mapSites id))) := by
      intro skipped frame b
      rw [Block.mapSites_id]
      exact .inFrame skipped frame (.statements host policy stmts counts b.statements)
    have calls : ∀ name args site, Agrees same _
        (invoke host.tallied ⟨p, unknown⟩ (expr host ⟨p, unknown⟩ fuel)
          (block host ⟨p, unknown⟩ fuel) name args site)
        (invoke host ⟨p', unknown⟩ (Eval.expr host ⟨p', unknown⟩ fuel)
          (Eval.block host ⟨p', unknown⟩ fuel) name (args.map (Expr.mapSites id)) site) :=
      fun name args site => c.invoke (fun e _ => evals e)
        (fun skipped g frame _ => runs skipped frame g.body) ⟨p, unknown⟩ name site
    refine ⟨fun e => ?_, fun s => ?_, fun s carries m v m' ran => ?_⟩
    · have level := c.exprWith evals calls e
      rw [Expr.mapSites_id, ← Eval.expr_succ] at level
      unfold expr
      exact level
    · have level := c.stmtWith s evals (fun frame _ b _ => runs 0 frame b)
        (fun name args site _ => (calls name args site).recorded host)
        (fun _ _ _ => .modifyScope host _)
        (fun g _ => by rw [Function.mapSites_id]; exact .modifyScope host _) fuel
      rw [Stmt.mapSites_id, ← Eval.stmt_succ] at level
      unfold stmt
      exact level
    · unfold stmt at ran
      exact counted_ne (fun name args site => (calls name args site).leads) carries ran

theorem block_agrees (fuel : Nat) (b : Block) : Agrees same _ (block host ⟨p, unknown⟩ fuel b)
    (Eval.block host ⟨p', unknown⟩ fuel b) := by
  obtain ⟨-, stmts, counts⟩ := expr_and_stmt_agree host unknown policy fuel
  exact Agrees.statements host policy stmts counts b.statements

end Evaluator

end Tally

end Scriptlet
