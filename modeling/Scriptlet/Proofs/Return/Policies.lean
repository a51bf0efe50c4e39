import Scriptlet.Host.Standard
import Scriptlet.Proofs.Return.Tally
import Scriptlet.Proofs.Scope.Unchanged
import Scriptlet.Proofs.Survey.Basic

/-!
# The policies for block results

The two policies differ on call statements that give a value, and on nothing else.

## Main definitions

* `Standard.procedures` — the builtins that never give a value
* `Block.Procedural` — a program whose call statements call nothing but these

## Main statements

* `Tally.quiet_block` — nothing is counted in a procedural program
* `Eval.policies_agree` — runs under the two policies

## Design decisions

* A function that is called was defined somewhere in the program, so what is asked of the
  program is asked of all functions in the frames.  That is the invariant.
-/

namespace Scriptlet

open Eval

/-! ## Procedures -/

namespace Standard

/-- **Procedures**: the builtins that never give a value. -/
def procedures : List String := ["print", "array_set", "array_add"]

theorem ofName?_of_mem_procedures {name : String} (h : name ∈ procedures) :
    ∃ b, Builtin.ofName? name = some b ∧ (b = .print ∨ b = .arraySet ∨ b = .arrayAdd) := by
  simp only [procedures, List.mem_cons, List.not_mem_nil, or_false] at h
  rcases h with rfl | rfl | rfl
  · exact ⟨.print, by decide, by decide⟩
  · exact ⟨.arraySet, by decide, by decide⟩
  · exact ⟨.arrayAdd, by decide, by decide⟩

theorem run_procedure {b : Builtin} (h : b = .print ∨ b = .arraySet ∨ b = .arrayAdd)
    {args : List Value} {w w' : World Sink} {r : Option Value} (ran : run b args w = .ok r w') :
    r = none := by
  rcases h with rfl | rfl | rfl
  all_goals
    obtain ⟨_, _, -, ran⟩ := ok_of_bind ran
    obtain ⟨_, _, -, ran⟩ := ok_of_bind ran
    obtain ⟨_, _, -, ran⟩ := ok_of_bind ran
    exact (ok_of_pure ran).1.symm

/-- **Procedures give no value.** -/
theorem call_procedure {name : String} (h : name ∈ procedures) {args : List Value}
    {w w' : World Sink} {reply : Reply} (answered : call name args w = .ok reply w') :
    reply = .finished := by
  obtain ⟨b, known, isProcedure⟩ := ofName?_of_mem_procedures h
  unfold call at answered
  rw [known] at answered
  dsimp only at answered
  split at answered
  · obtain ⟨_, _, -, answered⟩ := ok_of_bind answered
    obtain ⟨r, _, ran, answered⟩ := ok_of_bind answered
    obtain ⟨rfl, -⟩ := ok_of_pure answered
    rw [run_procedure isProcedure ran]
    rfl
  · exact absurd answered not_ok_of_throw

end Standard

/-! ## Procedural programs -/

/-- **Writing.**  The statement `s` is `t` or is written inside of it, be it in the body of a
function. -/
inductive Stmt.WrittenIn (s : Stmt) : Stmt → Prop where
  /-- The statement itself. -/
  | self : WrittenIn s s
  /-- A statement of one of the blocks that are written in it. -/
  | within {t u : Stmt} {b : Block} :
      b ∈ t.bodies → u ∈ b.statements → WrittenIn s u → WrittenIn s t

/-- The statement is written somewhere in the block. -/
def Block.Writes (b : Block) (s : Stmt) : Prop := ∃ t ∈ b.statements, s.WrittenIn t

/-- **Procedural program.**  Every call statement calls a procedure, and no function has the
name of one. -/
structure Block.Procedural (b : Block) : Prop where
  /-- What is called. -/
  calls : ∀ name args site, b.Writes (.call name args site) → name ∈ Standard.procedures
  /-- What is defined. -/
  defines : ∀ g, b.Writes (.define g) → g.name ∉ Standard.procedures

/-- A block of procedural statements is procedural. -/
theorem Block.Procedural.of_statements {b : Block} (h : ∀ t ∈ b.statements,
    (∀ name args site, t = .call name args site → name ∈ Standard.procedures) ∧
    (∀ g, t = .define g → g.name ∉ Standard.procedures) ∧ ∀ b' ∈ t.bodies, b'.Procedural) :
    b.Procedural where
  calls name args site := by
    rintro ⟨t, mem, _ | ⟨written, inside, deep⟩⟩
    · exact (h _ mem).1 name args site rfl
    · exact ((h t mem).2.2 _ written).calls name args site ⟨_, inside, deep⟩
  defines g := by
    rintro ⟨t, mem, _ | ⟨written, inside, deep⟩⟩
    · exact (h _ mem).2.1 g rfl
    · exact ((h t mem).2.2 _ written).defines g ⟨_, inside, deep⟩

theorem Block.Procedural.inner {b b' : Block} (h : b.Procedural) {t : Stmt}
    (mem : t ∈ b.statements) (written : b' ∈ t.bodies) : b'.Procedural := by
  have writes : ∀ s, b'.Writes s → b.Writes s :=
    fun s ⟨u, inside, deep⟩ => ⟨t, mem, .within written inside deep⟩
  exact ⟨fun name args site w => h.calls name args site (writes _ w),
    fun g w => h.defines g (writes _ w)⟩

theorem Stmt.blocks_subset_bodies (s : Stmt) : s.blocks ⊆ s.bodies := by
  cases s with
  | define g => exact List.nil_subset _
  | declare | reassign | call | block | branch | loop | count | ret | empty =>
    exact List.Subset.refl _

/-- **Procedural scope.**  No function has the name of a procedure, and the bodies are
procedural. -/
def Scope.Procedural (scope : Scope) : Prop :=
  ∀ functions ∈ scope.map Frame.functions, ∀ name g, functions.find? name = some g →
    name ∉ Standard.procedures ∧ g.body.Procedural

namespace Scope.Procedural

variable {scope scope' : Scope}

theorem function? (h : scope.Procedural) {name : String} {skipped : Nat} {g : Function}
    (found : scope.function? name = some (skipped, g)) :
    name ∉ Standard.procedures ∧ g.body.Procedural := by
  induction scope generalizing skipped with
  | nil => cases found
  | cons frame outer ih =>
    obtain ⟨here, there⟩ := List.forall_mem_cons.mp h
    rw [Scope.function?] at found
    cases bound : frame.functions.find? name with
    | some g' =>
      rw [bound] at found
      cases found
      exact here name g bound
    | none =>
      rw [bound] at found
      obtain ⟨⟨n, g'⟩, further, same⟩ := Option.map_eq_some_iff.mp found
      cases same
      exact ih there further

/-- Variables do not matter. -/
theorem congr (h : scope.Procedural)
    (same : scope'.map Frame.functions = scope.map Frame.functions) : scope'.Procedural := by
  unfold Scope.Procedural
  rw [same]
  exact h

theorem cons (h : scope.Procedural) {frame : Frame} (fresh : frame.functions = []) :
    Scope.Procedural (frame :: scope) := by
  refine List.forall_mem_cons.mpr ⟨fun name g found => ?_, h⟩
  rw [fresh] at found
  cases found

theorem drop (h : scope.Procedural) (k : Nat) : Scope.Procedural (scope.drop k) := by
  intro functions mem
  rw [List.map_drop] at mem
  exact h functions (List.mem_of_mem_drop mem)

theorem take_append (h : scope.Procedural) (h' : scope'.Procedural) (k : Nat) :
    Scope.Procedural (scope.take k ++ scope') := by
  intro functions mem
  rw [List.map_append, List.map_take] at mem
  exact (List.mem_append.mp mem).elim (fun inner => h functions (List.mem_of_mem_take inner))
    (h' functions)

/-- The scope of a program that has not started. -/
theorem global : Scope.global.Procedural := by
  have nothing : Scope.Procedural [] := fun _ mem => absurd mem List.not_mem_nil
  exact nothing.cons rfl

theorem define (h : scope.Procedural) {g : Function} (name : g.name ∉ Standard.procedures)
    (body : g.body.Procedural) : Scope.Procedural (scope.define g) := by
  cases scope with
  | nil => exact h
  | cons frame outer =>
    obtain ⟨here, there⟩ := List.forall_mem_cons.mp h
    refine List.forall_mem_cons.mpr ⟨fun other g' found => ?_, there⟩
    rw [Frame.define, Bindings.find?_insert] at found
    split at found
    · next same =>
      cases found
      exact ⟨same ▸ name, body⟩
    · exact here other g' found

end Scope.Procedural

/-! ## Nothing is counted -/

namespace Tally

/-- **Quiet.**  On a procedural scope nothing is counted, and the scope stays procedural. -/
def Quiet (m m' : Machine (Tally Sink)) : Prop :=
  m.scope.Procedural → m'.scope.Procedural ∧ counted m' = counted m

theorem stable_quiet : Stable Standard.host.tallied Quiet where
  refl _ h := ⟨h, rfl⟩
  trans first second h :=
    have ⟨h', same⟩ := first h
    have ⟨h'', same'⟩ := second h'
    ⟨h'', same'.trans same⟩
  world _ _ _ h := ⟨h, rfl⟩
  assign assigned h := ⟨h.congr (Scope.unchanged_assign assigned).functions, rfl⟩
  ask name args site m h := by
    refine ⟨?_, counted_ask Standard.host name args site m⟩
    obtain ⟨scope, w⟩ := m
    unfold Eval.ask
    dsimp only
    cases Standard.host.tallied.call name args site w <;> exact h

variable {α : Type} {x : Eval (Tally Sink) α}

theorem quiet_inFrame (skipped : Nat) {frame : Frame} (fresh : frame.functions = [])
    (h : ∀ m, Quiet m (final (x m))) (m : Machine (Tally Sink)) :
    Quiet m (final (inFrame skipped frame x m)) := by
  intro start
  have inside : Scope.Procedural (frame :: m.scope.drop skipped) := (start.drop skipped).cons fresh
  obtain ⟨after, same⟩ := h ⟨frame :: m.scope.drop skipped, m.world⟩ inside
  unfold inFrame
  dsimp only
  cases ran : x ⟨frame :: m.scope.drop skipped, m.world⟩ with
  | ok a m' =>
    rw [ran] at after same
    exact ⟨start.take_append (after.drop 1) skipped, same⟩
  | error e m' =>
    rw [ran] at after same
    exact ⟨start.take_append (after.drop 1) skipped, same⟩

/-- Calls of procedures that the script does not define give nothing. -/
theorem eq_none_of_callHost {config : Config}
    {eval : Expr → Eval (Tally Sink) (Option Value)} {name : String} {args : List Expr}
    {site : Site} {r : Option Value} (known : name ∈ Standard.procedures)
    (h : (callHost Standard.host.tallied config eval name args site).Yields r) : r = none := by
  obtain ⟨vs, -, h⟩ := yields_bind h
  obtain ⟨reply, asked, h⟩ := yields_bind h
  have finished : reply = .finished := by
    obtain ⟨⟨scope, w⟩, m', asked⟩ := asked
    unfold ask Host.tallied at asked
    dsimp only at asked
    cases answered : Standard.host.call name vs site (w.mapHost Tally.host) with
    | ok reply' w' =>
      rw [answered] at asked
      cases asked
      exact Standard.call_procedure known answered
    | error fault w' =>
      rw [answered] at asked
      cases asked
  rw [finished] at h
  exact (yields_pure h).symm

section Calls

variable {config : Config} {eval : Expr → Eval (Tally Sink) (Option Value)}
  {run : Block → Eval (Tally Sink) (Option Value)} (evals : ∀ e m, Quiet m (final (eval e m)))

include evals

theorem quiet_callHost (name : String) (args : List Expr) (site : Site) (m : Machine (Tally Sink)) :
    Quiet m (final (callHost Standard.host.tallied config eval name args site m)) := by
  have arguments : ∀ e ∈ args, Leads Quiet _ (eval e) (eval (e.mapSites id)) := fun e _ => evals e
  exact (stable_quiet.congruence Standard.host.tallied id).callHost arguments config name site m

/-- **Calls.**  What they run is known from the scope, which is procedural. -/
theorem quiet_invoke (runs : ∀ b : Block, b.Procedural → ∀ m, Quiet m (final (run b m)))
    (name : String) (args : List Expr) (site : Site) (m : Machine (Tally Sink)) :
    Quiet m (final (invoke Standard.host.tallied config eval run name args site m)) := by
  intro start
  have c := stable_quiet.congruence Standard.host.tallied id
  cases found : m.scope.function? name with
  | none =>
    rw [invoke_of_no_function found]
    exact quiet_callHost evals name args site m start
  | some result =>
    obtain ⟨skipped, g⟩ := result
    have arguments : ∀ e ∈ args, Leads Quiet _ (eval e) (eval (e.mapSites id)) := fun e _ => evals e
    have body : ∀ frame : Frame, frame.HoldsOnly (g.parameters.map Parameter.name) →
        Leads Quiet _ (inFrame skipped frame (run g.body))
          (inFrame skipped frame (run (g.body.mapSites id))) :=
      fun frame holds =>
        quiet_inFrame skipped holds.functions (runs g.body (start.function? found).2)
    rw [invoke_of_function? found]
    exact c.map some (c.callFunction arguments body site) m start

/-- **Calls of procedures** give nothing that could be counted. -/
theorem quiet_recorded {name : String} (known : name ∈ Standard.procedures) (args : List Expr)
    (site : Site) (m : Machine (Tally Sink)) : Quiet m
      (final (recorded (invoke Standard.host.tallied config eval run name args site) m)) := by
  intro start
  have c := stable_quiet.congruence Standard.host.tallied id
  have absent : m.scope.function? name = none := by
    cases found : m.scope.function? name with
    | none => rfl
    | some result => exact absurd known (start.function? found).1
  have called : Leads Quiet _ (callHost Standard.host.tallied config eval name args site)
      (callHost Standard.host.tallied config eval name args site) :=
    quiet_callHost evals name args site
  have whole : Leads Quiet _ (recorded (callHost Standard.host.tallied config eval name args site))
      (callHost Standard.host.tallied config eval name args site >>= fun _ => pure none) := by
    refine c.bind called fun r yields => ?_
    rw [eq_none_of_callHost known yields]
    exact fun m start => ⟨start, rfl⟩
  have same : recorded (invoke Standard.host.tallied config eval run name args site) m =
      recorded (callHost Standard.host.tallied config eval name args site) m := by
    show EStateM.bind _ _ m = EStateM.bind _ _ m
    unfold EStateM.bind
    rw [invoke_of_no_function absent]
  rw [same]
  exact whole m start

end Calls

/-! ## The evaluator -/

variable (config : Config)

theorem quiet_expr_and_stmt (fuel : Nat) :
    (∀ e m, Quiet m (final (expr Standard.host config fuel e m))) ∧
    ∀ (b : Block) (s : Stmt), b.Procedural → s ∈ b.statements → ∀ m,
      Quiet m (final (stmt Standard.host config fuel s m)) := by
  have c := stable_quiet.congruence Standard.host.tallied id
  induction fuel with
  | zero =>
    refine ⟨fun e => ?_, fun b s _ _ => ?_⟩
    · unfold expr
      exact c.outOfFuel
    · unfold stmt
      exact c.outOfFuel
  | succ fuel ih =>
    obtain ⟨exprs, stmts⟩ := ih
    have evals : ∀ e, Leads Quiet _ (expr Standard.host config fuel e)
        (expr Standard.host config fuel (e.mapSites id)) := exprs
    have runs : ∀ b : Block, b.Procedural → Leads Quiet _ (block Standard.host config fuel b)
        (block Standard.host config fuel (b.mapSites id)) := by
      intro b procedural
      have listed : ∀ s ∈ b.statements, Leads Quiet _ (stmt Standard.host config fuel s)
          (stmt Standard.host config fuel (s.mapSites id)) :=
        fun s mem => stmts b s procedural mem
      exact c.statements listed
    let call := invoke Standard.host.tallied config (expr Standard.host config fuel)
      (block Standard.host config fuel)
    let callStatement (name : String) (args : List Expr) (site : Site) :=
      recorded (call name args site)
    have calls : ∀ name args site, Leads Quiet _ (call name args site)
        (call name (args.map (Expr.mapSites id)) (id site)) := quiet_invoke exprs runs
    refine ⟨fun e => ?_, fun b s procedural mem => ?_⟩
    · unfold expr
      exact c.exprWith evals calls e
    · have inner : ∀ frame : Frame, frame.functions = [] → ∀ b' ∈ s.blocks, Leads Quiet _
          (inFrame 0 frame (block Standard.host config fuel b'))
          (inFrame 0 frame (block Standard.host config fuel (b'.mapSites id))) :=
        fun frame fresh b' written =>
          quiet_inFrame 0 fresh (runs b' (procedural.inner mem (s.blocks_subset_bodies written)))
      have calls' : ∀ name args site, s = .call name args site →
          Leads Quiet _ (callStatement name args site)
            (callStatement name (args.map (Expr.mapSites id)) (id site)) := by
        intro name args site same
        subst same
        exact quiet_recorded exprs (procedural.calls name args site ⟨_, mem, .self⟩) args site
      have declares : s.binding → ∀ name v, Leads Quiet Unit
          (modifyScope (Scope.declare name v) : Eval (Tally Sink) Unit)
          (modifyScope (Scope.declare name v) : Eval (Tally Sink) Unit) :=
        fun _ name v m start => ⟨start.congr (Scope.functions_declare name v m.scope), rfl⟩
      have defines : ∀ g, s = .define g → Leads Quiet Unit
          (modifyScope (Scope.define g) : Eval (Tally Sink) Unit)
          (modifyScope (Scope.define (g.mapSites id)) : Eval (Tally Sink) Unit) := by
        intro g same m start
        subst same
        exact ⟨start.define (procedural.defines g ⟨_, mem, .self⟩)
          (procedural.inner mem (List.mem_singleton_self _)), rfl⟩
      unfold stmt
      exact c.stmtWith s evals inner calls' declares defines fuel

/-- **Nothing is counted in a procedural program**, with any functions around that are
procedural as well. -/
theorem quiet_block (fuel : Nat) {b : Block} (procedural : b.Procedural)
    (m : Machine (Tally Sink)) : Quiet m (final (block Standard.host config fuel b m)) := by
  have c := stable_quiet.congruence Standard.host.tallied id
  have listed : ∀ s ∈ b.statements, Leads Quiet _ (stmt Standard.host config fuel s)
      (stmt Standard.host config fuel (s.mapSites id)) :=
    fun s mem => (quiet_expr_and_stmt config fuel).2 b s procedural mem
  exact c.statements listed m

end Tally

/-! ## Two policies -/

/-- The machine with an empty tally. -/
def Machine.tally {σ : Type} (m : Machine σ) : Machine (Tally σ) := m.mapHost (Tally.mk [])

/-- **The policies differ on call statements that give a value, and on nothing else.**  With
any host, on any machine and with any fuel, the values that call statements give can be counted
without changing a run.  If none is counted in a run where only a `return` ends a block, the run
where any value does so is the same: it has the same result or error and leaves the same
machine.  In a procedural program none is counted, so with the standard host it runs in the same
way under both policies, provided that this holds of the functions around it as well. -/
theorem Eval.policies_agree (unknown : UnknownFunctions) (fuel : Nat) (b : Block) :
    (∀ {σ : Type} (host : Host σ) (m : Machine σ),
      let counting := Tally.block host ⟨.explicitReturn, unknown⟩ fuel b m.tally
      mapState Tally.dropped counting = block host ⟨.explicitReturn, unknown⟩ fuel b m ∧
      ((final counting).world.host.values = [] →
        block host ⟨.firstValue, unknown⟩ fuel b m =
          block host ⟨.explicitReturn, unknown⟩ fuel b m)) ∧
    (b.Procedural → ∀ m : Machine Sink, m.scope.Procedural →
      block Standard.host ⟨.firstValue, unknown⟩ fuel b m =
        block Standard.host ⟨.explicitReturn, unknown⟩ fuel b m) := by
  have agree : ∀ {σ : Type} (host : Host σ) (m : Machine σ),
      let counting := Tally.block host ⟨.explicitReturn, unknown⟩ fuel b m.tally
      mapState Tally.dropped counting = block host ⟨.explicitReturn, unknown⟩ fuel b m ∧
      ((final counting).world.host.values = [] →
        block host ⟨.firstValue, unknown⟩ fuel b m =
          block host ⟨.explicitReturn, unknown⟩ fuel b m) := by
    intro σ host m counting
    have one : Tally.Agrees True _ (Tally.block host ⟨.explicitReturn, unknown⟩ fuel b)
        (block host ⟨.explicitReturn, unknown⟩ fuel b) :=
      Tally.block_agrees host unknown (fun _ => rfl) fuel b
    have two : Tally.Agrees False _ (Tally.block host ⟨.explicitReturn, unknown⟩ fuel b)
        (block host ⟨.firstValue, unknown⟩ fuel b) :=
      Tally.block_agrees host unknown False.elim fuel b
    have erased := one.agrees m.tally (.inl trivial)
    refine ⟨erased, fun quiet => ?_⟩
    exact (two.agrees m.tally (.inr quiet)).symm.trans erased
  refine ⟨agree, fun procedural m start => ?_⟩
  have quiet := (Tally.quiet_block ⟨.explicitReturn, unknown⟩ fuel procedural m.tally start).2
  exact (agree Standard.host m).2 quiet

/-- The function `bool f() { print("a"); return true; }`. -/
def Eval.greet : Function where
  name := "f"
  returnType := ⟨.bool, false⟩
  parameters := []
  body := ⟨[.call "print" [.literal (.text "a") .unknown] .unknown,
    .ret (some (.literal (.boolean true) .unknown)) .unknown], .unknown⟩
  site := .unknown

/-- The definition of `f` and the call `print(f());`. -/
def Eval.greeting : Block :=
  ⟨[.define greet, .call "print" [.call "f" [] .unknown] .unknown], .unknown⟩

/-- The call `nope();` of a function that nobody knows. -/
def Eval.noping : Block := ⟨[.call "nope" [] .unknown], .unknown⟩

/-- In `greeting` the function `f` has a value, but it is called where a value is asked for.  In
`noping` the call has no value where it is ignored. -/
theorem Eval.policies_agree_of_greeting :
    let start : Machine Sink := .start (.ofLimit none) .silent
    (greeting.Procedural ∧ start.scope.Procedural ∧
      block Standard.host ⟨.firstValue, .error⟩ 9 greeting start =
        block Standard.host ⟨.explicitReturn, .error⟩ 9 greeting start) ∧
    (final (Tally.block Standard.host ⟨.explicitReturn, .ignore⟩ 9 noping
      start.tally)).world.host.values = [] ∧
    block Standard.host ⟨.firstValue, .ignore⟩ 9 noping start =
      block Standard.host ⟨.explicitReturn, .ignore⟩ 9 noping start := by
  intro start
  have body : greet.body.Procedural :=
    .of_statements (by simp [greet, Standard.procedures, Stmt.bodies, Stmt.blocks])
  have procedural : greeting.Procedural := by
    refine .of_statements (List.forall_mem_cons.mpr ⟨?_, List.forall_mem_singleton.mpr ?_⟩)
    · exact ⟨by simp, by simp [greet, Standard.procedures], List.forall_mem_singleton.mpr body⟩
    · simp [Standard.procedures, Stmt.bodies, Stmt.blocks]
  have quiet : (final (Tally.block Standard.host ⟨.explicitReturn, .ignore⟩ 9 noping
      start.tally)).world.host.values = [] := by rfl
  have same := (policies_agree .error 9 greeting).2 procedural start .global
  have same' := ((policies_agree .ignore 9 noping).1 Standard.host start).2 quiet
  exact ⟨⟨procedural, .global, same⟩, quiet, same'⟩

end Scriptlet
