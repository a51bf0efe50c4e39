import Scriptlet.Proofs.Watch.Basic

/-!
# A watched run is the run

Forgetting the watch after a watched evaluation gives the evaluation without it.

## Main definitions

* `Watch.Erases` — a watched evaluation is an unwatched one with a watch on top

## Main statements

* `Watch.expr_erases`, `Watch.stmt_erases`, `Watch.block_erases` — the evaluator
* `Machine.forget_executeWatched` — sequences of programs

## Design decisions

* There is one lemma for each primitive of the monad and one for each construct.
  The constructs are the same functions on both sides, so their lemmas only follow
  the `do` block.
-/

namespace Scriptlet

namespace Watch

open Eval

variable {σ α β : Type}

/-- The outcome of a watched evaluation, without the watch. -/
def forgetWatch : EStateM.Result Stop (Machine (Watch σ)) α → EStateM.Result Stop (Machine σ) α
  | .ok a m => .ok a m.forget
  | .error e m => .error e m.forget

/-- **Erasure.**  Without the watch, `x` is `y`. -/
def Erases (x : Eval (Watch σ) α) (y : Eval σ α) : Prop :=
  ∀ m, forgetWatch (x m) = y m.forget

/-! ## Primitives -/

namespace Erases

theorem pure (a : α) : Erases (pure a : Eval (Watch σ) α) (pure a) := fun _ => rfl

theorem fail (fault : Fault) (site : Site) :
    Erases (Eval.fail fault site : Eval (Watch σ) α) (Eval.fail fault site) := fun _ => rfl

theorem bind {x : Eval (Watch σ) α} {y : Eval σ α} {f : α → Eval (Watch σ) β} {g : α → Eval σ β}
    (first : Erases x y) (second : ∀ a, Erases (f a) (g a)) : Erases (x >>= f) (y >>= g) := by
  intro m
  have hx := first m
  show forgetWatch (EStateM.bind x f m) = EStateM.bind y g m.forget
  unfold EStateM.bind
  rw [← hx]
  cases x m with
  | ok a m' => exact second a m'
  | error e m' => rfl

theorem map {x : Eval (Watch σ) α} {y : Eval σ α} (f : α → β) (h : Erases x y) :
    Erases (f <$> x) (f <$> y) := by
  intro m
  have hx := h m
  show forgetWatch (EStateM.map f x m) = EStateM.map f y m.forget
  unfold EStateM.map
  rw [← hx]
  cases x m with
  | ok a m' => rfl
  | error e m' => rfl

theorem check (site : Site) (r : Except Fault α) :
    Erases (Eval.check site r : Eval (Watch σ) α) (Eval.check site r) := by
  cases r with
  | ok a => exact .pure a
  | error fault => exact .fail fault site

theorem scope : Erases (Eval.scope : Eval (Watch σ) Scope) Eval.scope := fun _ => rfl

theorem heap : Erases (Eval.heap : Eval (Watch σ) Heap) Eval.heap := fun _ => rfl

theorem modifyScope (f : Scope → Scope) :
    Erases (Eval.modifyScope f : Eval (Watch σ) Unit) (Eval.modifyScope f) := fun _ => rfl

theorem modifyHeap (f : Heap → Heap) :
    Erases (Eval.modifyHeap f : Eval (Watch σ) Unit) (Eval.modifyHeap f) := fun _ => rfl

theorem note (e : Event) : Erases (Eval.note e : Eval (Watch σ) Unit) (Eval.note e) := fun _ => rfl

theorem newArray (items : List Value) :
    Erases (Eval.newArray items : Eval (Watch σ) Value) (Eval.newArray items) := fun _ => rfl

theorem ask (host : Host σ) (name : String) (args : List Value) (site : Site) :
    Erases (Eval.ask host.watched name args site) (Eval.ask host name args site) := by
  intro m
  obtain ⟨scope, heap, ⟨types, aside, past, state⟩, log⟩ := m
  simp only [Eval.ask, Host.watched, Machine.forget]
  cases host.call name args site ⟨heap, state, log⟩ with
  | ok reply w => rfl
  | error fault w => rfl

theorem inChild {x : Eval (Watch σ) α} {y : Eval σ α} (frame : Frame) (h : Erases x y) :
    Erases (Eval.inChild frame x) (Eval.inChild frame y) := by
  refine scope.bind fun s => (note _).bind fun _ => ?_
  intro m
  have hx := h ⟨frame :: m.scope, m.world⟩
  simp only [Eval.inFrame, Machine.forget, List.drop_zero] at hx ⊢
  rw [← hx]
  cases x ⟨frame :: m.scope, m.world⟩ with
  | ok a m' => rfl
  | error e m' => rfl

theorem inFrame {x : Eval (Watch σ) α} {y : Eval σ α} (skipped : Nat) (frame : Frame)
    (types : Bindings TypeSpec) (h : Erases x y) :
    Erases (Watch.inFrame skipped frame types x) (Eval.inFrame skipped frame y) := by
  intro m
  have hx := h (m.enter skipped frame types)
  have opened : (m.enter skipped frame types).forget =
      ⟨frame :: m.scope.drop skipped, m.forget.world⟩ := rfl
  rw [opened] at hx
  simp only [Watch.inFrame, Eval.inFrame, Machine.forget] at hx ⊢
  rw [← hx]
  cases x (m.enter skipped frame types) with
  | ok a m' => rfl
  | error e m' => rfl

theorem inside {x : Eval (Watch σ) α} {y : Eval σ α} (types : Bindings TypeSpec)
    (h : Erases x y) : Erases (Watch.inside types x) y := by
  intro m
  have hx := h ({ m with
      world.host.types := types :: m.world.host.types
      world.host.aside := ([], []) :: m.world.host.aside })
  simp only [Watch.inside, Machine.forget] at hx ⊢
  rw [← hx]
  split <;> rename_i result <;> rw [result] <;> rfl

theorem looking {x : Eval (Watch σ) α} {y : Eval σ α} (h : Erases x y) :
    Erases (Watch.looking x) y := by
  intro m
  have hx : forgetWatch (x m.look) = y m.forget := h m.look
  unfold Watch.looking
  rw [← hx]
  cases x m.look with
  | ok a m' => rfl
  | error e m' => rfl

theorem declared {f : Unit → Eval (Watch σ) α} {y : Eval σ α} (name : String) (spec : TypeSpec)
    (h : Erases (f ()) y) : Erases (Watch.declared name spec >>= f) y :=
  fun _ => h _

end Erases

/-! ## Constructs -/

section Constructs

variable {eval : Expr → Eval (Watch σ) (Option Value)} {eval' : Expr → Eval σ (Option Value)}
  {run : Block → Eval (Watch σ) (Option Value)} {run' : Block → Eval σ (Option Value)}

theorem demand_erases (h : ∀ e, Erases (eval e) (eval' e)) (e : Expr) :
    Erases (demand eval e) (demand eval' e) := by
  refine (h e).bind fun r => ?_
  cases r with
  | some v => exact .pure v
  | none => exact .fail _ _

theorem demandAll_erases (h : ∀ e, Erases (eval e) (eval' e)) (es : List Expr) :
    Erases (demandAll eval es) (demandAll eval' es) := by
  induction es with
  | nil => exact .pure []
  | cons e es ih => exact (demand_erases h e).bind fun v => ih.bind fun vs => .pure (v :: vs)

theorem demandNumber_erases (h : ∀ e, Erases (eval e) (eval' e)) (e : Expr) :
    Erases (demandNumber eval e) (demandNumber eval' e) :=
  (demand_erases h e).bind fun _ => Erases.heap.bind fun _ => .check _ _

theorem demandBoolean_erases (h : ∀ e, Erases (eval e) (eval' e)) (e : Expr) :
    Erases (demandBoolean eval e) (demandBoolean eval' e) :=
  (demand_erases h e).bind fun _ => Erases.heap.bind fun _ => .check _ _

theorem lookup_erases (name : String) (site : Site) :
    Erases (lookup name site : Eval (Watch σ) Value) (lookup name site) := by
  refine Erases.scope.bind fun scope => ?_
  cases scope.find? name with
  | some v => exact .pure v
  | none => exact .fail _ _

theorem applyUnary_erases (h : ∀ e, Erases (eval e) (eval' e)) (op : UnaryOp) (e : Expr)
    (site : Site) : Erases (applyUnary eval op e site) (applyUnary eval' op e site) :=
  (demand_erases h e).bind fun _ => Erases.heap.bind fun _ => .check _ _

theorem applyBinary_erases (h : ∀ e, Erases (eval e) (eval' e)) (op : BinaryOp) (l r : Expr)
    (site : Site) : Erases (applyBinary eval op l r site) (applyBinary eval' op l r site) :=
  (demand_erases h l).bind fun _ => (demand_erases h r).bind fun _ =>
    Erases.heap.bind fun _ => .check _ _

theorem bindVariable_erases (name : String) (v : Value) :
    Erases (bindVariable name v : Eval (Watch σ) Unit) (bindVariable name v) :=
  Erases.scope.bind fun _ => (Erases.note _).bind fun _ => .modifyScope _

theorem declare_erases (h : ∀ e, Erases (eval e) (eval' e)) (type : DeclaredType) (name : String)
    (value : Expr) (site : Site) :
    Erases (declare eval type name value site) (declare eval' type name value site) :=
  (h value).bind fun _ => Erases.heap.bind fun _ => (Erases.check _ _).bind fun _ =>
    (Erases.modifyHeap _).bind fun _ => bindVariable_erases _ _

theorem reassign_erases (h : ∀ e, Erases (eval e) (eval' e)) (name : String) (nameSite : Site)
    (value : Expr) (site : Site) :
    Erases (reassign eval name nameSite value site) (reassign eval' name nameSite value site) := by
  refine (h value).bind fun r => Erases.scope.bind fun scope => ?_
  cases scope.find? name with
  | none => exact .fail _ _
  | some held =>
    refine Erases.heap.bind fun now => ?_
    split
    · exact (Erases.modifyHeap _).bind fun _ => .modifyScope _
    · exact .fail _ _

theorem statements_erases (config : Config) {exec : Stmt → Eval (Watch σ) (Option Value)}
    {exec' : Stmt → Eval σ (Option Value)} (h : ∀ s, Erases (exec s) (exec' s))
    (ss : List Stmt) : Erases (statements config exec ss) (statements config exec' ss) := by
  induction ss with
  | nil => exact .pure none
  | cons s ss ih =>
    refine (h s).bind fun r => ?_
    cases r with
    | some v =>
      dsimp only
      split
      · exact .pure _
      · exact ih
    | none => exact ih

mutual

theorem branch_erases (h : ∀ e, Erases (eval e) (eval' e)) (hrun : ∀ b, Erases (run b) (run' b)) :
    ∀ chain, Erases (branch eval run chain) (branch eval' run' chain)
  | ⟨condition, body, next, _⟩ => by
    unfold branch
    refine (demandBoolean_erases h condition).bind fun holds => ?_
    cases holds with
    | true => exact .inChild _ (hrun body)
    | false => exact otherwise_erases h hrun next

theorem otherwise_erases (h : ∀ e, Erases (eval e) (eval' e))
    (hrun : ∀ b, Erases (run b) (run' b)) :
    ∀ next, Erases (otherwise eval run next) (otherwise eval' run' next)
  | .done => .pure none
  | .elif link => by
    unfold otherwise
    exact branch_erases h hrun link
  | .last body _ => .inChild _ (hrun body)

end

theorem repeatWhile_erases {condition : Eval (Watch σ) Bool} {condition' : Eval σ Bool}
    {body : Eval (Watch σ) (Option Value)} {body' : Eval σ (Option Value)}
    (hcondition : Erases condition condition') (hbody : Erases body body') (fuel : Nat) :
    Erases (repeatWhile condition body fuel) (repeatWhile condition' body' fuel) := by
  induction fuel with
  | zero => exact fun _ => rfl
  | succ fuel ih =>
    refine hcondition.bind fun holds => ?_
    cases holds with
    | false => exact .pure none
    | true =>
      refine hbody.bind fun r => ?_
      cases r with
      | some v => exact .pure _
      | none => exact ih

theorem countFrom_erases (stop step : Number) {body : Number → Eval (Watch σ) (Option Value)}
    {body' : Number → Eval σ (Option Value)} (hbody : ∀ x, Erases (body x) (body' x))
    (fuel : Nat) (counter : Number) :
    Erases (countFrom stop step body fuel counter) (countFrom stop step body' fuel counter) := by
  induction fuel generalizing counter with
  | zero => exact fun _ => rfl
  | succ fuel ih =>
    unfold countFrom
    split
    · refine (hbody counter).bind fun r => ?_
      cases r with
      | some v => exact .pure _
      | none => exact ih _
    · exact .pure none

theorem count_erases (h : ∀ e, Erases (eval e) (eval' e)) (hrun : ∀ b, Erases (run b) (run' b))
    (start stop step : Expr) (body : Block) (site : Site) (fuel : Nat) :
    Erases (count eval run start stop step body site fuel)
      (count eval' run' start stop step body site fuel) :=
  (demandNumber_erases h start).bind fun _ => (demandNumber_erases h stop).bind fun _ =>
    (demandNumber_erases h step).bind fun _ => (Erases.check _ _).bind fun _ =>
      (Erases.note _).bind fun _ =>
        countFrom_erases _ _ (fun x => .inChild (counterFrame x) (hrun body)) _ _

theorem bindArguments_erases (h : ∀ e, Erases (eval e) (eval' e)) (function : String)
    (bound : List (Parameter × Expr)) (frame : Frame) :
    Erases (bindArguments eval function bound frame) (bindArguments eval' function bound frame) := by
  induction bound generalizing frame with
  | nil => exact .pure frame
  | cons pair rest ih =>
    obtain ⟨p, e⟩ := pair
    refine (demand_erases h e).bind fun v => Erases.heap.bind fun now => ?_
    split
    · exact (Erases.modifyHeap _).bind fun _ => ih _
    · exact .fail _ _

theorem callFunction_erases (h : ∀ e, Erases (eval e) (eval' e))
    (hrun : ∀ b, Erases (run b) (run' b)) (f : Function) (skipped : Nat) (args : List Expr)
    (site : Site) :
    Erases (Watch.callFunction eval run f skipped args site)
      (Eval.callFunction eval' run' f skipped args site) := by
  refine (Erases.check _ _).bind fun _ => Erases.scope.bind fun scope =>
    (Erases.note _).bind fun _ => (Erases.note _).bind fun _ =>
      (bindArguments_erases h _ _ _).bind fun frame =>
        (Erases.inFrame _ _ _ (hrun f.body)).bind fun r => Erases.heap.bind fun now => ?_
  split
  · exact .pure _
  · exact .fail _ _

theorem callHost_erases (host : Host σ) (config : Config) (h : ∀ e, Erases (eval e) (eval' e))
    (name : String) (args : List Expr) (site : Site) :
    Erases (callHost host.watched config eval name args site)
      (callHost host config eval' name args site) := by
  refine (demandAll_erases h args).bind fun vs => (Erases.ask host _ _ _).bind fun reply => ?_
  cases reply with
  | returned v => exact .pure _
  | finished => exact .pure _
  | unrecognized =>
    dsimp only
    cases config.unknownFunctions with
    | error => exact .fail _ _
    | ignore => exact (Erases.note _).bind fun _ => .pure none

theorem invoke_erases (host : Host σ) (config : Config) (h : ∀ e, Erases (eval e) (eval' e))
    (hrun : ∀ b, Erases (run b) (run' b)) (name : String) (args : List Expr) (site : Site) :
    Erases (Watch.invoke host config eval run name args site)
      (Eval.invoke host config eval' run' name args site) := by
  refine Erases.scope.bind fun scope => ?_
  cases scope.function? name with
  | some found => exact .map some (callFunction_erases h hrun _ _ _ _)
  | none => exact callHost_erases host config h _ _ _

end Constructs

/-! ## The evaluator -/

section Evaluator

variable (host : Host σ) (config : Config)

mutual

/-- **Watched evaluation is evaluation.** -/
theorem expr_erases :
    ∀ fuel e, Erases (Watch.expr host config fuel e) (Eval.expr host config fuel e)
  | 0, _ => fun _ => rfl
  | fuel + 1, e => by
    have eval := expr_erases fuel
    have run : ∀ b : Block, Erases
        (statements config (Watch.stmt host config fuel) b.statements)
        (statements config (Eval.stmt host config fuel) b.statements) :=
      fun b => statements_erases config (stmt_erases fuel) b.statements
    unfold Watch.expr Eval.expr
    refine .looking ((Erases.note _).bind fun _ => ?_)
    cases e with
    | literal value site => exact .pure _
    | var name site => exact .map some (lookup_erases name site)
    | unary op operand site => exact .map some (applyUnary_erases eval op operand site)
    | binary op left right site => exact .map some (applyBinary_erases eval op left right site)
    | array elements site =>
      exact (demandAll_erases eval elements).bind fun vs => .map some (.newArray vs)
    | call name args site => exact invoke_erases host config eval run name args site

/-- **Watched execution is execution.** -/
theorem stmt_erases :
    ∀ fuel s, Erases (Watch.stmt host config fuel s) (Eval.stmt host config fuel s)
  | 0, _ => fun _ => rfl
  | fuel + 1, s => by
    have eval := expr_erases fuel
    have run : ∀ b : Block, Erases
        (statements config (Watch.stmt host config fuel) b.statements)
        (statements config (Eval.stmt host config fuel) b.statements) :=
      fun b => statements_erases config (stmt_erases fuel) b.statements
    unfold Watch.stmt Eval.stmt
    refine .looking ((Erases.note _).bind fun _ => ?_)
    cases s with
    | declare type name nameSite value site =>
      exact (declare_erases eval type name value site).bind fun _ => .declared name _ (.pure none)
    | reassign name nameSite value site =>
      exact (reassign_erases eval name nameSite value site).bind fun _ => .pure none
    | define f => exact (Erases.modifyScope _).bind fun _ => .pure none
    | call name args site => exact invoke_erases host config eval run name args site
    | block body => exact .inChild _ (.inside [] (run body))
    | branch chain => exact branch_erases eval (fun b => .inside [] (run b)) chain
    | loop condition body site =>
      exact repeatWhile_erases (demandBoolean_erases eval condition)
        (.inChild _ (.inside [] (run body))) fuel
    | count start stop step body site =>
      exact count_erases eval (fun b => .inside counterTypes (run b)) start stop step body site fuel
    | ret value site =>
      cases value with
      | some value => exact .map some (demand_erases eval value)
      | none => exact .pure _
    | empty site => exact .pure none

end

theorem block_erases (fuel : Nat) (b : Block) :
    Erases (Watch.block host config fuel b) (Eval.block host config fuel b) :=
  statements_erases config (stmt_erases host config fuel) b.statements

end Evaluator

end Watch

/-- **Sequences of programs** end the same with and without the watch. -/
theorem Machine.forget_executeWatched {σ : Type} (host : Host σ) (m : Machine (Watch σ))
    (runs : List Run) :
    (m.executeWatched host runs).forget = m.forget.execute host runs := by
  induction runs generalizing m with
  | nil => rfl
  | cons r runs ih =>
    have h := Watch.block_erases host r.config r.fuel r.program m
    have first : (Eval.final (Watch.block host r.config r.fuel r.program m)).forget =
        Eval.final (Eval.block host r.config r.fuel r.program m.forget) := by
      rw [← h]
      cases Watch.block host r.config r.fuel r.program m with
      | ok a m' => rfl
      | error e m' => rfl
    -- The next program starts with what the watched one has left.
    show ((Eval.final _).executeWatched host runs).forget = Machine.execute host _ runs
    rw [ih, first]

end Scriptlet
