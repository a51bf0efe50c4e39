import Scriptlet.Proofs.Return.Reference
import Scriptlet.Proofs.Sites.Tree
import Scriptlet.Proofs.State

/-!
# Relations between evaluations

The constructs of the language only put primitives of the evaluator one behind another.
So a relation between evaluations that is kept by the primitives and by sequencing is
kept by every construct.  Said once for any such relation, this serves whatever relates a
run to another one, or says of one run what it leaves alone.

## Main definitions

* `Eval.Yields` — an evaluation can end with a result
* `Congruence` — a relation that the primitives and sequencing keep
* `Frame.HoldsOnly` — a frame with exactly the given variables, and no functions
* `Eval.statementsFrom`, `Eval.branchFrom` — constructs that know the number of their parts

## Main statements

* `Congruence.declare`, `Congruence.branchFrom`, `Congruence.callFunction`, … — one for each
  construct

## Design decisions

* The two evaluations may have different hosts, and the trees may differ in their sites:
  those on the right are given by a function from those on the left.
* Nothing is asked of opening a frame or of binding a name in the innermost one.  A
  construct that opens frames takes as an assumption what holds of each of them.
* In a sequence the second part has to be related only for results that the first part can
  end with.  That is how the frame of a call is known to hold the parameters and no more.
-/

namespace Scriptlet

open Eval

variable {σ τ : Type}

/-- **Yielding.**  The evaluation can end with the result `a`. -/
def Eval.Yields {α : Type} (x : Eval σ α) (a : α) : Prop := ∃ m m', x m = .ok a m'

/-- **Congruence.**  A relation between the evaluations with two hosts that sequencing and
the primitives keep, where `f` gives the sites on the right. -/
structure Congruence (host : Host σ) (host' : Host τ) (f : Site → Site)
    (Rel : (α : Type) → Eval σ α → Eval τ α → Prop) : Prop where
  /-- A result without an effect. -/
  pure : ∀ {α : Type} (a : α), Rel α (pure a) (pure a)
  /-- One evaluation behind another. -/
  bind : ∀ {α β : Type} {x : Eval σ α} {y : Eval τ α} {g : α → Eval σ β} {h : α → Eval τ β},
    Rel α x y → (∀ a, x.Yields a → Rel β (g a) (h a)) → Rel β (x >>= g) (y >>= h)
  /-- A fault. -/
  fail : ∀ {α : Type} (fault : Fault) (site : Site),
    Rel α (Eval.fail fault site) (Eval.fail fault (f site))
  /-- The end of the fuel. -/
  outOfFuel : ∀ {α : Type}, Rel α Eval.outOfFuel Eval.outOfFuel
  /-- Reading the scope. -/
  scope : ∀ {α : Type} {g : Scope → Eval σ α} {h : Scope → Eval τ α},
    (∀ s, Rel α (g s) (h (s.mapSites f))) → Rel α (Eval.scope >>= g) (Eval.scope >>= h)
  /-- Reading the heap. -/
  heap : Rel Heap Eval.heap Eval.heap
  /-- Changing the heap. -/
  modifyHeap : ∀ change : Heap → Heap, Rel Unit (Eval.modifyHeap change) (Eval.modifyHeap change)
  /-- Giving a new value to a variable that is bound. -/
  assign : ∀ (name : String) (v : Value),
    Rel Unit (modifyScope fun s => (s.assign? name v).getD s)
      (modifyScope fun s => (s.assign? name v).getD s)
  /-- Logging. -/
  note : ∀ e : Event, Rel Unit (Eval.note e) (Eval.note (e.mapSites f))
  /-- Creating an array. -/
  newArray : ∀ items : List Value, Rel Value (Eval.newArray items) (Eval.newArray items)
  /-- Asking the host. -/
  ask : ∀ (name : String) (args : List Value) (site : Site),
    Rel Reply (Eval.ask host name args site) (Eval.ask host' name args (f site))

/-! ## Frames of calls -/

/-- **Fresh frame.**  A frame with exactly the given variables, and no functions. -/
structure Frame.HoldsOnly (names : List String) (frame : Frame) : Prop where
  /-- The variables are those. -/
  vars : ∀ name, name ∈ frame.vars.names ↔ name ∈ names
  /-- There are no functions. -/
  functions : frame.functions = []

namespace Frame

theorem holdsOnly_empty : empty.HoldsOnly [] := ⟨fun _ => Iff.rfl, rfl⟩

theorem holdsOnly_counterFrame (counter : Number) :
    (counterFrame counter).HoldsOnly [counterName] :=
  ⟨fun _ => Iff.rfl, rfl⟩

theorem HoldsOnly.declare {names : List String} {frame : Frame} (h : frame.HoldsOnly names)
    (name : String) (v : Value) : (frame.declare name v).HoldsOnly (names ++ [name]) := by
  refine ⟨fun other => ?_, h.functions⟩
  have known : name ∈ frame.vars.names ↔ name ∈ names := h.vars name
  rw [Frame.declare, Bindings.names_insert, List.mem_append, List.mem_singleton, ← h.vars other]
  split
  · next bound =>
    constructor
    · exact .inl
    · rintro (old | rfl)
      · exact old
      · exact bound
  · rw [List.mem_append, List.mem_singleton]

end Frame

namespace Eval

theorem yields_bind {α β : Type} {x : Eval σ α} {g : α → Eval σ β} {b : β}
    (h : (x >>= g).Yields b) : ∃ a, x.Yields a ∧ (g a).Yields b := by
  obtain ⟨m, m'', ended⟩ := h
  obtain ⟨a, m', first, second⟩ := ok_of_bind ended
  exact ⟨a, ⟨m, m', first⟩, ⟨m', m'', second⟩⟩

theorem yields_pure {α : Type} {a b : α} (h : Yields (pure a : Eval σ α) b) : a = b :=
  have ⟨_, _, ended⟩ := h
  (ok_of_pure ended).1

theorem not_yields_fail {α : Type} {fault : Fault} {site : Site} {a : α} :
    ¬ Yields (fail fault site : Eval σ α) a :=
  fun ⟨_, _, ended⟩ => not_ok_of_throw ended

theorem yields_check {α : Type} {site : Site} {r : Except Fault α} {a : α}
    (h : Yields (check site r : Eval σ α) a) : r = .ok a := by
  cases r with
  | ok b => rw [yields_pure h]
  | error fault => exact absurd h not_yields_fail

/-- **The frame of a call** holds the parameters that are bound, besides what it held. -/
theorem holdsOnly_of_bindArguments {eval : Expr → Eval σ (Option Value)} {function : String}
    {bound : List (Parameter × Expr)} {before after : Frame} {names : List String}
    (h : before.HoldsOnly names) (ended : (bindArguments eval function bound before).Yields after) :
    after.HoldsOnly (names ++ bound.map fun pair => pair.1.name) := by
  induction bound generalizing before names with
  | nil =>
    cases yields_pure ended
    simpa using h
  | cons pair rest ih =>
    obtain ⟨p, e⟩ := pair
    obtain ⟨v, -, ended⟩ := yields_bind ended
    obtain ⟨now, -, ended⟩ := yields_bind ended
    split at ended
    · obtain ⟨-, -, ended⟩ := yields_bind ended
      simpa using ih (h.declare p.name v) ended
    · exact absurd ended not_yields_fail

end Eval

theorem Operation.length_eq_of_checkArity {name : String} {m n : Nat}
    (h : checkArity name m n = .ok ()) : m = n := by
  unfold checkArity at h
  split at h
  · assumption
  · cases h

/-! ## Numbered parts -/

mutual

/-- The conditions of an if chain. -/
def Conditional.conditions : Conditional → List Expr
  | ⟨condition, _, next, _⟩ => condition :: next.conditions

/-- The conditions of the rest of an if chain. -/
def Otherwise.conditions : Otherwise → List Expr
  | .done | .last .. => []
  | .elif link => link.conditions

end

namespace Eval

/-- **Statements of a block**, numbered from `i` on, as `Eval.statements`. -/
def statementsFrom (config : Config) (exec : Nat → Stmt → Eval σ (Option Value)) :
    Nat → List Stmt → Eval σ (Option Value)
  | _, [] => return none
  | i, s :: rest => do
    match ← exec i s with
    | some v =>
      if config.endsBlock s then return some v else statementsFrom config exec (i + 1) rest
    | none => statementsFrom config exec (i + 1) rest

theorem statementsFrom_eq (config : Config) (exec : Stmt → Eval σ (Option Value)) (i : Nat)
    (ss : List Stmt) :
    statementsFrom config (fun _ => exec) i ss = statements config exec ss := by
  induction ss generalizing i with
  | nil => rfl
  | cons s rest ih =>
    rw [statementsFrom, statements]
    refine bind_congr fun r => ?_
    cases r with
    | none => exact ih (i + 1)
    | some v =>
      dsimp only
      split
      · rfl
      · exact ih (i + 1)

mutual

/-- **If chain** whose blocks are numbered from `n` on, as `Eval.branch`. -/
def branchFrom (eval : Expr → Eval σ (Option Value)) (run : Nat → Block → Eval σ (Option Value)) :
    Nat → Conditional → Eval σ (Option Value)
  | n, ⟨condition, body, next, _⟩ => do
    if ← demandBoolean eval condition then inChild .empty (run n body)
    else otherwiseFrom eval run (n + 1) next

/-- The rest of an if chain, as `Eval.otherwise`. -/
def otherwiseFrom (eval : Expr → Eval σ (Option Value))
    (run : Nat → Block → Eval σ (Option Value)) : Nat → Otherwise → Eval σ (Option Value)
  | _, .done => return none
  | n, .elif link => branchFrom eval run n link
  | n, .last body _ => inChild .empty (run n body)

end

mutual

theorem branchFrom_eq (eval : Expr → Eval σ (Option Value))
    (run : Block → Eval σ (Option Value)) (n : Nat) :
    ∀ chain, branchFrom eval (fun _ => run) n chain = branch eval run chain
  | ⟨condition, body, next, _⟩ => by
    rw [branchFrom, branch, otherwiseFrom_eq eval run (n + 1) next]

theorem otherwiseFrom_eq (eval : Expr → Eval σ (Option Value))
    (run : Block → Eval σ (Option Value)) (n : Nat) :
    ∀ next, otherwiseFrom eval (fun _ => run) n next = otherwise eval run next
  | .done => by rw [otherwiseFrom, otherwise]
  | .elif link => by rw [otherwiseFrom, otherwise, branchFrom_eq eval run n link]
  | .last body _ => by rw [otherwiseFrom, otherwise]

end

end Eval

namespace Congruence

variable {host : Host σ} {host' : Host τ} {f : Site → Site}
  {Rel : (α : Type) → Eval σ α → Eval τ α → Prop} (c : Congruence host host' f Rel)
  {eval : Expr → Eval σ (Option Value)} {eval' : Expr → Eval τ (Option Value)}

include c

/-! ## Expressions -/

theorem map {α β : Type} {x : Eval σ α} {y : Eval τ α} (g : α → β) (h : Rel α x y) :
    Rel β (g <$> x) (g <$> y) := by
  rw [map_eq_pure_bind, map_eq_pure_bind]
  exact c.bind h fun a _ => c.pure (g a)

theorem check {α : Type} (site : Site) (r : Except Fault α) :
    Rel α (Eval.check site r) (Eval.check (f site) r) := by
  cases r with
  | ok a => exact c.pure a
  | error fault => exact c.fail fault site

theorem demand {e : Expr} (h : Rel _ (eval e) (eval' (e.mapSites f))) :
    Rel _ (Eval.demand eval e) (Eval.demand eval' (e.mapSites f)) := by
  refine c.bind h fun r _ => ?_
  cases r with
  | some v => exact c.pure v
  | none =>
    rw [Expr.site_mapSites]
    exact c.fail .noValue e.site

theorem demandAll {es : List Expr} (h : ∀ e ∈ es, Rel _ (eval e) (eval' (e.mapSites f))) :
    Rel _ (Eval.demandAll eval es) (Eval.demandAll eval' (es.map (Expr.mapSites f))) := by
  induction es with
  | nil => exact c.pure []
  | cons e es ih =>
    obtain ⟨first, others⟩ := List.forall_mem_cons.mp h
    exact c.bind (c.demand first) fun v _ => c.bind (ih others) fun vs _ => c.pure (v :: vs)

theorem demandNumber {e : Expr} (h : Rel _ (eval e) (eval' (e.mapSites f))) :
    Rel _ (Eval.demandNumber eval e) (Eval.demandNumber eval' (e.mapSites f)) := by
  refine c.bind (c.demand h) fun v _ => c.bind c.heap fun now _ => ?_
  rw [Expr.site_mapSites]
  exact c.check _ _

theorem demandBoolean {e : Expr} (h : Rel _ (eval e) (eval' (e.mapSites f))) :
    Rel _ (Eval.demandBoolean eval e) (Eval.demandBoolean eval' (e.mapSites f)) := by
  refine c.bind (c.demand h) fun v _ => c.bind c.heap fun now _ => ?_
  rw [Expr.site_mapSites]
  exact c.check _ _

theorem lookup (name : String) (site : Site) :
    Rel _ (Eval.lookup name site) (Eval.lookup name (f site)) := by
  refine c.scope fun s => ?_
  rw [Scope.find?_mapSites]
  cases s.find? name with
  | some v => exact c.pure v
  | none => exact c.fail _ _

theorem applyUnary {operand : Expr} (h : Rel _ (eval operand) (eval' (operand.mapSites f)))
    (op : UnaryOp) (site : Site) :
    Rel _ (Eval.applyUnary eval op operand site)
      (Eval.applyUnary eval' op (operand.mapSites f) (f site)) :=
  c.bind (c.demand h) fun _ _ => c.bind c.heap fun _ _ => c.check _ _

theorem applyBinary {left right : Expr} (hleft : Rel _ (eval left) (eval' (left.mapSites f)))
    (hright : Rel _ (eval right) (eval' (right.mapSites f))) (op : BinaryOp) (site : Site) :
    Rel _ (Eval.applyBinary eval op left right site)
      (Eval.applyBinary eval' op (left.mapSites f) (right.mapSites f) (f site)) :=
  c.bind (c.demand hleft) fun _ _ => c.bind (c.demand hright) fun _ _ =>
    c.bind c.heap fun _ _ => c.check _ _

/-! ## Variables -/

theorem bindVariable {name : String} {v : Value}
    (h : Rel _ (modifyScope (Scope.declare name v)) (modifyScope (Scope.declare name v))) :
    Rel _ (Eval.bindVariable name v) (Eval.bindVariable name v) := by
  refine c.scope fun s => ?_
  rw [Scope.depth_mapSites]
  exact c.bind (c.note (.declaring name s.depth)) fun _ _ => h

theorem declare {type : DeclaredType} {name : String} {value : Expr} {site : Site}
    (h : Rel _ (eval value) (eval' (value.mapSites f)))
    (hbind : ∀ v, Rel _ (modifyScope (Scope.declare name v)) (modifyScope (Scope.declare name v))) :
    Rel _ (Eval.declare eval type name value site)
      (Eval.declare eval' type name (value.mapSites f) (f site)) :=
  c.bind h fun _ _ => c.bind c.heap fun _ _ => c.bind (c.check _ _) fun _ _ =>
    c.bind (c.modifyHeap _) fun _ _ => c.bindVariable (hbind _)

theorem reassign {value : Expr} (h : Rel _ (eval value) (eval' (value.mapSites f)))
    (name : String) (nameSite site : Site) :
    Rel _ (Eval.reassign eval name nameSite value site)
      (Eval.reassign eval' name (f nameSite) (value.mapSites f) (f site)) := by
  refine c.bind h fun r _ => c.scope fun s => ?_
  rw [Scope.find?_mapSites]
  cases s.find? name with
  | none => exact c.fail _ _
  | some held =>
    refine c.bind c.heap fun now _ => ?_
    split
    · exact c.bind (c.modifyHeap _) fun _ _ => c.assign name _
    · exact c.fail _ _

/-! ## Control flow -/

theorem inChild {α : Type} {frame : Frame} {x : Eval σ α} {y : Eval τ α}
    (h : Rel _ (inFrame 0 frame x) (inFrame 0 frame y)) :
    Rel _ (Eval.inChild frame x) (Eval.inChild frame y) := by
  refine c.scope fun s => ?_
  rw [Scope.depth_mapSites]
  exact c.bind (c.note (.enteringScope (s.depth + 1))) fun _ _ => h

theorem statementsFrom {config : Config} {exec : Nat → Stmt → Eval σ (Option Value)}
    {exec' : Nat → Stmt → Eval τ (Option Value)} {i : Nat} {ss : List Stmt}
    (h : ∀ j s, ss[j]? = some s → Rel _ (exec (i + j) s) (exec' (i + j) (s.mapSites f))) :
    Rel _ (Eval.statementsFrom config exec i ss)
      (Eval.statementsFrom config exec' i (ss.map (Stmt.mapSites f))) := by
  induction ss generalizing i with
  | nil => exact c.pure none
  | cons s rest ih =>
    have others : ∀ j s, rest[j]? = some s →
        Rel _ (exec (i + 1 + j) s) (exec' (i + 1 + j) (s.mapSites f)) := by
      intro j t found
      have related := h (j + 1) t found
      rwa [Nat.add_assoc, Nat.add_comm 1]
    refine c.bind (h 0 s rfl) fun r _ => ?_
    cases r with
    | some v =>
      dsimp only
      rw [Config.endsBlock_mapSites]
      split
      · exact c.pure _
      · exact ih others
    | none => exact ih others

theorem statements {config : Config} {exec : Stmt → Eval σ (Option Value)}
    {exec' : Stmt → Eval τ (Option Value)} {ss : List Stmt}
    (h : ∀ s ∈ ss, Rel _ (exec s) (exec' (s.mapSites f))) :
    Rel _ (Eval.statements config exec ss)
      (Eval.statements config exec' (ss.map (Stmt.mapSites f))) := by
  rw [← statementsFrom_eq config exec 0, ← statementsFrom_eq config exec' 0]
  exact c.statementsFrom fun _ s found => h s (List.mem_of_getElem? found)

section Branch

variable {run : Nat → Block → Eval σ (Option Value)} {run' : Nat → Block → Eval τ (Option Value)}

mutual

theorem branchFrom (n : Nat) : ∀ chain : Conditional,
    (∀ e ∈ chain.conditions, Rel _ (eval e) (eval' (e.mapSites f))) →
    (∀ i b, chain.blocks[i]? = some b → Rel _ (inFrame 0 .empty (run (n + i) b))
      (inFrame 0 .empty (run' (n + i) (b.mapSites f)))) →
    Rel _ (Eval.branchFrom eval run n chain) (Eval.branchFrom eval' run' n (chain.mapSites f))
  | ⟨condition, body, next, site⟩, heval, hrun => by
    rw [Conditional.conditions, List.forall_mem_cons] at heval
    rw [Conditional.mapSites, Eval.branchFrom, Eval.branchFrom]
    refine c.bind (c.demandBoolean heval.1) fun holds _ => ?_
    cases holds with
    | true =>
      have here : (Conditional.mk condition body next site).blocks[0]? = some body := by
        rw [Conditional.blocks, List.getElem?_cons_zero]
      exact c.inChild (hrun 0 body here)
    | false =>
      refine otherwiseFrom (n + 1) next heval.2 fun i b found => ?_
      have there : (Conditional.mk condition body next site).blocks[i + 1]? = some b := by
        rw [Conditional.blocks, List.getElem?_cons_succ, found]
      have related := hrun (i + 1) b there
      rwa [Nat.add_assoc, Nat.add_comm 1]

theorem otherwiseFrom (n : Nat) : ∀ next : Otherwise,
    (∀ e ∈ next.conditions, Rel _ (eval e) (eval' (e.mapSites f))) →
    (∀ i b, next.blocks[i]? = some b → Rel _ (inFrame 0 .empty (run (n + i) b))
      (inFrame 0 .empty (run' (n + i) (b.mapSites f)))) →
    Rel _ (Eval.otherwiseFrom eval run n next)
      (Eval.otherwiseFrom eval' run' n (next.mapSites f))
  | .done, _, _ => by
    rw [Otherwise.mapSites, Eval.otherwiseFrom, Eval.otherwiseFrom]
    exact c.pure none
  | .elif link, heval, hrun => by
    rw [Otherwise.conditions] at heval
    rw [Otherwise.mapSites, Eval.otherwiseFrom, Eval.otherwiseFrom]
    exact branchFrom n link heval (by simpa only [Otherwise.blocks] using hrun)
  | .last body _, _, hrun => by
    rw [Otherwise.mapSites, Eval.otherwiseFrom, Eval.otherwiseFrom]
    exact c.inChild (hrun 0 body (by simp only [Otherwise.blocks, List.getElem?_cons_zero]))

end

end Branch

theorem repeatWhile {condition : Eval σ Bool} {condition' : Eval τ Bool}
    {body : Eval σ (Option Value)} {body' : Eval τ (Option Value)}
    (hcondition : Rel _ condition condition') (hbody : Rel _ body body') (fuel : Nat) :
    Rel _ (Eval.repeatWhile condition body fuel) (Eval.repeatWhile condition' body' fuel) := by
  induction fuel with
  | zero => exact c.outOfFuel
  | succ fuel ih =>
    refine c.bind hcondition fun holds _ => ?_
    cases holds with
    | false => exact c.pure none
    | true =>
      refine c.bind hbody fun r _ => ?_
      cases r with
      | some v => exact c.pure _
      | none => exact ih

theorem countFrom {body : Number → Eval σ (Option Value)} {body' : Number → Eval τ (Option Value)}
    (hbody : ∀ x, Rel _ (body x) (body' x)) (stop step : Number) (fuel : Nat) (counter : Number) :
    Rel _ (Eval.countFrom stop step body fuel counter)
      (Eval.countFrom stop step body' fuel counter) := by
  induction fuel generalizing counter with
  | zero => exact c.outOfFuel
  | succ fuel ih =>
    unfold Eval.countFrom
    split
    · refine c.bind (hbody counter) fun r _ => ?_
      cases r with
      | some v => exact c.pure _
      | none => exact ih _
    · exact c.pure none

theorem count {run : Block → Eval σ (Option Value)} {run' : Block → Eval τ (Option Value)}
    {start stop step : Expr} {body : Block}
    (h : ∀ e ∈ [start, stop, step], Rel _ (eval e) (eval' (e.mapSites f)))
    (hrun : ∀ counter, Rel _ (inFrame 0 (counterFrame counter) (run body))
      (inFrame 0 (counterFrame counter) (run' (body.mapSites f)))) (site : Site) (fuel : Nat) :
    Rel _ (Eval.count eval run start stop step body site fuel)
      (Eval.count eval' run' (start.mapSites f) (stop.mapSites f) (step.mapSites f)
        (body.mapSites f) (f site) fuel) := by
  simp only [List.forall_mem_cons] at h
  obtain ⟨hstart, hstop, hstep, -⟩ := h
  exact c.bind (c.demandNumber hstart) fun first _ => c.bind (c.demandNumber hstop) fun last _ =>
    c.bind (c.demandNumber hstep) fun increment _ => c.bind (c.check _ _) fun _ _ =>
      c.bind (c.note (.loopConfigured first last increment)) fun _ _ =>
        c.countFrom (fun counter => c.inChild (hrun counter)) _ _ _ _

/-! ## Calls -/

theorem bindArguments {bound : List (Parameter × Expr)}
    (h : ∀ pair ∈ bound, Rel _ (eval pair.2) (eval' (pair.2.mapSites f))) (function : String)
    (frame : Frame) :
    Rel _ (Eval.bindArguments eval function bound frame)
      (Eval.bindArguments eval' function
        (bound.map (Prod.map (Parameter.mapSites f) (Expr.mapSites f))) frame) := by
  induction bound generalizing frame with
  | nil => exact c.pure frame
  | cons pair rest ih =>
    obtain ⟨p, e⟩ := pair
    obtain ⟨first, others⟩ := List.forall_mem_cons.mp h
    refine c.bind (c.demand first) fun v _ => c.bind c.heap fun now _ => ?_
    rw [Parameter.name_mapSites, Parameter.type_mapSites, Expr.site_mapSites]
    split
    · exact c.bind (c.modifyHeap _) fun _ _ => ih others _
    · exact c.fail _ _

/-- **Call of a function of the script.**  Its body runs in a frame that holds the
parameters and no more. -/
theorem callFunction {run : Block → Eval σ (Option Value)} {run' : Block → Eval τ (Option Value)}
    {g : Function} {skipped : Nat} {args : List Expr}
    (h : ∀ e ∈ args, Rel _ (eval e) (eval' (e.mapSites f)))
    (hrun : ∀ frame : Frame, frame.HoldsOnly (g.parameters.map Parameter.name) →
      Rel _ (inFrame skipped frame (run g.body))
        (inFrame skipped frame (run' (g.body.mapSites f)))) (site : Site) :
    Rel _ (Eval.callFunction eval run g skipped args site)
      (Eval.callFunction eval' run' (g.mapSites f) skipped (args.map (Expr.mapSites f))
        (f site)) := by
  unfold Eval.callFunction
  simp only [Function.name_mapSites, Function.parameters_mapSites, Function.body_mapSites,
    Function.returnType_mapSites, returnSite_mapSites, List.length_map, List.zip_map]
  refine c.bind (c.check _ _) fun _ checked => c.scope fun s => ?_
  have arity := Operation.length_eq_of_checkArity (yields_check checked)
  rw [Scope.depth_mapSites]
  refine c.bind (c.note (.calling g.name s.depth)) fun _ _ =>
    c.bind (c.note (.enteringScope (s.depth - skipped + 1))) fun _ _ =>
      c.bind (c.bindArguments (fun pair mem => h _ (List.of_mem_zip mem).2) _ _)
        fun frame bound => ?_
  -- All parameters got an argument, so the frame holds them all.
  have holds : frame.HoldsOnly (g.parameters.map Parameter.name) := by
    have names : (g.parameters.zip args).map (fun pair => pair.1.name) =
        g.parameters.map Parameter.name := by
      show (g.parameters.zip args).map (Parameter.name ∘ Prod.fst) = _
      rw [← List.map_map, List.map_fst_zip (Nat.le_of_eq arity)]
    have := holdsOnly_of_bindArguments Frame.holdsOnly_empty bound
    rwa [List.nil_append, names] at this
  refine c.bind (hrun frame holds) fun r _ => c.bind c.heap fun now _ => ?_
  split
  · exact c.pure _
  · exact c.fail _ _

/-- **Call of a function that the script does not define.** -/
theorem callHost {args : List Expr} (h : ∀ e ∈ args, Rel _ (eval e) (eval' (e.mapSites f)))
    (config : Config) (name : String) (site : Site) :
    Rel _ (Eval.callHost host config eval name args site)
      (Eval.callHost host' config eval' name (args.map (Expr.mapSites f)) (f site)) := by
  refine c.bind (c.demandAll h) fun vs _ => c.bind (c.ask name vs site) fun reply _ => ?_
  cases reply with
  | returned v => exact c.pure _
  | finished => exact c.pure _
  | unrecognized =>
    dsimp only
    cases config.unknownFunctions with
    | error => exact c.fail _ _
    | ignore => exact c.bind (c.note (.ignoringUnknown name site)) fun _ _ => c.pure none

/-- **Call.** -/
theorem invoke {run : Block → Eval σ (Option Value)} {run' : Block → Eval τ (Option Value)}
    {args : List Expr} (h : ∀ e ∈ args, Rel _ (eval e) (eval' (e.mapSites f)))
    (hrun : ∀ (skipped : Nat) (g : Function) (frame : Frame),
      frame.HoldsOnly (g.parameters.map Parameter.name) →
        Rel _ (inFrame skipped frame (run g.body))
          (inFrame skipped frame (run' (g.body.mapSites f))))
    (config : Config) (name : String) (site : Site) :
    Rel _ (Eval.invoke host config eval run name args site)
      (Eval.invoke host' config eval' run' name (args.map (Expr.mapSites f)) (f site)) := by
  refine c.scope fun s => ?_
  rw [Scope.function?_mapSites]
  cases s.function? name with
  | some found =>
    obtain ⟨skipped, g⟩ := found
    exact c.map some (c.callFunction h (hrun skipped g) site)
  | none => exact c.callHost h config name site

end Congruence

end Scriptlet
