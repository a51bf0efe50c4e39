import Scriptlet.Proofs.Host.Log
import Scriptlet.Proofs.Scope.Leak

/-!
# Calls are isolated from their callers

The body of a function runs on the chain of the frame that defines it.  It neither changes nor
sees the frames inside of that one, which are those of the caller and of its callers.

## Main definitions

* `Eval.passArguments`, `Eval.activate` — the two parts of a call
* `Machine.Alike` — the same scope, and worlds that are related
* `Machine.AlikeBeyond` — the same beyond some inner frames

## Main statements

* `Scope.exists_of_function?` — where a function is found
* `Eval.activate_beyond` — a call is the same whatever the inner frames are
* `Eval.call_isolated` — all calls of functions that a script defines

## Design decisions

* Arguments are evaluated in the scope of the caller, so isolation begins behind them.
* With other inner frames the log of a caller would be another one too.  So worlds need not
  be equal, only such that no run can tell them apart.
-/

namespace Scriptlet

open Eval

variable {σ : Type}

/-! ## Where a function is found -/

namespace Scope

theorem function?_append {name : String} {inner : Scope} (none : inner.function? name = none)
    (outer : Scope) : function? name (inner ++ outer) =
      (outer.function? name).map fun found => (found.1 + inner.length, found.2) := by
  induction inner with
  | nil => simp
  | cons frame inner ih =>
    rw [function?] at none
    rw [List.cons_append, function?]
    cases bound : frame.functions.find? name with
    | some g =>
      rw [bound] at none
      cases none
    | none =>
      rw [bound] at none
      rw [ih (Option.map_eq_none_iff.mp none), Option.map_map]
      rfl

/-- A function is found in the first frame that binds its name. -/
theorem exists_of_function? {name : String} {s : Scope} {skipped : Nat} {f : Function}
    (found : s.function? name = some (skipped, f)) :
    ∃ inner outer, s = inner ++ outer ∧ inner.length = skipped ∧ inner.function? name = none ∧
      outer.function? name = some (0, f) := by
  induction s generalizing skipped with
  | nil => cases found
  | cons frame s ih =>
    rw [function?] at found
    cases bound : frame.functions.find? name with
    | some g =>
      rw [bound] at found
      cases found
      exact ⟨[], frame :: s, rfl, rfl, rfl, by rw [function?, bound]⟩
    | none =>
      rw [bound] at found
      obtain ⟨⟨k, g⟩, further, same⟩ := Option.map_eq_some_iff.mp found
      cases same
      obtain ⟨inner, outer, rfl, rfl, undefined, defined⟩ := ih further
      refine ⟨frame :: inner, outer, rfl, rfl, ?_, defined⟩
      rw [function?, bound, undefined]
      rfl

/-- Values of variables do not matter. -/
theorem Unchanged.function? {s s' : Scope} (h : s.Unchanged s') (name : String) :
    s'.function? name = s.function? name := by
  have same := h.functions
  clear h
  induction s generalizing s' with
  | nil => rw [List.map_eq_nil_iff.mp same]
  | cons frame s ih =>
    obtain ⟨frame', outer, rfl, first, others⟩ := List.map_eq_cons_iff.mp same
    rw [Scope.function?, Scope.function?, first, ih others]

end Scope

/-! ## The parts of a call -/

namespace Eval

/-- **Passing arguments**: what a call does before it runs the body of the function.  It gives
the frame of the body. -/
def passArguments (eval : Expr → Eval σ (Option Value)) (f : Function) (skipped : Nat)
    (args : List Expr) (site : Site) : Eval σ Frame := do
  check site (Operation.checkArity f.name f.parameters.length args.length)
  let depth := (← scope).depth
  note (.calling f.name depth)
  note (.enteringScope (depth - skipped + 1))
  bindArguments eval f.name (f.parameters.zip args) .empty

/-- **Activation**: what a call does from there on. -/
def activate (run : Block → Eval σ (Option Value)) (f : Function) (skipped : Nat)
    (frame : Frame) : Eval σ Value := do
  let v := (← inFrame skipped frame (run f.body)).getD .void
  let now ← heap
  if now.conforms v f.returnType.spec then return v
  else fail (.returnType f.name f.returnType.spec (now.typeOf v)) (returnSite f)

theorem callFunction_eq_bind (eval : Expr → Eval σ (Option Value))
    (run : Block → Eval σ (Option Value)) (f : Function) (skipped : Nat) (args : List Expr)
    (site : Site) : callFunction eval run f skipped args site =
      passArguments eval f skipped args site >>= activate run f skipped := by
  simp only [callFunction, passArguments, bind_assoc]
  rfl

variable (host : Host σ) (config : Config) (fuel : Nat)

/-- Passing arguments binds no name. -/
theorem passArguments_unchanged (f : Function) (skipped : Nat) (args : List Expr) (site : Site)
    (m : Machine σ) : m.scope.Unchanged
      (final (passArguments (expr host config fuel) f skipped args site m)).scope := by
  have c := (stable_unchanged host).congruence host id
  have arguments := c.bindArguments (fun pair (_ : pair ∈ f.parameters.zip args) =>
    (framed_unchanged host).expr config fuel pair.2) f.name .empty
  have whole : Leads (fun m m' => m.scope.Unchanged m'.scope) _
      (passArguments (expr host config fuel) f skipped args site)
      (passArguments (expr host config fuel) f skipped args site) :=
    c.bind (c.check site _) fun _ _ => c.scope fun s =>
      c.bind (c.note (.calling f.name s.depth)) fun _ _ =>
        c.bind (c.note (.enteringScope (s.depth - skipped + 1))) fun _ _ => arguments
  exact whole m

/-- An activation closes the frame that it opens, and binds no name in the others. -/
theorem activate_unchanged (f : Function) (skipped : Nat) (frame : Frame) (m : Machine σ) :
    m.scope.Unchanged (final (activate (block host config fuel) f skipped frame m)).scope := by
  have c := (stable_unchanged host).congruence host id
  have body := inFrame_unchanged skipped frame ((framed_unchanged host).block config fuel f.body)
  have whole : Leads (fun m m' => m.scope.Unchanged m'.scope) _
      (activate (block host config fuel) f skipped frame)
      (activate (block host config fuel) f skipped frame) := by
    refine c.bind body fun v _ => c.bind c.heap fun now _ => ?_
    split
    · exact c.pure _
    · exact c.fail _ _
  exact whole m

end Eval

/-! ## Other inner frames -/

/-- **Alike.**  The scopes are the same, and the worlds are related. -/
def Machine.Alike (W : World σ → World σ → Prop) (m n : Machine σ) : Prop :=
  n.scope = m.scope ∧ W m.world n.world

/-- **Alike beyond** the frames `inner` of the one machine and `inner'` of the other. -/
def Machine.AlikeBeyond (W : World σ → World σ → Prop) (inner inner' : Scope)
    (m n : Machine σ) : Prop :=
  ∃ outer, m.scope = inner ++ outer ∧ n.scope = inner' ++ outer ∧ W m.world n.world

theorem Machine.Alike.eq {m n : Machine σ} (h : Machine.Alike Eq m n) : n = m := by
  obtain ⟨scope, w⟩ := m
  obtain ⟨scope', w'⟩ := n
  obtain ⟨rfl, rfl⟩ : scope' = scope ∧ w = w' := h
  rfl

/-- No run can tell a world from itself. -/
theorem simulation_alike_eq (host : Host σ) : Simulation host host id (Machine.Alike Eq) where
  scope related := by rw [related.1, Scope.mapSites_id]
  heap related := by rw [related.2]
  setScope related scope := ⟨Scope.mapSites_id scope, related.2⟩
  setHeap related heap := by
    rw [related.eq]
    exact ⟨rfl, rfl⟩
  note related e := by
    rw [related.eq, Event.mapSites_id]
    exact ⟨rfl, rfl⟩
  ask name args site := by
    intro m n related
    rw [related.eq]
    exact .refl (fun _ => ⟨rfl, rfl⟩) _

/-- **Worlds that differ in the log only.** -/
def World.AlikeButLog (w w' : World σ) : Prop := w'.heap = w.heap ∧ w'.host = w.host

/-- No run with the standard host can tell logs apart. -/
theorem simulation_alikeButLog :
    Simulation Standard.host Standard.host id (Machine.Alike World.AlikeButLog) := by
  have same : Machine.Alike World.AlikeButLog = (Alike id : Machine Sink → _ → Prop) := by
    funext m n
    refine propext ⟨fun ⟨scope, heap, host⟩ => ⟨?_, heap, host⟩, fun h => ⟨?_, h.heap, h.host⟩⟩
    · rw [Scope.mapSites_id, scope]
    · rw [h.scope, Scope.mapSites_id]
  rw [same]
  exact simulation_alike id

namespace Eval

variable {α : Type} {W : World σ → World σ → Prop}

/-- **Running in a frame** is the same whatever the frames are that it leaves aside. -/
theorem inFrame_beyond {x : Eval σ α} (same : Simulates id (Machine.Alike W) α x x)
    (frame : Frame) (inner inner' outer : Scope) {w w' : World σ} (related : W w w') :
    Ends id (Machine.AlikeBeyond W inner inner')
      (inFrame inner.length frame x ⟨inner ++ outer, w⟩)
      (inFrame inner'.length frame x ⟨inner' ++ outer, w'⟩) := by
  have body := same ⟨frame :: outer, w⟩ ⟨frame :: outer, w'⟩ ⟨rfl, related⟩
  unfold inFrame
  simp only [List.drop_left, List.take_left]
  generalize x ⟨frame :: outer, w⟩ = r at body
  generalize x ⟨frame :: outer, w'⟩ = r' at body
  cases body with
  | @ok m n a after => exact .ok a ⟨m.scope.drop 1, rfl, by rw [after.1], after.2⟩
  | @error m n e after => exact .error e ⟨m.scope.drop 1, rfl, by rw [after.1], after.2⟩

variable {host : Host σ} (alike : Simulation host host id (Machine.Alike W)) (config : Config)
  (fuel : Nat)

include alike

/-- **Activations** are the same whatever the frames are inside of that of the definition. -/
theorem activate_beyond (f : Function) (frame : Frame) (inner inner' outer : Scope)
    {w w' : World σ} (related : W w w') :
    Ends id (Machine.AlikeBeyond W inner inner')
      (activate (block host config fuel) f inner.length frame ⟨inner ++ outer, w⟩)
      (activate (block host config fuel) f inner'.length frame ⟨inner' ++ outer, w'⟩) := by
  have same := alike.framed.block config fuel f.body
  rw [Block.mapSites_id] at same
  have body := inFrame_beyond same frame inner inner' outer related
  show Ends id _ (EStateM.bind _ _ _) (EStateM.bind _ _ _)
  unfold EStateM.bind
  generalize inFrame inner.length frame (block host config fuel f.body) ⟨inner ++ outer, w⟩ = r
    at body
  generalize inFrame inner'.length frame (block host config fuel f.body) ⟨inner' ++ outer, w'⟩ = r'
    at body
  cases body with
  | error e after => exact .error e after
  | @ok m n a after =>
    -- The result is checked in the heap, which is the same on both sides.
    obtain ⟨outer', inside, inside', related⟩ := after
    have sameHeap : n.world.heap = m.world.heap :=
      alike.heap (m := ⟨[], m.world⟩) (n := ⟨[], n.world⟩) ⟨rfl, related⟩
    have beyond : Machine.AlikeBeyond W inner inner' m n := ⟨outer', inside, inside', related⟩
    show Ends id _
      ((if m.world.heap.conforms _ _ then _ else _ : Eval σ Value) m)
      ((if n.world.heap.conforms _ _ then _ else _ : Eval σ Value) n)
    rw [sameHeap]
    split
    · exact .ok _ beyond
    · exact .error (.fault _) beyond

end Eval

/-! ## Isolation -/

/-- **Calls are isolated.**  Wherever a call stands, and whatever the function does, its own
calls included, the call passes the arguments and then activates the function.  The frames
inside of that of the definition are then as they were, whether the call succeeds or fails.
With any other frames there, and in any world that a run cannot tell from this one, the
activation has the same result or fault, it does the same to the frames further out, and the
worlds are alike afterwards.  Frames that do not define the function themselves are inside, so
those of a caller that is an activation of the same function are. -/
theorem Eval.call_isolated {host : Host σ} {W : World σ → World σ → Prop}
    (alike : Simulation host host id (Machine.Alike W)) (config : Config) (fuel : Nat)
    (name : String) (args : List Expr) (site : Site) {m : Machine σ} {skipped : Nat} {f : Function}
    (found : m.scope.function? name = some (skipped, f)) :
    let call := invoke host config (expr host config fuel) (block host config fuel) name args site
    let arguments := passArguments (expr host config fuel) f skipped args site
    let body := activate (block host config fuel) f
    (expr host config (fuel + 1) (.call name args site) =
      note (.evaluating (Expr.call name args site).kind site) >>= fun _ => call) ∧
    (stmt host config (fuel + 1) (.call name args site) =
      note (.evaluating (Stmt.call name args site).kind site) >>= fun _ => call) ∧
    call m = (some <$> (arguments >>= body skipped)) m ∧
    ∀ frame m₁, arguments m = .ok frame m₁ →
      ∃ inner outer, m₁.scope = inner ++ outer ∧ inner.length = skipped ∧
        m.scope.Unchanged m₁.scope ∧
        inner.function? name = none ∧ outer.function? name = some (0, f) ∧
        (∀ own rest, m.scope = own ++ rest → own.function? name = none → own.length ≤ skipped) ∧
        (∃ outer', (final (body skipped frame m₁)).scope = inner ++ outer' ∧
          outer.Unchanged outer') ∧
        ∀ inner' w', W m₁.world w' →
          Ends id (Machine.AlikeBeyond W inner inner') (body skipped frame m₁)
            (body inner'.length frame ⟨inner' ++ outer, w'⟩) := by
  intro call arguments body
  refine ⟨by unfold expr; rfl, by unfold stmt; rfl, ?_, ?_⟩
  · rw [← callFunction_eq_bind]
    exact invoke_of_function? found
  intro frame m₁ passed
  have unchanged : m.scope.Unchanged m₁.scope := by
    have arguments := passArguments_unchanged host config fuel f skipped args site m
    rwa [show passArguments (expr host config fuel) f skipped args site m = _ from passed]
      at arguments
  obtain ⟨inner, outer, split, rfl, undefined, defined⟩ :=
    Scope.exists_of_function? ((unchanged.function? name).trans found)
  obtain ⟨scope, w⟩ := m₁
  obtain rfl : scope = inner ++ outer := split
  refine ⟨inner, outer, rfl, rfl, unchanged, undefined, defined, ?_, ?_, ?_⟩
  · intro own rest chain undefined'
    rw [chain, Scope.function?_append undefined'] at found
    obtain ⟨⟨k, g⟩, -, same⟩ := Option.map_eq_some_iff.mp found
    have length : k + own.length = inner.length := (Prod.mk.inj same).1
    omega
  · have ends := activate_beyond (simulation_alike_eq host) config fuel f frame inner inner outer
      (Eq.refl w)
    obtain ⟨outer', inside, -⟩ := ends.final
    have tables := activate_unchanged host config fuel f inner.length frame ⟨inner ++ outer, w⟩
    rw [inside] at tables
    exact ⟨outer', inside, tables.of_append⟩
  · intro inner' w' related
    exact activate_beyond alike config fuel f frame inner inner' outer related

/-- The function
`bool settle(bool b) { if b { return settle(false); } now b = true; return b; }`. -/
def Eval.settle : Function where
  name := "settle"
  returnType := ⟨.bool, false⟩
  parameters := [⟨"b", ⟨.bool, false⟩, .unknown⟩]
  body := ⟨[.branch ⟨.var "b" .unknown, ⟨[.ret (some
        (.call "settle" [.literal (.boolean false) .unknown] .unknown)) .unknown], .unknown⟩,
      .done, .unknown⟩,
    .reassign "b" .unknown (.literal (.boolean true) .unknown) .unknown,
    .ret (some (.var "b" .unknown)) .unknown], .unknown⟩
  site := .unknown

/-- In an activation of `settle` with `true`, where the function is about to call itself. -/
def Eval.settling : Machine Sink where
  scope := [.empty, .ofVars [("b", .boolean true)], Frame.empty.define settle]
  world := ⟨.empty, .ofLimit none, .silent⟩

/-- `settle` calls itself with `false`.  That activation gives a new value to its own parameter
and neither reads nor changes that of the first one. -/
theorem Eval.call_isolated_of_settle :
    settling.scope.function? "settle" = some (2, settle) ∧
    ∃ frame m, passArguments (expr Standard.host {} 5) settle 2
        [.literal (.boolean false) .unknown] .unknown settling = .ok frame m ∧
      ∃ outer, m.scope = settling.scope.take 2 ++ outer ∧
        ∀ inner' w', World.AlikeButLog m.world w' →
          Ends id (Machine.AlikeBeyond World.AlikeButLog (settling.scope.take 2) inner')
            (activate (block Standard.host {} 5) settle 2 frame m)
            (activate (block Standard.host {} 5) settle inner'.length frame
              ⟨inner' ++ outer, w'⟩) := by
  have found : settling.scope.function? "settle" = some (2, settle) := by rfl
  obtain ⟨-, -, -, isolated⟩ := call_isolated simulation_alikeButLog {} 5 "settle"
    [.literal (.boolean false) .unknown] .unknown found
  obtain ⟨inner, outer, split, length, -, -, -, -, -, same⟩ := isolated _ _ rfl
  have frames : inner = settling.scope.take 2 := by
    have taken := congrArg (List.take 2) split
    rw [← length, List.take_left, length] at taken
    exact taken.symm
  rw [frames] at split same
  exact ⟨found, _, _, rfl, outer, split, same⟩

end Scriptlet
