import Scriptlet.Proofs.Scope.Unchanged
import Scriptlet.Proofs.Survey.Erase

/-!
# Scoping is lexical

At every node that a run of a program evaluates, the chain of frames is that of the
constructs around the node in the text: one frame for each of them, in the same order, and
the global frame.

## Main definitions

* `Visit.Lexical` — what the chain of frames is at the evaluation of a node
* `Chain` — a chain of frames that belongs to nested constructs
* `Survey.Upright` — the state of a run of a program under nested constructs

## Main statements

* `Chain.function?` — a function that is found stands where its frame belongs
* `Survey.relates_upright` — every evaluation under some constructs keeps their chain
* `Survey.lexical_execute` — all nodes that the runs of some programs evaluate

## Design decisions

* A call runs on the frames of the construct that the function is defined in, so where
  the caller is does not matter.  What matters is that a function that is bound in a frame
  stands directly in the construct of that frame.  This is part of the invariant, and it
  also tells the frames of the chain from other frames of the same construct.
* Programs that are executed in one scope count as one text, since a later one can call the
  functions of those before it.
-/

namespace Scriptlet

open Eval

/-- The functions that are bound in the frame are defined in the program directly inside
the innermost of the constructs `cs`. -/
def Frame.DefinedUnder (program : List Stmt) (cs : List Construct) (frame : Frame) : Prop :=
  ∀ name g, frame.functions.find? name = some g →
    ∃ home : Place, home.statement? program = some (.define g) ∧ home.enclosing = cs

/-- **Lexical visit.**  The chain of frames at the evaluation of a node is that of the
constructs around it. -/
structure Visit.Lexical (program : List Stmt) (v : Visit) : Prop where
  /-- The node stands in the statement at its place in the program. -/
  standing : ∃ s, v.place.statement? program = some s ∧ v.node.StandsIn s
  /-- The frames were opened for the constructs around the place, and the last one is the
  global frame. -/
  frames : v.frames = v.place.enclosing.map some ++ [none]
  /-- There are no other frames. -/
  length : v.scope.length = v.frames.length
  /-- The depth of the chain is the number of constructs around the place. -/
  depth : v.scope.depth = v.place.enclosing.length
  /-- The functions that a frame binds are defined directly inside of its construct. -/
  functions : ∀ (i : Nat) (frame : Frame), v.scope[i]? = some frame →
    frame.DefinedUnder program (v.place.enclosing.drop i)

/-! ## Chains -/

/-- The origin keeps for each function of the frame where it is defined, and that is
directly inside the innermost of the constructs `cs`. -/
def Origin.Locates (program : List Stmt) (cs : List Construct) (origin : Origin) (frame : Frame) :
    Prop :=
  ∀ name g, frame.functions.find? name = some g →
    ∃ home : Place, origin.homes.find? name = some home ∧
      home.statement? program = some (.define g) ∧ home.enclosing = cs

/-- **Chain** of frames, with their origins, that belongs to nested constructs. -/
inductive Chain (program : List Stmt) : List Construct → List Origin → Scope → Prop where
  /-- The global frame. -/
  | global {origin : Origin} {frame : Frame} : origin.construct = none →
      origin.Locates program [] frame → Chain program [] [origin] [frame]
  /-- The frame of a construct inside of others. -/
  | inner {c : Construct} {cs : List Construct} {origin : Origin} {origins : List Origin}
      {frame : Frame} {scope : Scope} : origin.construct = some c →
      origin.Locates program (c :: cs) frame → Chain program cs origins scope →
      Chain program (c :: cs) (origin :: origins) (frame :: scope)

variable {program : List Stmt} {cs : List Construct} {origin : Origin} {frame : Frame}

theorem Origin.locates_nil (construct : Option Construct) (fresh : frame.functions = []) :
    Origin.Locates program cs ⟨construct, []⟩ frame := by
  intro name g found
  rw [fresh] at found
  cases found

theorem Origin.Locates.definedUnder (h : origin.Locates program cs frame) :
    frame.DefinedUnder program cs := by
  intro name g found
  obtain ⟨home, -, defined, enclosing⟩ := h name g found
  exact ⟨home, defined, enclosing⟩

theorem Origin.Locates.congr (h : origin.Locates program cs frame) {frame' : Frame}
    (same : frame'.functions = frame.functions) : origin.Locates program cs frame' := by
  intro name g found
  exact h name g (same ▸ found)

/-- A definition is kept in the origin together with its place. -/
theorem Origin.Locates.define (h : origin.Locates program cs frame) {g : Function} {place : Place}
    (defined : place.statement? program = some (.define g)) (enclosing : place.enclosing = cs) :
    Origin.Locates program cs { origin with homes := origin.homes.insert g.name place }
      (frame.define g) := by
  intro name g' found
  rw [Frame.define, Bindings.find?_insert] at found
  rw [Bindings.find?_insert]
  split at found
  · next same =>
    cases found
    exact ⟨place, by rw [if_pos same], defined, enclosing⟩
  · next other =>
    rw [if_neg other]
    exact h name g' found

namespace Chain

variable {origins : List Origin} {scope : Scope}

theorem constructs (h : Chain program cs origins scope) :
    origins.map Origin.construct = cs.map some ++ [none] := by
  induction h with
  | global opened _ => rw [List.map_singleton, opened, List.map_nil, List.nil_append]
  | inner opened _ _ ih => rw [List.map_cons, opened, ih, List.map_cons, List.cons_append]

theorem length_scope (h : Chain program cs origins scope) : scope.length = cs.length + 1 := by
  induction h with
  | global => rfl
  | inner _ _ _ ih => rw [List.length_cons, ih, List.length_cons]

theorem definedUnder (h : Chain program cs origins scope) {i : Nat}
    (found : scope[i]? = some frame) : frame.DefinedUnder program (cs.drop i) := by
  induction h generalizing i with
  | global _ located =>
    cases i with
    | zero =>
      cases found
      exact located.definedUnder
    | succ i => cases found
  | inner _ located _ ih =>
    cases i with
    | zero =>
      cases found
      exact located.definedUnder
    | succ i => exact ih found

/-- **Resolution.**  A function that is found stands directly inside the construct of the
frame that it is bound in. -/
theorem function? (h : Chain program cs origins scope) {name : String} {skipped : Nat}
    {g : Function} (found : scope.function? name = some (skipped, g)) :
    let home := Survey.home skipped name origins
    home.statement? program = some (.define g) ∧ skipped ≤ cs.length ∧
      home.enclosing = cs.drop skipped := by
  -- The origins are walked along with the frames that the function is not bound in.
  induction h generalizing skipped with
  | global _ located =>
    rename_i origin frame _
    rw [Scope.function?] at found
    cases bound : frame.functions.find? name with
    | none =>
      rw [bound] at found
      cases found
    | some g' =>
      rw [bound] at found
      cases found
      obtain ⟨home, kept, defined, enclosing⟩ := located name g bound
      have same : Survey.home 0 name [origin] = home := by
        simp [Survey.home, kept]
      rw [same]
      exact ⟨defined, Nat.le_refl _, enclosing⟩
  | inner _ located _ ih =>
    rename_i c cs origin origins frame scope _ _
    rw [Scope.function?] at found
    cases bound : frame.functions.find? name with
    | none =>
      rw [bound] at found
      obtain ⟨⟨n, g'⟩, outer, same⟩ := Option.map_eq_some_iff.mp found
      cases same
      obtain ⟨defined, within, enclosing⟩ := ih outer
      exact ⟨defined, Nat.succ_le_succ within, enclosing⟩
    | some g' =>
      rw [bound] at found
      cases found
      obtain ⟨home, kept, defined, enclosing⟩ := located name g bound
      have same : Survey.home 0 name (origin :: origins) = home := by
        simp [Survey.home, kept]
      rw [same]
      exact ⟨defined, Nat.zero_le _, enclosing⟩

theorem drop (h : Chain program cs origins scope) {k : Nat} (within : k ≤ cs.length) :
    Chain program (cs.drop k) (origins.drop k) (scope.drop k) := by
  induction k generalizing cs origins scope with
  | zero => exact h
  | succ k ih =>
    cases h with
    | global => exact absurd within (Nat.not_succ_le_zero k)
    | inner _ _ outer => exact ih outer (Nat.le_of_succ_le_succ within)

/-- The outer part of a chain may be replaced. -/
theorem splice (h : Chain program cs origins scope) {k : Nat} (within : k ≤ cs.length)
    {origins' : List Origin} {scope' : Scope}
    (outer : Chain program (cs.drop k) origins' scope') :
    Chain program cs (origins.take k ++ origins') (scope.take k ++ scope') := by
  induction k generalizing cs origins scope with
  | zero => exact outer
  | succ k ih =>
    cases h with
    | global => exact absurd within (Nat.not_succ_le_zero k)
    | inner opened located rest =>
      exact .inner opened located (ih rest (Nat.le_of_succ_le_succ within) outer)

theorem tail {c : Construct} (h : Chain program (c :: cs) origins scope) :
    Chain program cs (origins.drop 1) (scope.drop 1) := by
  cases h with
  | inner _ _ outer => exact outer

/-- Variables do not matter. -/
theorem congr (h : Chain program cs origins scope) {scope' : Scope}
    (same : scope'.map Frame.functions = scope.map Frame.functions) :
    Chain program cs origins scope' := by
  induction h generalizing scope' with
  | global opened located =>
    obtain ⟨frame', rfl, one⟩ := List.map_eq_singleton_iff.mp same
    exact .global opened (located.congr one)
  | inner opened located _ ih =>
    obtain ⟨frame', outer, rfl, one, others⟩ := List.map_eq_cons_iff.mp same
    exact .inner opened (located.congr one) (ih others)

theorem define (h : Chain program cs origins scope) {g : Function} {place : Place}
    (defined : place.statement? program = some (.define g)) (enclosing : place.enclosing = cs) :
    Chain program cs
      (origins.modifyHead fun origin => { origin with homes := origin.homes.insert g.name place })
      (scope.define g) := by
  cases h with
  | global opened located => exact .global opened (located.define defined enclosing)
  | inner opened located outer => exact .inner opened (located.define defined enclosing) outer

end Chain

/-! ## Runs -/

namespace Survey

variable {σ : Type}

/-- **Upright state** under the constructs `cs`: the frames are a chain for them, and all
visits so far were lexical. -/
def Upright (program : List Stmt) (cs : List Construct) (m : Machine (Survey σ)) : Prop :=
  Chain program cs m.world.host.origins m.scope ∧
    ∀ v ∈ m.world.host.visits, v.Lexical program

/-- Every primitive keeps a state upright. -/
theorem stable_upright (host : Host σ) (program : List Stmt) (cs : List Construct) :
    Stable host.surveyed fun m m' => Upright program cs m → Upright program cs m' where
  refl _ := id
  trans first second := second ∘ first
  world _ _ _ := id
  assign assigned upright :=
    ⟨upright.1.congr (Scope.unchanged_assign assigned).functions, upright.2⟩
  ask name args site m upright := by
    obtain ⟨heap, state, log, same⟩ := final_ask host name args site m
    rw [same]
    exact upright

/-- Inside a new frame the state is upright under one construct more. -/
theorem upright_inFrame {α : Type} {skipped : Nat} {c : Construct} {opener : Opener}
    {x : Eval (Survey σ) α} (fresh : frame.functions = []) (within : skipped ≤ cs.length)
    (under : c.place.enclosing = cs.drop skipped)
    (h : ∀ m, Upright program (c :: c.place.enclosing) m →
      Upright program (c :: c.place.enclosing) (final (x m)))
    (m : Machine (Survey σ)) (upright : Upright program cs m) :
    Upright program cs (final (inFrame skipped frame (inside skipped c opener x) m)) := by
  rw [under] at h
  obtain ⟨chain, visited⟩ := upright
  have start : Upright program (c :: cs.drop skipped) (entered skipped c opener frame m) :=
    ⟨.inner rfl (Origin.locates_nil _ fresh) (chain.drop within), visited⟩
  have ended := h _ start
  rw [final_inFrame_inside]
  exact ⟨chain.splice within ended.1.tail, ended.2⟩

/-- **The chain of the constructs around a place is kept** by the evaluation of what stands
there. -/
theorem relates_upright (host : Host σ) (program : List Stmt) :
    Relates host (fun place s => place.statement? program = some s)
      (fun cs skipped c => skipped ≤ cs.length ∧ c.place.enclosing = cs.drop skipped)
      fun cs => Leads fun m m' => Upright program cs m → Upright program cs m' where
  congruence cs := (stable_upright host program cs).congruence host id
  visit {α place s node x y} standing inside h m upright := by
    obtain ⟨scope, heap, ⟨origins, visits, openings, state⟩, log⟩ := m
    obtain ⟨chain, visited⟩ := upright
    refine h _ ⟨chain, ?_⟩
    intro v mem
    rcases List.mem_cons.mp mem with rfl | old
    · have length : scope.length = place.enclosing.length + 1 := chain.length_scope
      exact {
        standing := ⟨s, standing, inside⟩
        frames := chain.constructs
        length := by
          show scope.length = (origins.map Origin.construct).length
          rw [chain.constructs, length, List.length_append, List.length_map, List.length_singleton]
        depth := by
          show scope.length - 1 = place.enclosing.length
          rw [length, Nat.add_sub_cancel]
        functions := fun _ _ => chain.definedUnder }
    · exact visited v old
  declare _ name v m upright :=
    ⟨upright.1.congr (Scope.functions_declare name v m.scope), upright.2⟩
  define {place g} standing m upright := ⟨upright.1.define standing rfl, upright.2⟩
  resolve {α cs name k k'} none found m upright := by
    show Upright program cs (final (k ((m.scope.function? name).map _) m))
    cases resolved : m.scope.function? name with
    | none => exact none m.scope resolved m upright
    | some result =>
      obtain ⟨skipped, g⟩ := result
      obtain ⟨defined, within, enclosing⟩ := upright.1.function? resolved
      exact found m.scope skipped g _ resolved defined ⟨within, enclosing⟩ m upright
  inFrame under fresh h := upright_inFrame fresh.functions under.1 under.2 h
  step standing written found := by
    simp only [Place.statement?, standing, written, Option.bind_eq_bind, Option.bind_some, found]
  under _ _ := ⟨Nat.zero_le _, rfl⟩

/-- **Any programs keep the global frame upright**, whether they fail or not.  What they
consist of stands behind the statements that were there `before`. -/
theorem upright_execute (host : Host σ) {before : List Stmt} {runs : List Run}
    (text : program = before ++ runs.flatMap fun r => r.program.statements)
    {m : Machine (Survey σ)} (upright : Upright program [] m) :
    Upright program [] (Survey.execute host before.length runs m) := by
  induction runs generalizing before m with
  | nil => exact upright
  | cons r runs ih =>
    rw [List.flatMap_cons] at text
    have top : ∀ i s, r.program.statements[i]? = some s →
        (Place.top (before.length + i)).statement? program = some s := by
      intro i s found
      obtain ⟨within, -⟩ := List.getElem?_eq_some_iff.mp found
      rw [Place.statement?, text, List.getElem?_append_right (Nat.le_add_right _ _),
        Nat.add_sub_cancel_left, List.getElem?_append_left within, found]
    have ended := (relates_upright host program).block r.config r.fuel top m upright
    rw [← List.append_assoc] at text
    have rest := ih text ended
    rwa [List.length_append] at rest

/-- **Scoping is lexical.**  Any programs are executed one after the other in one scope, with
any host and each with its own settings and fuel, and each may fail.  The survey, which tells
the nodes that are evaluated, changes nothing of the run.  Whenever a node is evaluated, the
frames from the innermost to the outermost are one for each construct around the node, in
this order, and then the global frame, however the run has got there. -/
theorem lexical_execute (host : Host σ) (runs : List Run) (state : σ) (log : Log) :
    let program := runs.flatMap fun r => r.program.statements
    let ended := Survey.execute host 0 runs ((Machine.start state log).survey [⟨none, []⟩])
    ended.unsurveyed = (Machine.start state log).execute host runs ∧
      ∀ v ∈ ended.world.host.visits, v.Lexical program := by
  intro program ended
  have start : Upright program [] ((Machine.start state log).survey [⟨none, []⟩]) :=
    ⟨.global rfl (Origin.locates_nil none rfl), fun _ mem => absurd mem List.not_mem_nil⟩
  constructor
  · exact unsurveyed_execute host 0 runs _
  · exact (upright_execute host (List.nil_append program).symm start).2

end Survey

end Scriptlet
