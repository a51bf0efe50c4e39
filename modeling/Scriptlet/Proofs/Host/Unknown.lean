import Scriptlet.Host.Standard
import Scriptlet.Proofs.Congruence.Cover
import Scriptlet.Proofs.Congruence.Pursuit

/-!
# Functions that nobody knows

A run that ignores calls of unknown functions does what a run does that stops at the first of
them, as far as that gets.

## Main definitions

* `Host.strict`, `Host.forgiving` — hosts that make the policy unnecessary
* `Exchange`, `Ledger` — a call of the host with its answer, and all of them in a run
* `Ledger.StoppedAtUnknown` — an evaluation has ended because of an unknown function

## Main statements

* `Eval.block_eq_of_callHost` — blocks depend on the host and on the policy only in their calls
* `Ledger.pursuit`, `Ledger.same_or_stopped` — the run that stops follows the one that does not
* `Eval.ignoring_extends` — runs under the two policies

## Design decisions

* The policy can be moved into the host, and then both runs have one policy and two hosts.
  The one that stops follows the other one in the sense of `Pursuit`.
* The ledger keeps the world after each call, so equal ledgers mean equal outputs.
-/

namespace Scriptlet

open Eval

variable {σ : Type}

/-! ## The policy in the host -/

namespace Eval

variable {host host' : Host σ} {config config' : Config}

theorem statements_eq_of_blockResults (ends : config.blockResults = config'.blockResults)
    (exec : Stmt → Eval σ (Option Value)) (ss : List Stmt) :
    statements config exec ss = statements config' exec ss := by
  induction ss with
  | nil => rfl
  | cons s rest ih =>
    unfold statements Config.endsBlock
    rw [ih, ends]

theorem expr_and_stmt_eq_of_callHost (ends : config.blockResults = config'.blockResults)
    (calls : ∀ eval name args site,
      callHost host config eval name args site = callHost host' config' eval name args site)
    (fuel : Nat) : expr host config fuel = expr host' config' fuel ∧
      stmt host config fuel = stmt host' config' fuel := by
  have invokes : invoke host config = invoke host' config' := by
    funext eval run name args site
    unfold invoke
    simp only [calls]
  induction fuel with
  | zero =>
    constructor
    · funext e
      unfold expr
      rfl
    · funext s
      unfold stmt
      rfl
  | succ fuel ih =>
    obtain ⟨exprs, stmts⟩ := ih
    have blocks : block host config fuel = block host' config' fuel := by
      funext b
      unfold block
      rw [stmts, statements_eq_of_blockResults ends]
    constructor
    · funext e
      rw [expr_succ, expr_succ, exprs, blocks, invokes]
    · funext s
      rw [stmt_succ, stmt_succ, exprs, blocks, invokes]

/-- **The host and the policy for unknown functions matter in calls only.** -/
theorem block_eq_of_callHost (ends : config.blockResults = config'.blockResults)
    (calls : ∀ eval name args site,
      callHost host config eval name args site = callHost host' config' eval name args site)
    (fuel : Nat) (b : Block) : block host config fuel b = block host' config' fuel b := by
  unfold block
  rw [(expr_and_stmt_eq_of_callHost ends calls fuel).2, statements_eq_of_blockResults ends]

end Eval

namespace Host

/-- **Strict host.**  A call of a function that it does not know is a fault. -/
def strict (host : Host σ) : Host σ where
  call name args site w :=
    match host.call name args site w with
    | .ok .unrecognized w => .error (.undefinedFunction name) w
    | r => r

/-- **Forgiving host.**  A call of a function that it does not know has no result, and a
warning is logged. -/
def forgiving (host : Host σ) : Host σ where
  call name args site w :=
    match host.call name args site w with
    | .ok .unrecognized w => .ok .finished { w with log := w.log.add (.ignoringUnknown name site) }
    | r => r

/-- A run that stops at unknown functions is one with the strict host. -/
theorem block_strict (host : Host σ) (results : BlockResults) (fuel : Nat) (b : Block) :
    block host ⟨results, .error⟩ fuel b = block host.strict ⟨results, .ignore⟩ fuel b := by
  refine block_eq_of_callHost ?_ (fun eval name args site => ?_) fuel b
  · rfl
  unfold callHost
  refine bind_congr fun vs => ?_
  funext m
  show EStateM.bind _ _ m = EStateM.bind _ _ m
  unfold EStateM.bind ask strict
  dsimp only
  cases host.call name vs site m.world with
  | error fault w => rfl
  | ok reply w => cases reply <;> rfl

/-- A run that ignores unknown functions is one with the forgiving host. -/
theorem block_forgiving (host : Host σ) (results : BlockResults) (fuel : Nat) (b : Block) :
    block host ⟨results, .ignore⟩ fuel b = block host.forgiving ⟨results, .error⟩ fuel b := by
  refine block_eq_of_callHost ?_ (fun eval name args site => ?_) fuel b
  · rfl
  unfold callHost
  refine bind_congr fun vs => ?_
  funext m
  show EStateM.bind _ _ m = EStateM.bind _ _ m
  unfold EStateM.bind ask forgiving
  dsimp only
  cases host.call name vs site m.world with
  | error fault w => rfl
  | ok reply w => cases reply <;> rfl

end Host

/-! ## Ledgers -/

/-- **Exchange** with a host: a call and what came of it. -/
structure Exchange (σ : Type) where
  /-- The name that was called. -/
  name : String
  /-- The arguments. -/
  args : List Value
  /-- The site of the call. -/
  site : Site
  /-- The answer. -/
  answer : Except Fault Reply
  /-- The world after the call. -/
  world : World σ

/-- The host did not know the function. -/
def Exchange.Unknown (x : Exchange σ) : Prop := x.answer = .ok .unrecognized

/-- **Ledger** of a run with a host of state `σ`. -/
structure Ledger (σ : Type) where
  /-- The calls so far, the latest first. -/
  calls : List (Exchange σ)
  /-- The state of the host. -/
  host : σ

/-- A host with a ledger, which it knows nothing of. -/
def Host.ledgered (host : Host σ) : Host (Ledger σ) where
  call name args site w :=
    match host.call name args site (w.mapHost Ledger.host) with
    | .ok reply w' =>
      .ok reply (w'.mapHost (Ledger.mk (⟨name, args, site, .ok reply, w'⟩ :: w.host.calls)))
    | .error fault w' =>
      .error fault (w'.mapHost (Ledger.mk (⟨name, args, site, .error fault, w'⟩ :: w.host.calls)))

theorem Host.covers_ledgered (host : Host σ) : host.ledgered.Covers Ledger.host host := by
  intro name args site w
  simp only [Host.ledgered]
  cases host.call name args site (w.mapHost Ledger.host) <;> rfl

/-- The machine with an empty ledger. -/
def Machine.ledger (m : Machine σ) : Machine (Ledger σ) := m.mapHost (Ledger.mk [])

namespace Ledger

variable {α : Type}

/-- The machine without the ledger. -/
abbrev dropped (m : Machine (Ledger σ)) : Machine σ := m.mapHost Ledger.host

/-- The calls that were made on a world. -/
def made (w : World (Ledger σ)) : List (Exchange σ) := w.host.calls

/-- The call `x` of an unknown function is the fault, and the last call that was made. -/
structure StopsAt (x : Exchange σ) (stop : Stop) (w : World (Ledger σ)) : Prop where
  /-- The function is unknown. -/
  unknown : x.Unknown
  /-- That is the fault. -/
  fault : stop = .fault ⟨.undefinedFunction x.name, x.site⟩
  /-- The call is the last one. -/
  last : ∃ earlier, made w = x :: earlier
  /-- Nothing has happened since. -/
  world : x.world = w.mapHost Ledger.host

/-- **Stopped at an unknown function.** -/
def StoppedAtUnknown (r : EStateM.Result Stop (Machine (Ledger σ)) α) : Prop :=
  ∃ x stop m, r = .error stop m ∧ StopsAt x stop m.world

/-- The one run goes on where the other one was stopped: it has made the same calls, and
possibly more. -/
def Cut (w : World (Ledger σ)) (stop : Stop) (v : World (Ledger σ)) : Prop :=
  (∃ x, StopsAt x stop v) ∧ ∃ later, made w = later ++ made v

/-- All functions that were called so far are known. -/
def AllKnown (w : World (Ledger σ)) : Prop := ∀ x ∈ made w, ¬ x.Unknown

theorem allKnown_ledger (m : Machine σ) : AllKnown m.ledger.world :=
  fun _ mem => absurd mem List.not_mem_nil

/-- A call that gets another answer is one more of a known function. -/
theorem AllKnown.cons {w w' : World (Ledger σ)} (h : AllKnown w) {x : Exchange σ}
    (more : made w' = x :: made w) (known : x.answer ≠ .ok .unrecognized) : AllKnown w' := by
  unfold AllKnown
  rw [more]
  exact List.forall_mem_cons.mpr ⟨known, h⟩

theorem StoppedAtUnknown.not_allKnown {r : EStateM.Result Stop (Machine (Ledger σ)) α}
    (h : StoppedAtUnknown r) : ¬ AllKnown (final r).world := by
  obtain ⟨x, stop, m, rfl, stops⟩ := h
  obtain ⟨earlier, last⟩ := stops.last
  intro known
  have mem : x ∈ made m.world := by
    rw [last]
    exact .head _
  exact known x mem stops.unknown

/-- A run with the forgiving host does not meet unknown functions. -/
theorem stable_allKnown (host : Host σ) : Stable host.forgiving.ledgered
    fun m m' => AllKnown m.world → AllKnown m'.world where
  refl _ := id
  trans first second := second ∘ first
  world _ _ _ := id
  assign _ := id
  ask name args site := by
    rintro ⟨scope, w⟩ known
    unfold Eval.ask Host.ledgered Host.forgiving
    dsimp only
    cases host.call name args site (w.mapHost Ledger.host) with
    | error fault w' => exact known.cons rfl nofun
    | ok reply w' => cases reply <;> exact known.cons rfl nofun

theorem not_stopped_forgiving (host : Host σ) (config : Config) (fuel : Nat) (b : Block)
    (m : Machine σ) :
    ¬ StoppedAtUnknown (block host.forgiving.ledgered config fuel b m.ledger) := by
  have framed := (stable_allKnown host).framed (R := fun w w' => AllKnown w → AllKnown w') host id
  have known := framed.block config fuel b m.ledger (allKnown_ledger m)
  exact fun stopped => stopped.not_allKnown known

/-- The machines are the same, and nothing unknown was called so far. -/
def InStep (m n : Machine (Ledger σ)) : Prop := n = m ∧ AllKnown m.world

/-- Without calls of the host, machines stay in step. -/
theorem simulation_inStep : Simulation Host.mute Host.mute id (InStep (σ := σ)) where
  scope := by
    rintro m _ ⟨rfl, -⟩
    rw [Scope.mapSites_id]
  heap := by
    rintro m _ ⟨rfl, -⟩
    rfl
  setScope := by
    rintro m _ ⟨rfl, known⟩ scope
    rw [Scope.mapSites_id]
    exact ⟨rfl, known⟩
  setHeap := by
    rintro m _ ⟨rfl, known⟩ heap
    exact ⟨rfl, known⟩
  note := by
    rintro m _ ⟨rfl, known⟩ e
    rw [Event.mapSites_id]
    exact ⟨rfl, known⟩
  ask _ _ _ _ _ same := .ok Reply.unrecognized same

/-- Calls are only added. -/
theorem stable_made (host : Host σ) : Stable host.ledgered
    fun m m' => ∃ later, made m'.world = later ++ made m.world where
  refl _ := ⟨[], rfl⟩
  trans := by
    rintro m m' m'' ⟨first, same⟩ ⟨second, same'⟩
    exact ⟨second ++ first, by rw [same', same, List.append_assoc]⟩
  world _ _ _ := ⟨[], rfl⟩
  assign _ := ⟨[], rfl⟩
  ask name args site := by
    rintro ⟨scope, w⟩
    unfold Eval.ask Host.ledgered
    dsimp only
    cases host.call name args site (w.mapHost Ledger.host) with
    | ok reply w' => exact ⟨[_], rfl⟩
    | error fault w' => exact ⟨[_], rfl⟩

/-- **The run that stops follows the run that does not.** -/
theorem pursuit (host : Host σ) : Pursuit host.ledgered host.ledgered.strict id InStep
    (fun w w' => ∃ later, made w' = later ++ made w) Cut where
  inside := simulation_inStep
  onward := stable_made host
  ask name args site := by
    rintro ⟨scope, w⟩ _ ⟨rfl, known⟩
    unfold Eval.ask Host.strict Host.ledgered
    dsimp only [id]
    cases host.call name args site (w.mapHost Ledger.host) with
    | error fault w' =>
      exact .inl (.error (.fault ⟨fault, site⟩) ⟨rfl, known.cons rfl nofun⟩)
    | ok reply w' =>
      cases reply with
      | unrecognized =>
        refine .inr ⟨.fault ⟨.undefinedFunction name, site⟩, _, rfl, ?_, [], rfl⟩
        exact ⟨⟨name, args, site, .ok .unrecognized, w'⟩, rfl, rfl, ⟨_, rfl⟩, rfl⟩
      | returned v => exact .inl (.ok (Reply.returned v) ⟨rfl, known.cons rfl nofun⟩)
      | finished => exact .inl (.ok Reply.finished ⟨rfl, known.cons rfl nofun⟩)
  cut := by
    rintro w w' stop v ⟨stopped, later, same⟩ ⟨more, same'⟩
    exact ⟨stopped, more ++ later, by rw [same', same, List.append_assoc]⟩

theorem eq_of_ends {r r' : EStateM.Result Stop (Machine (Ledger σ)) α}
    (h : Ends id InStep r r') : r = r' ∧ AllKnown (final r').world := by
  cases h with
  | ok a same =>
    obtain ⟨rfl, known⟩ := same
    exact ⟨rfl, known⟩
  | error e same =>
    obtain ⟨rfl, known⟩ := same
    rw [Stop.mapSites_id]
    exact ⟨rfl, known⟩

/-- **Two runs.**  Either the run that ignores unknown functions does the same, and knows all
functions that it calls, or the run that stops has done so at an unknown function. -/
theorem same_or_stopped (host : Host σ) (results : BlockResults) (fuel : Nat) (b : Block)
    (m : Machine σ) :
    let stopping := block host.ledgered ⟨results, .error⟩ fuel b m.ledger
    let ignoring := block host.ledgered ⟨results, .ignore⟩ fuel b m.ledger
    (ignoring = stopping ∧ ¬ StoppedAtUnknown stopping) ∨
      StoppedAtUnknown stopping ∧
        ∃ later, made (final ignoring).world = later ++ made (final stopping).world := by
  intro stopping ignoring
  have start : InStep m.ledger m.ledger := ⟨rfl, allKnown_ledger m⟩
  have follows := ((pursuit host).framed.block ⟨results, .ignore⟩ fuel b).follows _ _ start
  rw [Block.mapSites_id, ← Host.block_strict] at follows
  rcases follows with same | ⟨stop, n, ran, ⟨x, stopped⟩, later, made⟩
  · obtain ⟨same, known⟩ := eq_of_ends same
    exact .inl ⟨same, fun stopped => stopped.not_allKnown known⟩
  · refine .inr ⟨⟨x, stop, n, ran, stopped⟩, later, ?_⟩
    rw [show stopping = _ from ran]
    exact made

end Ledger

/-! ## The two policies -/

/-- **Ignoring unknown functions** changes nothing before the first of them is called.

The run that stops at unknown functions and the one that ignores them are taken with ledgers,
without which they are the plain runs.  Unless the one that stops has stopped at an unknown
function, they are the same.  If it has, the other one has made the same calls up to that
one, on the same worlds and with the same answers.  It then goes on: a call of an unknown
function is for it one that has no result, and nothing is left that the forgiving host does
not know. -/
theorem Eval.ignoring_extends (host : Host σ) (results : BlockResults) (fuel : Nat) (b : Block)
    (m : Machine σ) :
    let stopping := block host.ledgered ⟨results, .error⟩ fuel b m.ledger
    let ignoring := block host.ledgered ⟨results, .ignore⟩ fuel b m.ledger
    mapState Ledger.dropped stopping = block host ⟨results, .error⟩ fuel b m ∧
    mapState Ledger.dropped ignoring = block host ⟨results, .ignore⟩ fuel b m ∧
    (¬ Ledger.StoppedAtUnknown stopping → ignoring = stopping ∧
      block host ⟨results, .ignore⟩ fuel b m = block host ⟨results, .error⟩ fuel b m) ∧
    (Ledger.StoppedAtUnknown stopping → ∃ later,
      Ledger.made (final ignoring).world = later ++ Ledger.made (final stopping).world) ∧
    block host ⟨results, .ignore⟩ fuel b m = block host.forgiving ⟨results, .error⟩ fuel b m ∧
    ¬ Ledger.StoppedAtUnknown
      (block host.forgiving.ledgered ⟨results, .error⟩ fuel b m.ledger) := by
  intro stopping ignoring
  have stops : mapState Ledger.dropped stopping = block host ⟨results, .error⟩ fuel b m :=
    host.covers_ledgered.block ⟨results, .error⟩ fuel b m.ledger
  have ignores : mapState Ledger.dropped ignoring = block host ⟨results, .ignore⟩ fuel b m :=
    host.covers_ledgered.block ⟨results, .ignore⟩ fuel b m.ledger
  refine ⟨stops, ignores, fun known => ?_, fun stopped => ?_, ?_,
    Ledger.not_stopped_forgiving host ⟨results, .error⟩ fuel b m⟩
  · obtain ⟨same, -⟩ | ⟨stopped, -⟩ := Ledger.same_or_stopped host results fuel b m
    · exact ⟨same, by rw [← stops, ← ignores, show ignoring = stopping from same]⟩
    · exact absurd stopped known
  · obtain ⟨-, known⟩ | ⟨-, further⟩ := Ledger.same_or_stopped host results fuel b m
    · exact absurd stopped known
    · exact further
  · rw [host.block_forgiving]

/-- The call `print("a");`. -/
def Eval.onlyPrint : Block :=
  ⟨[.call "print" [.literal (.text "a") .unknown] .unknown], .unknown⟩

/-- The calls `nope();` and `print("a");`. -/
def Eval.nopeThenPrint : Block :=
  ⟨.call "nope" [] .unknown :: onlyPrint.statements, .unknown⟩

/-- The run of the one program does not stop at an unknown function, and that of the other one
does. -/
theorem Eval.ignoring_extends_of_print :
    let start : Machine Sink := .start (.ofLimit none) .silent
    let stopping := block Standard.host.ledgered ⟨.firstValue, .error⟩ 9
    let ignoring := block Standard.host.ledgered ⟨.firstValue, .ignore⟩ 9
    (¬ Ledger.StoppedAtUnknown (stopping onlyPrint start.ledger) ∧
      ignoring onlyPrint start.ledger = stopping onlyPrint start.ledger) ∧
    Ledger.StoppedAtUnknown (stopping nopeThenPrint start.ledger) ∧
    ∃ later, Ledger.made (final (ignoring nopeThenPrint start.ledger)).world =
      later ++ Ledger.made (final (stopping nopeThenPrint start.ledger)).world := by
  intro start stopping ignoring
  have known : ¬ Ledger.StoppedAtUnknown (stopping onlyPrint start.ledger) := by
    rintro ⟨x, stop, m, ran, -⟩
    cases show EStateM.Result.ok none _ = _ from ran
  have stopped : Ledger.StoppedAtUnknown (stopping nopeThenPrint start.ledger) := by
    refine ⟨_, _, _, rfl, ?_, ?_, ⟨_, rfl⟩, ?_⟩ <;> rfl
  have first := ignoring_extends Standard.host .firstValue 9 onlyPrint start
  have second := ignoring_extends Standard.host .firstValue 9 nopeThenPrint start
  exact ⟨⟨known, (first.2.2.1 known).1⟩, stopped, second.2.2.2.1 stopped⟩

end Scriptlet
