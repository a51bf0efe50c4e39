import Scriptlet.Proofs.Congruence.Pursuit
import Scriptlet.Proofs.Output.Signed

/-!
# Limited output

A script does not see how much of its output is accepted, until a write does not fit.

## Main definitions

* `Within` — two machines that differ in the limit of the sink, which is not exceeded yet
* `CutOff` — the fault of the write that exceeds the limit, and what was accepted

## Main statements

* `Sink.write_of_le`, `Sink.write_of_lt` — writes that fit, and those that do not
* `pursuit_limit` — a limited run goes with the unlimited one until it is cut off
* `Program.run_limited` — a limited run from the output of the unlimited one

## Design decisions

* The unlimited run is signed, so that the call that wrote a byte can be named.
-/

namespace Scriptlet

open Eval

namespace Sink

/-- The sink with another limit. -/
def setLimit (limit : Option Nat) (sink : Sink) : Sink := { sink with limit }

/-- A write that fits is accepted as a whole. -/
theorem write_of_le {data bytes : Array UInt8} {limit : Nat} (h : bytes.size + data.size ≤ limit) :
    write data ⟨bytes, some limit⟩ = (true, ⟨bytes ++ data, some limit⟩) := by
  have all : room (some limit) bytes.size data.size = data.size := by
    simp only [room]
    omega
  rw [write, all, beq_self_eq_true]
  simp

/-- The beginning of two texts one behind the other, if it has all of the first. -/
theorem take_append_of_le {first second : Array UInt8} {n : Nat} (h : first.size ≤ n) :
    (first ++ second).take n = first ++ second.take (n - first.size) := by
  rw [Array.take_eq_extract, Array.take_eq_extract, Array.extract_append,
    Array.extract_eq_self_of_le h, Nat.zero_sub]

/-- A write that does not fit is cut at the limit. -/
theorem write_of_lt {data bytes : Array UInt8} {limit : Nat} (used : bytes.size ≤ limit)
    (h : limit < bytes.size + data.size) :
    write data ⟨bytes, some limit⟩ = (false, ⟨(bytes ++ data).take limit, some limit⟩) := by
  have part : room (some limit) bytes.size data.size = limit - bytes.size := by
    simp only [room]
    omega
  have cut : (limit - bytes.size == data.size) = false := by
    rw [beq_eq_false_iff_ne]
    omega
  rw [write, part, cut, take_append_of_le used]

end Sink

/-- **Within the limit.**  The machine on the right is the one on the left with a limit, and
that has not been exceeded. -/
structure Within (limit : Nat) (m : Machine Signed) (n : Machine Sink) : Prop where
  /-- Except for the limit, the machines are the same. -/
  same : n = m.mapHost fun s => s.sink.setLimit (some limit)
  /-- There is no limit on the left. -/
  unlimited : m.world.host.sink.limit = none
  /-- The limit has not been exceeded. -/
  room : m.world.host.sink.bytes.size ≤ limit
  /-- Every byte has an author. -/
  signed : m.world.host.authors.size = m.world.host.sink.bytes.size

/-- **Cut off.**  The byte that comes when the limit is reached is written during a call of
`print`.  At that call the run on the right stops, with the bytes before. -/
def CutOff (limit : Nat) (w : World Signed) (e : Stop) (v : World Sink) : Prop :=
  ∃ site, limit < w.host.sink.bytes.size ∧
    w.host.authors[limit]? = some (Builtin.print.name, site) ∧
    e = .fault ⟨.output "sink is full", site⟩ ∧
    v.host = ⟨w.host.sink.bytes.take limit, some limit⟩

/-- What is written later does not matter. -/
theorem CutOff.onward {limit : Nat} {w w' : World Signed} {e : Stop} {v : World Sink}
    (h : CutOff limit w e v) (later : w.host.Extends w'.host) : CutOff limit w' e v := by
  obtain ⟨site, reached, author, stopped, accepted⟩ := h
  obtain ⟨bytes, authors, -, written, signed⟩ := later
  refine ⟨site, ?_, ?_, stopped, ?_⟩
  · rw [written, Array.size_append]
    exact Nat.lt_add_right _ reached
  · rw [signed, Array.getElem?_append_left (Array.getElem?_eq_some_iff.mp author).1, author]
  · rw [accepted, written, Array.take_eq_extract, Array.take_eq_extract, Array.extract_append,
      Nat.sub_eq_zero_of_le (Nat.le_of_lt reached),
      Array.extract_empty_of_stop_le_start (Nat.zero_le _), Array.append_empty]

theorem stable_extends :
    Stable Standard.host.signed fun m m' => m.world.host.Extends m'.world.host where
  refl m := m.world.host.extends_refl
  trans := .trans
  world m _ _ := m.world.host.extends_refl
  assign _ := Signed.extends_refl _
  ask := Signed.extends_ask

theorem simulation_within (limit : Nat) : Simulation Host.mute Host.mute id (Within limit) where
  scope := by
    rintro m _ ⟨rfl, -, -, -⟩
    rw [Scope.mapSites_id]
    rfl
  heap := by
    rintro m _ ⟨rfl, -, -, -⟩
    rfl
  setScope := by
    rintro m _ ⟨rfl, unlimited, room, signed⟩ scope
    rw [Scope.mapSites_id]
    exact ⟨rfl, unlimited, room, signed⟩
  setHeap := by
    rintro m _ ⟨rfl, unlimited, room, signed⟩ heap
    exact ⟨rfl, unlimited, room, signed⟩
  note := by
    rintro m _ ⟨rfl, unlimited, room, signed⟩ e
    rw [Event.mapSites_id]
    exact ⟨rfl, unlimited, room, signed⟩
  ask _ _ _ _ _ within := .ok Reply.unrecognized within

/-- **A call** within the limit goes the same way on both sides, or the write of a `print`
is cut. -/
theorem follows_ask (limit : Nat) (name : String) (args : List Value) (site : Site) :
    Follows id (Within limit) (CutOff limit) Reply
      (Eval.ask Standard.host.signed name args site) (Eval.ask Standard.host name args site) := by
  rintro ⟨scope, heap, ⟨⟨bytes, _⟩, authors⟩, log⟩ _ ⟨rfl, rfl, room, signed⟩
  simp only [Eval.ask, Host.signed, Standard.host, Machine.mapHost, World.mapHost, Sink.setLimit]
  obtain ⟨outcome, heap', log', untouched⟩ | ⟨rfl, text, log', wrote⟩ :=
    Standard.call_sink name args heap log
  · left
    rw [untouched, untouched]
    have author : Signed.Extends ⟨⟨bytes, none⟩, authors⟩
        (Signed.sign (name, site) ⟨bytes, none⟩ ⟨⟨bytes, none⟩, authors⟩) :=
      Signed.extends_sign Array.append_empty.symm _
    cases outcome with
    | ok reply => exact .ok reply ⟨rfl, rfl, room, author.size_authors signed⟩
    | error fault =>
      exact .error (.fault ⟨fault, site⟩) ⟨rfl, rfl, room, author.size_authors signed⟩
  · rw [wrote, wrote, Sink.write_ofNoLimit]
    have author : Signed.Extends ⟨⟨bytes, none⟩, authors⟩
        (Signed.sign (Builtin.print.name, site) ⟨bytes ++ Text.bytes text, none⟩
          ⟨⟨bytes, none⟩, authors⟩) := Signed.extends_sign rfl _
    by_cases fits : bytes.size + (Text.bytes text).size ≤ limit
    · left
      rw [Sink.write_of_le fits]
      rw [← Array.size_append] at fits
      exact .ok Reply.finished ⟨rfl, rfl, fits, author.size_authors signed⟩
    · right
      have reached := Nat.lt_of_not_le fits
      rw [Sink.write_of_lt room reached]
      refine ⟨_, _, rfl, site, ?_, ?_, rfl, rfl⟩
      · rwa [← Array.size_append] at reached
      · show (authors ++ Array.replicate _ _)[limit]? = _
        have sizes : authors.size = bytes.size := signed
        have within : bytes.size ≤ limit := room
        have inside : limit - authors.size < (bytes ++ Text.bytes text).size - bytes.size := by
          rw [Array.size_append]
          omega
        rw [Array.getElem?_append_right (sizes ▸ within), Array.getElem?_replicate, if_pos inside]

theorem pursuit_limit (limit : Nat) :
    Pursuit Standard.host.signed Standard.host id (Within limit)
      (fun w w' => w.host.Extends w'.host) (CutOff limit) where
  inside := simulation_within limit
  onward := stable_extends
  ask := follows_ask limit
  cut := CutOff.onward

namespace Program

variable {σ α : Type}

/-- The machine at the end of a program. -/
def final : EStateM.Result Halt (Machine σ) α → Machine σ
  | .ok _ m | .error _ m => m

theorem final_ofEval (x : Eval σ α) (m : Machine σ) : final (ofEval x m) = Eval.final (x m) := by
  unfold ofEval
  cases x m <;> rfl

theorem within_start (limit : Nat) (log : Log) :
    Within limit (.start .start log) (.start (.ofLimit (some limit)) log) :=
  ⟨rfl, rfl, Nat.zero_le _, rfl⟩

/-- Every byte of the output has an author. -/
theorem size_authors (config : Config) (fuel : Nat) (source file : String) (log : Log) :
    let s := (final (run Standard.host.signed config fuel source file .start log)).world.host
    s.authors.size = s.sink.bytes.size := by
  obtain ⟨e, log', ran⟩ | ⟨program, log', ran⟩ := run_start config fuel source file log
  · rw [ran]
    rfl
  · rw [ran, final_ofEval]
    have pursues := (pursuit_limit 0).framed.block config fuel program
    exact (pursues.leads (.start .start log')).size_authors rfl

/-- **A limited run** is the unlimited one within the limit, or it is cut off. -/
theorem run_within_or_cutOff (config : Config) (fuel : Nat) (source file : String) (log : Log)
    (limit : Nat) :
    let signed := run Standard.host.signed config fuel source file .start log
    let limited := run Standard.host config fuel source file (.ofLimit (some limit)) log
    (final signed).world.host.sink.bytes.size ≤ limit ∧
        limited = mapState (Machine.mapHost (Sink.setLimit (some limit)))
          (mapState (Machine.mapHost Signed.sink) signed) ∨
      ∃ e m, limited = .error (.ofStop e) m ∧ CutOff limit (final signed).world e m.world := by
  obtain ⟨e, log', ran⟩ | ⟨program, log', ran⟩ := run_start config fuel source file log
  · rw [ran, ran]
    exact .inl ⟨Nat.zero_le _, rfl⟩
  · rw [ran, ran]
    dsimp only
    rw [final_ofEval]
    have pursues := (pursuit_limit limit).framed.block config fuel program
    have follows := pursues.follows _ _ (within_start limit log')
    rw [Block.mapSites_id] at follows
    unfold ofEval
    generalize Eval.block Standard.host.signed config fuel program _ = r at follows
    generalize Eval.block Standard.host config fuel program _ = r' at follows
    obtain ends | ⟨e, m, rfl, cut⟩ := follows
    · left
      cases ends with
      | ok a within => exact ⟨within.room, by rw [within.same]; rfl⟩
      | error stop within =>
        refine ⟨within.room, ?_⟩
        rw [Stop.mapSites_id, within.same]
        rfl
    · exact .inr ⟨e, m, rfl, cut⟩

/-- **Limited runs.**  Let a source text be run by the standard host, once with all its output
accepted and once with a limit.  If the output of the unlimited run is not longer than that,
the limited run is the same, except for the limit.  Otherwise it fails because the sink is
full, with as much of the output as the limit allows, at the site of the call of `print`
during which the next byte was written in the unlimited run. -/
theorem run_limited (config : Config) (fuel : Nat) (source file : String) (log : Log)
    (limit : Nat) :
    let signed := run Standard.host.signed config fuel source file .start log
    let whole := run Standard.host config fuel source file (.ofLimit none) log
    let limited := run Standard.host config fuel source file (.ofLimit (some limit)) log
    let output := (final whole).world.host.bytes
    let authors := (final signed).world.host.authors
    whole = mapState (Machine.mapHost Signed.sink) signed ∧ authors.size = output.size ∧
      (output.size ≤ limit →
        limited = mapState (Machine.mapHost (Sink.setLimit (some limit))) whole) ∧
      (limit < output.size → ∃ site m,
        authors[limit]? = some (Builtin.print.name, site) ∧
          limited = .error (.error (.runtime ⟨.output "sink is full", site⟩)) m ∧
          m.world.host = ⟨output.take limit, some limit⟩) := by
  intro signed whole limited output authors
  have unsigned : whole = mapState (Machine.mapHost Signed.sink) signed :=
    ((Host.covers_signed Standard.host).run config fuel source file .start log).symm
  have printed : output = (final signed).world.host.sink.bytes := by
    show (final whole).world.host.bytes = _
    rw [unsigned]
    cases signed <;> rfl
  refine ⟨unsigned, ?_⟩
  rw [printed]
  refine ⟨size_authors config fuel source file log, ?_⟩
  obtain ⟨fits, same⟩ | ⟨e, m, stopped, site, reached, author, rfl, accepted⟩ :=
    run_within_or_cutOff config fuel source file log limit
  · refine ⟨fun _ => ?_, fun exceeds => absurd fits (Nat.not_le_of_lt exceeds)⟩
    rw [unsigned]
    exact same
  · exact ⟨fun fits => absurd fits (Nat.not_le_of_lt reached),
      fun _ => ⟨site, m, author, stopped, accepted⟩⟩

end Program

end Scriptlet
