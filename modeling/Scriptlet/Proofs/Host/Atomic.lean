import Scriptlet.Proofs.Host.Ordered
import Scriptlet.Proofs.Output.Signed

/-!
# Failing builtins change nothing

A call of the host that fails leaves every array as it was.  It leaves the output as it was, too,
unless the sink did not take the whole line: then the accepted part of the line is in the output,
and nothing else.

## Main definitions

* `Standard.Checked` — a check whose faults are not about the output
* `Standard.Failure` — the fault and the world after a call that failed

## Main statements

* `Standard.run_failure`, `Standard.call_failure` — every failure is one of the two kinds
* `Standard.failed_call_atomic`

## Design decisions

* What was checked before the failure does not matter.  The checks of a builtin only read the
  heap, and their faults say so by their kind; the one fault of kind `output` is that of the sink.
-/

namespace Scriptlet

namespace Standard

/-- **A check that is not about the output.** -/
def Checked {α : Type} (r : Except Fault α) : Prop :=
  ∀ fault, r = .error fault → fault.kind ≠ .output

namespace Checked

theorem ok {α : Type} (a : α) : Checked (.ok a) := fun _ failed => nomatch failed

theorem error {α : Type} {fault : Fault} (h : fault.kind ≠ .output) :
    Checked (.error fault : Except Fault α) := by
  rintro _ ⟨⟩
  exact h

theorem bind {α β : Type} {r : Except Fault α} {f : α → Except Fault β} (h : Checked r)
    (next : ∀ a, Checked (f a)) : Checked (r >>= f) := by
  cases r with
  | ok a => exact next a
  | error fault => exact error (h fault rfl)

theorem elim {α β : Type} {o : Option α} {fault : Fault} {f : α → Except Fault β}
    (h : fault.kind ≠ .output) (next : ∀ a, Checked (f a)) : Checked (o.elim (.error fault) f) := by
  cases o with
  | none => exact error h
  | some a => exact next a

end Checked

/-! ## The checks of the builtins -/

theorem checked_array (heap : Heap) (v : Value) : Checked (Operation.array heap v) := by
  cases v with
  | array a => exact .ok a
  | number x | text s | boolean b | void => exact .error nofun

theorem checked_number (heap : Heap) (v : Value) : Checked (Operation.number heap v) := by
  cases v with
  | number x => exact .ok x
  | array a | text s | boolean b | void => exact .error nofun

theorem checked_position (x : Number) (n : Nat) : Checked (Operation.position x n) :=
  .elim nofun .ok

theorem checked_element (heap : Heap) (a : Handle) (v : Value) :
    Checked (checkElement heap a v) := by
  unfold checkElement
  split
  · exact .error nofun
  · split
    · exact .ok ()
    · exact .error nofun

theorem checked_arrayGet (heap : Heap) (args : List Value) : Checked (arrayGet heap args) := by
  unfold arrayGet
  split
  · apply (checked_array heap _).bind
    intro a
    apply (checked_number heap _).bind
    intro x
    apply (checked_position x _).bind
    intro i
    exact .elim nofun .ok
  · exact .error nofun

theorem checked_arrayTarget (heap : Heap) (args : List Value) :
    Checked (arrayTarget heap args) := by
  unfold arrayTarget
  split
  · apply (checked_array heap _).bind
    intro a
    apply (checked_number heap _).bind
    intro x
    apply (checked_position x _).bind
    intro i
    apply (checked_element heap a _).bind
    intro _
    exact .ok _
  · exact .error nofun

theorem checked_arrayLen (heap : Heap) (args : List Value) : Checked (arrayLen heap args) := by
  unfold arrayLen
  split
  · apply (checked_array heap _).bind
    intro a
    apply Checked.bind
    · exact .elim nofun .ok
    · intro n
      exact .ok _
  · exact .error nofun

theorem checked_arrayAddition (heap : Heap) (args : List Value) :
    Checked (arrayAddition heap args) := by
  unfold arrayAddition
  split
  · apply (checked_array heap _).bind
    intro a
    apply (checked_element heap a _).bind
    intro _
    exact .ok _
  · exact .error nofun

theorem checked_fill (template : String) (values : List String) :
    Checked (Template.fill template values) := by
  unfold Template.fill
  split
  · exact .ok _
  · exact .error nofun

theorem checked_printed (heap : Heap) (args : List Value) : Checked (printed heap args) := by
  unfold printed
  split
  · exact .ok _
  · exact .ok _
  · exact checked_fill _ _
  · exact .error nofun

/-! ## Failures -/

/-- **Failure** of a call in the world `w`. -/
inductive Failure (name : String) (args : List Value) (w : World Sink) :
    Fault → World Sink → Prop where
  /-- A check failed, and nothing was done. -/
  | check {fault : Fault} {w' : World Sink} :
      fault.kind ≠ .output → w'.heap = w.heap → w'.host = w.host → Failure name args w fault w'
  /-- The line was cut: the output ends with a part of it that is not the whole. -/
  | cut {s : String} {n : Nat} {fault : Fault} {w' : World Sink} :
      fault.kind = .output → name = Builtin.print.name → printed w.heap args = .ok s →
      n < (Text.bytes (s ++ "\n")).size → w'.heap = w.heap →
      w'.host = ⟨w.host.bytes ++ (Text.bytes (s ++ "\n")).take n, w.host.limit⟩ →
      Failure name args w fault w'

/-- **A write that is not accepted as a whole** leaves a proper part of it in the sink. -/
theorem write_cut {data : Array UInt8} {sink sink' : Sink} (h : sink.write data = (false, sink')) :
    ∃ n < data.size, sink' = ⟨sink.bytes ++ data.take n, sink.limit⟩ := by
  obtain ⟨bytes, limit⟩ := sink
  simp only [Sink.write, Prod.mk.injEq, beq_eq_false_iff_ne] at h
  refine ⟨Sink.room limit bytes.size data.size, ?_, h.2.symm⟩
  have most : Sink.room limit bytes.size data.size ≤ data.size := by
    unfold Sink.room
    split
    · exact Nat.le_refl _
    · exact Nat.min_le_left _ _
  exact Nat.lt_of_le_of_ne most h.1

/-- **A check and what comes next.**  If that cannot fail, it was the check that failed. -/
theorem failure_of_check {α : Type} {f : Heap → Except Fault α} {k : α → Action (Option Value)}
    {name : String} {args : List Value} {w w' : World Sink} {fault : Fault}
    (checked : Checked (f w.heap)) (next : ∀ a, k a w ≠ .error fault w')
    (h : (do k (← check (f (← heap))) : Action _) w = .error fault w') :
    Failure name args w fault w' := by
  rw [check_heap_bind] at h
  cases outcome : f w.heap with
  | ok a =>
    rw [outcome] at h
    exact absurd h (next a)
  | error found =>
    rw [outcome] at h
    cases h
    exact .check (checked _ outcome) rfl rfl

/-- Printing fails in the check of its arguments, or because the line was cut. -/
theorem print_failure {args : List Value} {w w' : World Sink} {fault : Fault}
    (h : print args w = .error fault w') : Failure Builtin.print.name args w fault w' := by
  obtain ⟨heap, sink, log⟩ := w
  rw [print_eq] at h
  cases text : printed heap args with
  | error found =>
    rw [text] at h
    cases h
    exact .check (checked_printed heap args _ text) rfl rfl
  | ok s =>
    rw [text] at h
    dsimp only at h
    cases wrote : sink.write (Text.bytes (s ++ "\n")) with
    | mk whole sink' =>
      rw [wrote] at h
      cases whole with
      | true => cases h
      | false =>
        cases h
        obtain ⟨n, proper, same⟩ := write_cut wrote
        exact .cut rfl rfl text proper rfl same

/-- **Failure of a builtin** under its own name. -/
theorem run_failure {b : Builtin} {args : List Value} {w w' : World Sink} {fault : Fault}
    (h : run b args w = .error fault w') : Failure b.name args w fault w' := by
  -- What the array builtins do after their checks cannot fail.
  cases b with
  | print => exact print_failure h
  | arrayGet =>
    apply failure_of_check (checked_arrayGet w.heap args) _ h
    rintro v ⟨⟩
  | arraySet =>
    apply failure_of_check (checked_arrayTarget w.heap args) _ h
    rintro found ⟨⟩
  | arrayLen =>
    apply failure_of_check (checked_arrayLen w.heap args) _ h
    rintro v ⟨⟩
  | arrayAdd =>
    apply failure_of_check (checked_arrayAddition w.heap args) _ h
    rintro found ⟨⟩

theorem name_of_ofName? {name : String} {b : Builtin} (h : Builtin.ofName? name = some b) :
    b.name = name := by
  have := List.find?_some h
  exact beq_iff_eq.mp this

/-- **Failure of a call.** -/
theorem call_failure {name : String} {args : List Value} {w w' : World Sink} {fault : Fault}
    (h : call name args w = .error fault w') : Failure name args w fault w' := by
  unfold call at h
  cases named : Builtin.ofName? name with
  | none =>
    rw [named] at h
    cases h
  | some b =>
    obtain rfl := name_of_ofName? named
    rw [named] at h
    dsimp only at h
    split at h
    · let noted : World Sink := { w with log := w.log.add (.nativeCall b.name args.length) }
      change EStateM.bind (run b args) _ noted = _ at h
      unfold EStateM.bind at h
      have ran : run b args noted = .error fault w' := by
        cases outcome : run b args noted with
        | ok result w₁ =>
          rw [outcome] at h
          cases h
        | error found w₁ =>
          rw [outcome] at h
          cases h
          rfl
      -- The event of the call is in the log; heap and sink are those of before.
      cases run_failure ran with
      | check kind sameHeap sameSink => exact .check kind sameHeap sameSink
      | cut kind printing text proper sameHeap grown =>
        exact .cut kind printing text proper sameHeap grown
    · cases h
      exact .check nofun rfl rfl

/-- **Failing calls change nothing.**  A call of the host that fails leaves every array as it
was.  If the fault is not about the output, the output is as it was, too.  If it is, then a line
was printed, and the output has grown by a part of that line which is not the whole. -/
theorem failed_call_atomic {name : String} {args : List Value} {site : Site} {w w' : World Sink}
    {fault : Fault} (h : host.call name args site w = .error fault w') :
    w'.heap = w.heap ∧
      if fault.kind = .output then
        name = "print" ∧ ∃ s n, printed w.heap args = .ok s ∧
          n < (Text.bytes (s ++ "\n")).size ∧
          w'.host = ⟨w.host.bytes ++ (Text.bytes (s ++ "\n")).take n, w.host.limit⟩
      else w'.host = w.host := by
  cases call_failure h with
  | check kind sameHeap sameSink =>
    rw [if_neg kind]
    exact ⟨sameHeap, sameSink⟩
  | cut kind printing text proper sameHeap grown =>
    rw [if_pos kind]
    exact ⟨sameHeap, printing, _, _, text, proper, grown⟩

/-- An array without elements that is to become its own element, and a line of three bytes for a
sink that takes two. -/
theorem failed_call_atomic_self_and_cut :
    let w : World Sink := ⟨⟨#[⟨#[], .unknown⟩]⟩, .ofLimit (some 2), .silent⟩
    let self : Value := .array ⟨0⟩
    (∃ fault w', host.call "array_add" [self, self] .unknown w = .error fault w' ∧
      fault.kind ≠ .output ∧ w'.heap = w.heap ∧ w'.host = w.host) ∧
    (∃ fault w', host.call "print" [self] .unknown w = .error fault w' ∧
      fault.kind = .output ∧ w'.heap = w.heap ∧ ∃ n < (Text.bytes "[]\n").size,
        w'.host = ⟨w.host.bytes ++ (Text.bytes "[]\n").take n, w.host.limit⟩) := by
  intro w self
  constructor
  · have failed : host.call "array_add" [self, self] .unknown w =
        .error (.nestedArray (.arrayOf .unknown)) w := by rfl
    exact ⟨_, _, failed, by decide, (failed_call_atomic failed).1, (failed_call_atomic failed).2⟩
  · have failed : host.call "print" [self] .unknown w =
        .error (.output "sink is full")
          { w with host := ⟨(Text.bytes "[]\n").take 2, some 2⟩ } := by rfl
    obtain ⟨sameHeap, -, s, n, text, proper, grown⟩ := failed_call_atomic failed
    have line : s = "[]" := (Except.ok.inj text).symm
    subst line
    exact ⟨_, _, failed, rfl, sameHeap, n, proper, grown⟩

end Standard

end Scriptlet
