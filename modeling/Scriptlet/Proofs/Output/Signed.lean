import Scriptlet.Proofs.Congruence.Cover
import Scriptlet.Proofs.Host.Blind

/-!
# Signed output

Which call wrote which byte.  A signed sink keeps for each accepted byte the name and the
site of the call during which it was written.

## Main definitions

* `Signed` — a sink with the authors of its bytes
* `Host.signed` — a host that signs its output
* `Signed.Extends` — everything written before is still there, with its authors

## Main statements

* `Host.covers_signed` — signing is not felt
* `Standard.call_sink` — only printing sees the sink, and it writes its text in one piece
* `Signed.extends_ask` — no call takes anything back
-/

namespace Scriptlet

/-- **Signed sink.**  For each byte, the function that was called and the site of the call. -/
structure Signed where
  /-- The sink. -/
  sink : Sink
  /-- Who wrote each of its bytes. -/
  authors : Array (String × Site)

namespace Signed

/-- A signed sink without limit that has accepted nothing yet. -/
def start : Signed := ⟨.ofLimit none, .empty⟩

/-- The sink after a call, whose new bytes are signed. -/
def sign (author : String × Site) (sink : Sink) (s : Signed) : Signed :=
  ⟨sink, s.authors ++ .replicate (sink.bytes.size - s.sink.bytes.size) author⟩

/-- **Extension.**  The bytes of `s` are the first ones of `s'`, and so are their authors; each
further byte has an author. -/
def Extends (s s' : Signed) : Prop :=
  ∃ bytes authors, authors.size = bytes.size ∧ s'.sink.bytes = s.sink.bytes ++ bytes ∧
    s'.authors = s.authors ++ authors

theorem extends_refl (s : Signed) : s.Extends s :=
  ⟨#[], #[], rfl, Array.append_empty.symm, Array.append_empty.symm⟩

theorem Extends.trans {s s' s'' : Signed} (h : s.Extends s') (h' : s'.Extends s'') :
    s.Extends s'' := by
  obtain ⟨bytes, authors, sizes, written, signed⟩ := h
  obtain ⟨bytes', authors', sizes', written', signed'⟩ := h'
  refine ⟨bytes ++ bytes', authors ++ authors', ?_, ?_, ?_⟩
  · rw [Array.size_append, Array.size_append, sizes, sizes']
  · rw [written', written, Array.append_assoc]
  · rw [signed', signed, Array.append_assoc]

/-- A sink that only got longer. -/
theorem extends_sign {s : Signed} {sink : Sink} {bytes : Array UInt8}
    (h : sink.bytes = s.sink.bytes ++ bytes) (author : String × Site) :
    s.Extends (s.sign author sink) := by
  refine ⟨bytes, _, ?_, h, rfl⟩
  rw [Array.size_replicate, h, Array.size_append, Nat.add_sub_cancel_left]

/-- If every byte has an author, this remains so. -/
theorem Extends.size_authors {s s' : Signed} (h : s.Extends s')
    (before : s.authors.size = s.sink.bytes.size) : s'.authors.size = s'.sink.bytes.size := by
  obtain ⟨bytes, authors, sizes, written, signed⟩ := h
  rw [written, signed, Array.size_append, Array.size_append, before, sizes]

end Signed

/-- **Signing host.**  It does what `host` does and signs what that writes. -/
def Host.signed (host : Host Sink) : Host Signed where
  call name args site
    | ⟨heap, signed, log⟩ =>
      match host.call name args site ⟨heap, signed.sink, log⟩ with
      | .ok reply ⟨heap, sink, log⟩ => .ok reply ⟨heap, signed.sign (name, site) sink, log⟩
      | .error fault ⟨heap, sink, log⟩ => .error fault ⟨heap, signed.sign (name, site) sink, log⟩

/-- **Signing is not felt.** -/
theorem Host.covers_signed (host : Host Sink) : host.signed.Covers Signed.sink host := by
  rintro name args site ⟨heap, signed, log⟩
  simp only [Host.signed, World.mapHost]
  cases host.call name args site ⟨heap, signed.sink, log⟩ <;> rfl

/-! ## What calls do with the sink -/

/-- The world with another sink. -/
def World.setSink (sink : Sink) (w : World Sink) : World Sink := { w with host := sink }

namespace Standard

theorem besideHeap_setSink (sink : Sink) : BesideHeap (World.setSink sink) :=
  ⟨fun _ => rfl, fun _ _ => rfl⟩

theorem eq_print_of_ofName? {name : String} (h : Builtin.ofName? name = some .print) :
    name = Builtin.print.name := by
  have := List.find?_some h
  exact (beq_iff_eq.mp this).symm

/-- **Calls of anything but `print`** neither read nor change the sink. -/
theorem call_blind (sink : Sink) {name : String} (other : name ≠ Builtin.print.name)
    (args : List Value) : Blind (World.setSink sink) (call name args) := by
  unfold call
  split
  · exact .pure _
  · next b named =>
    split
    · have noted : Blind (World.setSink sink) (note (.nativeCall name args.length)) :=
        fun _ => rfl
      have notPrint : b ≠ .print := by
        rintro rfl
        exact other (eq_print_of_ofName? named)
      exact noted.bind fun _ =>
        (run_blind (besideHeap_setSink sink) b args fun h => absurd h notPrint).bind fun _ =>
          .pure _
    · exact fun _ => rfl

/-- **After a write**: whether it was accepted as a whole, and the sink. -/
def written {α : Type} (heap : Heap) (log : Log) (a : α) :
    Bool × Sink → EStateM.Result Fault (World Sink) α
  | (true, sink) => .ok a ⟨heap, sink, log⟩
  | (false, sink) => .error (.output "sink is full") ⟨heap, sink, log⟩

theorem emit_eq (s : String) (heap : Heap) (sink : Sink) (log : Log) :
    emit s ⟨heap, sink, log⟩ = written heap log () (sink.write (Text.bytes s)) := by
  unfold emit
  dsimp only
  cases sink.write (Text.bytes s) with
  | mk whole sink => cases whole <;> rfl

/-- Printing builds the whole text before it writes. -/
theorem print_eq (args : List Value) (heap : Heap) (sink : Sink) (log : Log) :
    print args ⟨heap, sink, log⟩ =
      match printed heap args with
      | .error fault => .error fault ⟨heap, sink, log⟩
      | .ok s => written heap log none (sink.write (Text.bytes (s ++ "\n"))) := by
  show EStateM.bind (check (printed heap args)) _ _ = _
  cases printed heap args with
  | error fault => rfl
  | ok s =>
    show EStateM.bind (emit (s ++ "\n")) _ ⟨heap, sink, log⟩ = _
    unfold EStateM.bind
    rw [emit_eq]
    dsimp only
    cases sink.write (Text.bytes (s ++ "\n")) with
    | mk whole sink => cases whole <;> rfl

/-- **A call of `print`** fails without a look at the sink, or it writes one text and is done
with it. -/
theorem call_print (args : List Value) (heap : Heap) (log : Log) :
    (∃ fault log', ∀ sink : Sink,
      call Builtin.print.name args ⟨heap, sink, log⟩ = .error fault ⟨heap, sink, log'⟩) ∨
    ∃ s log', ∀ sink : Sink, call Builtin.print.name args ⟨heap, sink, log⟩ =
      written heap log' .finished (sink.write (Text.bytes s)) := by
  have named : Builtin.ofName? Builtin.print.name = some .print := by decide
  unfold call
  rw [named]
  dsimp only
  split
  · let log' := log.add (.nativeCall Builtin.print.name args.length)
    cases text : printed heap args with
    | error fault =>
      refine .inl ⟨fault, log', fun sink => ?_⟩
      show EStateM.bind (print args) _ ⟨heap, sink, log'⟩ = _
      unfold EStateM.bind
      rw [print_eq, text]
    | ok s =>
      refine .inr ⟨s ++ "\n", log', fun sink => ?_⟩
      show EStateM.bind (print args) _ ⟨heap, sink, log'⟩ = _
      unfold EStateM.bind
      rw [print_eq, text]
      dsimp only
      cases sink.write (Text.bytes (s ++ "\n")) with
      | mk whole sink => cases whole <;> rfl
  · exact .inl ⟨_, log, fun _ => rfl⟩

/-- **What a call does with the sink.**  Nothing, or it is a call of `print` that writes one
text. -/
theorem call_sink (name : String) (args : List Value) (heap : Heap) (log : Log) :
    (∃ outcome heap' log', ∀ sink : Sink,
      call name args ⟨heap, sink, log⟩ = check outcome ⟨heap', sink, log'⟩) ∨
    name = Builtin.print.name ∧ ∃ s log', ∀ sink : Sink,
      call name args ⟨heap, sink, log⟩ =
        written heap log' .finished (sink.write (Text.bytes s)) := by
  by_cases printing : name = Builtin.print.name
  · subst printing
    obtain ⟨fault, log', failed⟩ | wrote := call_print args heap log
    · exact .inl ⟨.error fault, heap, log', failed⟩
    · exact .inr ⟨rfl, wrote⟩
  · left
    have same (sink : Sink) := call_blind sink printing args ⟨heap, .ofLimit none, log⟩
    cases ran : call name args ⟨heap, .ofLimit none, log⟩ with
    | ok reply w =>
      refine ⟨.ok reply, w.heap, w.log, fun sink => (same sink).trans ?_⟩
      rw [ran]
      rfl
    | error fault w =>
      refine ⟨.error fault, w.heap, w.log, fun sink => (same sink).trans ?_⟩
      rw [ran]
      rfl

end Standard

/-- **No call takes output back.** -/
theorem Signed.extends_ask (name : String) (args : List Value) (site : Site)
    (m : Machine Signed) : m.world.host.Extends
      (Eval.final (Eval.ask Standard.host.signed name args site m)).world.host := by
  obtain ⟨scope, heap, s, log⟩ := m
  simp only [Eval.ask, Host.signed, Standard.host]
  obtain ⟨outcome, heap', log', untouched⟩ | ⟨-, text, log', wrote⟩ :=
    Standard.call_sink name args heap log
  · rw [untouched]
    cases outcome <;> exact extends_sign Array.append_empty.symm _
  · rw [wrote]
    have longer := Sink.bytes_write (Text.bytes text) s.sink
    generalize s.sink.write (Text.bytes text) = after at longer ⊢
    obtain ⟨whole, sink⟩ := after
    cases whole <;> exact extends_sign longer _

end Scriptlet
