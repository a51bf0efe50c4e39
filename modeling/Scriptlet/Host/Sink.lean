/-!
# Output sinks

Printed text goes to a sink.  A sink may accept only a limited number of bytes; a
write that does not fit is cut, and from then on nothing more is accepted.

## Main definitions

* `Sink` — the accepted bytes and the limit
* `Sink.write` — writes bytes and tells whether all were accepted
* `Text.decodeCut` — reads bytes whose last character may be cut

## Main statements

* `Sink.bytes_write` — what was accepted stays, and new bytes follow it
* `Sink.size_write_le` — a sink never accepts more than its limit
-/

namespace Scriptlet

/-- **Sink.** -/
structure Sink where
  /-- What was accepted so far. -/
  bytes : Array UInt8
  /-- How many bytes are accepted in total, if there is a limit. -/
  limit : Option Nat
deriving Inhabited

namespace Sink

/-- A sink that has accepted nothing yet. -/
def ofLimit (limit : Option Nat) : Sink := ⟨.empty, limit⟩

/-- How many of `n` further bytes a sink accepts that has accepted `used`. -/
def room (limit : Option Nat) (used n : Nat) : Nat :=
  match limit with
  | none => n
  | some limit => min n (limit - used)

/-- **Writing.**  Appends as many of the bytes as are accepted, and tells whether
those are all. -/
def write (data : Array UInt8) : Sink → Bool × Sink
  | ⟨bytes, limit⟩ =>
    let n := room limit bytes.size data.size
    (n == data.size, ⟨bytes ++ data.take n, limit⟩)

/-- What was accepted stays. -/
theorem bytes_write (data : Array UInt8) (sink : Sink) :
    (sink.write data).2.bytes =
      sink.bytes ++ data.take (room sink.limit sink.bytes.size data.size) := rfl

@[simp] theorem limit_write (data : Array UInt8) (sink : Sink) :
    (sink.write data).2.limit = sink.limit := rfl

@[simp] theorem write_ofNoLimit (data : Array UInt8) (bytes : Array UInt8) :
    write data ⟨bytes, none⟩ = (true, ⟨bytes ++ data, none⟩) := by
  simp [write, room]

/-- A sink never accepts more than its limit. -/
theorem size_write_le {data : Array UInt8} {bytes : Array UInt8} {limit : Nat}
    (h : bytes.size ≤ limit) : (write data ⟨bytes, some limit⟩).2.bytes.size ≤ limit := by
  simp only [write, room, Array.size_append, Array.take_eq_extract, Array.size_extract]
  omega

end Sink

namespace Text

/-- The bytes of a text. -/
def bytes (s : String) : Array UInt8 := s.toUTF8.data

/-- The text of bytes that were cut at some place: one replacement character
stands for the beginning of a character whose end is missing. -/
def decodeCut (data : Array UInt8) : String :=
  match String.fromUTF8? ⟨data⟩ with
  | some s => s
  | none =>
    let whole := [1, 2, 3].findSome? fun n => String.fromUTF8? ⟨data.take (data.size - n)⟩
    whole.getD "" ++ "\ufffd"

end Text

end Scriptlet
