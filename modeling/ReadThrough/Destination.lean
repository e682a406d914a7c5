import ReadThrough.Bytes

/-!
# Destinations

A `Destination` is a buffer with a mark: the bytes behind the mark have been delivered, the bytes
ahead of it are still as the owner of the buffer left them, or as an attempt to fill them did.
`Destination.contents` is the whole buffer.
-/

namespace ReadThrough

/-- A buffer that is being filled from front to back. -/
structure Destination where
  /-- The delivered bytes, the latest one first. -/
  behind : Bytes := []
  /-- The bytes that are still to be filled. -/
  ahead : Bytes
  deriving DecidableEq

namespace Destination

/-- The whole buffer. -/
def contents (d : Destination) : Bytes := d.behind.reverseAux d.ahead

/-- The number of delivered bytes. -/
def copied (d : Destination) : Nat := d.behind.length

/-- Replaces the bytes ahead by the given ones, as far as these reach, without moving the mark. -/
def stage (d : Destination) (bytes : Bytes) : Destination :=
  { d with ahead := bytes ++ d.ahead.drop bytes.length }

/-- Stores the bytes and moves the mark past them. -/
def deliver (d : Destination) (bytes : Bytes) : Destination :=
  ⟨bytes.reverseAux d.behind, d.ahead.drop bytes.length⟩

theorem contents_eq (d : Destination) : d.contents = d.behind.reverse ++ d.ahead := by
  simp [contents, List.reverseAux_eq]

@[simp] theorem copied_deliver (d : Destination) (bytes : Bytes) :
    (d.deliver bytes).copied = d.copied + bytes.length := by
  simp only [copied, deliver, List.reverseAux_eq, List.length_append, List.length_reverse]
  omega

/-- Delivering stages the bytes and moves the mark: the contents are those of the staged buffer. -/
theorem contents_deliver (d : Destination) (bytes : Bytes) :
    (d.deliver bytes).contents = (d.stage bytes).contents := by
  simp [contents_eq, deliver, stage, List.reverseAux_eq]

end Destination

end ReadThrough
