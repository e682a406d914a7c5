import ReadThrough.Bytes
import ReadThrough.Error

/-!
# Backing sources

A `Source` fills a buffer from a position, in any monad `m` in which it may act. It reports a count
of bytes, which a cache takes to be short only where the input ends; nothing here makes a source
tell the truth. A `Content` is a fixed input that is known byte by byte, and `Content.source` is the
source that serves it honestly.
-/

namespace ReadThrough

/-- What a source reports about one read. -/
inductive Reply where
  /-- That many bytes were read; fewer than asked for means that the input ended there. -/
  | count (n : Nat)
  /-- The read failed. -/
  | failed (error : IoError)
  /-- The read broke off without a report. -/
  | abandoned
  deriving DecidableEq

/-- One finished read of a source: its report and the bytes it left at the front of the buffer. -/
structure Transfer where
  reply : Reply
  written : Bytes := []
  deriving DecidableEq

/-- Reads into `buffer` from the position `offset`. -/
abbrev Source (m : Type → Type) := (offset : Nat) → (buffer : Bytes) → m Transfer

/-- A fixed input: its length and its bytes. -/
structure Content where
  size : Nat
  /-- The byte at each position below `size`. -/
  byteAt : Nat → UInt8

namespace Content

/-- The content that consists of the given bytes. -/
def ofBytes (bytes : Bytes) : Content :=
  let stored := bytes.toArray
  ⟨stored.size, fun k => stored.getD k 0⟩

/-- Up to `count` bytes from `offset` on, none at or past the end. -/
def slice (c : Content) (offset count : Nat) : Bytes :=
  (List.range' offset (min count (c.size - offset))).map c.byteAt

@[simp] theorem length_slice (c : Content) (offset count : Nat) :
    (c.slice offset count).length = min count (c.size - offset) := by
  simp [slice]

/-- All bytes of the content. -/
def toBytes (c : Content) : Bytes := c.slice 0 c.size

/-- The source that serves the content. -/
def source {m : Type → Type} [Monad m] (c : Content) : Source m := fun offset buffer =>
  let found := c.slice offset buffer.length
  pure ⟨.count found.length, found⟩

end Content

end ReadThrough
