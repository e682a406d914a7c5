import ReadThrough.Call

/-!
# Views of objects

A `Reader` is a view of an object in a cache, with the source behind it. `Reader.readAt` reads at
any position, and `Reader.source` makes the reader itself a source, so that caches can be stacked.
-/

namespace ReadThrough

/-- A view of an object through a cache. -/
structure Reader (m : Type → Type) where
  view : View
  /-- The cache that the view reads through. -/
  host : Call.Host m
  /-- The source that missing pages come from. -/
  backing : Source m

/-- How a read ended and what it left in its buffer. -/
structure ReadResult where
  outcome : Outcome
  buffer : Bytes
  deriving DecidableEq

namespace Reader

variable {m : Type → Type} [Monad m]

/-- Signed positions stay below this bound. -/
def offsetLimit : Nat := 1 <<< 63

/-- Reads into `buffer` from the given position, as far as the view goes. -/
@[inline] def readAt (r : Reader m) (offset : Int) (buffer : Bytes) : m ReadResult := do
  let pageShift ← r.host.onCache fun cache => (cache.geometry.pageShift, cache)
  let call ← (Call.start r.view pageShift offset buffer).run r.host r.backing
  pure ⟨call.outcome, call.destination.contents⟩

/-- The outcome of a read as the report of a source. -/
def replyOf : Outcome → Reply
  | .done count => .count count
  | .stopped error => .failed error.cause.toIoError
  | .abandoned => .abandoned

/-- The reader as a source: there are no bytes at positions that have no signed number. -/
@[inline] def source (r : Reader m) : Source m := fun offset buffer =>
  if offsetLimit ≤ offset then pure ⟨.count 0, []⟩
  else do
    let result ← r.readAt offset buffer
    pure ⟨replyOf result.outcome, result.buffer⟩

end Reader

end ReadThrough
