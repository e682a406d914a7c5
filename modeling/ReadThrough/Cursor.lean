import ReadThrough.Reader

/-!
# Cursors

A `Cursor` is a position in a view. `Cursor.read` reads on from there and moves past what was read;
a read that stops after some bytes is a short one, and the next read tries again where it stopped.
`Cursor.seek` moves to any position that 64 bits can hold and refuses all others.
-/

namespace ReadThrough

/-- Where a cursor is to be put. -/
inductive Seek where
  /-- At the given position. -/
  | start (position : Nat)
  /-- At a distance from the end of the view. -/
  | fromEnd (distance : Int)
  /-- At a distance from where it stands. -/
  | current (distance : Int)
  deriving DecidableEq

/-- A position in a view from which to read on. -/
structure Cursor where
  position : Nat := 0
  deriving DecidableEq

namespace Cursor

/-- Positions of cursors stay below this bound. -/
def positionLimit : Nat := 1 <<< 64

/-- The error of a seek to a position that does not exist. -/
def invalidSeek : IoError :=
  ⟨.invalidInput, some "invalid seek to a negative or overflowing position"⟩

/-- The report of a read through a cursor: a read that stopped after some bytes is a short read. -/
def replyOf : Outcome → Reply
  | .stopped error =>
    if 0 < error.copied then .count error.copied else .failed error.cause.toIoError
  | outcome => Reader.replyOf outcome

/-- The cursor after a read with the given report. -/
def advance (c : Cursor) : Reply → Cursor
  | .count n => ⟨c.position + n⟩
  | _ => c

/-- Reads into `buffer` from where the cursor stands and moves it past the bytes read. -/
@[inline] def read {m : Type → Type} [Monad m] (r : Reader m) (c : Cursor) (buffer : Bytes) :
    m (Transfer × Cursor) :=
  if Reader.offsetLimit ≤ c.position then pure (⟨.count 0, []⟩, c)
  else do
    let result ← r.readAt c.position buffer
    let reply := replyOf result.outcome
    pure (⟨reply, result.buffer⟩, c.advance reply)

/-- The position that a seek in a view asks for. -/
def target (view : View) (c : Cursor) : Seek → Int
  | .start position => position
  | .fromEnd distance => view.size + distance
  | .current distance => c.position + distance

/-- Puts the cursor somewhere else; it stays where it is if there is no such position. -/
def seek (view : View) (c : Cursor) (wish : Seek) : Except IoError Nat × Cursor :=
  let position := target view c wish
  if 0 ≤ position ∧ position < positionLimit then (.ok position.toNat, ⟨position.toNat⟩)
  else (.error invalidSeek, c)

end Cursor

end ReadThrough
