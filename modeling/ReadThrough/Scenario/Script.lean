import ReadThrough.Cursor
import ReadThrough.Source.File

/-!
# Scripts

A script is a list of `Step`s on `n` caches that stand side by side. A step may put a view on a
source whose `SourcePlan` makes it misbehave: fail, read less, claim more than it read, or have
steps of its own performed before or after it is read, which may well read from the same caches.
Readers are known by name, and a name stands for the reader that it was given last.
-/

namespace ReadThrough.Scenario

/-- When an entry of a plan applies: to reads at `offset?`, if it is given, and only for its first
`limit?` uses, if that is given. -/
structure Trigger where
  offset? : Option Nat := none
  limit? : Option Nat := none

/-- Whether an entry that was used `uses` times applies to a read at `offset`. -/
def Trigger.applies (t : Trigger) (uses offset : Nat) : Bool :=
  t.offset?.all (· == offset) && t.limit?.all (uses < ·)

/-- A failure that a source is to report. -/
structure Failure where
  trigger : Trigger
  error : IoError

/-- Where a source has its bytes from. -/
inductive Backing where
  | content (content : Content)
  | file (file : File)
  /-- The reader of that name. -/
  | reader (name : String)

/-- What is done with a cursor. -/
inductive Move where
  | read (length : Nat)
  | seek (wish : Seek)

mutual

/-- One action of a script on `n` caches. -/
inductive Step (n : Nat) where
  /-- Gives the name to a view of a cache; a negative size is no size at all. -/
  | wrap (cache : Fin n) (name : String) (object : UInt32) (size : Int) (plan : SourcePlan n)
  /-- Reads through a reader. -/
  | read (reader : String) (offset : Int) (length : Nat)
  /-- Reads from a reader as a source. -/
  | readSource (reader : String) (offset length : Nat)
  /-- Reads from the source behind a reader, past its cache. -/
  | readBacking (reader : String) (offset length : Nat)
  /-- Makes a cursor on a reader and moves it. -/
  | cursor (reader : String) (moves : List Move)
  /-- Asks for the buckets of some pages of an object. -/
  | shards (cache : Fin n) (object : UInt32) (pages : List UInt32)
  /-- Looks at a cache. -/
  | inspect (cache : Fin n)

/-- A source and how it misbehaves. -/
inductive SourcePlan (n : Nat) where
  /-- Reads at most `maxRead?` bytes at a time, if that is given, and claims `excess` bytes more
  than it read. -/
  | mk (backing : Backing) (hooks : List (Hook n)) (failures : List Failure)
    (maxRead? : Option Nat) (excess : Nat)

/-- Steps that a read of a source sets off. -/
inductive Hook (n : Nat) where
  /-- The steps are performed after the read, if `after` holds, and else before it. -/
  | mk (trigger : Trigger) (after : Bool) (steps : List (Step n))

end

/-- When the steps of a hook are performed. -/
def Hook.trigger {n : Nat} : Hook n → Trigger
  | mk trigger _ _ => trigger

end ReadThrough.Scenario
