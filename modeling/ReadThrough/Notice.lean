import ReadThrough.Bucket
import ReadThrough.Geometry

/-!
# Notices

What a cache tells its surroundings while it works. Each `Notice` is one thing that happened, with
the numbers that belong to it; `Notice.level` ranks them and `Notice.message` says them in words.
-/

namespace ReadThrough

/-- Something worth telling. -/
inductive Notice where
  /-- A cache was made. -/
  | allocated (geometry : Geometry)
  /-- A resident page was given up for its slot. -/
  | evicted (key : PageKey)
  /-- A page was published that had been published meanwhile; the former slot was freed. -/
  | raceLost (key : PageKey)
  /-- A slot was wanted in a bucket of `capacity` slots and all were held. -/
  | exhausted (capacity : Nat)
  /-- The source of an object gave `read` bytes of the page at `offset` and ended before `size`. -/
  | sourceEnded (object : UInt32) (offset read size : Nat)
  deriving DecidableEq

/-- How much a notice matters. -/
inductive Notice.Level where
  | trace
  | debug
  | warn
  deriving DecidableEq

namespace Notice

/-- The rank of a notice. -/
def level : Notice → Level
  | allocated _ => .debug
  | evicted _ => .trace
  | raceLost _ => .trace
  | exhausted _ => .warn
  | sourceEnded .. => .warn

/-- The notice in words. -/
def message : Notice → String
  | allocated _ => "page cache allocated"
  | evicted _ => "evicted page"
  | raceLost _ => "concurrent fetch lost, slot freed"
  | exhausted _ => "bucket has no free or evictable pages"
  | sourceEnded .. => "backing source ended before the logical size"

/-- What there is to tell about handing out a slot of a bucket of `capacity` slots. -/
def ofGrant (capacity : Nat) : Grant → Option Notice
  | .free _ => none
  | .reclaimed _ victim => some (.evicted victim)
  | .exhausted => some (.exhausted capacity)

/-- What there is to tell about publishing a page, given the slot that it had before. -/
def ofInstall (key : PageKey) (former : Option Slot) : Option Notice :=
  former.map fun _ => .raceLost key

end Notice

end ReadThrough
