/-!
# Counters

What a bucket, and by summing a cache, has done since it was made. Counters only grow;
`Counters.record` adds one event. A hit ratio exists once there was a lookup.

Here they are exact totals. A bucket keeps them in 64 bits, which is the same as long as each of
them is below `2 ^ 64`; `Counters.record?` and `Counters.sum?` count in 64 bits and tell when it is
not.
-/

namespace ReadThrough

/-- Exact totals since construction. -/
structure Counters where
  /-- Pages asked for. -/
  lookups : Nat := 0
  /-- Pages asked for that were resident. -/
  hits : Nat := 0
  /-- Pages published after a fetch. -/
  inserts : Nat := 0
  /-- Resident pages given up. -/
  evictions : Nat := 0
  /-- Slots taken from a free stack. -/
  allocations : Nat := 0
  /-- Slots put back on a free stack. -/
  frees : Nat := 0
  deriving DecidableEq

namespace Counters

/-- Something that is counted. -/
inductive Event where
  | lookup (hit : Bool)
  | insert
  | eviction
  | allocation
  | free
  deriving DecidableEq

/-- The totals after one more event. -/
def record (c : Counters) : Event → Counters
  | .lookup hit => { c with lookups := c.lookups + 1, hits := c.hits + hit.toNat }
  | .insert => { c with inserts := c.inserts + 1 }
  | .eviction => { c with evictions := c.evictions + 1 }
  | .allocation => { c with allocations := c.allocations + 1 }
  | .free => { c with frees := c.frees + 1 }

/-- The totals of both together. -/
def add (a b : Counters) : Counters where
  lookups := a.lookups + b.lookups
  hits := a.hits + b.hits
  inserts := a.inserts + b.inserts
  evictions := a.evictions + b.evictions
  allocations := a.allocations + b.allocations
  frees := a.frees + b.frees

instance : Add Counters := ⟨add⟩

/-- The totals of all of them together. -/
def sum (all : List Counters) : Counters := all.foldl (· + ·) {}

/-- Lookups that did not find their page. -/
def misses (c : Counters) : Nat := c.lookups - c.hits

/-- Slots off the free stacks: resident pages and fetches under way. -/
def slotsInUse (c : Counters) : Nat := c.allocations - c.frees

/-- The fraction of lookups that were hits. -/
def hitRatio (c : Counters) : Option Float :=
  if c.lookups = 0 then none
  else some (c.hits.toUInt64.toFloat / c.lookups.toUInt64.toFloat)

end Counters

end ReadThrough
