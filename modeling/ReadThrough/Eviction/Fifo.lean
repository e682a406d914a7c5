import ReadThrough.Eviction

/-!
# First in, first out

`Fifo` gives up the binding that was made longest ago; looking a key up changes nothing.
-/

namespace ReadThrough

/-- Bindings of keys to values, the oldest first. -/
structure Fifo (κ ν : Type) where
  entries : List (κ × ν) := []

namespace Fifo

variable {κ ν : Type} [DecidableEq κ]

/-- The policy without bindings. -/
def empty : Fifo κ ν := {}

/-- Finds the value of a key. -/
def find? (q : Fifo κ ν) (key : κ) : Option ν := q.entries.lookup key

/-- Takes out the binding of a key and gives its value. -/
def delete (q : Fifo κ ν) (key : κ) : Option ν × Fifo κ ν :=
  (q.find? key, ⟨q.entries.filter (·.1 ≠ key)⟩)

/-- Binds a key as the newest one and gives the value it replaces. -/
def insert (q : Fifo κ ν) (key : κ) (value : ν) : Option ν × Fifo κ ν :=
  let (previous, q) := q.delete key
  (previous, ⟨q.entries ++ [(key, value)]⟩)

/-- Takes out the oldest binding. -/
def evict (q : Fifo κ ν) : Option (κ × ν) × Fifo κ ν :=
  (q.entries.head?, ⟨q.entries.tail⟩)

instance : EvictionPolicy (Fifo κ ν) κ ν where
  insert := insert
  lookup q key := (q.find? key, q)
  delete := delete
  evict := evict
  entries := entries
  size q := q.entries.length

end Fifo

end ReadThrough
