import ReadThrough.Eviction
import ReadThrough.LinkedList
import Std.Data.HashMap

/-!
# Least recently used

`Lru` gives up the binding that was used longest ago. Its entries stand in a `LinkedList`, the most
recently used one in front, and a hash map leads from each key to the handle of its entry, so that
no operation but `Lru.entries` looks through the list. Binding a key and finding it are uses;
`Lru.peek?` and `Lru.contains` are not.
-/

namespace ReadThrough

/-- Bindings of keys to values in the order of their last use. -/
structure Lru (κ ν : Type) [DecidableEq κ] [Hashable κ] where
  /-- The handle of each key's entry in `order`. -/
  handles : Std.HashMap κ Handle := ∅
  /-- The entries, the most recently used one in front. -/
  order : LinkedList (κ × ν) := .empty

namespace Lru

variable {κ ν : Type} [DecidableEq κ] [Hashable κ]

/-- The policy without bindings. -/
def empty : Lru κ ν := {}

/-- The number of bindings. -/
def size (l : Lru κ ν) : Nat := l.order.size

/-- Whether there are no bindings. -/
def isEmpty (l : Lru κ ν) : Bool := l.order.isEmpty

/-- Whether the key is bound. -/
def contains (l : Lru κ ν) (key : κ) : Bool := l.handles.contains key

/-- The bindings, the most recently used one first. -/
def entries (l : Lru κ ν) : List (κ × ν) := l.order.toList

/-- Takes out the binding of a key and gives its value. -/
def delete (l : Lru κ ν) (key : κ) : Option ν × Lru κ ν :=
  match l.handles[key]? with
  | none => (none, l)
  | some h =>
    let (entry, order) := l.order.remove h
    (entry.map (·.2), ⟨l.handles.erase key, order⟩)

/-- Binds a key as the most recently used one and gives the value it replaces. -/
def insert (l : Lru κ ν) (key : κ) (value : ν) : Option ν × Lru κ ν :=
  let (previous, l) := l.delete key
  let (h, order) := l.order.pushFront (key, value)
  (previous, ⟨l.handles.insert key h, order⟩)

/-- Finds the value of a key and makes it the most recently used one. -/
def lookup (l : Lru κ ν) (key : κ) : Option ν × Lru κ ν :=
  match l.handles[key]? with
  | none => (none, l)
  | some h =>
    let (_, order) := l.order.moveToFront h
    ((order.get? h).map (·.2), { l with order })

/-- Finds the value of a key without using it. -/
def peek? (l : Lru κ ν) (key : κ) : Option ν :=
  l.handles[key]?.bind fun h => (l.order.get? h).map (·.2)

/-- Takes out the binding that was used longest ago. -/
def evict (l : Lru κ ν) : Option (κ × ν) × Lru κ ν :=
  match l.order.popBack with
  | (none, order) => (none, { l with order })
  | (some entry, order) => (some entry, ⟨l.handles.erase entry.1, order⟩)

/-- The binding that was used longest ago. -/
def leastRecent? (l : Lru κ ν) : Option (κ × ν) := l.order.back?

/-- Removes all bindings. -/
def clear (l : Lru κ ν) : Lru κ ν := ⟨∅, l.order.clear⟩

/-- A short description: the number of bindings and the key to be given up first. -/
def summary [ToString κ] (l : Lru κ ν) : String :=
  let size := l.size
  let coldest := match l.leastRecent? with
    | some (key, _) => s!"Some({key})"
    | none => "None"
  s!"LruIndex \x7b len: {size}, lru: {coldest} \x7d"

instance : EvictionPolicy (Lru κ ν) κ ν where
  insert := insert
  lookup := lookup
  delete := delete
  evict := evict
  entries := entries
  size := size

end Lru

end ReadThrough
