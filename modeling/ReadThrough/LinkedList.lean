import ReadThrough.Arena

/-!
# Linked lists with handles

A `LinkedList` is a sequence whose elements have handles: any element can be taken out or moved to
an end in a constant number of steps, and its handle stays valid while it is in the list. The nodes
live in an `Arena` and name their neighbours by handle. `LinkedList.entries` is the view as a list
of handles and values, front first.
-/

namespace ReadThrough

/-- A value with the handles of its neighbours. -/
structure LinkedList.Node (α : Type) where
  value : α
  prev : Option Handle := none
  next : Option Handle := none

/-- A doubly linked sequence of values. -/
structure LinkedList (α : Type) where
  nodes : Arena (LinkedList.Node α) := .empty
  /-- The front of the sequence. -/
  head : Option Handle := none
  /-- The back of the sequence. -/
  tail : Option Handle := none

namespace LinkedList

variable {α : Type}

/-- The list without elements. -/
def empty : LinkedList α := {}

/-- The list without elements and with room for `capacity` of them. -/
def withCapacity (capacity : Nat) : LinkedList α := { nodes := .withCapacity capacity }

/-! ## Looking -/

/-- The number of elements. -/
def size (l : LinkedList α) : Nat := l.nodes.size

/-- Whether there are no elements. -/
def isEmpty (l : LinkedList α) : Bool := l.nodes.isEmpty

/-- Whether the handle names an element. -/
def contains (l : LinkedList α) (h : Handle) : Bool := l.nodes.contains h

/-- The value of an element. -/
def get? (l : LinkedList α) (h : Handle) : Option α := (l.nodes.get? h).map (·.value)

/-- The first value. -/
def front? (l : LinkedList α) : Option α := l.head.bind l.get?

/-- The last value. -/
def back? (l : LinkedList α) : Option α := l.tail.bind l.get?

/-- The element before the given one. -/
def prev? (l : LinkedList α) (h : Handle) : Option Handle := (l.nodes.get? h).bind (·.prev)

/-- The element after the given one. -/
def next? (l : LinkedList α) (h : Handle) : Option Handle := (l.nodes.get? h).bind (·.next)

/-- Up to `limit` elements from `start` on, each found from the one before it by `follow`. -/
def walk (l : LinkedList α) (follow : Node α → Option Handle) :
    (limit : Nat) → (start : Option Handle) → List (Handle × α)
  | 0, _ => []
  | _, none => []
  | limit + 1, some h =>
    match l.nodes.get? h with
    | none => []
    | some node => (h, node.value) :: l.walk follow limit (follow node)

/-- The handles and values from front to back. -/
def entries (l : LinkedList α) : List (Handle × α) := l.walk (·.next) l.nodes.cells.size l.head

/-- The handles and values from back to front. -/
def entriesBack (l : LinkedList α) : List (Handle × α) := l.walk (·.prev) l.nodes.cells.size l.tail

/-- The values from front to back. -/
def toList (l : LinkedList α) : List α := l.entries.map (·.2)

/-! ## Linking -/

/-- Makes the neighbours of `h` point at each other and leaves `h` without neighbours. -/
def unlink (l : LinkedList α) (h : Handle) : LinkedList α :=
  match l.nodes.get? h with
  | none => l
  | some node =>
    let l := match node.prev with
      | some p => { l with nodes := l.nodes.modify p ({ · with next := node.next }) }
      | none => { l with head := node.next }
    let l := match node.next with
      | some n => { l with nodes := l.nodes.modify n ({ · with prev := node.prev }) }
      | none => { l with tail := node.prev }
    { l with nodes := l.nodes.modify h ({ · with prev := none, next := none }) }

/-- Links `h`, which has no neighbours, before the front. -/
def linkFront (l : LinkedList α) (h : Handle) : LinkedList α :=
  let nodes := l.nodes.modify h ({ · with prev := none, next := l.head })
  match l.head with
  | some first => ⟨nodes.modify first ({ · with prev := some h }), some h, l.tail⟩
  | none => ⟨nodes, some h, some h⟩

/-- Links `h`, which has no neighbours, after the back. -/
def linkBack (l : LinkedList α) (h : Handle) : LinkedList α :=
  let nodes := l.nodes.modify h ({ · with prev := l.tail, next := none })
  match l.tail with
  | some last => ⟨nodes.modify last ({ · with next := some h }), l.head, some h⟩
  | none => ⟨nodes, some h, some h⟩

/-! ## Changing -/

/-- Adds a value at the front and gives its handle. -/
def pushFront (l : LinkedList α) (value : α) : Handle × LinkedList α :=
  let (h, nodes) := l.nodes.insert { value }
  (h, { l with nodes }.linkFront h)

/-- Adds a value at the back and gives its handle. -/
def pushBack (l : LinkedList α) (value : α) : Handle × LinkedList α :=
  let (h, nodes) := l.nodes.insert { value }
  (h, { l with nodes }.linkBack h)

/-- Takes out an element and gives its value. -/
def remove (l : LinkedList α) (h : Handle) : Option α × LinkedList α :=
  let l := l.unlink h
  let (node, nodes) := l.nodes.remove h
  (node.map (·.value), { l with nodes })

/-- Takes out the first element. -/
def popFront (l : LinkedList α) : Option α × LinkedList α :=
  match l.head with
  | some h => l.remove h
  | none => (none, l)

/-- Takes out the last element. -/
def popBack (l : LinkedList α) : Option α × LinkedList α :=
  match l.tail with
  | some h => l.remove h
  | none => (none, l)

/-- Moves an element to the front and tells whether there is such an element. -/
def moveToFront (l : LinkedList α) (h : Handle) : Bool × LinkedList α :=
  if !l.contains h then (false, l)
  else if l.head = some h then (true, l)
  else (true, (l.unlink h).linkFront h)

/-- Moves an element to the back and tells whether there is such an element. -/
def moveToBack (l : LinkedList α) (h : Handle) : Bool × LinkedList α :=
  if !l.contains h then (false, l)
  else if l.tail = some h then (true, l)
  else (true, (l.unlink h).linkBack h)

/-- Replaces the value of an element, which keeps its place. -/
def set (l : LinkedList α) (h : Handle) (value : α) : LinkedList α :=
  { l with nodes := l.nodes.modify h ({ · with value }) }

/-- Removes all elements. -/
def clear (l : LinkedList α) : LinkedList α := { nodes := l.nodes.clear }

/-! ## Joining -/

/-- Moves up to `limit` values of `other` in turn, taking them by `take` and adding them to `l` by
`add`; gives their new handles in the order of the moves. -/
def drainInto (take : LinkedList α → Option α × LinkedList α)
    (add : LinkedList α → α → Handle × LinkedList α) :
    (limit : Nat) → (l other : LinkedList α) → List Handle × LinkedList α × LinkedList α
  | 0, l, other => ([], l, other)
  | limit + 1, l, other =>
    match take other with
    | (none, other) => ([], l, other)
    | (some value, other) =>
      let (h, l) := add l value
      let (handles, l, other) := drainInto take add limit l other
      (h :: handles, l, other)

/-- Moves all values of `other` behind those of `l`, in order. Gives their new handles, front to
back, the joined list and the emptied one. -/
def append (l other : LinkedList α) : List Handle × LinkedList α × LinkedList α :=
  drainInto popFront pushBack other.nodes.cells.size l other

/-- Moves all values of `other` before those of `l`, in order. Gives their new handles, front to
back, the joined list and the emptied one. -/
def prepend (l other : LinkedList α) : List Handle × LinkedList α × LinkedList α :=
  let (handles, l, other) := drainInto popBack pushFront other.nodes.cells.size l other
  (handles.reverse, l, other)

end LinkedList

end ReadThrough
