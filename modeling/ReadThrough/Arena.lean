/-!
# Arenas

An `Arena` stores values and names each by a handle that stays valid until its own value is removed;
other values never move. Vacated handles are kept on a stack and the one vacated last is issued
first, so a handle is only new when no old one is vacant.
-/

namespace ReadThrough

/-- The name of a value in an arena. -/
abbrev Handle := Nat

/-- A store of values under handles. -/
structure Arena (α : Type) where
  /-- The value of each handle issued so far, if it is live. -/
  cells : Array (Option α) := #[]
  /-- The vacant handles among those issued, the next to be issued first. -/
  vacant : List Handle := []
  /-- The number of live handles. -/
  size : Nat := 0
  /-- The number of values there is room for. -/
  reserved : Nat := 0

namespace Arena

variable {α : Type}

/-- The arena without values. -/
def empty : Arena α := {}

/-- The arena without values and with room for `capacity` of them. -/
def withCapacity (capacity : Nat) : Arena α := { reserved := capacity }

/-- The number of values the arena has room for. -/
def capacity (a : Arena α) : Nat := max a.reserved a.cells.size

/-- Whether no handle is live. -/
def isEmpty (a : Arena α) : Bool := a.size == 0

/-- The value of a live handle. -/
def get? (a : Arena α) (h : Handle) : Option α := a.cells[h]?.join

/-- Whether the handle is live. -/
def contains (a : Arena α) (h : Handle) : Bool := (a.get? h).isSome

/-- Stores a value and gives its handle. -/
def insert (a : Arena α) (value : α) : Handle × Arena α :=
  match a.vacant with
  | h :: rest =>
    (h, { a with
      cells := a.cells.setIfInBounds h (some value), vacant := rest, size := a.size + 1 })
  | [] => (a.cells.size, { a with cells := a.cells.push (some value), size := a.size + 1 })

/-- Takes out the value of a handle; a handle that is not live has none and nothing changes. -/
def remove (a : Arena α) (h : Handle) : Option α × Arena α :=
  match a.get? h with
  | some value =>
    (some value,
      { a with cells := a.cells.setIfInBounds h none, vacant := h :: a.vacant, size := a.size - 1 })
  | none => (none, a)

/-- Changes the value of a live handle. -/
def modify (a : Arena α) (h : Handle) (f : α → α) : Arena α :=
  { a with cells := a.cells.modify h (Option.map f) }

/-- Removes every value and forgets every handle; the room stays. -/
def clear (a : Arena α) : Arena α := { reserved := a.capacity }

/-- The live handles with their values, by ascending handle. -/
def entries (a : Arena α) : List (Handle × α) :=
  a.cells.toList.zipIdx.filterMap fun (cell, h) => cell.map (h, ·)

/-! ## The view through `get?` -/

@[simp] theorem get?_clear (a : Arena α) (h : Handle) : a.clear.get? h = none := by
  simp [get?, clear]

theorem get?_modify (a : Arena α) (h k : Handle) (f : α → α) :
    (a.modify h f).get? k = if h = k then (a.get? k).map f else a.get? k := by
  simp only [get?, modify, Array.getElem?_modify]
  split
  · cases a.cells[k]? <;> simp
  · rfl

@[simp] theorem remove_fst (a : Arena α) (h : Handle) : (a.remove h).1 = a.get? h := by
  unfold remove
  split <;> simp_all

theorem get?_remove (a : Arena α) (h k : Handle) :
    (a.remove h).2.get? k = if h = k then none else a.get? k := by
  unfold remove
  split
  · simp only [get?, Array.getElem?_setIfInBounds]
    split
    · split <;> rfl
    · rfl
  · split
    · simp_all
    · rfl

end Arena

end ReadThrough
