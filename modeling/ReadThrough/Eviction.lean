/-!
# Eviction policies

An `EvictionPolicy` is a map with an opinion: it binds keys to values, finds them again, and says
which binding to give up first. Whoever owns it decides when one has to go. `visitWhile` shows its
entries to a visitor that may stop early.
-/

namespace ReadThrough

/-- Maps `ι` from keys `κ` to values `ν` that can choose a binding to give up. -/
class EvictionPolicy (ι : Type) (κ ν : outParam Type) where
  /-- Binds a key and gives the value it replaces. -/
  insert : ι → κ → ν → Option ν × ι
  /-- Finds the value of a key and counts as a use of it. -/
  lookup : ι → κ → Option ν × ι
  /-- Removes a key and gives its value. -/
  delete : ι → κ → Option ν × ι
  /-- Removes the binding to be given up first. -/
  evict : ι → Option (κ × ν) × ι
  /-- The bindings, in an order of the policy's own. -/
  entries : ι → List (κ × ν)
  /-- The number of bindings. -/
  size : ι → Nat

/-- Shows the elements of a list to a visitor, one after the other, up to and including the first
for which it answers `false`; gives the visitor's last state. -/
def visitWhile {α σ : Type} (visit : σ → α → Bool × σ) : (state : σ) → List α → σ
  | state, [] => state
  | state, a :: rest =>
    match visit state a with
    | (true, state) => visitWhile visit state rest
    | (false, state) => state

end ReadThrough
