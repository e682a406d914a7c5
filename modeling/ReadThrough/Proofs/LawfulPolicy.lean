import ReadThrough.Eviction.Fifo
import ReadThrough.Proofs.Lru

/-!
# Lawful eviction policies

A policy is lawful if it behaves as a finite map: it has bindings, no key twice, that insertion,
lookup and eviction read and change as they should, in whatever order it keeps them. Which binding
an eviction takes is left open, but it takes one as long as there is any. `Lru` and `Fifo` are
lawful.
-/

namespace ReadThrough

/-- Policies that behave as finite maps. -/
class LawfulPolicy (ι : Type) {κ ν : outParam Type} [DecidableEq κ] [EvictionPolicy ι κ ν] where
  /-- The values that the operations make. -/
  Valid : ι → Prop
  /-- The bindings, in any order. -/
  bindings : ι → List (κ × ν)
  distinctKeys {q : ι} : Valid q → DistinctKeys (bindings q)
  size_eq {q : ι} : Valid q → EvictionPolicy.size q = (bindings q).length
  lookup_eq_some_iff {q : ι} {key : κ} {value : ν} : Valid q →
    ((EvictionPolicy.lookup q key).1 = some value ↔ (key, value) ∈ bindings q)
  valid_lookup {q : ι} (key : κ) : Valid q → Valid (EvictionPolicy.lookup q key).2
  bindings_lookup {q : ι} (key : κ) : Valid q →
    (bindings (EvictionPolicy.lookup q key).2).Perm (bindings q)
  insert_eq_some_iff {q : ι} (key : κ) (former value : ν) : Valid q →
    ((EvictionPolicy.insert q key value).1 = some former ↔ (key, former) ∈ bindings q)
  valid_insert {q : ι} (key : κ) (value : ν) : Valid q → Valid (EvictionPolicy.insert q key value).2
  bindings_insert {q : ι} (key : κ) (value : ν) : Valid q →
    (bindings (EvictionPolicy.insert q key value).2).Perm
      ((key, value) :: (bindings q).filter (·.1 ≠ key))
  valid_evict {q : ι} : Valid q → Valid (EvictionPolicy.evict q).2
  /-- Eviction removes the binding that it gives, if it gives one. -/
  bindings_evict {q : ι} : Valid q →
    (bindings q).Perm ((EvictionPolicy.evict q).1.toList ++ bindings (EvictionPolicy.evict q).2)
  bindings_of_evict_eq_none {q : ι} : Valid q → (EvictionPolicy.evict q).1 = none → bindings q = []

/-! ## The policies at hand -/

instance {κ ν : Type} [DecidableEq κ] [Hashable κ] : LawfulPolicy (Lru κ ν) where
  Valid := Lru.Valid
  bindings := Lru.entries
  distinctKeys := Lru.Valid.distinctKeys
  size_eq := Lru.Valid.size_eq
  lookup_eq_some_iff hq := hq.lookup_eq_some_iff
  valid_lookup key hq := (hq.lookup key).1
  bindings_lookup key hq := (hq.lookup key).2
  insert_eq_some_iff key former value hq := by
    rw [← hq.delete_eq_some_iff, ← (hq.insert _ value).1]
    rfl
  valid_insert key value hq := (hq.insert key value).2.1
  bindings_insert key value hq := .of_eq (hq.insert key value).2.2
  valid_evict hq := hq.evict.1
  bindings_evict hq := hq.evict.2 ▸ List.perm_append_comm
  bindings_of_evict_eq_none hq := hq.entries_of_evict_eq_none

instance {κ ν : Type} [DecidableEq κ] : LawfulPolicy (Fifo κ ν) where
  Valid q := DistinctKeys q.entries
  bindings := Fifo.entries
  distinctKeys hq := hq
  size_eq _ := rfl
  lookup_eq_some_iff hq := hq.lookup_eq_some_iff
  valid_lookup _ hq := hq
  bindings_lookup _ _ := .refl _
  insert_eq_some_iff _ _ _ hq := hq.lookup_eq_some_iff
  valid_insert key value hq :=
    (DistinctKeys.cons_filter hq key value).perm (List.perm_append_singleton _ _).symm
  bindings_insert _ _ _ := List.perm_append_singleton _ _
  valid_evict hq := hq.tail
  bindings_evict {q} hq := by
    rcases q with ⟨_ | ⟨e, rest⟩⟩ <;> exact .refl _
  bindings_of_evict_eq_none {q} hq hnone := List.head?_eq_none_iff.1 hnone

end ReadThrough
