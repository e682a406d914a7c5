import ReadThrough.Arena

/-!
# Arenas as finite maps

`Arena.Valid` says that the stack of vacant handles names every vacant cell once and nothing else.
Every operation keeps it, and through `Arena.get?` each operation is the one of a finite map:
`get?_insert` binds a handle that was not live, `get?_remove` unbinds one, `get?_modify` changes one
value, and all other handles keep theirs.
-/

namespace ReadThrough.Arena

variable {α : Type}

/-- The vacant handles are those below the number of cells without a value, each stacked once. -/
structure Valid (a : Arena α) : Prop where
  vacant_nodup : a.vacant.Nodup
  mem_vacant : ∀ h, h ∈ a.vacant ↔ h < a.cells.size ∧ a.get? h = none
  size_add_vacant : a.size + a.vacant.length = a.cells.size

/-! ## Live handles -/

/-- Only issued handles are live. -/
theorem lt_size_of_get? {a : Arena α} {h : Handle} {value : α} (hv : a.get? h = some value) :
    h < a.cells.size := by
  apply Decidable.byContradiction
  intro hlt
  rw [get?, Array.getElem?_eq_none (Nat.le_of_not_lt hlt)] at hv
  exact absurd hv (by simp)

/-- An arena contains the handles that have a value in it. -/
theorem contains_iff {a : Arena α} {h : Handle} : a.contains h ↔ ∃ value, a.get? h = some value :=
  Option.isSome_iff_exists

/-- If these are the live handles, each once, then there are as many as the arena counts. -/
theorem Valid.size_eq_length {a : Arena α} (ha : a.Valid) {hs : List Handle} (hnodup : hs.Nodup)
    (hlive : ∀ h, h ∈ hs ↔ ∃ value, a.get? h = some value) : a.size = hs.length := by
  -- live and vacant handles together are all handles, each once
  have hall : (hs ++ a.vacant).Nodup := by
    refine List.nodup_append.2 ⟨hnodup, ha.vacant_nodup, fun h hh k hk hhk => ?_⟩
    subst hhk
    obtain ⟨value, hv⟩ := (hlive h).1 hh
    simp [((ha.mem_vacant h).1 hk).2] at hv
  have hsub : hs ++ a.vacant ⊆ List.range a.cells.size := by
    intro h hh
    rcases List.mem_append.1 hh with hh | hh
    · obtain ⟨value, hv⟩ := (hlive h).1 hh
      exact List.mem_range.2 (lt_size_of_get? hv)
    · exact List.mem_range.2 ((ha.mem_vacant h).1 hh).1
  have hsup : List.range a.cells.size ⊆ hs ++ a.vacant := by
    intro h hh
    rcases hv : a.get? h with _ | value
    · exact List.mem_append_right _ ((ha.mem_vacant h).2 ⟨List.mem_range.1 hh, hv⟩)
    · exact List.mem_append_left _ ((hlive h).2 ⟨value, hv⟩)
  have hle := hall.length_le_of_subset hsub
  have hge := List.nodup_range.length_le_of_subset hsup
  have hsize := ha.size_add_vacant
  simp only [List.length_append, List.length_range] at hle hge
  omega

/-! ## Insertion -/

/-- The handle to be issued is not live. -/
theorem Valid.get?_insert_fst {a : Arena α} (ha : a.Valid) (value : α) :
    a.get? (a.insert value).1 = none := by
  unfold insert
  split
  · rename_i h rest hvacant
    exact ((ha.mem_vacant h).1 (by simp [hvacant])).2
  · simp [get?]

/-- Insertion binds its handle to the value and changes no other binding. -/
theorem Valid.get?_insert {a : Arena α} (ha : a.Valid) (value : α) (k : Handle) :
    (a.insert value).2.get? k = if (a.insert value).1 = k then some value else a.get? k := by
  unfold insert
  split
  · rename_i h rest hvacant
    have hlt : h < a.cells.size := ((ha.mem_vacant h).1 (by simp [hvacant])).1
    simp only [get?, Array.getElem?_setIfInBounds, hlt, if_true]
    split <;> rfl
  · simp only [get?, Array.getElem?_push]
    rcases Nat.lt_trichotomy k a.cells.size with hk | rfl | hk
    · rw [if_neg (Nat.ne_of_lt hk), if_neg (Nat.ne_of_gt hk)]
    · simp
    · rw [if_neg (Nat.ne_of_gt hk), if_neg (Nat.ne_of_lt hk)]

/-- Inserting keeps an arena valid. -/
theorem Valid.insert {a : Arena α} (ha : a.Valid) (value : α) : (a.insert value).2.Valid := by
  have hget := ha.get?_insert value
  unfold Arena.insert at hget ⊢
  split at hget <;> rename_i hvacant
  · rename_i h rest
    obtain ⟨hnodup, hmem, hsize⟩ := ha
    rw [hvacant] at hnodup hmem hsize
    obtain ⟨hnot, hrest⟩ := List.nodup_cons.1 hnodup
    refine ⟨hrest, fun k => ?_, by simp at hsize ⊢; omega⟩
    rw [hget k, Array.size_setIfInBounds]
    have hk := hmem k
    by_cases hkh : h = k
    · subst hkh
      simp [hnot]
    · simpa [hkh, Ne.symm hkh] using hk
  · obtain ⟨hnodup, hmem, hsize⟩ := ha
    refine ⟨hnodup, fun k => ?_, by simp [hvacant] at hsize ⊢; omega⟩
    rw [hget k, hmem k, Array.size_push]
    by_cases hk : a.cells.size = k
    · simp [hk]
    · rw [if_neg hk]
      refine ⟨fun ⟨hlt, hnone⟩ => ⟨Nat.lt_succ_of_lt hlt, hnone⟩, fun ⟨hlt, hnone⟩ => ⟨?_, hnone⟩⟩
      exact Nat.lt_of_le_of_ne (Nat.le_of_lt_succ hlt) (Ne.symm hk)

/-! ## Removal and change -/

/-- Removing keeps an arena valid. -/
theorem Valid.remove {a : Arena α} (ha : a.Valid) (h : Handle) : (a.remove h).2.Valid := by
  have hget := get?_remove a h
  unfold Arena.remove at hget ⊢
  split
  · rename_i value hv
    have hlt := lt_size_of_get? hv
    have hnot : h ∉ a.vacant := fun hmem => by simp [((ha.mem_vacant h).1 hmem).2] at hv
    -- the live handle and the vacant ones are different cells, so the size is not zero
    have hfew : (h :: a.vacant).length ≤ (List.range a.cells.size).length := by
      refine (List.nodup_cons.2 ⟨hnot, ha.vacant_nodup⟩).length_le_of_subset fun k hk => ?_
      rcases List.mem_cons.1 hk with rfl | hk
      · exact List.mem_range.2 hlt
      · exact List.mem_range.2 ((ha.mem_vacant k).1 hk).1
    simp only [hv] at hget
    refine ⟨List.nodup_cons.2 ⟨hnot, ha.vacant_nodup⟩, fun k => ?_, ?_⟩
    · rw [hget k, Array.size_setIfInBounds, List.mem_cons, ha.mem_vacant k]
      by_cases hk : h = k
      · subst hk
        simp [hlt]
      · simp [hk, Ne.symm hk]
    · have hsize := ha.size_add_vacant
      simp only [List.length_cons, List.length_range, Array.size_setIfInBounds] at hfew ⊢
      omega
  · exact ha

/-- Modifying a value keeps an arena valid. -/
theorem Valid.modify {a : Arena α} (ha : a.Valid) (h : Handle) (f : α → α) :
    (a.modify h f).Valid := by
  have hsize : (a.modify h f).cells.size = a.cells.size := Array.size_modify
  refine ⟨ha.vacant_nodup, fun k => ?_, by rw [hsize]; exact ha.size_add_vacant⟩
  have hnone : (a.modify h f).get? k = none ↔ a.get? k = none := by
    rw [get?_modify]
    split <;> simp
  rw [hsize, hnone]
  exact ha.mem_vacant k

/-- A new arena is valid. -/
theorem valid_withCapacity (capacity : Nat) : (withCapacity capacity : Arena α).Valid :=
  ⟨List.nodup_nil, by simp [withCapacity], rfl⟩

/-- A cleared arena is valid. -/
theorem valid_clear (a : Arena α) : a.clear.Valid :=
  ⟨List.nodup_nil, by simp [clear], rfl⟩

end ReadThrough.Arena
