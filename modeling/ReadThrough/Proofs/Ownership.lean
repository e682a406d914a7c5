import ReadThrough.Bucket
import ReadThrough.Proofs.LawfulPolicy

/-!
# Who owns a slot

At any moment a slot of a bucket is on the free stack, or bound to one page, or held by someone who
acquired it. `Bucket.Owned` says so by counting: over the three places together every slot below
the capacity is found exactly once, and nothing else is found at all. Each operation keeps this,
where acquiring moves a slot to its holder and installing or releasing takes it from the holder.
-/

namespace ReadThrough.Bucket

variable {ι : Type}

/-! ## What no operation changes -/

/-- The other bucket has as many slots, of the same page size. -/
def SameShape (b b' : Bucket ι) : Prop := b'.capacity = b.capacity ∧ b'.pageShift = b.pageShift

/-- Keeping the shape twice is keeping it. -/
theorem SameShape.trans {b b' b'' : Bucket ι} (h : b.SameShape b') (h' : b'.SameShape b'') :
    b.SameShape b'' :=
  ⟨h'.1.trans h.1, h'.2.trans h.2⟩

/-- Buckets of one shape have pages of one size. -/
theorem SameShape.pageSize_eq {b b' : Bucket ι} (h : b.SameShape b') :
    b'.pageSize = b.pageSize := by
  rw [pageSize, pageSize, h.2]

/-- Releasing keeps the shape. -/
theorem sameShape_release (b : Bucket ι) (slot : Slot) : b.SameShape (b.release slot) := ⟨rfl, rfl⟩

variable [EvictionPolicy ι PageKey Slot]

/-- Reading tells the policy of the use and may count it; it changes nothing else. -/
theorem read_eq (b : Bucket ι) (key : PageKey) (offset count : Nat) :
    (b.read key offset count).2 = { b with
      index := (EvictionPolicy.lookup b.index key).2
      counters := (b.read key offset count).2.counters } := by
  unfold read
  split
  · simp_all [record]
  · split <;> simp_all [record]

/-- Reading keeps the shape. -/
theorem sameShape_read (b : Bucket ι) (key : PageKey) (offset count : Nat) :
    b.SameShape (b.read key offset count).2 := by
  rw [read_eq]
  exact ⟨rfl, rfl⟩

/-- Acquiring keeps the shape. -/
theorem sameShape_acquire (b : Bucket ι) : b.SameShape b.acquire.2 := by
  unfold acquire
  split
  · exact ⟨rfl, rfl⟩
  · split <;> exact ⟨rfl, rfl⟩

/-- Installing keeps the shape. -/
theorem sameShape_install (b : Bucket ι) (key : PageKey) (slot : Slot) (data : Bytes) :
    b.SameShape (b.install key slot data).2 := by
  unfold install
  dsimp only
  split <;> exact ⟨rfl, rfl⟩

/-- Installing stores the data, cut to the page size, in its slot and nowhere else. -/
theorem pages_install (b : Bucket ι) (key : PageKey) (slot : Slot) (data : Bytes) :
    (b.install key slot data).2.pages = b.pages.setIfInBounds slot (data.take b.pageSize) := by
  unfold install
  dsimp only
  split <;> rfl

/-! ## Places of slots -/

variable [LawfulPolicy ι]

/-- The resident pages with their slots. -/
def residents (b : Bucket ι) : List (PageKey × Slot) := LawfulPolicy.bindings b.index

/-- The slots that are bound to pages. -/
def boundSlots (b : Bucket ι) : List Slot := b.residents.map (·.2)

/-- Every slot is in one place: free, bound or among the slots held. -/
structure Owned (b : Bucket ι) (held : List Slot) : Prop where
  valid : LawfulPolicy.Valid b.index
  pages_size : b.pages.size = b.capacity
  count : ∀ slot, b.free.count slot + b.boundSlots.count slot + held.count slot
    = (List.range b.capacity).count slot

namespace Owned

variable {b : Bucket ι} {held : List Slot} {slot : Slot} {key : PageKey}

/-- No page is bound twice. -/
theorem distinctKeys (h : b.Owned held) : DistinctKeys b.residents :=
  LawfulPolicy.distinctKeys h.valid

/-- Slots may change places as long as each stays as often in them together. -/
theorem of_count_eq {b' : Bucket ι} {held' : List Slot} (h : b.Owned held)
    (hvalid : LawfulPolicy.Valid b'.index) (hpages : b'.pages.size = b.pages.size)
    (hcapacity : b'.capacity = b.capacity)
    (hcount : ∀ slot, b'.free.count slot + b'.boundSlots.count slot + held'.count slot
      = b.free.count slot + b.boundSlots.count slot + held.count slot) : b'.Owned held' :=
  ⟨hvalid, by rw [hpages, hcapacity]; exact h.pages_size,
    fun slot => by rw [hcount slot, hcapacity]; exact h.count slot⟩

/-- It does not matter in which order the slots are held. -/
theorem perm {held' : List Slot} (h : b.Owned held) (hp : held.Perm held') : b.Owned held' :=
  h.of_count_eq h.valid rfl rfl fun slot => by rw [hp.count_eq slot]

/-- All slots together, each counted where it is. -/
theorem length_eq (h : b.Owned held) :
    b.freeCount + b.residentCount + held.length = b.capacity := by
  have hperm : (b.free ++ b.boundSlots ++ held).Perm (List.range b.capacity) := by
    rw [List.perm_iff_count]
    intro slot
    rw [List.count_append, List.count_append, h.count slot]
  have hlength := hperm.length_eq
  rw [List.length_append, List.length_append, boundSlots, List.length_map, List.length_range]
    at hlength
  rw [freeCount, residentCount, LawfulPolicy.size_eq h.valid]
  exact hlength

/-! ## A slot in one place is in no other -/

/-- A slot that is held is a slot of the bucket, not free, and bound to no page. -/
theorem of_mem_held (h : b.Owned held) (hs : slot ∈ held) :
    slot < b.capacity ∧ slot ∉ b.free ∧ slot ∉ b.boundSlots := by
  have hcount := h.count slot
  have hpos := List.count_pos_iff.2 hs
  rw [List.count_range] at hcount
  split at hcount
  · refine ⟨‹_›, ?_, ?_⟩ <;> rw [← List.count_eq_zero] <;> omega
  · omega

/-- A slot that is bound is a slot of the bucket, and nobody holds it. -/
theorem of_mem_residents (h : b.Owned held) (hs : (key, slot) ∈ b.residents) :
    slot < b.capacity ∧ slot ∉ held := by
  have hcount := h.count slot
  have hpos : 0 < b.boundSlots.count slot :=
    List.count_pos_iff.2 (List.mem_map_of_mem (f := (·.2)) hs)
  rw [List.count_range] at hcount
  split at hcount
  · exact ⟨‹_›, by rw [← List.count_eq_zero]; omega⟩
  · omega

/-- No slot is held twice. -/
theorem nodup_held (h : b.Owned held) : held.Nodup := by
  rw [List.nodup_iff_count]
  intro slot
  have hcount := h.count slot
  rw [List.count_range] at hcount
  split at hcount <;> omega

/-- A bound slot has one page. -/
theorem key_unique {other : PageKey} (h : b.Owned held) (hk : (key, slot) ∈ b.residents)
    (ho : (other, slot) ∈ b.residents) : key = other := by
  have hle : b.boundSlots.count slot ≤ 1 := by
    have hcount := h.count slot
    rw [List.count_range] at hcount
    split at hcount <;> omega
  apply Classical.byContradiction
  intro hne
  obtain ⟨before, after, heq⟩ := List.append_of_mem hk
  have hrest : (other, slot) ∈ before ++ after := by
    rw [heq] at ho
    have hpair : (other, slot) ≠ (key, slot) := fun h => hne (Prod.mk.inj h).1.symm
    simpa [hpair] using ho
  have hpos : 0 < ((before ++ after).map (·.2)).count slot :=
    List.count_pos_iff.2 (List.mem_map_of_mem (f := (·.2)) hrest)
  rw [boundSlots, heq] at hle
  simp only [List.map_append, List.map_cons, List.count_append, List.count_cons_self] at hle hpos
  omega

end Owned

variable {b : Bucket ι} {held : List Slot} {slot : Slot}

/-! ## A new bucket -/

/-- In a new bucket every slot is free. -/
theorem owned_ofCapacity {index : ι} (hvalid : LawfulPolicy.Valid index)
    (hempty : LawfulPolicy.bindings index = []) (capacity pageShift : Nat) :
    (ofCapacity capacity pageShift index).Owned [] := by
  refine ⟨hvalid, Array.size_replicate, ?_⟩
  intro slot
  simp [ofCapacity, boundSlots, residents, hempty]

/-! ## The operations -/

/-- Reading moves no slot. -/
theorem Owned.read (h : b.Owned held) (key : PageKey) (offset count : Nat) :
    (b.read key offset count).2.Owned held := by
  rw [read_eq]
  refine h.of_count_eq (LawfulPolicy.valid_lookup key h.valid) rfl rfl ?_
  intro slot
  have hperm := (LawfulPolicy.bindings_lookup key h.valid).map (·.2)
  simp only [boundSlots, residents, hperm.count_eq slot]

/-- What acquiring a slot does: it takes the free slot on top; or, when none is free, a resident
page loses its slot; or nothing is free and nothing is resident. -/
theorem acquire_cases (b : Bucket ι) (hvalid : LawfulPolicy.Valid b.index) :
    (∃ slot free, b.free = slot :: free ∧
      b.acquire = (.free slot, { b with free }.record .allocation)) ∨
    (∃ slot victim index, b.free = [] ∧ LawfulPolicy.Valid index ∧
      b.residents.Perm ((victim, slot) :: LawfulPolicy.bindings index) ∧
      b.acquire = (.reclaimed slot victim, { b with index }.record .eviction)) ∨
    (∃ index, b.free = [] ∧ b.residents = [] ∧ LawfulPolicy.Valid index ∧
      LawfulPolicy.bindings index = [] ∧ b.acquire = (.exhausted, { b with index })) := by
  have hevict := LawfulPolicy.valid_evict hvalid
  have hperm := LawfulPolicy.bindings_evict hvalid
  have hnone := LawfulPolicy.bindings_of_evict_eq_none hvalid
  rcases hfree : b.free with _ | ⟨slot, free⟩
  · rcases hpair : EvictionPolicy.evict b.index with ⟨_ | ⟨victim, slot⟩, index⟩
    · simp only [hpair] at hevict hperm hnone
      have hempty := hnone trivial
      rw [hempty] at hperm
      exact .inr (.inr ⟨index, rfl, hempty, hevict, by simpa using hperm.symm,
        by simp [acquire, hfree, hpair]⟩)
    · simp only [hpair] at hevict hperm
      exact .inr (.inl ⟨slot, victim, index, rfl, hevict, hperm, by simp [acquire, hfree, hpair]⟩)
  · exact .inl ⟨slot, free, rfl, by simp [acquire, hfree]⟩

/-- Acquiring moves a slot, if there is one to be had, to its holder. -/
theorem Owned.acquire (h : b.Owned held) :
    b.acquire.2.Owned (b.acquire.1.slot?.toList ++ held) := by
  obtain ⟨slot, free, hfree, heq⟩ | ⟨slot, victim, index, hfree, hvalid, hperm, heq⟩ |
    ⟨index, hfree, hempty, hvalid, hindex, heq⟩ := b.acquire_cases h.valid
  · rw [heq]
    refine h.of_count_eq h.valid rfl rfl ?_
    intro s
    simp only [record, Grant.slot?, Option.toList_some, List.singleton_append, hfree,
      List.count_cons, boundSlots, residents]
    omega
  · rw [heq]
    refine h.of_count_eq hvalid rfl rfl ?_
    intro s
    have hbound := (hperm.map (·.2)).count_eq s
    simp only [List.map_cons, List.count_cons] at hbound
    simp only [record, Grant.slot?, Option.toList_some, List.singleton_append, hfree,
      List.count_cons, boundSlots, residents] at hbound ⊢
    omega
  · rw [heq]
    refine h.of_count_eq hvalid rfl rfl ?_
    intro s
    simp only [residents] at hempty
    simp [boundSlots, residents, hempty, hindex, Grant.slot?]

/-- None is handed out exactly when all slots are held. -/
theorem Owned.acquire_eq_none_iff (h : b.Owned held) :
    b.acquire.1.slot? = none ↔ ∀ slot < b.capacity, slot ∈ held := by
  have hplace := h.count
  simp only [List.count_range] at hplace
  obtain ⟨slot, free, hfree, heq⟩ | ⟨slot, victim, index, hfree, hvalid, hperm, heq⟩ |
    ⟨index, hfree, hempty, hvalid, hindex, heq⟩ := b.acquire_cases h.valid <;> rw [heq]
  · apply iff_of_false (by simp [Grant.slot?])
    intro hall
    have hcount := hplace slot
    rw [hfree, List.count_cons_self] at hcount
    split at hcount
    · have hheld := List.count_pos_iff.2 (hall slot ‹_›)
      omega
    · omega
  · apply iff_of_false (by simp [Grant.slot?])
    intro hall
    have hbound : (victim, slot) ∈ b.residents := hperm.mem_iff.2 List.mem_cons_self
    obtain ⟨hlt, hnot⟩ := h.of_mem_residents hbound
    exact hnot (hall slot hlt)
  · apply iff_of_true (by simp [Grant.slot?])
    intro slot hlt
    have hcount := hplace slot
    rw [hfree, boundSlots, hempty, if_pos hlt] at hcount
    simp only [List.map_nil, List.count_nil] at hcount
    exact List.count_pos_iff.1 (by omega)

/-- When none is handed out, there are as many slots held as there are slots. -/
theorem Owned.length_of_acquire_eq_none (h : b.Owned held) (hnone : b.acquire.1.slot? = none) :
    held.length = b.capacity := by
  obtain ⟨slot, free, -, heq⟩ | ⟨slot, victim, index, -, -, -, heq⟩ | ⟨index, hfree, hempty, -⟩ :=
    b.acquire_cases h.valid
  · rw [heq] at hnone
    exact absurd hnone (by simp [Grant.slot?])
  · rw [heq] at hnone
    exact absurd hnone (by simp [Grant.slot?])
  · -- Nothing is free and nothing is bound, so all slots are accounted for by the holders.
    have hlength := h.length_eq
    rw [freeCount, residentCount, LawfulPolicy.size_eq h.valid, hfree] at hlength
    rw [residents] at hempty
    simpa [hempty] using hlength

/-- Releasing moves a slot from its holder to the free stack. -/
theorem Owned.release (h : b.Owned (slot :: held)) : (b.release slot).Owned held := by
  refine h.of_count_eq h.valid rfl rfl ?_
  intro s
  simp only [Bucket.release, record, boundSlots, residents, List.count_cons]
  omega

/-- What installing a page does: it stores the bytes and binds the page, which was not resident or
else gives up the slot it had. -/
theorem install_cases (b : Bucket ι) (hvalid : LawfulPolicy.Valid b.index) (key : PageKey)
    (slot : Slot) (data : Bytes) :
    ∃ index, LawfulPolicy.Valid index ∧
      (LawfulPolicy.bindings index).Perm ((key, slot) :: b.residents.filter (·.1 ≠ key)) ∧
      (((∀ s, (key, s) ∉ b.residents) ∧ b.install key slot data = (none, { b with
          pages := b.pages.setIfInBounds slot (data.take b.pageSize), index }.record .insert)) ∨
        ∃ former, (key, former) ∈ b.residents ∧ b.install key slot data = (some former, ({ b with
          pages := b.pages.setIfInBounds slot (data.take b.pageSize), index
          free := former :: b.free }.record .free).record .insert)) := by
  have hinsert := LawfulPolicy.valid_insert key slot hvalid
  have hperm := LawfulPolicy.bindings_insert key slot hvalid
  have hformer (former : Slot) := LawfulPolicy.insert_eq_some_iff key former slot hvalid
  rcases hpair : EvictionPolicy.insert b.index key slot with ⟨_ | former, index⟩ <;>
    simp only [hpair] at hinsert hperm hformer
  · refine ⟨index, hinsert, hperm, .inl ⟨fun s hs => ?_, by simp [install, hpair]⟩⟩
    exact absurd ((hformer s).2 hs) (by simp)
  · exact ⟨index, hinsert, hperm, .inr ⟨former, (hformer former).1 rfl,
      by simp [install, hpair, Bucket.release, record]⟩⟩

/-- Installing binds the slot in place of what the page was bound to. -/
theorem residents_install (b : Bucket ι) (hvalid : LawfulPolicy.Valid b.index) (key : PageKey)
    (slot : Slot) (data : Bytes) : (b.install key slot data).2.residents.Perm
      ((key, slot) :: b.residents.filter (·.1 ≠ key)) := by
  obtain ⟨index, -, hperm, ⟨-, heq⟩ | ⟨former, -, heq⟩⟩ :=
      b.install_cases hvalid key slot data <;>
    rw [heq] <;> exact hperm

/-- Installing binds the slot of the holder; a slot that the page had before becomes free. -/
theorem Owned.install (h : b.Owned (slot :: held)) (key : PageKey) (data : Bytes) :
    (b.install key slot data).2.Owned held := by
  obtain ⟨index, hvalid, hperm, ⟨hunbound, heq⟩ | ⟨former, hbound, heq⟩⟩ :=
    b.install_cases h.valid key slot data
  · rw [heq]
    rw [DistinctKeys.filter_ne_of_not_mem hunbound] at hperm
    refine h.of_count_eq hvalid Array.size_setIfInBounds rfl ?_
    intro s
    have hcount := (hperm.map (·.2)).count_eq s
    simp only [record, boundSlots, residents, List.map_cons, List.count_cons] at hcount ⊢
    omega
  · rw [heq]
    refine h.of_count_eq hvalid Array.size_setIfInBounds rfl ?_
    intro s
    have hcount := (hperm.map (·.2)).count_eq s
    have hformer := ((h.distinctKeys.perm_cons_filter hbound).map (·.2)).count_eq s
    simp only [record, boundSlots, residents, List.map_cons, List.count_cons] at hcount hformer ⊢
    omega

end ReadThrough.Bucket
