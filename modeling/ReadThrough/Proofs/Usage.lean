import ReadThrough.Proofs.Ownership

/-!
# Buckets in use

A `Usage` is a bucket with the slots that are held at the moment and the number of installs that
found their page bound already. `Usage.Step` is one operation in any order, where only a held slot
may be installed or released. What a step preserves, a run preserves: every slot is in one place
(`Bucket.Owned`), and the counters tell how many slots are off the free stack and how many pages are
resident (`Bucket.Balanced`).
-/

namespace ReadThrough

namespace Bucket

variable {ι : Type} [EvictionPolicy ι PageKey Slot]

/-- The counters account for the slots off the free stack and for the resident pages. -/
structure Balanced (b : Bucket ι) (lost : Nat) : Prop where
  slots : b.freeCount + b.counters.allocations = b.capacity + b.counters.frees
  pages : b.counters.inserts = b.residentCount + b.counters.evictions + lost

/-- Releasing counts the slot that it puts back on the free stack. -/
theorem Balanced.release {b : Bucket ι} {lost : Nat} (h : b.Balanced lost) (slot : Slot) :
    (b.release slot).Balanced lost := by
  refine ⟨?_, h.pages⟩
  have hslots := h.slots
  simp only [freeCount, Bucket.release, record, Counters.record, List.length_cons] at hslots ⊢
  omega

/-- Reading counts a hit or a miss, or nothing when it starts past the end of a resident page. -/
theorem counters_read (b : Bucket ι) (key : PageKey) (offset count : Nat) :
    (b.read key offset count).2.counters = b.counters ∨
      ∃ hit, (b.read key offset count).2.counters = b.counters.record (.lookup hit) := by
  unfold read
  split
  · exact .inr ⟨false, rfl⟩
  · split
    · exact .inl rfl
    · exact .inr ⟨true, rfl⟩

variable [LawfulPolicy ι] {b : Bucket ι} {lost : Nat}

/-- The policy counts its bindings right. -/
theorem residentCount_eq (hvalid : LawfulPolicy.Valid b.index) :
    b.residentCount = b.residents.length :=
  LawfulPolicy.size_eq hvalid

/-- A new bucket has counted nothing, has all slots free and holds no page. -/
theorem balanced_ofCapacity {index : ι} (hvalid : LawfulPolicy.Valid index)
    (hempty : LawfulPolicy.bindings index = []) (capacity pageShift : Nat) :
    (ofCapacity capacity pageShift index).Balanced 0 := by
  refine ⟨by simp [ofCapacity, freeCount], ?_⟩
  rw [residentCount_eq hvalid]
  simp [ofCapacity, residents, hempty]

/-- Reading may change the order of the pages, but not how many there are. -/
theorem Balanced.read (h : b.Balanced lost) (hvalid : LawfulPolicy.Valid b.index) (key : PageKey)
    (offset count : Nat) : (b.read key offset count).2.Balanced lost := by
  have hcount : (b.read key offset count).2.residentCount = b.residentCount := by
    rw [read_eq]
    simp only [residentCount, LawfulPolicy.size_eq (LawfulPolicy.valid_lookup key hvalid),
      LawfulPolicy.size_eq hvalid, (LawfulPolicy.bindings_lookup key hvalid).length_eq]
  rw [read_eq] at hcount ⊢
  obtain heq | ⟨hit, heq⟩ := b.counters_read key offset count <;> rw [heq] at hcount ⊢ <;>
    exact ⟨h.slots, hcount.symm ▸ h.pages⟩

/-- Acquiring counts a slot that it takes from the free stack, or a page that it gives up. -/
theorem Balanced.acquire (h : b.Balanced lost) (hvalid : LawfulPolicy.Valid b.index) :
    b.acquire.2.Balanced lost := by
  have hslots := h.slots
  have hpages := h.pages
  rw [residentCount_eq hvalid] at hpages
  obtain ⟨slot, free, hfree, heq⟩ | ⟨slot, victim, index, hfree, hindex, hperm, heq⟩ |
    ⟨index, hfree, hempty, hindex, hnone, heq⟩ := b.acquire_cases hvalid <;> rw [heq]
  · refine ⟨?_, h.pages⟩
    simp only [freeCount, hfree, List.length_cons, record, Counters.record] at hslots ⊢
    omega
  · refine ⟨hslots, ?_⟩
    rw [residentCount_eq hindex]
    have hlength := hperm.length_eq
    simp only [List.length_cons, residents, record, Counters.record] at hlength hpages ⊢
    omega
  · refine ⟨hslots, ?_⟩
    rw [residentCount_eq hindex]
    rw [hempty] at hpages
    simpa [residents, hnone] using hpages

/-- Installing counts an insert. The number of pages grows by one, or one more install has found its
page bound and put that slot back. -/
theorem Balanced.install (h : b.Balanced lost) (hvalid : LawfulPolicy.Valid b.index)
    (key : PageKey) (slot : Slot) (data : Bytes) :
    (b.install key slot data).2.Balanced (lost + (b.install key slot data).1.toList.length) := by
  obtain ⟨hslots, hpages⟩ := h
  rw [residentCount_eq hvalid] at hpages
  obtain ⟨index, hindex, hperm, ⟨hunbound, heq⟩ | ⟨former, hbound, heq⟩⟩ :=
    b.install_cases hvalid key slot data <;> rw [heq] <;> have hlength := hperm.length_eq
  · refine ⟨hslots, ?_⟩
    rw [residentCount_eq hindex]
    rw [DistinctKeys.filter_ne_of_not_mem hunbound] at hlength
    simp only [List.length_cons, residents, record, Counters.record, Option.toList_none,
      List.length_nil] at hlength hpages ⊢
    omega
  · have hformer := ((LawfulPolicy.distinctKeys hvalid).perm_cons_filter hbound).length_eq
    refine ⟨?_, ?_⟩
    · simp only [freeCount, List.length_cons, record, Counters.record] at hslots ⊢
      omega
    · rw [residentCount_eq hindex]
      simp only [List.length_cons, residents, record, Counters.record, Option.toList_some,
        List.length_nil] at hlength hformer hpages ⊢
      omega

end Bucket

/-! ## Runs -/

/-- A bucket in use. -/
structure Usage (ι : Type) where
  bucket : Bucket ι
  /-- The slots that were acquired and neither installed nor released yet. -/
  held : List Slot := []
  /-- The installs that found their page bound already. -/
  lost : Nat := 0

namespace Usage

variable {ι : Type} [EvictionPolicy ι PageKey Slot]

/-- One operation on a bucket; only a slot that is held is installed or released. -/
inductive Step : Usage ι → Usage ι → Prop
  | read (u : Usage ι) (key : PageKey) (offset count : Nat) :
    Step u { u with bucket := (u.bucket.read key offset count).2 }
  | acquire (u : Usage ι) :
    Step u { u with
      bucket := u.bucket.acquire.2
      held := u.bucket.acquire.1.slot?.toList ++ u.held }
  | install (u : Usage ι) (key : PageKey) (slot : Slot) (data : Bytes) : slot ∈ u.held →
    Step u {
      bucket := (u.bucket.install key slot data).2
      held := u.held.erase slot
      lost := u.lost + (u.bucket.install key slot data).1.toList.length }
  | release (u : Usage ι) (slot : Slot) : slot ∈ u.held →
    Step u { u with bucket := u.bucket.release slot, held := u.held.erase slot }

/-- What a bucket comes to by any number of operations in any order. -/
inductive Reaches (start : Bucket ι) : Usage ι → Prop
  | start : Reaches start { bucket := start }
  | step {u v : Usage ι} : Reaches start u → Step u v → Reaches start v

/-- No operation changes how many slots there are and how large they are. -/
theorem Step.sameShape {u v : Usage ι} (h : Step u v) : u.bucket.SameShape v.bucket := by
  cases h with
  | read key offset count => exact Bucket.sameShape_read ..
  | acquire => exact Bucket.sameShape_acquire _
  | install key slot data _ => exact Bucket.sameShape_install ..
  | release slot _ => exact Bucket.sameShape_release ..

/-- In all its use a bucket keeps its shape. -/
theorem Reaches.sameShape {start : Bucket ι} {u : Usage ι} (h : Reaches start u) :
    start.SameShape u.bucket := by
  induction h with
  | start => exact ⟨rfl, rfl⟩
  | step _ hstep ih => exact ih.trans hstep.sameShape

variable [LawfulPolicy ι]

/-- Every slot is in one place and the counters account for them all. -/
structure Sound (u : Usage ι) : Prop where
  owned : u.bucket.Owned u.held
  balanced : u.bucket.Balanced u.lost

/-- A new bucket is sound. -/
theorem Sound.ofCapacity {index : ι} (hvalid : LawfulPolicy.Valid index)
    (hempty : LawfulPolicy.bindings index = []) (capacity pageShift : Nat) :
    Sound { bucket := .ofCapacity capacity pageShift index } :=
  ⟨Bucket.owned_ofCapacity hvalid hempty .., Bucket.balanced_ofCapacity hvalid hempty ..⟩

/-- What a step does to the slots that are held agrees with where it puts them. -/
theorem Step.owned {u v : Usage ι} (hstep : Step u v) (h : u.bucket.Owned u.held) :
    v.bucket.Owned v.held := by
  cases hstep with
  | read key offset count => exact h.read key offset count
  | acquire => exact h.acquire
  | install key slot data hslot => exact (h.perm (List.perm_cons_erase hslot)).install key data
  | release slot hslot => exact (h.perm (List.perm_cons_erase hslot)).release

/-- A step of a sound bucket makes a sound one. -/
theorem Sound.step {u v : Usage ι} (h : u.Sound) (hstep : Step u v) : v.Sound := by
  refine ⟨hstep.owned h.owned, ?_⟩
  obtain ⟨howned, hbalanced⟩ := h
  cases hstep with
  | read key offset count => exact hbalanced.read howned.valid key offset count
  | acquire => exact hbalanced.acquire howned.valid
  | install key slot data _ => exact hbalanced.install howned.valid key slot data
  | release slot _ => exact hbalanced.release slot

/-- However a sound bucket is used, it stays sound. -/
theorem Reaches.sound {start : Bucket ι} {u : Usage ι} (h : Reaches start u)
    (hstart : Sound { bucket := start }) : u.Sound := by
  induction h with
  | start => exact hstart
  | step _ hstep ih => exact ih.step hstep

end Usage

end ReadThrough
