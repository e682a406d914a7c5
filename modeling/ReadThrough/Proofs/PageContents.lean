import ReadThrough.Proofs.Geometry
import ReadThrough.Proofs.Ownership

/-!
# What resident pages hold

Given which bytes are `good` for which page, `Bucket.Keeps` says that every slot is in one place and
that the slots of resident pages hold good bytes. Only installing stores bytes, and the slot it
stores them in is bound to no page at that time, so no resident page changes under its readers.
`Cache.Keeps` is the same of every bucket of a cache. An operation is stated with the slots that all
others hold left open, so that it can be used for any number of holders.
-/

namespace ReadThrough

namespace Bucket

variable {ι : Type} [EvictionPolicy ι PageKey Slot] [LawfulPolicy ι]

/-- Every slot is in one place and resident pages hold good bytes. -/
structure Keeps (good : PageKey → Bytes → Prop) (b : Bucket ι) (held : List Slot) : Prop where
  owned : b.Owned held
  stored : ∀ key slot, (key, slot) ∈ b.residents → good key (b.pages.getD slot [])

variable {good : PageKey → Bytes → Prop} {b : Bucket ι} {held : List Slot} {slot : Slot}

/-- It does not matter in which order the slots are held. -/
theorem Keeps.perm {held' : List Slot} (h : b.Keeps good held) (hp : held.Perm held') :
    b.Keeps good held' :=
  ⟨h.owned.perm hp, h.stored⟩

/-- A new bucket holds no page that could be bad. -/
theorem keeps_ofCapacity {index : ι} (hvalid : LawfulPolicy.Valid index)
    (hempty : LawfulPolicy.bindings index = []) (capacity pageShift : Nat) :
    (ofCapacity capacity pageShift index).Keeps good [] := by
  refine ⟨owned_ofCapacity hvalid hempty capacity pageShift, ?_⟩
  intro key slot hmem
  simp [residents, ofCapacity, hempty] at hmem

/-- A hit gives bytes of a good page. -/
theorem Keeps.read_cases (h : b.Keeps good held) (key : PageKey) (offset count : Nat) :
    (b.read key offset count).1 = .miss ∨
    (b.pageSize < offset ∧ (b.read key offset count).1 = .pastPage) ∨
    ∃ page, good key page ∧
      (b.read key offset count).1
        = .hit (Bytes.window page offset (min count (b.pageSize - offset))) := by
  have hbound (slot : Slot) :
      (EvictionPolicy.lookup b.index key).1 = some slot ↔ (key, slot) ∈ b.residents :=
    LawfulPolicy.lookup_eq_some_iff h.owned.valid
  rcases hpair : EvictionPolicy.lookup b.index key with ⟨_ | slot, index⟩
  · exact .inl (by simp [Bucket.read, hpair])
  · rw [hpair] at hbound
    by_cases hpast : b.pageSize < offset
    · exact .inr (.inl ⟨hpast, by simp [Bucket.read, hpair, hpast]⟩)
    · exact .inr (.inr ⟨_, h.stored key slot ((hbound slot).1 rfl),
        by simp [Bucket.read, hpair, hpast, pageBytes]⟩)

/-- Reading stores nothing and binds nothing. -/
theorem Keeps.read (h : b.Keeps good held) (key : PageKey) (offset count : Nat) :
    (b.read key offset count).2.Keeps good held := by
  refine ⟨h.owned.read key offset count, ?_⟩
  rw [read_eq]
  intro other slot hmem
  exact h.stored other slot ((LawfulPolicy.bindings_lookup key h.owned.valid).mem_iff.1 hmem)

/-- A slot that is acquired is held from then on; the page that lost it is no longer bound. -/
theorem Keeps.acquire (h : b.Keeps good held) :
    b.acquire.2.Keeps good (b.acquire.1.slot?.toList ++ held) := by
  refine ⟨h.owned.acquire, ?_⟩
  obtain ⟨slot, free, hfree, heq⟩ | ⟨slot, victim, index, hfree, hvalid, hperm, heq⟩ |
    ⟨index, hfree, hempty, hvalid, hindex, heq⟩ := b.acquire_cases h.owned.valid <;> rw [heq]
  · exact h.stored
  · intro key slot hmem
    exact h.stored key slot (hperm.mem_iff.2 (List.mem_cons_of_mem _ hmem))
  · intro key slot hmem
    simp [residents, hindex] at hmem

/-- A slot that is released is bound to no page. -/
theorem Keeps.release (h : b.Keeps good (slot :: held)) : (b.release slot).Keeps good held :=
  ⟨h.owned.release, h.stored⟩

/-- Installing good bytes under their key makes a good page of them, and changes no other. -/
theorem Keeps.install (h : b.Keeps good (slot :: held)) {key : PageKey} {data : Bytes}
    (hdata : good key (data.take b.pageSize)) :
    (b.install key slot data).2.Keeps good held := by
  refine ⟨h.owned.install key data, ?_⟩
  intro other place hmem
  obtain ⟨hlt, -, hunbound⟩ := h.owned.of_mem_held List.mem_cons_self
  rw [← h.owned.pages_size] at hlt
  -- What is bound afterwards is the new page in its slot or an old page in another slot.
  have hcases : (other = key ∧ place = slot) ∨ (other, place) ∈ b.residents ∧ place ≠ slot := by
    rcases List.mem_cons.1 ((b.residents_install h.owned.valid key slot data).mem_iff.1 hmem)
      with hnew | hold
    · exact .inl (Prod.mk.inj hnew)
    · obtain ⟨hold, -⟩ := List.mem_filter.1 hold
      exact .inr ⟨hold, fun hs => hunbound (hs ▸ List.mem_map_of_mem (f := (·.2)) hold)⟩
  rw [pages_install, Array.getD_eq_getD_getElem?, Array.getElem?_setIfInBounds]
  rcases hcases with ⟨rfl, rfl⟩ | ⟨hold, hne⟩
  · rw [if_pos rfl, if_pos hlt]
    exact hdata
  · rw [if_neg hne.symm, ← Array.getD_eq_getD_getElem?]
    exact h.stored other place hold

end Bucket

/-! ## All buckets of a cache -/

/-- The slots of one holder by bucket: they are all in the bucket `home`. -/
def slotsAt (home : Fin Geometry.bucketCount) (slots : List Slot)
    (shard : Fin Geometry.bucketCount) : List Slot :=
  if home = shard then slots else []

@[simp] theorem slotsAt_self (home : Fin Geometry.bucketCount) (slots : List Slot) :
    slotsAt home slots home = slots := if_pos rfl

/-- In another bucket the holder has no slot. -/
theorem slotsAt_of_ne {home shard : Fin Geometry.bucketCount} (h : home ≠ shard)
    (slots : List Slot) : slotsAt home slots shard = [] := if_neg h

@[simp] theorem slotsAt_nil (home shard : Fin Geometry.bucketCount) :
    slotsAt home [] shard = [] := ite_self _

namespace Cache

/-- Every bucket of the cache has the shape of its geometry and keeps good pages. -/
structure Keeps (good : PageKey → Bytes → Prop) (c : Cache)
    (held : Fin Geometry.bucketCount → List Slot) : Prop where
  bucket : ∀ shard : Fin Geometry.bucketCount, (c.bucket shard).Keeps good (held shard)
  shape : ∀ shard : Fin Geometry.bucketCount,
    (c.bucket shard).capacity = c.geometry.pagesPerBucket ∧
      (c.bucket shard).pageShift = c.geometry.pageShift

variable {good : PageKey → Bytes → Prop} {c : Cache} {held : Fin Geometry.bucketCount → List Slot}

/-- A new cache holds no page that could be bad. -/
theorem keeps_ofGeometry (g : Geometry) (seed : UInt64) :
    (ofGeometry g seed).Keeps good fun _ => [] := by
  constructor <;> intro shard <;> rw [bucket_ofGeometry]
  · exact Bucket.keeps_ofCapacity Lru.valid_empty Lru.entries_empty _ _
  · exact ⟨rfl, rfl⟩

/-- Every bucket has pages of the size that the geometry says. -/
theorem Keeps.pageSize_eq (h : c.Keeps good held) (shard : Fin Geometry.bucketCount) :
    (c.bucket shard).pageSize = 1 <<< c.geometry.pageShift := by
  rw [Bucket.pageSize, (h.shape shard).2]

/-- More bytes may be good. -/
theorem Keeps.mono {good' : PageKey → Bytes → Prop} (h : c.Keeps good held)
    (himp : ∀ key page, good key page → good' key page) : c.Keeps good' held :=
  ⟨fun shard => ⟨(h.bucket shard).owned, fun key slot hmem =>
    himp key _ ((h.bucket shard).stored key slot hmem)⟩, h.shape⟩

/-- It does not matter in which order the slots are held. -/
theorem Keeps.perm {held' : Fin Geometry.bucketCount → List Slot} (h : c.Keeps good held)
    (hp : ∀ shard, (held shard).Perm (held' shard)) : c.Keeps good held' :=
  ⟨fun shard => (h.bucket shard).perm (hp shard), h.shape⟩

/-- An operation on one bucket keeps what it keeps of that bucket. -/
theorem Keeps.onBucket {α : Type} {held' : Fin Geometry.bucketCount → List Slot}
    (h : c.Keeps good held) {key : PageKey} {act : CacheBucket → α × CacheBucket}
    (hshape : (c.bucket (c.shardOf key)).SameShape (act (c.bucket (c.shardOf key))).2)
    (hact : (act (c.bucket (c.shardOf key))).2.Keeps good (held' (c.shardOf key)))
    (hother : ∀ shard, c.shardOf key ≠ shard → held' shard = held shard) :
    (c.onBucket key act).2.Keeps good held' := by
  constructor <;> intro shard <;> rw [bucket_onBucket] <;>
    by_cases hshard : c.shardOf key = shard
  · subst hshard
    rw [if_pos rfl]
    exact hact
  · rw [if_neg hshard, hother shard hshard]
    exact h.bucket shard
  · subst hshard
    rw [if_pos rfl, hshape.1, hshape.2]
    exact h.shape _
  · rw [if_neg hshard]
    exact h.shape shard

/-- A hit gives bytes of a good page. -/
theorem Keeps.read_cases (h : c.Keeps good held) (key : PageKey) (offset count : Nat) :
    (c.read key offset count).1 = .miss ∨
    (1 <<< c.geometry.pageShift < offset ∧ (c.read key offset count).1 = .pastPage) ∨
    ∃ page, good key page ∧ (c.read key offset count).1
      = .hit (Bytes.window page offset (min count (1 <<< c.geometry.pageShift - offset))) := by
  have hcases := (h.bucket (c.shardOf key)).read_cases key offset count
  rwa [h.pageSize_eq] at hcases

/-- Where not all slots of a page's bucket are held there is one to be had. -/
theorem Keeps.slot?_acquire_ne_none (h : c.Keeps good held) (key : PageKey)
    (hheld : (held (c.shardOf key)).length < c.geometry.pagesPerBucket) :
    (c.acquire key).1.slot? ≠ none := by
  intro hnone
  have hall := (h.bucket (c.shardOf key)).owned.length_of_acquire_eq_none hnone
  rw [(h.shape _).1] at hall
  exact absurd hall (Nat.ne_of_lt hheld)

/-- Reading a page keeps all pages good. -/
theorem Keeps.read (h : c.Keeps good held) (key : PageKey) (offset count : Nat) :
    (c.read key offset count).2.Keeps good held :=
  h.onBucket (Bucket.sameShape_read ..) ((h.bucket _).read key offset count) fun _ _ => rfl

/-- The slot that is acquired for a page is held in the bucket of the page. -/
theorem Keeps.acquire (h : c.Keeps good held) (key : PageKey) :
    (c.acquire key).2.Keeps good fun shard =>
      slotsAt (c.shardOf key) (c.acquire key).1.slot?.toList shard ++ held shard := by
  refine h.onBucket (Bucket.sameShape_acquire _) ?_ ?_
  · rw [slotsAt_self]
    exact (h.bucket _).acquire
  · intro shard hshard
    rw [slotsAt_of_ne hshard, List.nil_append]

/-- Publishing good bytes ends the holding of their slot. -/
theorem Keeps.install {key : PageKey} {slot : Slot} {data : Bytes}
    (h : c.Keeps good fun shard => slotsAt (c.shardOf key) [slot] shard ++ held shard)
    (hdata : good key (data.take (1 <<< c.geometry.pageShift))) :
    (c.install key slot data).2.Keeps good held := by
  have hbucket := h.bucket (c.shardOf key)
  rw [slotsAt_self] at hbucket
  rw [← h.pageSize_eq] at hdata
  refine h.onBucket (Bucket.sameShape_install ..) (hbucket.install hdata) ?_
  intro shard hshard
  rw [slotsAt_of_ne hshard, List.nil_append]

/-- Giving a slot back ends the holding of it. -/
theorem Keeps.release {key : PageKey} {slot : Slot}
    (h : c.Keeps good fun shard => slotsAt (c.shardOf key) [slot] shard ++ held shard) :
    (c.release key slot).Keeps good held := by
  have hbucket := h.bucket (c.shardOf key)
  rw [slotsAt_self] at hbucket
  refine h.onBucket (Bucket.sameShape_release ..) hbucket.release ?_
  intro shard hshard
  rw [slotsAt_of_ne hshard, List.nil_append]

end Cache

end ReadThrough
