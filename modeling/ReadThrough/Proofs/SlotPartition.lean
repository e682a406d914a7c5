import Mathlib.Algebra.BigOperators.Fin
import ReadThrough.Proofs.Geometry
import ReadThrough.Proofs.Usage

/-!
# The slots of a cache

A `CacheUsage` is a cache with the slots that are held in each bucket. One operation on a cache is
one operation on the bucket of its key and none on the others (`CacheUsage.Step.ofShard`), so what
holds of a bucket in use holds of all of them, and the totals of a cache are sums over its buckets.

`slots_partition` is the account of all slots: in a bucket under any lawful policy each one is free,
bound or held, never two of these, and the counters say how many; and over a cache the pages are the
free, the resident and the held ones.
-/

namespace ReadThrough

open Finset

/-! ## The account of a bucket -/

namespace Usage

variable {ι : Type} [EvictionPolicy ι PageKey Slot] [LawfulPolicy ι]

/-- Each of `capacity` slots is in one place, and the counters say how many are in each. -/
structure Partitioned (u : Usage ι) (capacity : Nat) : Prop where
  /-- A slot below the capacity is free, bound or held, once; there are no other slots. -/
  place : ∀ slot, u.bucket.free.count slot + u.bucket.boundSlots.count slot + u.held.count slot
    = if slot < capacity then 1 else 0
  /-- A bound slot is the slot of one page. -/
  page : ∀ slot ∈ u.bucket.boundSlots,
    ∃! key, (EvictionPolicy.lookup u.bucket.index key).1 = some slot
  total : u.bucket.freeCount + u.bucket.residentCount + u.held.length = capacity
  /-- A slot that is handed out is nobody else's. -/
  grant : ∀ slot, u.bucket.acquire.1.slot? = some slot →
    slot ∉ u.held ∧ slot ∉ u.bucket.acquire.2.free ∧ slot ∉ u.bucket.acquire.2.boundSlots
  used : (capacity : Int) - u.bucket.freeCount
    = u.bucket.counters.allocations - u.bucket.counters.frees
  resident : (u.bucket.residentCount : Int)
    = u.bucket.counters.inserts - u.bucket.counters.evictions - u.lost

theorem Sound.partitioned {u : Usage ι} (h : u.Sound) : u.Partitioned u.bucket.capacity := by
  obtain ⟨howned, hbalanced⟩ := h
  refine ⟨?_, ?_, howned.length_eq, ?_, ?_, ?_⟩
  · intro slot
    rw [howned.count slot, List.count_range]
  · intro slot hslot
    obtain ⟨⟨key, _⟩, hmem, rfl⟩ := List.mem_map.1 hslot
    refine ⟨key, (LawfulPolicy.lookup_eq_some_iff howned.valid).2 hmem, ?_⟩
    intro other hother
    exact howned.key_unique ((LawfulPolicy.lookup_eq_some_iff howned.valid).1 hother) hmem
  · intro slot hslot
    have hacquired := howned.acquire
    rw [hslot, Option.toList_some, List.singleton_append] at hacquired
    exact ⟨(List.nodup_cons.1 hacquired.nodup_held).1,
      (hacquired.of_mem_held List.mem_cons_self).2⟩
  · have hslots := hbalanced.slots
    omega
  · have hpages := hbalanced.pages
    omega

end Usage

/-! ## Sums over buckets -/

theorem sum_toList_map {α : Type} {n : Nat} (v : Vector α n) (f : α → Nat) :
    (v.toList.map f).sum = ∑ i, f (v.get i) := by
  have hlist : v.toList = List.ofFn v.get := by
    apply List.ext_getElem
    · simp
    · intro i h₁ h₂
      simp
      rfl
  rw [hlist, List.map_ofFn, List.sum_ofFn]
  rfl

/-- A total that starts at zero and adds up is the sum of its parts. -/
theorem Counters.sum_eq (f : Counters → Nat) (hzero : f {} = 0)
    (hadd : ∀ a b, f (a + b) = f a + f b) (all : List Counters) :
    f (sum all) = (all.map f).sum := by
  have hfold (start : Counters) : f (all.foldl (· + ·) start) = f start + (all.map f).sum := by
    induction all generalizing start with
    | nil => rfl
    | cons c all ih => rw [List.foldl_cons, ih, hadd, List.map_cons, List.sum_cons, Nat.add_assoc]
  rw [sum, hfold, hzero, Nat.zero_add]

namespace Cache

variable (c : Cache)

theorem freePages_eq_sum : c.freePages = ∑ shard : Fin Geometry.bucketCount,
    (c.bucket shard).freeCount := by
  rw [freePages, ← List.sum_eq_foldl, sum_toList_map]
  rfl

theorem residentPages_eq_sum : c.residentPages = ∑ shard : Fin Geometry.bucketCount,
    (c.bucket shard).residentCount := by
  rw [residentPages, ← List.sum_eq_foldl, sum_toList_map]
  rfl

/-- A counter of a cache that adds up is the sum over its buckets. -/
theorem counters_eq_sum (f : Counters → Nat) (hzero : f {} = 0)
    (hadd : ∀ a b, f (a + b) = f a + f b) :
    f c.counters = ∑ shard : Fin Geometry.bucketCount, f (c.bucket shard).counters := by
  rw [counters, Counters.sum_eq f hzero hadd, List.map_map, sum_toList_map]
  rfl

theorem allocations_eq_sum : c.counters.allocations = ∑ shard : Fin Geometry.bucketCount,
    (c.bucket shard).counters.allocations :=
  c.counters_eq_sum (·.allocations) rfl fun _ _ => rfl

theorem frees_eq_sum : c.counters.frees = ∑ shard : Fin Geometry.bucketCount,
    (c.bucket shard).counters.frees :=
  c.counters_eq_sum (·.frees) rfl fun _ _ => rfl

/-- What one bucket alone has counted more, the cache has counted more. -/
theorem counters_eq_add (f : Counters → Nat) (hzero : f {} = 0)
    (hadd : ∀ a b, f (a + b) = f a + f b) {c' : Cache} (home : Fin Geometry.bucketCount) {d : Nat}
    (hbuckets : ∀ shard, f (c'.bucket shard).counters
      = f (c.bucket shard).counters + if home = shard then d else 0) :
    f c'.counters = f c.counters + d := by
  rw [counters_eq_sum _ f hzero hadd, c.counters_eq_sum f hzero hadd,
    sum_congr rfl fun shard _ => hbuckets shard, sum_add_distrib, sum_ite_eq, if_pos (mem_univ _)]

end Cache

/-! ## Caches in use -/

/-- A cache in use. -/
structure CacheUsage where
  cache : Cache
  /-- The slots of each bucket that were acquired and neither installed nor released yet. -/
  held : Fin Geometry.bucketCount → List Slot := fun _ => []
  /-- The installs into each bucket that found their page bound already. -/
  lost : Fin Geometry.bucketCount → Nat := fun _ => 0

namespace CacheUsage

/-- What concerns one bucket. -/
def ofShard (u : CacheUsage) (shard : Fin Geometry.bucketCount) : Usage (Lru PageKey Slot) :=
  ⟨u.cache.bucket shard, u.held shard, u.lost shard⟩

/-- One operation on a cache; only a slot that is held in the bucket of the key is installed or
released. -/
inductive Step : CacheUsage → CacheUsage → Prop
  | read (u : CacheUsage) (key : PageKey) (offset count : Nat) :
    Step u { u with cache := (u.cache.read key offset count).2 }
  | acquire (u : CacheUsage) (key : PageKey) :
    Step u { u with
      cache := (u.cache.acquire key).2
      held := fun shard =>
        if u.cache.shardOf key = shard then (u.cache.acquire key).1.slot?.toList ++ u.held shard
        else u.held shard }
  | install (u : CacheUsage) (key : PageKey) (slot : Slot) (data : Bytes) :
    slot ∈ u.held (u.cache.shardOf key) →
    Step u {
      cache := (u.cache.install key slot data).2
      held := fun shard =>
        if u.cache.shardOf key = shard then (u.held shard).erase slot else u.held shard
      lost := fun shard =>
        if u.cache.shardOf key = shard
        then u.lost shard + (u.cache.install key slot data).1.toList.length
        else u.lost shard }
  | release (u : CacheUsage) (key : PageKey) (slot : Slot) :
    slot ∈ u.held (u.cache.shardOf key) →
    Step u { u with
      cache := u.cache.release key slot
      held := fun shard =>
        if u.cache.shardOf key = shard then (u.held shard).erase slot else u.held shard }

/-- What a cache comes to by any number of operations in any order. -/
inductive Reaches (start : Cache) : CacheUsage → Prop
  | start : Reaches start { cache := start }
  | step {u v : CacheUsage} : Reaches start u → Step u v → Reaches start v

/-- An operation on a cache is one on the bucket of its key and none on any other bucket. -/
theorem Step.ofShard {u v : CacheUsage} (h : Step u v) (shard : Fin Geometry.bucketCount) :
    v.ofShard shard = u.ofShard shard ∨ Usage.Step (u.ofShard shard) (v.ofShard shard) := by
  cases h with
  | read key offset count =>
    by_cases hshard : u.cache.shardOf key = shard
    · refine .inr ?_
      simp only [CacheUsage.ofShard, Cache.read, Cache.bucket_onBucket, if_pos hshard]
      exact .read (u.ofShard shard) key offset count
    · exact .inl (by
        simp only [CacheUsage.ofShard, Cache.read, Cache.bucket_onBucket, if_neg hshard])
  | acquire key =>
    by_cases hshard : u.cache.shardOf key = shard
    · subst hshard
      refine .inr ?_
      simp only [CacheUsage.ofShard, Cache.acquire, Cache.bucket_onBucket, if_true]
      exact .acquire (u.ofShard (u.cache.shardOf key))
    · exact .inl (by
        simp only [CacheUsage.ofShard, Cache.acquire, Cache.bucket_onBucket, if_neg hshard])
  | install key slot data hslot =>
    by_cases hshard : u.cache.shardOf key = shard
    · subst hshard
      refine .inr ?_
      simp only [CacheUsage.ofShard, Cache.install, Cache.bucket_onBucket, if_true]
      exact .install (u.ofShard (u.cache.shardOf key)) key slot data hslot
    · exact .inl (by
        simp only [CacheUsage.ofShard, Cache.install, Cache.bucket_onBucket, if_neg hshard])
  | release key slot hslot =>
    by_cases hshard : u.cache.shardOf key = shard
    · subst hshard
      refine .inr ?_
      simp only [CacheUsage.ofShard, Cache.release, Cache.bucket_onBucket, if_true]
      exact .release (u.ofShard (u.cache.shardOf key)) slot hslot
    · exact .inl (by
        simp only [CacheUsage.ofShard, Cache.release, Cache.bucket_onBucket, if_neg hshard])

theorem Reaches.ofShard {start : Cache} {u : CacheUsage} (h : Reaches start u)
    (shard : Fin Geometry.bucketCount) : Usage.Reaches (start.bucket shard) (u.ofShard shard) := by
  induction h with
  | start => exact .start
  | step _ hstep ih =>
    obtain heq | hstep := hstep.ofShard shard
    · rw [heq]
      exact ih
    · exact ih.step hstep

/-- In a cache that was made with all slots free, every bucket is sound. -/
theorem Reaches.sound {g : Geometry} {seed : UInt64} {u : CacheUsage}
    (h : Reaches (.ofGeometry g seed) u) (shard : Fin Geometry.bucketCount) :
    (u.ofShard shard).Sound ∧ (u.ofShard shard).bucket.capacity = g.pagesPerBucket := by
  have hrun := h.ofShard shard
  rw [Cache.bucket_ofGeometry] at hrun
  exact ⟨hrun.sound (.ofCapacity Lru.valid_empty Lru.entries_empty _ _), hrun.sameShape.1⟩

theorem Reaches.geometry_eq {start : Cache} {u : CacheUsage} (h : Reaches start u) :
    u.cache.geometry = start.geometry := by
  induction h with
  | start => rfl
  | step _ hstep ih => cases hstep <;> exact ih

/-- The pages of a cache are the free, the resident and the held ones, and the counters tell how
many are not free. -/
theorem Reaches.totals {g : Geometry} {seed : UInt64} {u : CacheUsage}
    (h : Reaches (.ofGeometry g seed) u) :
    u.cache.freePages + u.cache.residentPages + ∑ shard, (u.held shard).length
        = Geometry.bucketCount * g.pagesPerBucket ∧
      u.cache.freePages + u.cache.counters.allocations
        = Geometry.bucketCount * g.pagesPerBucket + u.cache.counters.frees := by
  have hconst : Geometry.bucketCount * g.pagesPerBucket
      = ∑ _shard : Fin Geometry.bucketCount, g.pagesPerBucket := by simp
  rw [hconst, Cache.freePages_eq_sum, Cache.residentPages_eq_sum, Cache.allocations_eq_sum,
    Cache.frees_eq_sum, ← sum_add_distrib, ← sum_add_distrib, ← sum_add_distrib, ← sum_add_distrib]
  constructor
  · apply sum_congr rfl
    intro shard _
    obtain ⟨⟨howned, -⟩, hcapacity⟩ := h.sound shard
    rw [← hcapacity]
    exact howned.length_eq
  · apply sum_congr rfl
    intro shard _
    obtain ⟨⟨-, hbalanced⟩, hcapacity⟩ := h.sound shard
    rw [← hcapacity]
    exact hbalanced.slots

end CacheUsage

/-! ## The account of all slots -/

/-- However operations on it follow one another, the slots of a bucket are partitioned, and so are
those of all buckets of a cache together. -/
theorem slots_partition :
    (∀ (ι : Type) [EvictionPolicy ι PageKey Slot] [LawfulPolicy ι] (capacity pageShift : Nat)
        (index : ι) (u : Usage ι), LawfulPolicy.Valid index → LawfulPolicy.bindings index = [] →
      Usage.Reaches (.ofCapacity capacity pageShift index) u → u.Partitioned capacity) ∧
    (∀ (config : Config) (seed : UInt64) (cache : Cache) (u : CacheUsage),
      Cache.ofConfig config seed = .ok cache → CacheUsage.Reaches cache u →
      (∀ shard, (u.ofShard shard).Partitioned cache.geometry.pagesPerBucket) ∧
      u.cache.geometry.pageCount
        = u.cache.freePages + u.cache.residentPages + ∑ shard, (u.held shard).length ∧
      (u.cache.geometry.pageCount : Int) - u.cache.freePages
        = u.cache.counters.allocations - u.cache.counters.frees ∧
      u.cache.geometry.pageCount - u.cache.freePages = u.cache.counters.slotsInUse) := by
  constructor
  · intro ι _ _ capacity pageShift index u hvalid hempty hrun
    have hsound := hrun.sound (.ofCapacity hvalid hempty ..)
    have hcapacity : u.bucket.capacity = capacity := hrun.sameShape.1
    rw [← hcapacity]
    exact hsound.partitioned
  · intro config seed cache u hcache hrun
    obtain ⟨g, hg, rfl⟩ := Cache.eq_of_ofConfig_eq_ok hcache
    have hcount := (Config.pagesPerBucket_of_geometry_eq_ok hg).2
    have hgeometry : u.cache.geometry = g := hrun.geometry_eq
    obtain ⟨hplaces, hcounters⟩ := hrun.totals
    constructor
    · intro shard
      obtain ⟨hsound, hcapacity⟩ := hrun.sound shard
      rw [Cache.ofGeometry, ← hcapacity]
      exact hsound.partitioned
    · rw [hgeometry, Counters.slotsInUse]
      omega

/-- A bucket of one slot whose page was given up for the next holder, and a cache in which a slot
is held. -/
theorem slots_partition_after_reuse :
    (∃ u : Usage (Fifo PageKey Slot), Usage.Reaches (.ofCapacity 1 0 .empty) u ∧
      u.held = [0] ∧ u.bucket.counters.evictions = 1 ∧ u.Partitioned 1) ∧
    ∃ cache u, Cache.ofConfig ⟨1, 1⟩ 7 = .ok cache ∧ CacheUsage.Reaches cache u ∧
      u.cache.geometry.pageCount
        = u.cache.freePages + u.cache.residentPages + ∑ shard, (u.held shard).length := by
  have hbucket : Usage.Reaches (.ofCapacity 1 0 (.empty : Fifo PageKey Slot)) _ :=
    ((Usage.Reaches.start.step (.acquire _)).step
      (.install _ ⟨0, 0⟩ 0 [1] (by decide))).step (.acquire _)
  have hcache : CacheUsage.Reaches (.ofGeometry ⟨0, 64⟩ 7) _ :=
    CacheUsage.Reaches.start.step (.acquire _ ⟨0, 0⟩)
  have hok : Cache.ofConfig ⟨1, 1⟩ 7 = .ok (.ofGeometry ⟨0, 64⟩ 7) := rfl
  exact ⟨⟨_, hbucket, rfl, rfl,
      slots_partition.1 (Fifo PageKey Slot) 1 0 .empty _ List.nodup_nil rfl hbucket⟩,
    ⟨_, _, hok, hcache, (slots_partition.2 _ _ _ _ hok hcache).2.1⟩⟩

end ReadThrough
