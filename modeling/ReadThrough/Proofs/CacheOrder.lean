import ReadThrough.Proofs.RecencyList
import ReadThrough.Proofs.SlotPartition
import ReadThrough.Proofs.Turns

/-!
# The order of resident pages

`Bucket.order` lists the resident pages of a bucket, the most recently used one first. On a cache of
which no slot is held (`Cache.Idle`), what a visit does to the order of its bucket depends only on
the order and whether the page was delivered (`Visit.leave`): a delivered page goes to the front and
pushes the last one out if there are too many then, and a page that was not delivered costs the last
one if the bucket was full. `Cache.GoesThrough` says this of any number of visits in a row,
which of them were hits, and what they add to the counters.
-/

namespace ReadThrough

/-! ## Buckets -/

namespace Bucket

/-- The resident pages, the most recently used one first. -/
def order (b : CacheBucket) : List PageKey := b.index.entries.map (·.1)

variable {b : CacheBucket} {held : List Slot} {key : PageKey}

/-- The order lists the pages that are bound. -/
theorem mem_order : key ∈ b.order ↔ ∃ slot, (key, slot) ∈ b.index.entries := by
  simp [order]

/-- Free and resident pages are all that a bucket has while nobody holds a slot. -/
theorem Owned.length_order (h : b.Owned []) : b.freeCount + b.order.length = b.capacity := by
  have hlength := h.length_eq
  rw [residentCount_eq h.valid] at hlength
  rw [order, List.length_map]
  exact hlength

/-- Binding a page puts it in front of the others. -/
theorem map_bind (es : List (PageKey × Slot)) (key : PageKey) (slot : Slot) :
    (RecencyList.bind es key slot).map (·.1) = key :: (es.map (·.1)).filter (· ≠ key) := by
  rw [RecencyList.bind, List.map_cons, List.filter_map]
  rfl

section Read

variable (offset count : Nat)

/-- A lookup misses the pages that are not in the order. -/
theorem read_eq_miss_iff (h : b.Owned held) :
    (b.read key offset count).1 = .miss ↔ key ∉ b.order := by
  have hbound (slot : Slot) : (EvictionPolicy.lookup b.index key).1 = some slot ↔
      (key, slot) ∈ b.index.entries := LawfulPolicy.lookup_eq_some_iff h.valid
  rw [mem_order]
  simp only [← hbound]
  unfold read
  split
  · rename_i hnone
    simp [hnone]
  · rename_i slot index hsome
    split <;> simp [hsome]

/-- A read moves its page to the front if it is resident. -/
theorem order_read (h : b.Owned held) : (b.read key offset count).2.order
    = if key ∈ b.order then key :: b.order.filter (· ≠ key) else b.order := by
  have hvalid : b.index.Valid := h.valid
  have hentries : (b.read key offset count).2.index.entries
      = RecencyList.promote b.index.entries key := by
    rw [read_eq]
    exact hvalid.entries_lookup key
  rw [order, hentries, RecencyList.promote]
  split
  · rename_i slot hfound
    have hmem : key ∈ b.order :=
      mem_order.2 ⟨slot, hvalid.distinctKeys.lookup_eq_some_iff.1 hfound⟩
    rw [if_pos hmem, map_bind]
    rfl
  · rename_i hmissing
    have hnot : key ∉ b.order := by
      intro hmem
      obtain ⟨slot, hslot⟩ := mem_order.1 hmem
      rw [hvalid.distinctKeys.lookup_eq_some_iff.2 hslot] at hmissing
      exact absurd hmissing (by simp)
    rw [if_neg hnot]
    rfl

end Read

/-- Acquiring a slot costs the last page if the bucket is full. -/
theorem order_acquire (h : b.Owned []) : b.acquire.2.order = b.order.take (b.capacity - 1) := by
  have hlength := h.length_order
  have hvalid : b.index.Valid := h.valid
  unfold acquire
  split
  · rename_i slot free hfree
    rw [freeCount, hfree, List.length_cons] at hlength
    show b.order = _
    exact (List.take_of_length_le (by omega)).symm
  · rename_i hfree
    rw [freeCount, hfree, List.length_nil, Nat.zero_add] at hlength
    have hevict : b.order.dropLast = (EvictionPolicy.evict b.index).2.entries.map (·.1) := by
      rw [order, ← List.map_dropLast, ← hvalid.evict_eq.2]
      rfl
    rw [← hlength, ← List.dropLast_eq_take, hevict]
    split <;> rename_i heq <;> rw [heq] <;> rfl

/-- Publishing a page puts it in front. -/
theorem order_install (h : b.Owned held) (slot : Slot) (data : Bytes) :
    (b.install key slot data).2.order = key :: b.order.filter (· ≠ key) := by
  have hvalid : b.index.Valid := h.valid
  have hentries : (EvictionPolicy.insert b.index key slot).2.entries
      = RecencyList.bind b.index.entries key slot := (hvalid.insert key slot).2.2
  have hindex : (b.install key slot data).2.index = (EvictionPolicy.insert b.index key slot).2 := by
    unfold install
    dsimp only
    split <;> rename_i heq <;> rw [heq] <;> rfl
  rw [order, hindex, hentries, map_bind]
  rfl

end Bucket

/-! ## One visit -/

/-- The order of a bucket of `capacity` slots after a visit to one of its pages. -/
def Visit.leave (capacity : Nat) (v : Visit) (order : List PageKey) : List PageKey :=
  if v.delivered then (v.key :: order.filter (· ≠ v.key)).take capacity
  else order.take (capacity - 1)

/-- A page that was delivered is then in front, and the last one goes if there are too many. -/
theorem Visit.leave_of_delivered {v : Visit} (h : v.delivered = true) (capacity : Nat)
    (order : List PageKey) :
    v.leave capacity order = (v.key :: order.filter (· ≠ v.key)).take capacity := if_pos h

/-- A page that was not delivered still costs the place of one. -/
theorem Visit.leave_of_not_delivered {v : Visit} (h : v.delivered = false) (capacity : Nat)
    (order : List PageKey) : v.leave capacity order = order.take (capacity - 1) := by
  rw [leave, h]
  rfl

namespace Bucket

/-- All that a visit by a call that holds no slot before and after does to the page's bucket. -/
structure Visited (b : CacheBucket) (v : Visit) (b' : CacheBucket) : Prop where
  owned : b'.Owned []
  sameShape : b.SameShape b'
  /-- A hit is a visit to a resident page. -/
  hit_iff : v.result = .hit ↔ v.key ∈ b.order
  order_eq : b'.order = v.leave b.capacity b.order
  lookups_eq : b'.counters.lookups = b.counters.lookups + 1
  hits_eq : b'.counters.hits = b.counters.hits + if v.result = .hit then 1 else 0

variable {b : CacheBucket} {key : PageKey} {offset count : Nat}

/-- A hit is a visit. -/
theorem visited_hit (h : b.Owned []) {bytes : Bytes}
    (hhit : (b.read key offset count).1 = .hit bytes) :
    b.Visited ⟨key, .hit⟩ (b.read key offset count).2 := by
  have hmem : key ∈ b.order := by
    by_contra hnot
    rw [(read_eq_miss_iff offset count h).2 hnot] at hhit
    exact absurd hhit (by simp)
  have hcounters : (b.read key offset count).2.counters = b.counters.record (.lookup true) := by
    unfold read at hhit ⊢
    split at hhit
    · exact absurd hhit (by simp)
    · split at hhit
      · exact absurd hhit (by simp)
      · rename_i hle
        rw [if_neg hle]
        rfl
  have hlength := h.length_order
  have hshorter : (b.order.filter (· ≠ key)).length < b.order.length :=
    List.length_filter_lt_length_iff_exists.2 ⟨key, hmem, by simp⟩
  refine ⟨h.read key offset count, sameShape_read .., iff_of_true rfl hmem, ?_, ?_, ?_⟩
  · rw [order_read offset count h, if_pos hmem, Visit.leave_of_delivered rfl]
    exact (List.take_of_length_le (by rw [List.length_cons]; omega)).symm
  · rw [hcounters]
    rfl
  · rw [hcounters]
    rfl

section Missed

variable (h : b.Owned []) (hmiss : (b.read key offset count).1 = .miss)

include h hmiss

/-- After a miss the order is as it was and one more lookup is counted. -/
theorem read_of_miss :
    key ∉ b.order ∧ (b.read key offset count).2.Owned [] ∧
      (b.read key offset count).2.order = b.order ∧
      (b.read key offset count).2.counters = b.counters.record (.lookup false) := by
  have hnot := (read_eq_miss_iff offset count h).1 hmiss
  refine ⟨hnot, h.read key offset count, ?_, ?_⟩
  · rw [order_read offset count h, if_neg hnot]
  · unfold read at hmiss ⊢
    split at hmiss
    · rfl
    · split at hmiss
      · exact absurd hmiss (by simp)
      · exact absurd hmiss (by simp)

/-- After a miss and a slot for the page the bucket has room for the page, which is not resident. -/
theorem acquire_of_miss :
    key ∉ (b.read key offset count).2.acquire.2.order ∧
      b.SameShape (b.read key offset count).2.acquire.2 ∧
      (b.read key offset count).2.acquire.2.order = b.order.take (b.capacity - 1) ∧
      (b.read key offset count).2.acquire.2.counters.lookups = b.counters.lookups + 1 ∧
      (b.read key offset count).2.acquire.2.counters.hits = b.counters.hits := by
  obtain ⟨hnot, howned, horder, hcounters⟩ := read_of_miss h hmiss
  have hshape := sameShape_read b key offset count
  have hacquired := order_acquire howned
  rw [horder, hshape.1] at hacquired
  have hsame : (b.read key offset count).2.acquire.2.counters.lookups
        = (b.read key offset count).2.counters.lookups ∧
      (b.read key offset count).2.acquire.2.counters.hits
        = (b.read key offset count).2.counters.hits := by
    generalize (b.read key offset count).2 = b'
    unfold acquire
    split
    · exact ⟨rfl, rfl⟩
    · split <;> exact ⟨rfl, rfl⟩
  rw [hcounters] at hsame
  refine ⟨?_, hshape.trans (sameShape_acquire _), hacquired, hsame⟩
  rw [hacquired]
  exact fun hmem => hnot (List.mem_of_mem_take hmem)

variable {slot : Slot} (hslot : (b.read key offset count).2.acquire.1.slot? = some slot)

include hslot

/-- So is a miss whose page is published. -/
theorem visited_fetched (hcapacity : 1 ≤ b.capacity) (data : Bytes) :
    b.Visited ⟨key, .fetched⟩ ((b.read key offset count).2.acquire.2.install key slot data).2 := by
  have howned := (h.read key offset count).acquire
  rw [hslot] at howned
  obtain ⟨habsent, hshape, horder, hlookups, hhits⟩ := acquire_of_miss h hmiss
  have hnot := (read_eq_miss_iff offset count h).1 hmiss
  have hsame : ((b.read key offset count).2.acquire.2.install key slot data).2.counters.lookups
        = (b.read key offset count).2.acquire.2.counters.lookups ∧
      ((b.read key offset count).2.acquire.2.install key slot data).2.counters.hits
        = (b.read key offset count).2.acquire.2.counters.hits := by
    generalize (b.read key offset count).2.acquire.2 = b'
    unfold install
    dsimp only
    split <;> exact ⟨rfl, rfl⟩
  refine ⟨howned.install key data, hshape.trans (sameShape_install ..),
    iff_of_false (by simp) hnot, ?_, hsame.1.trans hlookups, hsame.2.trans hhits⟩
  have hfilter {l : List PageKey} (hl : key ∉ l) : l.filter (· ≠ key) = l :=
    List.filter_eq_self.2 fun k hk => decide_eq_true fun heq => hl (heq ▸ hk)
  rw [order_install howned, hfilter habsent, horder, Visit.leave_of_delivered rfl, hfilter hnot]
  obtain ⟨n, hn⟩ : ∃ n, b.capacity = n + 1 := ⟨b.capacity - 1, by omega⟩
  rw [hn, List.take_succ_cons, Nat.add_sub_cancel]

/-- So is a miss whose slot is given back. -/
theorem visited_failed :
    b.Visited ⟨key, .failed⟩ ((b.read key offset count).2.acquire.2.release slot) := by
  have howned := (h.read key offset count).acquire
  rw [hslot] at howned
  obtain ⟨-, hshape, horder, hlookups, hhits⟩ := acquire_of_miss h hmiss
  have hnot := (read_eq_miss_iff offset count h).1 hmiss
  refine ⟨howned.release, hshape.trans (sameShape_release _ _), iff_of_false (by simp) hnot,
    horder, hlookups, hhits⟩

end Missed

end Bucket

/-! ## Caches of which no slot is held -/

namespace Cache

/-- The resident pages of a bucket, the most recently used one first. -/
def order (c : Cache) (shard : Fin Geometry.bucketCount) : List PageKey := (c.bucket shard).order

/-- Every slot of the cache is free or bound to a page. -/
def Idle (c : Cache) : Prop := c.Keeps (fun _ _ => True) fun _ => []

/-- Of a new cache nobody holds a slot. -/
theorem idle_ofGeometry (g : Geometry) (seed : UInt64) : (ofGeometry g seed).Idle :=
  keeps_ofGeometry g seed

/-- In a new cache no page is resident. -/
theorem order_ofGeometry (g : Geometry) (seed : UInt64) :
    (ofGeometry g seed).order = fun _ => [] := by
  funext shard
  rw [order, bucket_ofGeometry, Bucket.order]
  show List.map _ (Lru.empty : Lru PageKey Slot).entries = []
  rw [Lru.entries_empty, List.map_nil]

/-- A new cache has counted no lookups. -/
theorem counters_ofGeometry (g : Geometry) (seed : UInt64) :
    (ofGeometry g seed).counters.lookups = 0 ∧ (ofGeometry g seed).counters.hits = 0 := by
  rw [counters_eq_sum _ (·.lookups) rfl fun _ _ => rfl,
    counters_eq_sum _ (·.hits) rfl fun _ _ => rfl]
  simp [bucket_ofGeometry, Bucket.ofCapacity]

variable {c : Cache}

/-- A cache that keeps good pages while nobody holds a slot is idle. -/
theorem Keeps.idle {good : PageKey → Bytes → Prop} (h : c.Keeps good fun _ => []) : c.Idle :=
  h.mono fun _ _ _ => trivial

/-- While nobody holds a slot, every slot is free or bound. -/
theorem Idle.owned (h : c.Idle) (shard : Fin Geometry.bucketCount) :
    (c.bucket shard).Owned [] :=
  (h.bucket shard).owned

/-- Reading a page changes its bucket as a lookup there does. -/
theorem bucket_read (c : Cache) (key : PageKey) (offset count : Nat) :
    (c.read key offset count).2.bucket (c.shardOf key)
      = ((c.bucket (c.shardOf key)).read key offset count).2 := by
  rw [read, bucket_onBucket, if_pos rfl]

end Cache

/-! ## Visits in a row -/

section Replays

variable (home : PageKey → Fin Geometry.bucketCount) (capacity : Nat)

/-- The orders of all buckets after a visit, where `home` tells the bucket of a page. -/
def Visit.leaveAll (v : Visit) (orders : Fin Geometry.bucketCount → List PageKey)
    (shard : Fin Geometry.bucketCount) : List PageKey :=
  if home v.key = shard then v.leave capacity (orders shard) else orders shard

/-- A page that was delivered is resident afterwards. -/
theorem Visit.key_mem_leaveAll {v : Visit} (hdelivered : v.delivered = true) {capacity : Nat}
    (hcapacity : 1 ≤ capacity) (orders : Fin Geometry.bucketCount → List PageKey) :
    v.key ∈ v.leaveAll home capacity orders (home v.key) := by
  obtain ⟨n, rfl⟩ : ∃ n, capacity = n + 1 := ⟨capacity - 1, by omega⟩
  rw [leaveAll, if_pos rfl, leave_of_delivered hdelivered, List.take_succ_cons]
  exact List.mem_cons_self

/-- Visits in a row lead from one state of all orders to another, and those are hits that find their
page in the order of its bucket. -/
inductive Replays : (Fin Geometry.bucketCount → List PageKey) → List Visit →
    (Fin Geometry.bucketCount → List PageKey) → Prop
  | nil {orders : Fin Geometry.bucketCount → List PageKey} : Replays orders [] orders
  | cons {v : Visit} {visits : List Visit} {orders last : Fin Geometry.bucketCount → List PageKey} :
    (v.result = .hit ↔ v.key ∈ orders (home v.key)) →
    Replays (v.leaveAll home capacity orders) visits last → Replays orders (v :: visits) last

variable {home capacity} {orders mid last : Fin Geometry.bucketCount → List PageKey}
  {visits visits' : List Visit}

/-- Visits one after the other are replayed one after the other. -/
theorem Replays.append (h : Replays home capacity orders visits mid)
    (h' : Replays home capacity mid visits' last) :
    Replays home capacity orders (visits ++ visits') last := by
  induction h with
  | nil => exact h'
  | cons hhit _ ih => exact .cons hhit (ih h')

/-- A single visit is a hit if its page is in the order of its bucket, and leaves the orders as it
does. -/
theorem Replays.of_singleton {v : Visit} (h : Replays home capacity orders [v] last) :
    (v.result = .hit ↔ v.key ∈ orders (home v.key)) ∧ last = v.leaveAll home capacity orders := by
  cases h with
  | cons hhit hrest =>
    cases hrest
    exact ⟨hhit, rfl⟩

/-- What the visits before any one of them lead to tells whether that one is a hit. -/
theorem Replays.exists_before {before after : List Visit} {v : Visit}
    (h : Replays home capacity orders (before ++ v :: after) last) :
    ∃ mid, Replays home capacity orders before mid ∧
      (v.result = .hit ↔ v.key ∈ mid (home v.key)) := by
  induction before generalizing orders with
  | nil =>
    cases h with
    | cons hhit _ => exact ⟨orders, .nil, hhit⟩
  | cons u before ih =>
    cases h with
    | cons hhit hrest =>
      obtain ⟨mid, hbefore, hmid⟩ := ih hrest
      exact ⟨mid, .cons hhit hbefore, hmid⟩

end Replays

namespace Cache

/-- What visits in a row by calls that run alone do to a cache. -/
structure GoesThrough (c : Cache) (visits : List Visit) (c' : Cache) : Prop where
  idle : c'.Idle
  geometry_eq : c'.geometry = c.geometry
  shardOf_eq : c'.shardOf = c.shardOf
  replays : Replays c.shardOf c.geometry.pagesPerBucket c.order visits c'.order
  lookups_eq : c'.counters.lookups = c.counters.lookups + visits.length
  hits_eq : c'.counters.hits = c.counters.hits + visits.countP (·.result = .hit)

variable {c c' c'' : Cache}

theorem GoesThrough.nil (h : c.Idle) : c.GoesThrough [] c :=
  ⟨h, rfl, rfl, .nil, rfl, rfl⟩

/-- Visits upon visits bring a cache where all of them together do. -/
theorem GoesThrough.append {visits visits' : List Visit} (h : c.GoesThrough visits c')
    (h' : c'.GoesThrough visits' c'') : c.GoesThrough (visits ++ visits') c'' := by
  refine ⟨h'.idle, h'.geometry_eq.trans h.geometry_eq, h'.shardOf_eq.trans h.shardOf_eq, ?_, ?_, ?_⟩
  · have hreplays := h'.replays
    rw [h.shardOf_eq, h.geometry_eq] at hreplays
    exact h.replays.append hreplays
  · rw [h'.lookups_eq, h.lookups_eq, List.length_append, Nat.add_assoc]
  · rw [h'.hits_eq, h.hits_eq, List.countP_append, Nat.add_assoc]

/-- A visit that concerns the bucket of its page only is one that the cache goes through. -/
theorem goesThrough_of_visited (h : c.Idle) {v : Visit} {b : CacheBucket}
    (hvisited : (c.bucket (c.shardOf v.key)).Visited v b) (hgeometry : c'.geometry = c.geometry)
    (hshardOf : c'.shardOf = c.shardOf)
    (hbucket : ∀ shard, c'.bucket shard
      = if c.shardOf v.key = shard then b else c.bucket shard) : c.GoesThrough [v] c' := by
  refine ⟨⟨fun shard => ?_, fun shard => ?_⟩, hgeometry, hshardOf, ?_, ?_, ?_⟩
  · rw [hbucket]
    split
    · exact ⟨hvisited.owned, fun _ _ _ => trivial⟩
    · exact h.bucket shard
  · rw [hbucket, hgeometry]
    split
    · rw [hvisited.sameShape.1, hvisited.sameShape.2]
      exact h.shape _
    · exact h.shape shard
  · apply Replays.cons hvisited.hit_iff
    have horder : v.leaveAll c.shardOf c.geometry.pagesPerBucket c.order = c'.order := by
      funext shard
      rw [Visit.leaveAll, order, order, hbucket]
      split
      · rename_i hshard
        rw [hvisited.order_eq, (h.shape _).1, hshard]
      · rfl
    rw [horder]
    exact .nil
  · apply c.counters_eq_add (·.lookups) rfl (fun _ _ => rfl) (c.shardOf v.key)
    intro shard
    rw [hbucket]
    split
    · rename_i hshard
      rw [hvisited.lookups_eq, hshard]
      rfl
    · rfl
  · apply c.counters_eq_add (·.hits) rfl (fun _ _ => rfl) (c.shardOf v.key)
    intro shard
    rw [hbucket]
    split
    · rename_i hshard
      rw [hvisited.hits_eq, hshard, List.countP_singleton]
      simp
    · rfl

end Cache

/-! ## Turns and runs -/

section Turns

variable {K : Contract} {lossy : Prop} {answer : Nat → Bytes → Transfer} {c next last : Call}
  {cache cache' : Cache} {v : Visit} {visits : List Visit}

/-- A turn in which no slot is lost is a visit that the cache goes through. -/
theorem Turn.goesThrough (h : Turn K lossy answer c cache v next cache') (hidle : cache.Idle)
    (hpages : 1 ≤ cache.geometry.pagesPerBucket) (hkept : v.result ≠ .abandoned) :
    cache.GoesThrough [v] cache' := by
  have howned := hidle.owned (cache.shardOf c.key)
  have hcapacity : 1 ≤ (cache.bucket (cache.shardOf c.key)).capacity := by
    rw [(hidle.shape _).1]
    exact hpages
  have hgranted {slot : Slot}
      (hslot : ((cache.read c.key c.intra c.want).2.acquire c.key).1.slot? = some slot) :
      ((cache.bucket (cache.shardOf c.key)).read c.key c.intra c.want).2.acquire.1.slot?
        = some slot := by
    rw [← Cache.bucket_read]
    exact hslot
  cases h with
  | hit hhit _ =>
    refine Cache.goesThrough_of_visited hidle (Bucket.visited_hit howned hhit) ?_ ?_ ?_
    · rfl
    · rfl
    · intro shard
      rw [Cache.read, Cache.bucket_onBucket]
      split
      · rename_i hshard
        rw [← hshard]
      · rfl
  | @fetched slot n page received hmiss hslot _ _ _ =>
    refine Cache.goesThrough_of_visited hidle (Bucket.visited_fetched howned hmiss
      (hgranted hslot) hcapacity (received.frame.take n)) ?_ ?_ ?_
    · simp only [Cache.install, Cache.acquire, Cache.read, Cache.geometry_onBucket]
    · funext key
      simp only [Cache.install, Cache.acquire, Cache.read, Cache.shardOf_onBucket]
    · intro shard
      by_cases hshard : cache.shardOf c.key = shard
      · subst hshard
        simp only [Cache.install, Cache.acquire, Cache.read, Cache.bucket_onBucket,
          Cache.shardOf_onBucket, if_true]
      · simp only [Cache.install, Cache.acquire, Cache.read, Cache.bucket_onBucket,
          Cache.shardOf_onBucket, if_neg hshard]
  | failed hmiss hslot _ _ _ =>
    refine Cache.goesThrough_of_visited hidle
      (Bucket.visited_failed howned hmiss (hgranted hslot)) ?_ ?_ ?_
    · simp only [Cache.release, Cache.acquire, Cache.read, Cache.geometry_onBucket]
    · funext key
      simp only [Cache.release, Cache.acquire, Cache.read, Cache.shardOf_onBucket]
    · intro shard
      by_cases hshard : cache.shardOf c.key = shard
      · subst hshard
        simp only [Cache.release, Cache.acquire, Cache.read, Cache.bucket_onBucket,
          Cache.shardOf_onBucket, if_true]
      · simp only [Cache.release, Cache.acquire, Cache.read, Cache.bucket_onBucket,
          Cache.shardOf_onBucket, if_neg hshard]
  | abandoned => exact absurd rfl hkept

/-- What a call that runs alone does to the cache, unless a slot was lost. -/
theorem Turns.goesThrough (h : Turns K lossy answer c cache visits last cache') (hidle : cache.Idle)
    (hpages : 1 ≤ cache.geometry.pagesPerBucket) (hkept : ∀ v ∈ visits, v.result ≠ .abandoned) :
    cache.GoesThrough visits cache' := by
  induction h with
  | ended _ => exact .nil hidle
  | turn _ _ _ _ hturn _ ih =>
    have hfirst := hturn.goesThrough hidle hpages (hkept _ List.mem_cons_self)
    have hrest := ih hfirst.idle (by rw [hfirst.geometry_eq]; exact hpages)
      fun v hv => hkept v (List.mem_cons_of_mem _ hv)
    exact hfirst.append hrest

end Turns

end ReadThrough
