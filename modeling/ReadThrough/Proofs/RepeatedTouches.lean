import ReadThrough.Proofs.Tour

/-!
# Touching a page again

No operation looks at the counters, so a hit that was counted before a load or a tour may as well be
counted after it (`Backing.load_countHit`, `Backing.tour_countHit`). A page that was loaded is the
last one used of its bucket (`Bucket.Foremost`), and all that loading it again does is to count a
hit (`Backing.load_again`).
-/

namespace ReadThrough

/-! ## Counting before and after -/

/-- It does not matter in which order two events are counted. -/
theorem Counters.record_comm (c : Counters) (event other : Event) :
    (c.record event).record other = (c.record other).record event := by
  cases event <;> cases other <;> simp [record, Nat.add_right_comm]

namespace Bucket

variable {ι : Type} {α : Type}

/-- The operation does not look at the counters. -/
def Oblivious (act : Bucket ι → α × Bucket ι) : Prop :=
  ∀ (b : Bucket ι) (event : Counters.Event),
    act (b.record event) = ((act b).1, (act b).2.record event)

/-- Nor does it in a bucket. -/
theorem record_comm (b : Bucket ι) (event other : Counters.Event) :
    (b.record event).record other = (b.record other).record event := by
  simp only [record, b.counters.record_comm event other]

/-- Releasing puts the slot back whatever was counted. -/
theorem oblivious_release (slot : Slot) :
    Oblivious fun b : Bucket ι => ((), b.release slot) := fun b event =>
  congrArg ((), ·) (record_comm { b with free := slot :: b.free } event .free)

variable [EvictionPolicy ι PageKey Slot]

/-- What a lookup finds depends on the policy and the pages. -/
theorem oblivious_read (key : PageKey) (offset count : Nat) :
    Oblivious fun b : Bucket ι => b.read key offset count := by
  intro b event
  have hindex : (b.record event).index = b.index := rfl
  have hsize : (b.record event).pageSize = b.pageSize := rfl
  simp only [read, hindex, hsize]
  rcases EvictionPolicy.lookup b.index key with ⟨_ | slot, index⟩
  · exact congrArg (Prod.mk _) (record_comm { b with index } event _)
  · dsimp only
    split
    · rfl
    · exact congrArg (Prod.mk _) (record_comm { b with index } event _)

/-- Which slot is handed out depends on the free stack and the policy. -/
theorem oblivious_acquire : Oblivious fun b : Bucket ι => b.acquire := by
  intro b event
  have hfree : (b.record event).free = b.free := rfl
  have hindex : (b.record event).index = b.index := rfl
  simp only [acquire, hfree, hindex]
  rcases b.free with _ | ⟨slot, free⟩
  · rcases EvictionPolicy.evict b.index with ⟨_ | ⟨victim, slot⟩, index⟩
    · rfl
    · exact congrArg (Prod.mk _) (record_comm { b with index, free := [] } event .eviction)
  · exact congrArg (Prod.mk _) (record_comm { b with free } event .allocation)

/-- What an install binds and stores depends on neither what was counted nor what it counts. -/
theorem oblivious_install (key : PageKey) (slot : Slot) (data : Bytes) :
    Oblivious fun b : Bucket ι => b.install key slot data := by
  intro b event
  have hindex : (b.record event).index = b.index := rfl
  have hsize : (b.record event).pageSize = b.pageSize := rfl
  have hpages : (b.record event).pages = b.pages := rfl
  simp only [install, hindex, hsize, hpages]
  rcases EvictionPolicy.insert b.index key slot with ⟨_ | former, index⟩
  · exact congrArg (Prod.mk _) (record_comm { b with index, pages := _ } event _)
  · have hreleased := oblivious_release former
      { b with index, pages := b.pages.setIfInBounds slot (data.take b.pageSize) } event
    have hreleased := congrArg (fun result => result.2.record .insert) hreleased
    exact congrArg (Prod.mk _) (hreleased.trans (record_comm _ event .insert))

/-! ## The page used last -/

/-- The page is resident and was used last, so that finding it changes nothing. -/
def Foremost (b : Bucket ι) (key : PageKey) : Prop :=
  ∃ slot, EvictionPolicy.lookup b.index key = (some slot, b.index)

/-- Looking for the page that was used last only counts a hit. -/
theorem Foremost.read_eq {b : Bucket ι} {key : PageKey} (h : b.Foremost key) :
    (b.read key 0 0).2 = b.record (.lookup true) := by
  obtain ⟨slot, hlookup⟩ := h
  rw [read, hlookup]
  dsimp only
  rw [if_neg (Nat.not_lt_zero _)]

variable {b : CacheBucket} {key : PageKey}

/-- The page in front of the others in the order of use was used last. -/
theorem foremost_of_head (hvalid : LawfulPolicy.Valid b.index) {slot : Slot}
    {rest : List (PageKey × Slot)} (hentries : b.index.entries = (key, slot) :: rest) :
    b.Foremost key :=
  have hvalid : b.index.Valid := hvalid
  ⟨slot, hvalid.lookup_of_head hentries⟩

/-- A resident page that is read was used last then. -/
theorem foremost_read (hvalid : LawfulPolicy.Valid b.index) {page : Bytes}
    (hpage : b.page? key = some page) (offset count : Nat) :
    (b.read key offset count).2.Foremost key := by
  have hlru : b.index.Valid := hvalid
  obtain ⟨slot, hmem, -⟩ := (page?_eq_some_iff hvalid).1 hpage
  obtain ⟨-, hvalid', hentries⟩ := hlru.lookup_of_mem hmem
  rw [read_eq]
  exact foremost_of_head hvalid' hentries

/-- So was a page that is published. -/
theorem foremost_install (hvalid : LawfulPolicy.Valid b.index) (slot : Slot) (data : Bytes) :
    (b.install key slot data).2.Foremost key := by
  have hlru : b.index.Valid := hvalid
  obtain ⟨-, hvalid', hentries⟩ := hlru.insert key slot
  have hindex : (b.install key slot data).2.index = (b.index.insert key slot).2 := by
    unfold install
    dsimp only
    split <;> rename_i heq <;> exact (congrArg Prod.snd heq).symm
  rw [← hindex] at hvalid' hentries
  exact foremost_of_head hvalid' hentries

/-- A page that is published in the slot that was handed out for it is the last one used. -/
theorem foremost_of_grant {held : List Slot} {slot : Slot} {page : Bytes} (h : b.Owned held)
    (hgrant : b.acquire.1.slot? = some slot) (key : PageKey) (hle : page.length ≤ b.pageSize) :
    let filled := (b.acquire.2.install key slot page).2
    filled.page? key = some page ∧ filled.Foremost key := by
  have hheld := h.acquire
  rw [hgrant] at hheld
  have hpage : (b.acquire.2.install key slot page).2.page? key = _ :=
    page?_install hheld key page
  rw [if_pos rfl, (sameShape_acquire b).pageSize_eq, List.take_of_length_le hle] at hpage
  exact ⟨hpage, foremost_install hheld.valid slot page⟩

end Bucket

/-! ## Caches -/

namespace Cache

variable {c : Cache} {key other : PageKey}

/-- The cache with one more hit of a page counted. -/
def countHit (c : Cache) (key : PageKey) : Cache :=
  (c.onBucket key fun bucket => ((), bucket.record (.lookup true))).2

/-- Caches of one geometry and seed with the same buckets are the same. -/
theorem ext_bucket {c c' : Cache} (hgeometry : c.geometry = c'.geometry) (hseed : c.seed = c'.seed)
    (hbucket : ∀ shard, c.bucket shard = c'.bucket shard) : c = c' := by
  obtain ⟨geometry, seed, buckets⟩ := c
  obtain ⟨geometry', seed', buckets'⟩ := c'
  obtain rfl : geometry = geometry' := hgeometry
  obtain rfl : seed = seed' := hseed
  congr 1
  exact Vector.ext fun i hi => hbucket ⟨i, hi⟩

/-- An operation on a bucket keeps the seed. -/
theorem seed_onBucket {α : Type} (c : Cache) (key : PageKey)
    (act : CacheBucket → α × CacheBucket) : (c.onBucket key act).2.seed = c.seed := rfl

/-- An operation on the bucket of a page answers as that bucket does. -/
theorem onBucket_fst {α : Type} (c : Cache) (key : PageKey)
    (act : CacheBucket → α × CacheBucket) :
    (c.onBucket key act).1 = (act (c.bucket (c.shardOf key))).1 := rfl

/-- Counting a hit keeps the geometry. -/
theorem geometry_countHit (c : Cache) (key : PageKey) :
    (c.countHit key).geometry = c.geometry := geometry_onBucket ..

/-- Counting a hit counts in the bucket of the page. -/
theorem bucket_countHit (c : Cache) (key : PageKey) (shard : Fin Geometry.bucketCount) :
    (c.countHit key).bucket shard = if c.shardOf key = shard
      then (c.bucket shard).record (.lookup true) else c.bucket shard :=
  bucket_onBucket c key _ shard

/-- An operation that does not look at the counters may come before a hit is counted or after. -/
theorem onBucket_countHit {α : Type} {act : CacheBucket → α × CacheBucket}
    (hact : Bucket.Oblivious act) (c : Cache) (key other : PageKey) :
    (c.countHit key).onBucket other act
      = ((c.onBucket other act).1, (c.onBucket other act).2.countHit key) := by
  have hplace : (c.countHit key).shardOf other = c.shardOf other := shardOf_onBucket ..
  have hact (b : CacheBucket) (home : Prop) [Decidable home] :
      act (if home then b.record (.lookup true) else b)
        = ((act b).1, if home then (act b).2.record (.lookup true) else (act b).2) := by
    by_cases hhome : home
    · rw [if_pos hhome, if_pos hhome, hact]
    · rw [if_neg hhome, if_neg hhome]
  refine Prod.ext ?_ (ext_bucket ?_ ?_ fun shard => ?_)
  · rw [onBucket_fst, onBucket_fst, hplace, bucket_countHit, hact]
  · simp only [countHit, geometry_onBucket]
  · simp only [countHit, seed_onBucket]
  · rw [bucket_onBucket, hplace, bucket_countHit, bucket_countHit, shardOf_onBucket,
      bucket_onBucket, hact]
    by_cases hother : c.shardOf other = shard
    · rw [if_pos hother, if_pos hother]
    · rw [if_neg hother, if_neg hother]

/-- Which pages are resident does not depend on what was counted. -/
theorem page?_countHit (c : Cache) (key other : PageKey) :
    (c.countHit key).page? other = c.page? other := by
  show ((c.countHit key).bucket (c.shardOf other)).page? other = _
  rw [bucket_countHit]
  split <;> rfl

/-- A hit may be counted before a page is looked for or after it. -/
theorem use_countHit (c : Cache) (key other : PageKey) :
    (c.countHit key).use other = (c.use other).countHit key :=
  congrArg Prod.snd (onBucket_countHit (Bucket.oblivious_read other 0 0) c key other)

/-- A hit may be counted before a slot is acquired or after it. -/
theorem acquire_countHit (c : Cache) (key other : PageKey) :
    (c.countHit key).acquire other = ((c.acquire other).1, (c.acquire other).2.countHit key) :=
  onBucket_countHit Bucket.oblivious_acquire c key other

/-- A hit may be counted before a page is published or after it. -/
theorem install_countHit (c : Cache) (key other : PageKey) (slot : Slot) (data : Bytes) :
    ((c.countHit key).install other slot data).2 = (c.install other slot data).2.countHit key :=
  congrArg Prod.snd (onBucket_countHit (Bucket.oblivious_install other slot data) c key other)

/-- A hit may be counted before a slot is given back or after it. -/
theorem release_countHit (c : Cache) (key other : PageKey) (slot : Slot) :
    (c.countHit key).release other slot = (c.release other slot).countHit key :=
  congrArg Prod.snd (onBucket_countHit (Bucket.oblivious_release slot) c key other)

/-- An operation on the bucket of a page does to that bucket what it does. -/
theorem bucket_onBucket_self {α : Type} (c : Cache) (key : PageKey)
    (act : CacheBucket → α × CacheBucket) :
    (c.onBucket key act).2.bucket (c.shardOf key) = (act (c.bucket (c.shardOf key))).2 := by
  rw [bucket_onBucket, if_pos rfl]

/-- Looking for the page that was used last in its bucket only counts a hit. -/
theorem use_of_foremost (h : (c.bucket (c.shardOf key)).Foremost key) :
    c.use key = c.countHit key := by
  refine ext_bucket ?_ ?_ fun shard => ?_
  · simp only [use, read, countHit, geometry_onBucket]
  · simp only [use, read, countHit, seed_onBucket]
  · rw [bucket_countHit, use, read, bucket_onBucket]
    by_cases hshard : c.shardOf key = shard
    · rw [if_pos hshard, if_pos hshard, ← hshard, h.read_eq]
    · rw [if_neg hshard, if_neg hshard]

end Cache

/-! ## Loads and tours -/

/-- One more hit of a page counted. -/
def Recorded.countHit (key : PageKey) (s : Recorded) : Recorded :=
  { s with cache := s.cache.countHit key }

namespace Backing

variable {b : Backing} {key other : PageKey} {s t : Recorded}

/-- A hit may be counted before a load or after it. -/
theorem load_countHit (b : Backing) (key other : PageKey) (s : Recorded) :
    b.load other (s.countHit key) = ((b.load other s).1, (b.load other s).2.countHit key) := by
  have hpage : (s.countHit key).cache.page? other = s.cache.page? other :=
    s.cache.page?_countHit key other
  have hgeometry : (s.countHit key).cache.geometry = s.cache.geometry :=
    s.cache.geometry_countHit key
  have hused : (s.countHit key).cache.use other = (s.cache.use other).countHit key :=
    s.cache.use_countHit key other
  have hacquired : ((s.countHit key).cache.use other).acquire other
      = (((s.cache.use other).acquire other).1,
        ((s.cache.use other).acquire other).2.countHit key) := by
    rw [hused]
    exact Cache.acquire_countHit _ key other
  rcases hresident : s.cache.page? other with _ | page <;> rw [hresident] at hpage
  · rcases hslot : ((s.cache.use other).acquire other).1.slot? with _ | slot
    · rw [load_of_refused hresident hslot, load_of_refused hpage (by rw [hacquired]; exact hslot),
        hacquired]
      rfl
    · have hslot' : (((s.countHit key).cache.use other).acquire other).1.slot? = some slot := by
        rw [hacquired]
        exact hslot
      rcases hfetch : b.fetch s.cache.geometry.pageSize other.page.toNat with cause | page
      · have hfetch' := hfetch
        rw [← hgeometry] at hfetch'
        rw [load_of_failed hresident hslot hfetch, load_of_failed hpage hslot' hfetch', hacquired,
          Cache.release_countHit, hgeometry]
        dsimp only [Recorded.countHit]
      · have hfetch' := hfetch
        rw [← hgeometry] at hfetch'
        rw [load_of_fetched hresident hslot hfetch, load_of_fetched hpage hslot' hfetch', hacquired,
          Cache.install_countHit, hgeometry]
        dsimp only [Recorded.countHit]
  · rw [load_of_resident hresident, load_of_resident hpage, hused]
    rfl

/-- A hit may be counted before a tour or after it. -/
theorem tourPages_countHit (b : Backing) (object : UInt32) (stop : Nat) (key : PageKey)
    (offset : Nat) (pages : List Nat) (s : Recorded) :
    b.tourPages object stop offset pages (s.countHit key)
      = ((b.tourPages object stop offset pages s).1,
        (b.tourPages object stop offset pages s).2.countHit key) := by
  induction pages generalizing offset s with
  | nil => rfl
  | cons page pages ih =>
    rw [tourPages, tourPages]
    split
    · rfl
    · rw [load_countHit]
      rcases b.load ⟨object, page.toUInt32⟩ s with ⟨cause | bytes, t⟩
      · rfl
      · have hgeometry : (t.countHit key).cache.geometry = t.cache.geometry :=
          t.cache.geometry_countHit key
        dsimp only
        rw [hgeometry, ih]

/-- A hit may be counted before a tour of a range or after it. -/
theorem tour_countHit (b : Backing) (object : UInt32) (offset stop : Nat) (key : PageKey)
    (s : Recorded) : b.tour object offset stop (s.countHit key)
      = ((b.tour object offset stop s).1, (b.tour object offset stop s).2.countHit key) :=
  b.tourPages_countHit object stop key offset _ s

/-- A page that was loaded is the last one used of its bucket. -/
theorem foremost_of_load (hsettled : s.cache.Settled) {page : Bytes}
    (hload : b.load key s = (.ok page, t)) :
    t.cache.page? key = some page ∧ (t.cache.bucket (t.cache.shardOf key)).Foremost key := by
  obtain ⟨held, hkeeps⟩ := hsettled
  let home := s.cache.shardOf key
  have howned := (hkeeps.bucket home).owned
  have hused : (s.cache.use key).bucket home = ((s.cache.bucket home).read key 0 0).2 :=
    Cache.bucket_onBucket_self ..
  rcases hresident : s.cache.page? key with _ | found
  · rcases hslot : ((s.cache.use key).acquire key).1.slot? with _ | slot
    · rw [load_of_refused hresident hslot] at hload
      exact absurd (congrArg Prod.fst hload) (by simp)
    · rcases hfetch : b.fetch s.cache.geometry.pageSize key.page.toNat with cause | fetched
      · rw [load_of_failed hresident hslot hfetch] at hload
        exact absurd (congrArg Prod.fst hload) (by simp)
      · rw [load_of_fetched hresident hslot hfetch] at hload
        obtain ⟨hfound, rfl⟩ := Prod.mk.inj hload
        obtain rfl := Except.ok.inj hfound
        -- the bucket of the page, with the slot that it hands out for it
        let waiting := ((s.cache.bucket home).read key 0 0).2.acquire
        have hacquired : ((s.cache.use key).acquire key).2.bucket home = waiting.2 :=
          (Cache.bucket_onBucket_self ..).trans (congrArg (·.acquire.2) hused)
        have hgrant : waiting.1.slot? = some slot := by
          rw [← hslot]
          exact congrArg (·.acquire.1.slot?) hused.symm
        have hinstalled :
            (((s.cache.use key).acquire key).2.install key slot fetched).2.bucket home
              = (waiting.2.install key slot fetched).2 :=
          (Cache.bucket_onBucket_self ..).trans
            (congrArg (·.install key slot fetched |>.2) hacquired)
        have hhome : (((s.cache.use key).acquire key).2.install key slot fetched).2.shardOf key
            = home := by
          rw [Cache.install, Cache.shardOf_onBucket, Cache.acquire, Cache.shardOf_onBucket,
            Cache.use, Cache.read, Cache.shardOf_onBucket]
        have hsize : ((s.cache.bucket home).read key 0 0).2.pageSize
            = s.cache.geometry.pageSize := by
          rw [(Bucket.sameShape_read ..).pageSize_eq]
          exact hkeeps.pageSize_eq home
        dsimp only
        rw [Cache.page?, hhome, hinstalled]
        exact Bucket.foremost_of_grant (howned.read key 0 0) hgrant key
          (hsize ▸ (fetch_eq_ok hfetch).1)
  · rw [load_of_resident hresident] at hload
    obtain ⟨hfound, rfl⟩ := Prod.mk.inj hload
    obtain rfl := Except.ok.inj hfound
    show ((s.cache.use key).bucket home).page? key = _ ∧
      ((s.cache.use key).bucket home).Foremost key
    rw [hused]
    exact ⟨(Bucket.page?_read howned.valid key 0 0).trans hresident,
      Bucket.foremost_read howned.valid hresident 0 0⟩

/-- Loading a page again gives it again, and all that happens is that a hit is counted. -/
theorem load_again (hsettled : s.cache.Settled) {page : Bytes}
    (hload : b.load key s = (.ok page, t)) : b.load key t = (.ok page, t.countHit key) := by
  obtain ⟨hpage, hforemost⟩ := foremost_of_load hsettled hload
  rw [load_of_resident hpage, Cache.use_of_foremost hforemost]
  rfl

end Backing

end ReadThrough
