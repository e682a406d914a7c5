import ReadThrough.Proofs.Bookkeeping
import ReadThrough.Proofs.CallUsage
import ReadThrough.Proofs.RepeatedTouches

/-!
# Reads in parts

A range may be read at once or in parts, one after the other. The parts load the pages that the
whole loads, in the same order, and touch a page again where a part ends within it
(`Backing.tour_split`). So they deliver the same bytes after the same reads of the source, and leave
a cache that differs in its counters only, by one hit for each page that is touched again
(`split_reads_leave_same_content`), whatever was read before (`CacheUsage.Reaches.runAll`). Where a
part ends in a page without a number nothing is touched at all, as neither read can get there.
-/

namespace ReadThrough

/-- Windows side by side are one window. -/
theorem Bytes.window_append (bytes : Bytes) (offset m n : Nat) :
    window bytes offset m ++ window bytes (offset + m) n = window bytes offset (m + n) := by
  refine List.ext_getElem? fun i => ?_
  rw [List.getElem?_append, length_window, getElem?_window, getElem?_window, getElem?_window]
  by_cases hfront : i < m
  · rw [if_pos hfront, if_pos hfront, if_pos (by omega)]
  · have hplace : offset + m + (i - m) = offset + i := by omega
    rw [if_neg hfront, hplace]
    by_cases hback : i - m < n
    · rw [if_pos hback, if_pos (by omega)]
    · rw [if_neg hback, if_neg (by omega)]

/-! ## Reads of which no fetch failed -/

/-- A page without a number is what stopped the read, so that no page was asked for in vain. -/
def StopCause.unnamed : StopCause → Bool
  | offsetOutOfRange .. => true
  | noFreePages | noProgress .. | io _ => false

/-- No page that was asked for failed. -/
def Outcome.fetched : Outcome → Bool
  | done _ => true
  | stopped error => error.cause.unnamed
  | abandoned => false

/-- The bytes that a read delivered. -/
def ReadResult.delivered (r : ReadResult) : Bytes :=
  match r.outcome with
  | .done count => r.buffer.take count
  | .stopped error => r.buffer.take error.copied
  | .abandoned => []

/-- A delivery tells whether a page that was asked for has stopped it. -/
theorem Outcome.fetched_ofDelivery (count : Nat) (cause : Option StopCause) :
    (ofDelivery count cause).fetched = cause.all StopCause.unnamed := by
  cases cause <;> rfl

/-- What a delivery counts is in the front of its buffer. -/
theorem ReadResult.delivered_ofDelivery {r : ReadResult} {count : Nat} {cause : Option StopCause}
    (h : r.outcome = .ofDelivery count cause) : r.delivered = r.buffer.take count := by
  cases cause <;> rw [delivered, h] <;> rfl

/-! ## Tours on a cache that nobody else uses -/

namespace Backing

variable {b : Backing} {object : UInt32} {s : Recorded} {offset stop : Nat}

/-- While nobody holds a slot only a page that cannot be fetched is not loaded. -/
theorem fetch_eq_error_of_load (hidle : s.cache.Keeps (fun _ _ => True) fun _ => [])
    (hpages : 1 ≤ s.cache.geometry.pagesPerBucket) {key : PageKey} {cause : StopCause}
    (hload : (b.load key s).1 = .error cause) :
    b.fetch s.cache.geometry.pageSize key.page.toNat = .error cause := by
  have hused : (s.cache.use key).Keeps (fun _ _ => True) fun _ => [] := hidle.read key 0 0
  rcases hresident : s.cache.page? key with _ | page
  · rcases hslot : ((s.cache.use key).acquire key).1.slot? with _ | slot
    · exact absurd hslot (hused.slot?_acquire_ne_none key hpages)
    · rcases hfetch : b.fetch s.cache.geometry.pageSize key.page.toNat with failure | page
      · rw [load_of_failed hresident hslot hfetch] at hload
        exact hload
      · rw [load_of_fetched hresident hslot hfetch] at hload
        exact absurd hload (by simp)
  · rw [load_of_resident hresident] at hload
    exact absurd hload (by simp)

/-- While nobody holds a slot a tour ends early only at a page that cannot be fetched or has no
number. -/
theorem unnamed_tourPages (hidle : s.cache.Keeps (fun _ _ => True) fun _ => [])
    (hpages : 1 ≤ s.cache.geometry.pagesPerBucket)
    (hfetch : ∀ page cause, b.fetch s.cache.geometry.pageSize page ≠ .error cause)
    (pages : List Nat) :
    (b.tourPages object stop offset pages s).1.2.all StopCause.unnamed = true := by
  induction pages generalizing offset s with
  | nil => rfl
  | cons page pages ih =>
    have hkept := b.keeps_load ⟨object, page.toUInt32⟩ hidle
    have herror (cause : StopCause) (h : (b.load ⟨object, page.toUInt32⟩ s).1 = .error cause) :=
      fetch_eq_error_of_load hidle hpages h
    have hgeometry := b.geometry_load ⟨object, page.toUInt32⟩ s
    rw [tourPages]
    split
    · rfl
    · rcases hload : b.load ⟨object, page.toUInt32⟩ s with ⟨cause | bytes, t⟩ <;>
        rw [hload] at hkept hgeometry herror
      · exact absurd (herror cause rfl) (hfetch _ cause)
      · rw [← hgeometry] at hpages hfetch
        exact ih hkept hpages hfetch

end Backing

/-! ## Tours in two parts -/

namespace Backing

variable {b : Backing} {object : UInt32} {s t : Recorded} {offset mid stop : Nat}

/-- What a failed load gives as the cause is not that the page has no number. -/
theorem unnamed_eq_false_of_load {key : PageKey} {cause : StopCause}
    (h : b.load key s = (.error cause, t)) : cause.unnamed = false := by
  rcases hresident : s.cache.page? key with _ | page
  · rcases hslot : ((s.cache.use key).acquire key).1.slot? with _ | slot
    · rw [load_of_refused hresident hslot] at h
      obtain rfl := Except.error.inj (congrArg Prod.fst h)
      rfl
    · rcases hfetch : b.fetch s.cache.geometry.pageSize key.page.toNat with failure | page
      · rw [load_of_failed hresident hslot hfetch] at h
        obtain rfl := Except.error.inj (congrArg Prod.fst h)
        unfold fetch at hfetch
        split at hfetch
        · obtain rfl := Except.error.inj hfetch
          rfl
        · split at hfetch
          · obtain rfl := Except.error.inj hfetch
            rfl
          · exact absurd hfetch (by simp)
      · rw [load_of_fetched hresident hslot hfetch] at h
        exact absurd (congrArg Prod.fst h) (by simp)
  · rw [load_of_resident hresident] at h
    exact absurd (congrArg Prod.fst h) (by simp)

/-- One more hit counted of the page at a position, if the position is within a page that has a
number. -/
def retouch (object : UInt32) (position : Nat) (s : Recorded) : Recorded :=
  let pageSize := s.cache.geometry.pageSize
  if position % pageSize ≠ 0 ∧ position / pageSize < Call.pageLimit then
    s.countHit ⟨object, (position / pageSize).toUInt32⟩
  else s

/-- Within a page that has a number there is one more hit. -/
theorem retouch_of_within (hwithin : mid % s.cache.geometry.pageSize ≠ 0)
    (hnumber : mid / s.cache.geometry.pageSize < Call.pageLimit) :
    retouch object mid s
      = s.countHit ⟨object, (mid / s.cache.geometry.pageSize).toUInt32⟩ :=
  if_pos ⟨hwithin, hnumber⟩

/-- Between two pages there is none. -/
theorem retouch_of_mod_eq_zero (h : mid % s.cache.geometry.pageSize = 0) :
    retouch object mid s = s :=
  if_neg fun hwithin => hwithin.1 h

/-- In a page without a number there is none. -/
theorem retouch_of_unnamed (h : Call.pageLimit ≤ mid / s.cache.geometry.pageSize) :
    retouch object mid s = s :=
  if_neg fun hwithin => absurd hwithin.2 (Nat.not_lt.2 h)

theorem geometry_tourPages (b : Backing) (object : UInt32) (stop offset : Nat) (pages : List Nat)
    (s : Recorded) :
    (b.tourPages object stop offset pages s).2.cache.geometry = s.cache.geometry := by
  induction pages generalizing offset s with
  | nil => rfl
  | cons page pages ih =>
    have hload := b.geometry_load ⟨object, page.toUInt32⟩ s
    rw [tourPages]
    split
    · rfl
    · rcases hpair : b.load ⟨object, page.toUInt32⟩ s with ⟨cause | bytes, t⟩ <;>
        rw [hpair] at hload
      · exact hload
      · exact (ih _ t).trans hload

theorem settled_tourPages (hsettled : s.cache.Settled) (pages : List Nat) :
    (b.tourPages object stop offset pages s).2.cache.Settled := by
  induction pages generalizing offset s with
  | nil => exact hsettled
  | cons page pages ih =>
    have hload := b.settled_load ⟨object, page.toUInt32⟩ hsettled
    rw [tourPages]
    split
    · exact hsettled
    · rcases hpair : b.load ⟨object, page.toUInt32⟩ s with ⟨cause | bytes, t⟩ <;>
        rw [hpair] at hload
      · exact hload
      · exact ih hload

/-- A tour keeps the geometry. -/
theorem geometry_tour (b : Backing) (object : UInt32) (offset stop : Nat) (s : Recorded) :
    (b.tour object offset stop s).2.cache.geometry = s.cache.geometry :=
  geometry_tourPages ..

/-- A tour keeps a cache settled. -/
theorem settled_tour (hsettled : s.cache.Settled) :
    (b.tour object offset stop s).2.cache.Settled :=
  settled_tourPages hsettled _

/-- The second tour goes on where the first one ended, and both together are the whole, but for a
page that may be touched again. -/
structure Joins (object : UInt32) (mid : Nat) (whole first second :
    (Bytes × Option StopCause) × Recorded) : Prop where
  done : whole.1.2 = none → first.1.2 = none ∧ second.1.2 = none
  fetched : second.1.2.all StopCause.unnamed = true
  bytes_eq : whole.1.1 = first.1.1 ++ second.1.1
  state_eq : second.2 = retouch object mid whole.2

/-- Bytes delivered before do not matter. -/
theorem Joins.cons {whole first second : (Bytes × Option StopCause) × Recorded}
    (h : Joins object mid whole first second) (piece : Bytes) :
    Joins object mid ((piece ++ whole.1.1, whole.1.2), whole.2)
      ((piece ++ first.1.1, first.1.2), first.2) second :=
  ⟨h.done, h.fetched, by rw [h.bytes_eq, List.append_assoc], h.state_eq⟩

section Pieces

variable {pageSize : Nat}

/-- The next page begins at a multiple of the page size. -/
theorem page_end_mod (hpageSize : 0 < pageSize) (offset : Nat) :
    (offset + (pageSize - offset % pageSize)) % pageSize = 0 := by
  have hmod := Nat.mod_lt offset hpageSize
  have hsplit := Nat.mod_add_div offset pageSize
  have hproduct : offset + (pageSize - offset % pageSize)
      = pageSize * (offset / pageSize + 1) := by
    rw [Nat.mul_add]
    omega
  rw [hproduct, Nat.mul_mod_right]

variable (hmid : offset < mid) (hwithin : mid < offset + (pageSize - offset % pageSize))

include hmid hwithin

/-- A position past another one in its page is as much further into the page. -/
theorem div_mod_of_within_page :
    mid / pageSize = offset / pageSize ∧ mid % pageSize = offset % pageSize + (mid - offset) := by
  have hpageSize : 0 < pageSize := Nat.pos_of_ne_zero fun hzero => by
    subst hzero
    omega
  have hmod := Nat.mod_lt offset hpageSize
  have hsplit := Nat.mod_add_div offset pageSize
  exact (Nat.div_mod_unique hpageSize).2 ⟨by omega, by omega⟩

/-- A range that is cut within its first page has all of the front piece in that page, and the first
piece of the back there as well. -/
theorem pieceLength_of_within_page (hstop : mid < stop) :
    pieceLength pageSize offset mid = mid - offset ∧
      pieceLength pageSize offset stop = mid - offset + pieceLength pageSize mid stop := by
  obtain ⟨-, hintra⟩ := div_mod_of_within_page hmid hwithin
  rw [pieceLength, pieceLength, pieceLength]
  omega

end Pieces

section FirstPage

variable (hmid : offset < mid) (hstop : mid < stop)
  (hnumber : offset / s.cache.geometry.pageSize < Call.pageLimit) {page : Bytes}
  (hload : b.load ⟨object, (offset / s.cache.geometry.pageSize).toUInt32⟩ s = (.ok page, t))

include hmid hstop hnumber hload

/-- A tour that is cut within its first page touches that page twice. -/
theorem joins_of_within_page (hsettled : s.cache.Settled)
    (hwithin : mid < offset + (s.cache.geometry.pageSize - offset % s.cache.geometry.pageSize))
    (hfetched : (b.tour object offset stop s).1.2.all StopCause.unnamed = true) :
    Joins object mid (b.tour object offset stop s) (b.tour object offset mid s)
      (b.tour object mid stop (b.tour object offset mid s).2) := by
  have hgeometry : t.cache.geometry = s.cache.geometry := by
    rw [← b.geometry_load ⟨object, (offset / s.cache.geometry.pageSize).toUInt32⟩ s, hload]
  obtain ⟨hsame, hintra⟩ := div_mod_of_within_page hmid hwithin
  -- the whole takes one piece from the page, and the parts take one each
  obtain ⟨hpiece, hpieces⟩ := pieceLength_of_within_page hmid hwithin hstop
  have hwindow : Bytes.window page (offset % s.cache.geometry.pageSize)
        (pieceLength s.cache.geometry.pageSize offset stop)
      = Bytes.window page (offset % s.cache.geometry.pageSize) (mid - offset)
        ++ Bytes.window page (mid % s.cache.geometry.pageSize)
          (pieceLength s.cache.geometry.pageSize mid stop) := by
    rw [hpieces, hintra, Bytes.window_append]
  let rest := b.tour object (offset + pieceLength s.cache.geometry.pageSize offset stop) stop t
  have hwhole : b.tour object offset stop s = _ := tour_of_ok (by omega) hnumber hload
  have hfirst : b.tour object offset mid s
      = ((Bytes.window page (offset % s.cache.geometry.pageSize) (mid - offset), none), t) := by
    have htour : b.tour object offset mid s = _ := tour_of_ok hmid hnumber hload
    rw [htour, hpiece, tour_of_le (by omega), List.append_nil]
  have hsecond : b.tour object mid stop t = ((Bytes.window page (mid % s.cache.geometry.pageSize)
      (pieceLength s.cache.geometry.pageSize mid stop) ++ rest.1.1, rest.1.2),
      rest.2.countHit ⟨object, (mid / s.cache.geometry.pageSize).toUInt32⟩) := by
    have hnumber' : mid / t.cache.geometry.pageSize < Call.pageLimit := by
      rw [hgeometry, hsame]
      exact hnumber
    have hload' : b.load ⟨object, (mid / t.cache.geometry.pageSize).toUInt32⟩ t
        = (.ok page, t.countHit ⟨object, (mid / t.cache.geometry.pageSize).toUInt32⟩) := by
      rw [hgeometry, hsame]
      exact load_again hsettled hload
    have hnext : mid + pieceLength s.cache.geometry.pageSize mid stop
        = offset + pieceLength s.cache.geometry.pageSize offset stop := by omega
    have htour : b.tour object mid stop t = _ := tour_of_ok hstop hnumber' hload'
    rw [htour, tour_countHit, hgeometry, hnext]
  have hretouch : retouch object mid (b.tour object offset stop s).2
      = (b.tour object offset stop s).2.countHit
        ⟨object, (mid / s.cache.geometry.pageSize).toUInt32⟩ := by
    rw [retouch_of_within, geometry_tour] <;> rw [geometry_tour]
    · omega
    · rw [hsame]
      exact hnumber
  rw [hwhole] at hfetched
  constructor
  · rw [hfirst, hsecond, hwhole]
    exact fun h => ⟨rfl, h⟩
  · rw [hfirst, hsecond]
    exact hfetched
  · rw [hfirst, hsecond, hwhole]
    dsimp only
    rw [hwindow, List.append_assoc]
  · rw [hretouch, hfirst, hsecond, hwhole]

end FirstPage

/-- A tour that is cut within its range and of which no fetch fails goes on where it was cut as if
it had not been, but for one page that it may touch again. -/
theorem tour_split (hsettled : s.cache.Settled) (hmid : offset < mid) (hstop : mid < stop)
    (hfetched : (b.tour object offset stop s).1.2.all StopCause.unnamed = true) :
    Joins object mid (b.tour object offset stop s) (b.tour object offset mid s)
      (b.tour object mid stop (b.tour object offset mid s).2) := by
  generalize hleft : mid - offset = left
  induction left using Nat.strongRecOn generalizing offset s with
  | ind left ih =>
    have hmod := Nat.mod_lt offset s.cache.geometry.pageSize_pos
    by_cases hnumber : Call.pageLimit ≤ offset / s.cache.geometry.pageSize
    · -- neither read gets to any page
      have hnumber' : Call.pageLimit ≤ mid / s.cache.geometry.pageSize :=
        Nat.le_trans hnumber (Nat.div_le_div_right hmid.le)
      rw [tour_of_unnamed (Nat.lt_trans hmid hstop) hnumber, tour_of_unnamed hmid hnumber,
        tour_of_unnamed hstop hnumber']
      exact ⟨fun h => absurd h (by simp), rfl, rfl, (retouch_of_unnamed hnumber').symm⟩
    · have hnumber := Nat.lt_of_not_le hnumber
      rcases hload : b.load ⟨object, (offset / s.cache.geometry.pageSize).toUInt32⟩ s
        with ⟨cause | page, t⟩
      · rw [tour_of_error (Nat.lt_trans hmid hstop) hnumber hload] at hfetched
        exact absurd hfetched (by simp [unnamed_eq_false_of_load hload])
      · by_cases hwithin : mid < offset
            + (s.cache.geometry.pageSize - offset % s.cache.geometry.pageSize)
        · exact joins_of_within_page hmid hstop hnumber hload hsettled hwithin hfetched
        · -- both reads take the rest of the page and go on behind it
          have hlength {stop : Nat} (h : mid ≤ stop) :
              pieceLength s.cache.geometry.pageSize offset stop
                = s.cache.geometry.pageSize - offset % s.cache.geometry.pageSize := by
            rw [pieceLength]
            omega
          obtain ⟨next, hnext⟩ : ∃ next, offset
              + (s.cache.geometry.pageSize - offset % s.cache.geometry.pageSize) = next := ⟨_, rfl⟩
          have hwhole : b.tour object offset stop s = _ :=
            tour_of_ok (Nat.lt_trans hmid hstop) hnumber hload
          have hfirst : b.tour object offset mid s = _ := tour_of_ok hmid hnumber hload
          rw [hlength hstop.le, hnext] at hwhole
          rw [hlength (Nat.le_refl mid), hnext] at hfirst
          rw [hwhole] at hfetched ⊢
          rw [hfirst]
          apply Joins.cons
          rcases Nat.eq_or_lt_of_le (by omega : next ≤ mid) with rfl | hmid'
          · have hmultiple : next % (b.tour object next stop t).2.cache.geometry.pageSize = 0 := by
              have hgeometry := b.geometry_load
                ⟨object, (offset / s.cache.geometry.pageSize).toUInt32⟩ s
              rw [hload] at hgeometry
              rw [geometry_tour, hgeometry, ← hnext]
              exact page_end_mod s.cache.geometry.pageSize_pos offset
            rw [tour_of_le (Nat.le_refl next)]
            exact ⟨fun h => ⟨rfl, h⟩, hfetched, rfl, (retouch_of_mod_eq_zero hmultiple).symm⟩
          · have hkept := b.settled_load
              ⟨object, (offset / s.cache.geometry.pageSize).toUInt32⟩ hsettled
            rw [hload] at hkept
            exact ih (mid - next) (by omega) hkept hmid' hfetched rfl

/-- Every piece of a tour has a byte at least. -/
theorem pieceLength_pos {pageSize : Nat} (hpageSize : 0 < pageSize) (h : offset < stop) :
    0 < pieceLength pageSize offset stop := by
  have hmod := Nat.mod_lt offset hpageSize
  rw [pieceLength]
  omega

/-- A tour that nothing stops has the bytes of its whole range. -/
theorem length_tour (hnone : (b.tour object offset stop s).1.2 = none) :
    (b.tour object offset stop s).1.1.length = stop - offset := by
  generalize hleft : stop - offset = left
  induction left using Nat.strongRecOn generalizing offset s with
  | ind left ih =>
    rcases Nat.lt_or_ge offset stop with hoffset | hoffset
    · by_cases hnumber : Call.pageLimit ≤ offset / s.cache.geometry.pageSize
      · rw [tour_of_unnamed hoffset hnumber] at hnone
        exact absurd hnone (by simp)
      · have hnumber := Nat.lt_of_not_le hnumber
        have hpiece := pieceLength_pos s.cache.geometry.pageSize_pos hoffset
        have hle : pieceLength s.cache.geometry.pageSize offset stop ≤ stop - offset :=
          Nat.min_le_left ..
        rcases hload : b.load ⟨object, (offset / s.cache.geometry.pageSize).toUInt32⟩ s
          with ⟨cause | page, t⟩
        · rw [tour_of_error hoffset hnumber hload] at hnone
          exact absurd hnone (by simp)
        · have htour : b.tour object offset stop s = _ := tour_of_ok hoffset hnumber hload
          rw [htour] at hnone ⊢
          have hrest := ih (stop - (offset + pieceLength s.cache.geometry.pageSize offset stop))
            (by omega) hnone rfl
          rw [List.length_append, Bytes.length_window, hrest]
          omega
    · rw [tour_of_le hoffset]
      exact hleft ▸ (Nat.sub_eq_zero_of_le hoffset).symm

end Backing

/-! ## Caches that differ in their counters -/

namespace Cache

/-- The other cache differs in nothing but its counters. -/
structure SameContent (c c' : Cache) : Prop where
  geometry_eq : c'.geometry = c.geometry
  seed_eq : c'.seed = c.seed
  bucket_eq : ∀ shard,
    c'.bucket shard = { c.bucket shard with counters := (c'.bucket shard).counters }

/-- A cache has its own content. -/
theorem SameContent.refl (c : Cache) : c.SameContent c := ⟨rfl, rfl, fun _ => rfl⟩

/-- Caches with the content of a third one have that of each other. -/
theorem SameContent.trans {c c' c'' : Cache} (h : c.SameContent c') (h' : c'.SameContent c'') :
    c.SameContent c'' :=
  ⟨h'.geometry_eq.trans h.geometry_eq, h'.seed_eq.trans h.seed_eq, fun shard => by
    rw [h'.bucket_eq shard, h.bucket_eq shard]⟩

/-- Counting a hit changes no content. -/
theorem sameContent_countHit (c : Cache) (key : PageKey) : c.SameContent (c.countHit key) := by
  refine ⟨c.geometry_countHit key, seed_onBucket .., fun shard => ?_⟩
  rw [bucket_countHit]
  by_cases hshard : c.shardOf key = shard
  · rw [if_pos hshard]
    rfl
  · rw [if_neg hshard]

/-- A hit that is counted in one bucket is counted once in the whole cache. -/
theorem counters_countHit (c : Cache) (key : PageKey) :
    (c.countHit key).counters = c.counters.record (.lookup true) := by
  rw [Counters.record_eq_add]
  refine counters_eq_add_gain (c.shardOf key) fun shard => ?_
  rw [bucket_countHit]
  split
  · exact (c.bucket shard).counters.record_eq_add (.lookup true)
  · rfl

end Cache

/-- A cache that was made with all slots free and then used is in good order. -/
theorem CacheUsage.Reaches.settled {g : Geometry} {seed : UInt64} {u : CacheUsage}
    (h : Reaches (.ofGeometry g seed) u) : u.cache.Settled := by
  refine ⟨u.held, fun shard => ⟨(h.sound shard).1.owned, fun _ _ _ => trivial⟩, fun shard => ?_⟩
  have hshape := (h.ofShard shard).sameShape
  rw [Cache.bucket_ofGeometry] at hshape
  rw [h.geometry_eq]
  exact hshape

/-! ## Reads in parts -/

namespace Backing

variable {b : Backing} {object : UInt32} {s : Recorded} {offset : Nat}

/-- What reads deliver and what they make of the cache and ask of the source. -/
structure Alike (whole parts : Bytes × Recorded) : Prop where
  bytes_eq : parts.1 = whole.1
  asks_eq : parts.2.asks = whole.2.asks
  content : whole.2.cache.SameContent parts.2.cache

/-- Touching a page again changes no content. -/
theorem alike_retouch (object : UInt32) (position : Nat) (bytes : Bytes) (s : Recorded) :
    Alike (bytes, s) (bytes, retouch object position s) := by
  by_cases hwithin : position % s.cache.geometry.pageSize ≠ 0 ∧
      position / s.cache.geometry.pageSize < Call.pageLimit
  · rw [retouch, if_pos hwithin]
    exact ⟨rfl, rfl, Cache.sameContent_countHit ..⟩
  · rw [retouch, if_neg hwithin]
    exact ⟨rfl, rfl, .refl _⟩

/-- One read of an object, with notes of the reads of its source. -/
def recordedRead (b : Backing) (object : UInt32) (offset : Nat) (buffer : Bytes) (s : Recorded) :
    ReadResult × Recorded :=
  (b.recordedReader object).readAt offset buffer s

/-- Reads into one buffer after the other, each where the one before it should end, and gives what
they delivered. -/
def readParts (b : Backing) (object : UInt32) : (offset : Nat) → List Bytes → Recorded →
    Bytes × Recorded
  | _, [], s => ([], s)
  | offset, buffer :: buffers, s =>
    let read := b.recordedRead object offset buffer s
    let rest := b.readParts object (offset + buffer.length) buffers read.2
    (read.1.delivered ++ rest.1, rest.2)

section Inside

variable {buffer : Bytes} (hsettled : s.cache.Settled)
  (hinside : offset + buffer.length ≤ b.size)

include hsettled hinside

/-! A read within the object is the tour of as many bytes as its buffer has. -/

theorem outcome_recordedRead : (b.recordedRead object offset buffer s).1.outcome
    = .ofDelivery (b.tour object offset (offset + buffer.length) s).1.1.length
      (b.tour object offset (offset + buffer.length) s).1.2 := by
  obtain ⟨houtcome, -, -⟩ := b.readAt_eq_tour object (Int.natCast_nonneg offset) buffer hsettled
  rw [Int.toNat_natCast, Nat.min_eq_left hinside] at houtcome
  exact houtcome

theorem delivered_recordedRead : (b.recordedRead object offset buffer s).1.delivered
    = (b.tour object offset (offset + buffer.length) s).1.1 := by
  obtain ⟨-, hbytes, -⟩ := b.readAt_eq_tour object (Int.natCast_nonneg offset) buffer hsettled
  rw [Int.toNat_natCast, Nat.min_eq_left hinside] at hbytes
  rw [ReadResult.delivered_ofDelivery (outcome_recordedRead hsettled hinside)]
  exact hbytes

theorem recordedRead_snd : (b.recordedRead object offset buffer s).2
    = (b.tour object offset (offset + buffer.length) s).2 := by
  obtain ⟨-, -, hstate⟩ := b.readAt_eq_tour object (Int.natCast_nonneg offset) buffer hsettled
  rw [Int.toNat_natCast, Nat.min_eq_left hinside] at hstate
  exact hstate

theorem fetched_recordedRead : (b.recordedRead object offset buffer s).1.outcome.fetched
    = (b.tour object offset (offset + buffer.length) s).1.2.all StopCause.unnamed := by
  rw [outcome_recordedRead hsettled hinside, Outcome.fetched_ofDelivery]

theorem settled_recordedRead : (b.recordedRead object offset buffer s).2.cache.Settled := by
  rw [recordedRead_snd hsettled hinside]
  exact settled_tour hsettled

/-- A read is done just when nothing stops its tour. -/
theorem done_recordedRead_iff : (b.recordedRead object offset buffer s).1.outcome
      = .done buffer.length
    ↔ (b.tour object offset (offset + buffer.length) s).1.2 = none := by
  rw [outcome_recordedRead hsettled hinside]
  constructor
  · intro hdone
    generalize (b.tour object offset (offset + buffer.length) s).1.2 = cause at hdone
    cases cause with
    | none => rfl
    | some cause => exact absurd hdone (by simp [Outcome.ofDelivery])
  · intro hnone
    rw [length_tour hnone, hnone, Nat.add_sub_cancel_left]
    rfl

end Inside

section Append

variable (hsettled : s.cache.Settled) {front back : Bytes} (hfront : front ≠ []) (hback : back ≠ [])
  (hinside : offset + (front ++ back).length ≤ b.size)
  (hfetched : (b.recordedRead object offset (front ++ back) s).1.outcome.fetched = true)

include hsettled hfront hback hinside hfetched

theorem joins_of_fetched :
    Joins object (offset + front.length)
      (b.tour object offset (offset + (front ++ back).length) s)
      (b.tour object offset (offset + front.length) s)
      (b.tour object (offset + front.length) (offset + front.length + back.length)
        (b.tour object offset (offset + front.length) s).2) := by
  have hfrontLength := List.length_pos_of_ne_nil hfront
  have hbackLength := List.length_pos_of_ne_nil hback
  rw [fetched_recordedRead hsettled hinside] at hfetched
  rw [List.length_append, ← Nat.add_assoc] at hfetched ⊢
  exact tour_split hsettled (by omega) (by omega) hfetched

/-- Two reads of the parts of a range are like one read of the range, but for the page where the
first one ends. -/
theorem recordedRead_append :
    let whole := b.recordedRead object offset (front ++ back) s
    let first := b.recordedRead object offset front s
    let second := b.recordedRead object (offset + front.length) back first.2
    first.1.delivered ++ second.1.delivered = whole.1.delivered ∧
    (whole.1.outcome = .done (front ++ back).length →
      first.1.outcome = .done front.length ∧ second.1.outcome = .done back.length) ∧
    second.1.outcome.fetched = true ∧
    second.2 = retouch object (offset + front.length) whole.2 := by
  have hjoins := joins_of_fetched hsettled hfront hback hinside hfetched
  have hinside' := hinside
  rw [List.length_append, ← Nat.add_assoc] at hinside'
  have hfirst : offset + front.length ≤ b.size := Nat.le_of_add_right_le hinside'
  have hstate : (b.recordedRead object offset front s).2 = _ := recordedRead_snd hsettled hfirst
  have hsettled' : (b.recordedRead object offset front s).2.cache.Settled :=
    settled_recordedRead hsettled hfirst
  intro whole first second
  refine ⟨?_, fun hdone => ⟨?_, ?_⟩, ?_, ?_⟩
  · simp only [whole, first, second]
    rw [delivered_recordedRead hsettled hinside, delivered_recordedRead hsettled hfirst,
      delivered_recordedRead hsettled' hinside', hstate, hjoins.bytes_eq]
  · exact (done_recordedRead_iff hsettled hfirst).2
      (hjoins.done ((done_recordedRead_iff hsettled hinside).1 hdone)).1
  · refine (done_recordedRead_iff hsettled' hinside').2 ?_
    rw [hstate]
    exact (hjoins.done ((done_recordedRead_iff hsettled hinside).1 hdone)).2
  · simp only [first, second]
    rw [fetched_recordedRead hsettled' hinside', hstate]
    exact hjoins.fetched
  · simp only [whole, first, second]
    rw [recordedRead_snd hsettled' hinside', hstate, recordedRead_snd hsettled hinside]
    exact hjoins.state_eq

end Append

/-- Reads of the parts of a range deliver what one read of the range delivers, after the same reads
of the source, and leave a cache that differs in its counters only. -/
theorem alike_readParts (hsettled : s.cache.Settled) {buffers : List Bytes}
    (hbuffers : ∀ buffer ∈ buffers, buffer ≠ [])
    (hinside : offset + buffers.flatten.length ≤ b.size)
    (hfetched : (b.recordedRead object offset buffers.flatten s).1.outcome.fetched = true) :
    let whole := b.recordedRead object offset buffers.flatten s
    Alike (whole.1.delivered, whole.2) (b.readParts object offset buffers s) := by
  induction buffers generalizing offset s with
  | nil =>
    intro whole
    have hbytes : whole.1.delivered = _ := delivered_recordedRead hsettled hinside
    have hstate : whole.2 = _ := recordedRead_snd hsettled hinside
    rw [List.flatten_nil, List.length_nil, Nat.add_zero, tour_of_le (Nat.le_refl _)]
      at hbytes hstate
    rw [hbytes, hstate]
    exact ⟨rfl, rfl, .refl _⟩
  | cons front buffers ih =>
    intro whole
    have hfront : front ≠ [] := hbuffers front List.mem_cons_self
    have hrest : ∀ buffer ∈ buffers, buffer ≠ [] := fun buffer hmem =>
      hbuffers buffer (List.mem_cons_of_mem _ hmem)
    rw [List.flatten_cons] at hinside hfetched
    by_cases hlast : buffers.flatten = []
    · -- a last part is the whole of what is left
      have hnil : buffers = [] := by
        rcases buffers with _ | ⟨buffer, buffers⟩
        · rfl
        · rw [List.flatten_cons, List.append_eq_nil_iff] at hlast
          exact absurd hlast.1 (hrest buffer List.mem_cons_self)
      have hwhole : whole = b.recordedRead object offset front s := by
        simp only [whole, List.flatten_cons, hlast, List.append_nil]
      rw [hnil, hwhole, readParts, readParts]
      exact ⟨List.append_nil _, rfl, .refl _⟩
    · obtain ⟨hbytes, -, hunnamed, hstate⟩ :=
        recordedRead_append hsettled hfront hlast hinside hfetched
      have hfirst : offset + front.length ≤ b.size := by
        rw [List.length_append] at hinside
        omega
      have hparts := ih (settled_recordedRead hsettled hfirst) hrest
        (by rw [List.length_append] at hinside; omega) hunnamed
      have hretouched := alike_retouch object (offset + front.length) whole.1.delivered whole.2
      have hwhole : whole = b.recordedRead object offset (front ++ buffers.flatten) s := rfl
      rw [hwhole, ← hstate] at hretouched
      rw [hwhole, readParts]
      refine ⟨?_, hparts.asks_eq.trans hretouched.asks_eq,
        hretouched.content.trans hparts.content⟩
      rw [← hbytes]
      exact congrArg (_ ++ ·) hparts.bytes_eq

end Backing

/-- However a cache was used, one read within an object of which no fetch fails and reads of its
parts one after the other deliver the same bytes after the same reads of the source, and leave
caches that differ in nothing but their counters. After two reads these differ by one hit, in the
bucket of the page where the first read ends, if it ends within a page that has a number, and not at
all otherwise. -/
theorem split_reads_leave_same_content {config : Config} {seed : UInt64} {start : Cache}
    (hstart : Cache.ofConfig config seed = .ok start) {u : CacheUsage}
    (hreached : CacheUsage.Reaches start u) (b : Backing) (object : UInt32) (offset : Nat) :
    let s : Recorded := { cache := u.cache }
    let pageSize := start.geometry.pageSize
    (∀ front back : Bytes, front ≠ [] → back ≠ [] →
      offset + (front ++ back).length ≤ b.size →
      let whole := b.recordedRead object offset (front ++ back) s
      let first := b.recordedRead object offset front s
      let second := b.recordedRead object (offset + front.length) back first.2
      let page := (offset + front.length) / pageSize
      let again := (offset + front.length) % pageSize ≠ 0 ∧ page < Call.pageLimit
      whole.1.outcome.fetched = true →
      Backing.Alike (whole.1.delivered, whole.2)
        (first.1.delivered ++ second.1.delivered, second.2) ∧
      (whole.1.outcome = .done (front ++ back).length →
        first.1.outcome = .done front.length ∧ second.1.outcome = .done back.length) ∧
      second.2.cache.counters = (if again then
        whole.2.cache.counters.record (.lookup true) else whole.2.cache.counters) ∧
      ∀ shard, (second.2.cache.bucket shard).counters
        = if again ∧ whole.2.cache.shardOf ⟨object, page.toUInt32⟩ = shard
          then (whole.2.cache.bucket shard).counters.record (.lookup true)
          else (whole.2.cache.bucket shard).counters) ∧
    ∀ buffers : List Bytes, (∀ buffer ∈ buffers, buffer ≠ []) →
      offset + buffers.flatten.length ≤ b.size →
      let whole := b.recordedRead object offset buffers.flatten s
      whole.1.outcome.fetched = true →
      Backing.Alike (whole.1.delivered, whole.2) (b.readParts object offset buffers s) := by
  obtain ⟨g, -, rfl⟩ := Cache.eq_of_ofConfig_eq_ok hstart
  have hsettled := hreached.settled
  intro s pageSize
  refine ⟨fun front back hfront hback hinside => ?_, fun buffers hbuffers hinside => ?_⟩
  · intro whole first second page again hfetched
    obtain ⟨hbytes, hdone, -, hstate⟩ :=
      Backing.recordedRead_append (s := s) hsettled hfront hback hinside hfetched
    have hgeometry : whole.2.cache.geometry = g := by
      rw [show whole.2 = _ from Backing.recordedRead_snd (s := s) hsettled hinside,
        Backing.geometry_tour]
      exact hreached.geometry_eq
    have hretouched :=
      Backing.alike_retouch object (offset + front.length) whole.1.delivered whole.2
    have hsecond : second.2 = Backing.retouch object (offset + front.length) whole.2 := hstate
    have hdelivered : first.1.delivered ++ second.1.delivered = whole.1.delivered := hbytes
    rw [hdelivered, hsecond]
    have hsize : whole.2.cache.geometry.pageSize = pageSize := congrArg Geometry.pageSize hgeometry
    refine ⟨hretouched, hdone, ?_⟩
    rw [Backing.retouch, hsize]
    by_cases hagain : again
    · rw [if_pos hagain, if_pos hagain]
      refine ⟨Cache.counters_countHit .., fun shard => ?_⟩
      simp only [hagain, true_and]
      show ((whole.2.cache.countHit _).bucket shard).counters = _
      rw [Cache.bucket_countHit]
      split <;> rfl
    · rw [if_neg hagain, if_neg hagain]
      exact ⟨rfl, fun shard => (if_neg fun h => hagain h.1).symm⟩
  · intro whole hfetched
    exact Backing.alike_readParts (s := s) hsettled hbuffers hinside hfetched

/-- Three bytes. -/
def Backing.digits : Backing where
  size := 3
  source := {
    answer offset count := .ok (([1, 2, 3].drop offset).take count)
    length_le offset count bytes h := by
      obtain rfl := Except.ok.inj h
      exact List.length_take_le .. }

theorem Backing.fetch_digits_ne_error (pageSize page : Nat) (cause : StopCause) :
    Backing.digits.fetch pageSize page ≠ .error cause := by
  have hlength : (([1, 2, 3] : Bytes).drop (page * pageSize)).length = 3 - page * pageSize :=
    List.length_drop
  unfold fetch
  simp only [digits, List.length_take, hlength]
  rw [if_neg (by omega)]
  exact fun h => absurd h (by simp)

/-- With pages of two bytes, a read of three bytes that is cut after the first one touches the first
page again. Only the counters of the bucket of that page tell of it. -/
theorem split_reads_leave_same_content_of_digits :
    ∃ start, Cache.ofConfig ⟨2, 1⟩ 7 = .ok start ∧ CacheUsage.Reaches start { cache := start } ∧
      let s : Recorded := { cache := start }
      let whole := Backing.digits.recordedRead 5 0 [0, 0, 0] s
      let first := Backing.digits.recordedRead 5 0 [0] s
      let second := Backing.digits.recordedRead 5 1 [0, 0] first.2
      whole.1.outcome.fetched = true ∧
      Backing.Alike (whole.1.delivered, whole.2)
        (first.1.delivered ++ second.1.delivered, second.2) ∧
      second.2.cache.counters = whole.2.cache.counters.record (.lookup true) ∧
      (∀ shard, (second.2.cache.bucket shard).counters
        = if whole.2.cache.shardOf ⟨5, 0⟩ = shard
          then (whole.2.cache.bucket shard).counters.record (.lookup true)
          else (whole.2.cache.bucket shard).counters) ∧
      Backing.Alike (whole.1.delivered, whole.2)
        (Backing.digits.readParts 5 0 [[0], [0], [0]] s) := by
  have hstart : Cache.ofConfig ⟨2, 1⟩ 7 = .ok (.ofGeometry ⟨1, 64⟩ 7) := rfl
  have hreached : CacheUsage.Reaches (.ofGeometry ⟨1, 64⟩ 7) { cache := .ofGeometry ⟨1, 64⟩ 7 } :=
    .start
  have hfetched : (Backing.digits.recordedRead 5 0 [0, 0, 0]
      { cache := .ofGeometry ⟨1, 64⟩ 7 }).1.outcome.fetched = true := by
    rw [Backing.fetched_recordedRead hreached.settled (by decide)]
    exact Backing.unnamed_tourPages (Cache.keeps_ofGeometry ..) (by decide)
      (Backing.fetch_digits_ne_error _) _
  obtain ⟨htwo, hparts⟩ := split_reads_leave_same_content hstart hreached Backing.digits 5 0
  obtain ⟨halike, -, hcounters, hbuckets⟩ :=
    htwo [0] [0, 0] (by decide) (by decide) (by decide) hfetched
  refine ⟨_, hstart, hreached, hfetched, halike, hcounters, fun shard => ?_,
    hparts [[0], [0], [0]] (by decide) (by decide) hfetched⟩
  exact (hbuckets shard).trans (if_congr ⟨And.right, fun h => ⟨by decide, h⟩⟩ rfl rfl)

/-- An object of zeros that has two bytes more than its pages of two bytes have numbers. -/
def Backing.vast : Backing where
  size := 2 ^ 33 + 2
  source := {
    answer offset count := .ok (Bytes.zeros count)
    length_le offset count bytes h := by
      obtain rfl := Except.ok.inj h
      exact (Bytes.length_zeros count).le }

/-- Where the range lies in a page without a number, the second read counts nothing though the first
one ends within the page. -/
theorem split_reads_count_nothing_in_unnamed_page :
    ∃ start, Cache.ofConfig ⟨2, 1⟩ 7 = .ok start ∧
      let s : Recorded := { cache := start }
      let whole := Backing.vast.recordedRead 5 (2 ^ 33) [0, 0] s
      let first := Backing.vast.recordedRead 5 (2 ^ 33) [0] s
      let second := Backing.vast.recordedRead 5 (2 ^ 33 + 1) [0] first.2
      2 ^ 33 + 1 + 1 ≤ Backing.vast.size ∧ (2 ^ 33 + 1) % start.geometry.pageSize ≠ 0 ∧
      whole.1.outcome = .stopped ⟨0, .offsetOutOfRange (2 ^ 33) (2 ^ 33 + 2)⟩ ∧
      whole.2.asks = [] ∧ second.2.asks = [] ∧
      second.2.cache.counters.lookups ≠ whole.2.cache.counters.lookups + 1 := by
  have hstart : Cache.ofConfig ⟨2, 1⟩ 7 = .ok (.ofGeometry ⟨1, 64⟩ 7) := rfl
  have hsettled : (Cache.ofGeometry ⟨1, 64⟩ 7).Settled :=
    CacheUsage.Reaches.settled (.start : CacheUsage.Reaches _ { cache := .ofGeometry ⟨1, 64⟩ 7 })
  have hread (offset : Nat) (buffer : Bytes) (hlow : 2 ^ 33 ≤ offset) (hbuffer : 0 < buffer.length)
      (hinside : offset + buffer.length ≤ Backing.vast.size) :
      (Backing.vast.recordedRead 5 offset buffer { cache := .ofGeometry ⟨1, 64⟩ 7 }).1.outcome
          = .stopped ⟨0, .offsetOutOfRange offset (2 ^ 33 + 2)⟩ ∧
        (Backing.vast.recordedRead 5 offset buffer { cache := .ofGeometry ⟨1, 64⟩ 7 }).2
          = { cache := .ofGeometry ⟨1, 64⟩ 7 } := by
    have hnumber : Call.pageLimit ≤ offset / (Cache.ofGeometry ⟨1, 64⟩ 7).geometry.pageSize := by
      have hsize : (Cache.ofGeometry ⟨1, 64⟩ 7).geometry.pageSize = 2 := rfl
      have hlimit : Call.pageLimit = 2 ^ 32 := Nat.one_shiftLeft 32
      rw [hsize, hlimit]
      omega
    rw [Backing.outcome_recordedRead hsettled hinside, Backing.recordedRead_snd hsettled hinside,
      Backing.tour_of_unnamed (by omega) hnumber]
    exact ⟨rfl, rfl⟩
  obtain ⟨houtcome, hwhole⟩ := hread (2 ^ 33) [0, 0] (by decide) (by decide) (by decide)
  obtain ⟨-, hfirst⟩ := hread (2 ^ 33) [0] (by decide) (by decide) (by decide)
  obtain ⟨-, hsecond⟩ := hread (2 ^ 33 + 1) [0] (by decide) (by decide) (by decide)
  refine ⟨_, hstart, by decide, by decide, houtcome, ?_⟩
  rw [hwhole, hfirst, hsecond]
  exact ⟨rfl, rfl, (Nat.succ_ne_self _).symm⟩

end ReadThrough
