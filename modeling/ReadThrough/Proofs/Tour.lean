import ReadThrough.Proofs.Deeds
import ReadThrough.Proofs.Transparency

/-!
# Reads as tours of pages

`Backing.load` is all that a read makes of one page: it takes the page from the cache, or gets a
slot, fetches the page whole and publishes it. `Backing.tour` loads one page after the other up to
the end of a range or to what stops it. A read is the tour of its range (`Backing.readAt_eq_tour`),
with the same reads of the source, so that what is left to see about reads are tours, which know
nothing of buffers, scratch pages and phases.
-/

namespace ReadThrough

/-! ## Caches -/

namespace Cache

/-- The cache after a page was looked up. -/
def use (c : Cache) (key : PageKey) : Cache := (c.read key 0 0).2

theorem geometry_use (c : Cache) (key : PageKey) : (c.use key).geometry = c.geometry :=
  geometry_onBucket ..

theorem geometry_acquire (c : Cache) (key : PageKey) :
    (c.acquire key).2.geometry = c.geometry := geometry_onBucket ..

theorem geometry_install (c : Cache) (key : PageKey) (slot : Slot) (data : Bytes) :
    (c.install key slot data).2.geometry = c.geometry := geometry_onBucket ..

theorem geometry_release (c : Cache) (key : PageKey) (slot : Slot) :
    (c.release key slot).geometry = c.geometry := geometry_onBucket ..

/-- All buckets have pages of one size, which is that of the geometry. -/
structure Shaped (c : Cache) (pageShift : Nat) : Prop where
  geometry_eq : c.geometry.pageShift = pageShift
  bucket_eq : ∀ shard, (c.bucket shard).pageShift = pageShift

/-- The cache is in good order, whoever holds slots of it. -/
def Settled (c : Cache) : Prop := ∃ held, c.Keeps (fun _ _ => True) held

variable {c : Cache} {key : PageKey}

/-- A cache that keeps its pages has the shape of its geometry. -/
theorem Keeps.shaped {good : PageKey → Bytes → Prop}
    {held : Fin Geometry.bucketCount → List Slot} (h : c.Keeps good held) :
    c.Shaped c.geometry.pageShift :=
  ⟨rfl, fun shard => (h.shape shard).2⟩

/-- Reading within a page makes of the cache what looking the page up makes of it. -/
theorem Settled.read_snd (h : c.Settled) {offset : Nat}
    (hoffset : offset ≤ c.geometry.pageSize) (count : Nat) :
    (c.read key offset count).2 = c.use key := by
  obtain ⟨held, hkeeps⟩ := h
  have hsize := hkeeps.pageSize_eq (c.shardOf key)
  have hbucket : ((c.bucket (c.shardOf key)).read key offset count).2
      = ((c.bucket (c.shardOf key)).read key 0 0).2 := by
    unfold Bucket.read
    split
    · rfl
    · rw [if_neg (by rw [hsize]; exact Nat.not_lt.2 hoffset), if_neg (Nat.not_lt_zero _)]
  show ({ c with buckets := _ } : Cache) = { c with buckets := _ }
  congr 2

/-- A lookup within a page gives the wanted bytes of the page if it is resident. -/
theorem Shaped.read_fst {pageShift : Nat} (h : c.Shaped pageShift) {offset count : Nat}
    (hwithin : offset + count ≤ 1 <<< pageShift) :
    (c.read key offset count).1 = match c.page? key with
      | none => .miss
      | some page => .hit (Bytes.window page offset count) := by
  have hsize : (c.bucket (c.shardOf key)).pageSize = 1 <<< pageShift := by
    rw [Bucket.pageSize, h.bucket_eq]
  show ((c.bucket (c.shardOf key)).read key offset count).1 = _
  rw [Bucket.read_fst, page?, hsize]
  rcases (c.bucket (c.shardOf key)).page? key with _ | page
  · rfl
  · dsimp only
    rw [if_neg (by omega), Nat.min_eq_left (by omega)]

/-- In a settled cache a lookup within its page tells what the page holds. -/
theorem Settled.read_fst (h : c.Settled) {offset count : Nat}
    (hwithin : offset + count ≤ c.geometry.pageSize) :
    (c.read key offset count).1 = match c.page? key with
      | none => .miss
      | some page => .hit (Bytes.window page offset count) := by
  obtain ⟨held, hkeeps⟩ := h
  exact hkeeps.shaped.read_fst hwithin

end Cache

/-! ## Notes of what the source is asked for -/

/-- A cache and the reads of a source. -/
structure Recorded where
  cache : Cache
  /-- The position and the length of each read of the source, in order. -/
  asks : List (Nat × Nat) := []

namespace Recorded

/-- The place of the cache. -/
def place : Place Recorded where
  get s := s.cache
  set cache s := { s with cache }
  get_set _ _ := rfl
  set_get _ := rfl
  set_set _ _ _ := rfl

end Recorded

/-- The source that takes a note of each read. -/
def FixedSource.recorded (source : FixedSource) : Source (StateM Recorded) := fun offset buffer s =>
  (source.transfer offset buffer, { s with asks := s.asks ++ [(offset, buffer.length)] })

namespace Backing

variable (b : Backing)

/-- The reader of an object, with notes of the reads of its source. -/
def recordedReader (object : UInt32) : Reader (StateM Recorded) :=
  Recorded.place.reader ⟨object, b.size⟩ b.source.recorded

/-! ## Loads and tours -/

/-- Gives the bytes of a page: those that are resident, or else those that are fetched into a slot
for it, if there is one. -/
def load (key : PageKey) (s : Recorded) : Except StopCause Bytes × Recorded :=
  match s.cache.page? key with
  | some page => (.ok page, { s with cache := s.cache.use key })
  | none =>
    let (grant, cache) := (s.cache.use key).acquire key
    match grant.slot? with
    | none => (.error .noFreePages, { s with cache })
    | some slot =>
      let pageSize := s.cache.geometry.pageSize
      let asks := s.asks ++ [(key.page.toNat * pageSize, pageSize)]
      match b.fetch pageSize key.page.toNat with
      | .ok page => (.ok page, ⟨(cache.install key slot page).2, asks⟩)
      | .error cause => (.error cause, ⟨cache.release key slot, asks⟩)

/-- The number of bytes that a range has in the page where it starts. -/
def pieceLength (pageSize offset stop : Nat) : Nat :=
  min (stop - offset) (pageSize - offset % pageSize)

/-- Loads pages from `offset` on, up to the first one that stops the tour: the bytes of the range
before that page, and why it stopped if it did. -/
def tourPages (object : UInt32) (stop : Nat) :
    (offset : Nat) → List Nat → Recorded → (Bytes × Option StopCause) × Recorded
  | _, [], s => (([], none), s)
  | offset, page :: pages, s =>
    if Call.pageLimit ≤ page then (([], some (.offsetOutOfRange offset b.size)), s)
    else
      match b.load ⟨object, page.toUInt32⟩ s with
      | (.error cause, s) => (([], some cause), s)
      | (.ok bytes, s) =>
        let pageSize := s.cache.geometry.pageSize
        let length := pieceLength pageSize offset stop
        let ((rest, cause), s) := tourPages object stop (offset + length) pages s
        ((Bytes.window bytes (offset % pageSize) length ++ rest, cause), s)

/-- Loads the pages of a range. -/
def tour (object : UInt32) (offset stop : Nat) (s : Recorded) :
    (Bytes × Option StopCause) × Recorded :=
  b.tourPages object stop offset (pages s.cache.geometry.pageSize offset stop) s

variable {b} {key : PageKey} {s : Recorded}

section Cases

/-- A page that is resident is not asked for. -/
theorem load_of_resident {page : Bytes} (hpage : s.cache.page? key = some page) :
    b.load key s = (.ok page, { s with cache := s.cache.use key }) := by
  simp only [load, hpage]

variable (hmiss : s.cache.page? key = none)

include hmiss

/-- Without a slot a page is not asked for. -/
theorem load_of_refused (hslot : ((s.cache.use key).acquire key).1.slot? = none) :
    b.load key s
      = (.error .noFreePages, { s with cache := ((s.cache.use key).acquire key).2 }) := by
  simp only [load, hmiss, hslot]

variable {slot : Slot} (hslot : ((s.cache.use key).acquire key).1.slot? = some slot)

include hslot

/-- A page that was fetched is published. -/
theorem load_of_fetched {page : Bytes}
    (hfetch : b.fetch s.cache.geometry.pageSize key.page.toNat = .ok page) :
    b.load key s = (.ok page, ⟨(((s.cache.use key).acquire key).2.install key slot page).2,
      s.asks ++ [(key.page.toNat * s.cache.geometry.pageSize, s.cache.geometry.pageSize)]⟩) := by
  simp only [load, hmiss, hslot, hfetch]

/-- If the page cannot be fetched its slot is given back. -/
theorem load_of_failed {cause : StopCause}
    (hfetch : b.fetch s.cache.geometry.pageSize key.page.toNat = .error cause) :
    b.load key s = (.error cause, ⟨((s.cache.use key).acquire key).2.release key slot,
      s.asks ++ [(key.page.toNat * s.cache.geometry.pageSize, s.cache.geometry.pageSize)]⟩) := by
  simp only [load, hmiss, hslot, hfetch]

end Cases

/-- A load keeps the geometry. -/
theorem geometry_load (b : Backing) (key : PageKey) (s : Recorded) :
    (b.load key s).2.cache.geometry = s.cache.geometry := by
  have hacquired : ((s.cache.use key).acquire key).2.geometry = s.cache.geometry := by
    rw [Cache.geometry_acquire, Cache.geometry_use]
  rcases hpage : s.cache.page? key with _ | page
  · rcases hslot : ((s.cache.use key).acquire key).1.slot? with _ | slot
    · rw [load_of_refused hpage hslot]
      exact hacquired
    · rcases hfetch : b.fetch s.cache.geometry.pageSize key.page.toNat with cause | page
      · rw [load_of_failed hpage hslot hfetch, Cache.geometry_release, hacquired]
      · rw [load_of_fetched hpage hslot hfetch, Cache.geometry_install, hacquired]
  · rw [load_of_resident hpage, Cache.geometry_use]

/-- A load holds no slot in the end. -/
theorem keeps_load (b : Backing) (key : PageKey)
    {held : Fin Geometry.bucketCount → List Slot} (h : s.cache.Keeps (fun _ _ => True) held) :
    (b.load key s).2.cache.Keeps (fun _ _ => True) held := by
  have hused : (s.cache.use key).Keeps (fun _ _ => True) held := h.read key 0 0
  have hacquired := hused.acquire key
  rcases hpage : s.cache.page? key with _ | page
  · rcases hslot : ((s.cache.use key).acquire key).1.slot? with _ | slot
    · simp only [hslot, Option.toList_none, slotsAt_nil, List.nil_append] at hacquired
      rw [load_of_refused hpage hslot]
      exact hacquired
    · have hplace : (s.cache.use key).shardOf key
          = ((s.cache.use key).acquire key).2.shardOf key := rfl
      rw [hslot, Option.toList_some, hplace] at hacquired
      rcases hfetch : b.fetch s.cache.geometry.pageSize key.page.toNat with cause | page
      · rw [load_of_failed hpage hslot hfetch]
        exact hacquired.release
      · rw [load_of_fetched hpage hslot hfetch]
        dsimp only
        exact hacquired.install trivial
  · rw [load_of_resident hpage]
    exact hused

/-- A load leaves the cache in good order. -/
theorem settled_load (b : Backing) (key : PageKey) (h : s.cache.Settled) :
    (b.load key s).2.cache.Settled :=
  h.imp fun _ hkeeps => b.keeps_load key hkeeps

/-- There is nothing to a tour of an empty range. -/
theorem tour_of_le {object : UInt32} {offset stop : Nat} (h : stop ≤ offset) (s : Recorded) :
    b.tour object offset stop s = (([], none), s) := by
  rw [tour, pages_eq_nil h, tourPages]

section FirstPage

variable {object : UInt32} {offset stop : Nat} (h : offset < stop)

include h

/-- A tour that starts in a page without a number stops there. -/
theorem tour_of_unnamed (hnumber : Call.pageLimit ≤ offset / s.cache.geometry.pageSize) :
    b.tour object offset stop s = (([], some (.offsetOutOfRange offset b.size)), s) := by
  rw [tour, pages_eq_cons s.cache.geometry.pageSize_pos h, tourPages, if_pos hnumber]

variable (hnumber : offset / s.cache.geometry.pageSize < Call.pageLimit) {t : Recorded}

include hnumber

/-- A tour ends at a page that cannot be loaded. -/
theorem tour_of_error {cause : StopCause}
    (hload : b.load ⟨object, (offset / s.cache.geometry.pageSize).toUInt32⟩ s
      = (.error cause, t)) :
    b.tour object offset stop s = (([], some cause), t) := by
  rw [tour, pages_eq_cons s.cache.geometry.pageSize_pos h, tourPages,
    if_neg (Nat.not_le.2 hnumber), hload]

/-- A tour that could load its first page goes on behind it. -/
theorem tour_of_ok {page : Bytes}
    (hload : b.load ⟨object, (offset / s.cache.geometry.pageSize).toUInt32⟩ s = (.ok page, t)) :
    let length := pieceLength s.cache.geometry.pageSize offset stop
    let rest := b.tour object (offset + length) stop t
    b.tour object offset stop s
      = ((Bytes.window page (offset % s.cache.geometry.pageSize) length ++ rest.1.1, rest.1.2),
        rest.2) := by
  have hgeometry : t.cache.geometry = s.cache.geometry := by
    rw [← b.geometry_load ⟨object, (offset / s.cache.geometry.pageSize).toUInt32⟩ s, hload]
  intro length rest
  rw [tour, pages_eq_cons s.cache.geometry.pageSize_pos h, tourPages,
    if_neg (Nat.not_le.2 hnumber), hload]
  simp only [rest, length, tour, hgeometry, pieceLength]

end FirstPage

end Backing

/-! ## Reads as tours -/

namespace Call

variable {b : Backing} {c : Call}

section Fetch

variable {slot : Slot} (hsound : c.Sound) (hphase : c.phase = .fetch slot)
  (hsize : c.view.size = b.size)

include hsound hphase hsize

/-- A call whose page could be fetched has the page in its frame and is to publish it. -/
theorem receive_of_fetch_ok (hoffset : c.offset < c.stop) {page : Bytes}
    (hfetch : b.fetch c.pageSize c.page = .ok page) :
    ∃ ahead scratch, ∃ received : Call,
      received = { c with
        destination := ⟨c.destination.behind, ahead⟩
        scratch
        phase := .publish slot page.length } ∧
      (c.receive (b.source.transfer c.pageStart c.frame)).1 = received ∧ received.Sound ∧
      received.frame.take page.length = page ∧
      (received.frame.drop c.intra).take c.want = Bytes.window page c.intra c.want := by
  have hlength := hsound.length_frame
  obtain ⟨hle, hreaches⟩ := Backing.fetch_eq_ok hfetch
  have hanswer : b.source.answer c.pageStart c.pageSize = .ok page := by
    unfold Backing.fetch at hfetch
    rw [← c.pageStart_eq] at hfetch
    split at hfetch
    · exact absurd hfetch (by simp)
    · split at hfetch
      · exact absurd hfetch (by simp)
      · obtain rfl := Except.ok.inj hfetch
        assumption
  have hfull : ¬(page.length < c.pageSize ∧ c.pageStart + page.length < c.view.size) := by
    rintro ⟨hlt, hend⟩
    have hsizeLe := hreaches hlt
    rw [c.pageStart_eq, hsize] at hend
    omega
  have hwithin := hsound.intra_add_want_le_of_not_short hoffset hfull
  -- whatever the source leaves behind the page, the frame starts with the page
  have hwritten : (c.frame.overlay (page ++ b.source.residue c.pageStart c.frame)).take page.length
      = page := by
    rw [Bytes.take_overlay (by omega) (by rw [List.length_append]; omega)]
    exact List.take_left' rfl
  have hfilled : (c.frame.overlay (page ++ b.source.residue c.pageStart c.frame)).length
      = c.pageSize := by
    rw [Bytes.length_overlay, hlength]
  have hsound' := hsound.setFrame hfilled
  have hframe := frame_setFrame (c := c) hfilled
  obtain ⟨ahead, scratch, heq⟩ :=
    c.setFrame_eq (c.frame.overlay (page ++ b.source.residue c.pageStart c.frame))
  rw [heq] at hsound' hframe
  refine ⟨ahead, scratch, _, rfl, ?_, hsound'.setPhase _, ?_, ?_⟩
  · rw [receive_eq hphase, FixedSource.transfer, hlength, hanswer]
    dsimp only
    rw [heq, afterReply]
    dsimp only
    rw [if_neg (Nat.not_lt.2 hle), if_neg hfull]
  · show (Call.frame { c with destination := _, scratch }).take _ = _
    rw [hframe, hwritten]
  · show ((Call.frame { c with destination := _, scratch }).drop _).take _ = _
    rw [hframe, ← Bytes.window_take (n := page.length) (by omega) hwithin, hwritten]

/-- A call whose page could not be fetched is to give its slot back. -/
theorem receive_of_fetch_error {cause : StopCause}
    (hfetch : b.fetch c.pageSize c.page = .error cause) :
    ∃ ahead scratch, (c.receive (b.source.transfer c.pageStart c.frame)).1 = { c with
      destination := ⟨c.destination.behind, ahead⟩, scratch, phase := .release slot cause } := by
  have hlength := hsound.length_frame
  unfold Backing.fetch at hfetch
  rw [← c.pageStart_eq] at hfetch
  have hnext : c.afterReply slot (b.source.transfer c.pageStart c.frame).reply
      = .release slot cause := by
    rw [FixedSource.transfer, hlength]
    rcases hanswer : b.source.answer c.pageStart c.pageSize with error | bytes
    · rw [hanswer] at hfetch
      obtain rfl : StopCause.io error = cause := Except.error.inj hfetch
      rfl
    · have hle := b.source.length_le _ _ _ hanswer
      rw [hanswer] at hfetch
      dsimp only at hfetch
      split at hfetch
      · rename_i hshort
        rw [← hsize] at hshort
        obtain rfl := Except.error.inj hfetch
        unfold afterReply
        dsimp only
        rw [if_neg (Nat.not_lt.2 hle), if_pos hshort]
      · exact absurd hfetch (by simp)
  obtain ⟨ahead, scratch, heq⟩ := exists_receive_eq hphase (b.source.transfer c.pageStart c.frame)
  exact ⟨ahead, scratch, by rw [heq, hnext]⟩

end Fetch

/-! ### One page -/

/-- The other call has what was wanted of the page and is past it. -/
structure Moved (c : Call) (page : Bytes) (moved : Call) : Prop where
  sound : moved.Sound
  view_eq : moved.view = c.view
  pageShift_eq : moved.pageShift = c.pageShift
  offset_eq : moved.offset = c.offset + c.want
  stop_eq : moved.stop = c.stop
  behind_eq : moved.destination.behind
    = (Bytes.window page c.intra c.want).reverse ++ c.destination.behind

/-- Delivering what is wanted of a page moves the call to the next one. -/
theorem Sound.moved (h : c.Sound) (hoffset : c.offset < c.stop) (page : Bytes) :
    c.Moved page { c with
      destination := c.destination.deliver (Bytes.window page c.intra c.want)
      offset := c.offset + c.want } := by
  have hroom := h.room
  have hle := offset_add_want_le hoffset
  refine ⟨⟨?_, h.stop_le, h.scratch⟩, rfl, rfl, rfl, rfl, List.reverseAux_eq⟩
  simp only [Destination.deliver, Bytes.length_window, List.length_drop]
  omega

/-- The run of a call whose source takes notes. -/
def runRecorded (b : Backing) (limit : Nat) (c : Call) (s : Recorded) : Call × Recorded :=
  c.runFor Recorded.place.host b.source.recorded limit s

variable {s : Recorded} {object : UInt32}

/-- A call that has finished stays as it is. -/
theorem runRecorded_finished {outcome : Outcome} (hphase : c.phase = .finished outcome)
    (limit : Nat) (s : Recorded) : c.runRecorded b limit s = (c, s) := by
  rw [runRecorded, runFor_finished _ _ hphase]
  rfl

section Fetch

variable {slot : Slot} (hsound : c.Sound) (hphase : c.phase = .fetch slot)
  (hsize : c.view.size = b.size)

include hsound hphase

/-- While it waits for its source a call asks it once and takes the answer. -/
theorem runRecorded_fetch (limit : Nat) (s : Recorded) : c.runRecorded b (limit + 1) s
    = (c.receive (b.source.transfer c.pageStart c.frame)).1.runRecorded b limit
      { s with asks := s.asks ++ [(c.page * c.pageSize, c.pageSize)] } := by
  have hask : (c.pageStart, c.frame.length) = (c.page * c.pageSize, c.pageSize) :=
    Prod.ext c.pageStart_eq hsound.length_frame
  rw [← hask]
  exact runFor_receive_at Recorded.place _ limit s hphase

include hsize

/-- A call whose page can be fetched publishes it and moves on. -/
theorem runRecorded_fetched (hoffset : c.offset < c.stop) {page : Bytes}
    (hfetch : b.fetch c.pageSize c.page = .ok page) :
    ∃ moved, c.Moved page moved ∧ ∀ limit s, c.runRecorded b (limit + 2) s
      = moved.visit.runRecorded b limit ⟨(s.cache.install c.key slot page).2,
        s.asks ++ [(c.page * c.pageSize, c.pageSize)]⟩ := by
  obtain ⟨ahead, scratch, received, heq, hreceived, hsound', hframe, hpiece⟩ :=
    receive_of_fetch_ok hsound hphase hsize hoffset hfetch
  have hwanted : (received.frame.drop received.intra).take received.want
      = Bytes.window page c.intra c.want := by
    rw [← hpiece, heq]
    rfl
  have hmoved : c.Moved page { received with
      destination := received.destination.deliver (Bytes.window page c.intra c.want)
      offset := received.offset + received.want } := by
    have hsame := hsound'.moved (by rw [heq]; exact hoffset) page
    subst heq
    exact ⟨hsame.sound, rfl, rfl, rfl, rfl, hsame.behind_eq⟩
  refine ⟨_, hmoved, fun limit s => ?_⟩
  have hpublish : received.phase = .publish slot page.length := by rw [heq]
  obtain ⟨hcall, hcache⟩ := touch_of_publish s.cache hpublish
  have hkey : received.key = c.key := by
    rw [heq]
    rfl
  rw [hwanted] at hcall
  rw [hkey, hframe] at hcache
  rw [runRecorded_fetch hsound hphase, hreceived, runRecorded,
    runFor_touch_at Recorded.place _ limit _ (by rw [active, hpublish]) (by simp [hpublish])]
  show runRecorded b limit (received.touch s.cache).1.1 ⟨(received.touch s.cache).2, _⟩ = _
  rw [hcall, hcache]
  rfl

/-- A call whose page cannot be fetched gives its slot back and stops. -/
theorem runRecorded_failed {cause : StopCause}
    (hfetch : b.fetch c.pageSize c.page = .error cause) :
    ∃ last : Call, last.phase = .finished (.stopped ⟨c.destination.copied, cause⟩) ∧
      last.destination.behind = c.destination.behind ∧ ∀ limit s,
        c.runRecorded b (limit + 2) s = (last, ⟨s.cache.release c.key slot,
          s.asks ++ [(c.page * c.pageSize, c.pageSize)]⟩) := by
  obtain ⟨ahead, scratch, hreceived⟩ := receive_of_fetch_error hsound hphase hsize hfetch
  let failed : Call := { c with
    destination := ⟨c.destination.behind, ahead⟩, scratch, phase := .release slot cause }
  refine ⟨failed.stopFor cause, rfl, rfl, fun limit s => ?_⟩
  rw [runRecorded_fetch hsound hphase, hreceived, runRecorded,
    runFor_touch_at Recorded.place _ limit _ rfl (by simp)]
  exact runRecorded_finished rfl limit _

end Fetch

/-- A call that is about to look for a page takes up to four steps there: it then has the page that
the load gives and moves on past it, or it stops for the cause that the load gives. -/
theorem runRecorded_load (hsound : c.Sound) (hphase : c.phase = .lookup)
    (hview : c.view = ⟨object, b.size⟩) (hshift : c.pageShift = s.cache.geometry.pageShift)
    (hsettled : s.cache.Settled) (hoffset : c.offset < c.stop) (hnumber : c.page < pageLimit) :
    ∃ steps, 1 ≤ steps ∧ steps ≤ 4 ∧ match b.load c.key s with
      | (.ok page, s') => ∃ moved, c.Moved page moved ∧ ∀ limit,
        c.runRecorded b (limit + steps) s = moved.visit.runRecorded b limit s'
      | (.error cause, s') => ∃ last : Call,
        last.phase = .finished (.stopped ⟨c.destination.copied, cause⟩) ∧
        last.destination.behind = c.destination.behind ∧
        ∀ limit, c.runRecorded b (limit + steps) s = (last, s') := by
  have hsize : c.pageSize = s.cache.geometry.pageSize := by
    rw [pageSize, hshift]
    rfl
  have hpage : c.key.page.toNat = c.page := toNat_page_key hnumber
  have hwithin : c.intra + c.want ≤ s.cache.geometry.pageSize := hsize ▸ c.intra_add_want_le
  have hread : (s.cache.read c.key c.intra c.want).1 = _ := hsettled.read_fst hwithin
  have hused : (s.cache.read c.key c.intra c.want).2 = s.cache.use c.key :=
    hsettled.read_snd (Nat.le_of_add_right_le hwithin) c.want
  have hlook (limit : Nat) : c.runRecorded b (limit + 1) s
      = (c.touch s.cache).1.1.runRecorded b limit { s with cache := (c.touch s.cache).2 } :=
    runFor_touch_at Recorded.place _ limit s (by rw [active, hphase]) (by simp [hphase])
  rcases hresident : s.cache.page? c.key with _ | page <;> rw [hresident] at hread
  · rw [touch_of_miss hphase hread, hused] at hlook
    -- the call that gets a slot, and then the one that waits for its source
    let wanting : Call := { c with phase := .acquire }
    have hacquire (limit : Nat) :
        wanting.runRecorded b (limit + 1) { s with cache := s.cache.use c.key }
          = (wanting.touch (s.cache.use c.key)).1.1.runRecorded b limit
            { s with cache := (wanting.touch (s.cache.use c.key)).2 } :=
      runFor_touch_at Recorded.place _ limit _ rfl (by simp [wanting])
    rcases hslot : ((s.cache.use c.key).acquire c.key).1.slot? with _ | slot
    · obtain ⟨hcall, hcache⟩ := touch_of_exhausted (c := wanting) rfl hslot
      rw [hcall, hcache] at hacquire
      rw [Backing.load_of_refused hresident hslot]
      refine ⟨2, by omega, by omega, wanting.stopFor .noFreePages, rfl, rfl, fun limit => ?_⟩
      rw [hlook (limit + 1), hacquire limit, runRecorded_finished rfl]
      rfl
    · obtain ⟨hcall, hcache⟩ := touch_of_grant (c := wanting) rfl hslot
      rw [hcall, hcache] at hacquire
      let waiting : Call := { c with phase := .fetch slot }
      have hwaiting : waiting.Sound := hsound.setPhase _
      have hsame : waiting.view.size = b.size := congrArg View.size hview
      rcases hfetch : b.fetch s.cache.geometry.pageSize c.key.page.toNat with cause | page
      · rw [Backing.load_of_failed hresident hslot hfetch, hpage, ← hsize]
        rw [hpage, ← hsize] at hfetch
        obtain ⟨last, hended, hbehind, hrun⟩ :=
          runRecorded_failed (c := waiting) hwaiting rfl hsame hfetch
        refine ⟨4, by omega, Nat.le_refl _, last, hended, hbehind, fun limit => ?_⟩
        rw [hlook (limit + 3), hacquire (limit + 2), hrun]
        rfl
      · rw [Backing.load_of_fetched hresident hslot hfetch, hpage, ← hsize]
        rw [hpage, ← hsize] at hfetch
        obtain ⟨moved, hmoved, hrun⟩ :=
          runRecorded_fetched (c := waiting) hwaiting rfl hsame hoffset hfetch
        refine ⟨4, by omega, Nat.le_refl _, moved, ?_, fun limit => ?_⟩
        · exact ⟨hmoved.sound, hmoved.view_eq, hmoved.pageShift_eq, hmoved.offset_eq,
            hmoved.stop_eq, hmoved.behind_eq⟩
        · rw [hlook (limit + 3), hacquire (limit + 2), hrun]
          rfl
  · rw [touch_of_hit hphase hread, hused] at hlook
    rw [Backing.load_of_resident hresident]
    exact ⟨1, Nat.le_refl _, by omega, _, hsound.moved hoffset page, hlook⟩

/-! ### All pages -/

/-- The other call has finished, after it delivered these bytes more. -/
structure Ends (c : Call) (bytes : Bytes) (cause : Option StopCause) (last : Call) : Prop where
  phase_eq : last.phase = .finished (.ofDelivery (c.destination.copied + bytes.length) cause)
  behind_eq : last.destination.behind = bytes.reverse ++ c.destination.behind

/-- A call ends with what it delivered of its page and what it delivers from there on. -/
theorem Moved.ends {page rest : Bytes} {cause : Option StopCause} {moved last : Call}
    (h : c.Moved page moved) (hends : moved.Ends rest cause last) :
    c.Ends (Bytes.window page c.intra c.want ++ rest) cause last := by
  have hcopied : moved.destination.copied
      = (Bytes.window page c.intra c.want).length + c.destination.copied := by
    rw [Destination.copied, h.behind_eq, List.length_append, List.length_reverse,
      Destination.copied]
  refine ⟨?_, ?_⟩
  · rw [hends.phase_eq, hcopied, List.length_append, Nat.add_comm _ c.destination.copied,
      Nat.add_assoc]
  · rw [hends.behind_eq, h.behind_eq, List.reverse_append, List.append_assoc]

/-- A call that may take as many steps as it needs ends as the tour of its range does. -/
theorem runRecorded_visit (hsound : c.Sound) (hview : c.view = ⟨object, b.size⟩)
    (hshift : c.pageShift = s.cache.geometry.pageShift) (hsettled : s.cache.Settled) {limit : Nat}
    (hlimit : 4 * (c.stop - c.offset) ≤ limit) :
    let tour := b.tour object c.offset c.stop s
    ∃ last, c.visit.runRecorded b limit s = (last, tour.2) ∧ c.Ends tour.1.1 tour.1.2 last := by
  generalize hleft : c.stop - c.offset = left at hlimit
  induction left using Nat.strongRecOn generalizing c s limit with
  | ind left ih =>
    intro tour
    have hsize : c.pageSize = s.cache.geometry.pageSize := by
      rw [pageSize, hshift]
      rfl
    have hpage : c.page = c.offset / s.cache.geometry.pageSize := by rw [c.page_eq, hsize]
    rcases Nat.lt_or_ge c.offset c.stop with hoffset | hoffset
    · by_cases hnumber : pageLimit ≤ c.page
      · have htour : tour = _ := Backing.tour_of_unnamed hoffset (hpage ▸ hnumber)
        have hvisit : c.visit = c.stopFor (.offsetOutOfRange c.offset b.size) := by
          rw [visit, if_neg (Nat.not_le.2 hoffset), if_pos hnumber, hview]
        rw [htour, hvisit, runRecorded_finished rfl]
        exact ⟨_, rfl, rfl, rfl⟩
      · have hnumber := Nat.lt_of_not_le hnumber
        let looking : Call := { c with phase := .lookup }
        have hvisit : c.visit = looking := by
          rw [visit, if_neg (Nat.not_le.2 hoffset), if_neg (Nat.not_le.2 hnumber)]
        have hkey : looking.key = ⟨object, (c.offset / s.cache.geometry.pageSize).toUInt32⟩ := by
          rw [← hpage]
          show (⟨c.view.object, _⟩ : PageKey) = _
          rw [hview]
          rfl
        obtain ⟨steps, -, hsteps, hload⟩ := runRecorded_load (c := looking) (hsound.setPhase _) rfl
          hview hshift hsettled hoffset hnumber
        obtain ⟨limit, rfl⟩ : ∃ fewer, limit = fewer + steps := ⟨limit - steps, by omega⟩
        rcases hpair : b.load looking.key s with ⟨cause | page, t⟩ <;> rw [hpair] at hload
        · obtain ⟨last, hphase, hbehind, hrun⟩ := hload
          rw [hkey] at hpair
          have htour : tour = _ := Backing.tour_of_error hoffset (hpage ▸ hnumber) hpair
          rw [htour, hvisit, hrun limit]
          exact ⟨last, rfl, hphase, hbehind⟩
        · obtain ⟨moved, hmoved, hrun⟩ := hload
          have hkept := Backing.settled_load b looking.key hsettled
          have hgeometry := b.geometry_load looking.key s
          rw [hpair] at hkept hgeometry
          rw [hkey] at hpair
          have htour : tour = _ := Backing.tour_of_ok hoffset (hpage ▸ hnumber) hpair
          have hwant : c.want = Backing.pieceLength s.cache.geometry.pageSize c.offset c.stop := by
            rw [want, Backing.pieceLength, c.intra_eq, hsize]
          have hintra : c.intra = c.offset % s.cache.geometry.pageSize := by rw [c.intra_eq, hsize]
          have hpos := want_pos hoffset
          have hnext : moved.offset = c.offset + c.want := hmoved.offset_eq
          have hstop : moved.stop = c.stop := hmoved.stop_eq
          have hfewer : 4 * (moved.stop - moved.offset) ≤ limit := by omega
          obtain ⟨last, hlast, hends⟩ := ih (moved.stop - moved.offset) (by omega) hmoved.sound
            (hmoved.view_eq.trans hview)
            (hmoved.pageShift_eq.trans (hshift.trans (congrArg _ hgeometry.symm))) hkept rfl hfewer
          rw [hnext, hstop] at hlast hends
          have hended := hmoved.ends hends
          rw [htour, ← hwant, ← hintra, hvisit, hrun limit, hlast]
          exact ⟨last, rfl, hended.phase_eq, hended.behind_eq⟩
    · have htour : tour = _ := Backing.tour_of_le hoffset s
      have hvisit : c.visit = c.finish (.done c.destination.copied) := by
        rw [visit, if_pos hoffset]
      rw [htour, hvisit, runRecorded_finished rfl]
      exact ⟨_, rfl, rfl, rfl⟩

end Call

/-- A read is the tour of its range: it ends as the tour does, delivers its bytes, and leaves its
cache with the same reads of the source. -/
theorem Backing.readAt_eq_tour (b : Backing) (object : UInt32) {offset : Int} (hoffset : 0 ≤ offset)
    (buffer : Bytes) {s : Recorded} (hsettled : s.cache.Settled) :
    let tour := b.tour object offset.toNat (min (offset.toNat + buffer.length) b.size) s
    let read := (b.recordedReader object).readAt offset buffer s
    read.1.outcome = .ofDelivery tour.1.1.length tour.1.2 ∧
      read.1.buffer.take tour.1.1.length = tour.1.1 ∧ read.2 = tour.2 := by
  intro tour read
  let started : Call := {
    view := ⟨object, b.size⟩
    pageShift := s.cache.geometry.pageShift
    offset := offset.toNat
    stop := min (offset.toNat + buffer.length) b.size
    destination := { ahead := buffer } }
  have hstarted : Call.start ⟨object, b.size⟩ s.cache.geometry.pageShift offset buffer
      = started.visit := if_neg (Int.not_lt.2 hoffset)
  have hbound : started.visit.stepBound = 4 * (started.stop - started.offset) := by
    rw [Call.visit]
    split
    · rfl
    · split <;> rfl
  have hsound : started.Sound := ⟨Nat.min_le_left .., Nat.min_le_right .., .inl rfl⟩
  obtain ⟨last, hrun, hends⟩ :=
    Call.runRecorded_visit hsound (rfl : started.view = ⟨object, b.size⟩) rfl hsettled
      (Nat.le_refl _)
  have hread : read = (⟨last.outcome, last.destination.contents⟩, tour.2) := by
    have hrun : started.visit.runFor Recorded.place.host b.source.recorded
        started.visit.stepBound s = (last, tour.2) := by
      rw [hbound]
      exact hrun
    have heq : read = _ := Recorded.place.readAt_reader ⟨object, b.size⟩ b.source.recorded offset
      buffer s
    rw [heq]
    rw [show Call.start ⟨object, b.size⟩ (Recorded.place.get s).geometry.pageShift offset buffer
      = started.visit from hstarted, hrun]
  have hbehind : last.destination.behind.reverse = tour.1.1 := by
    rw [hends.behind_eq, List.reverse_append, List.reverse_reverse]
    rfl
  have hcopied : last.destination.copied = tour.1.1.length := by
    rw [← hbehind, List.length_reverse, Destination.copied]
  rw [hread]
  refine ⟨?_, ?_, rfl⟩
  · rw [Call.outcome, hends.phase_eq]
    exact congrArg (Outcome.ofDelivery · _) (Nat.zero_add _)
  · rw [← hcopied, Destination.take_copied_contents, hbehind]

end ReadThrough
