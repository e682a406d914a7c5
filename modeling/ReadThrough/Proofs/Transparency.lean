import ReadThrough.Proofs.CallRun
import ReadThrough.Reader

/-!
# Cached reads against uncached ones

A `Backing` is an object with one size and one source that answers a range always the same way,
with bytes or with an error. `Backing.read` reads such an object with no cache: it walks over the
pages of the range in increasing order and fetches each of them whole. `reads_transparent` says that
a cached read has the outcome of an uncached one and delivers its bytes, whatever reads of whatever
objects the cache has served before.
-/

namespace ReadThrough

/-- A source that leaves the cache alone and whose answer depends on the range asked for only. -/
structure FixedSource where
  answer : (offset count : Nat) → Except IoError Bytes
  /-- No more bytes are read than were asked for. -/
  length_le : ∀ offset count bytes, answer offset count = .ok bytes → bytes.length ≤ count
  /-- What the source leaves in the buffer after the bytes that it read. -/
  residue : (offset : Nat) → (buffer : Bytes) → Bytes := fun _ _ => []

/-- One read of the source into a buffer. -/
def FixedSource.transfer (s : FixedSource) (offset : Nat) (buffer : Bytes) : Transfer :=
  match s.answer offset buffer.length with
  | .ok bytes => ⟨.count bytes.length, bytes ++ s.residue offset buffer⟩
  | .error error => ⟨.failed error, s.residue offset buffer⟩

/-- An object: its size and where its bytes come from. -/
structure Backing where
  size : Nat
  source : FixedSource

namespace Backing

variable (b : Backing)

/-! ## Reading without a cache -/

/-- Fetches a page whole. A short page counts only if it reaches the end of the object. -/
def fetch (pageSize page : Nat) : Except StopCause Bytes :=
  match b.source.answer (page * pageSize) pageSize with
  | .error error => .error (.io error)
  | .ok bytes =>
    if bytes.length < pageSize ∧ page * pageSize + bytes.length < b.size then
      .error (.noProgress (page * pageSize) pageSize bytes.length)
    else .ok bytes

/-- The numbers of the pages that meet the range from `offset` to `stop`, in increasing order. -/
def pages (pageSize offset stop : Nat) : List Nat :=
  if stop ≤ offset then []
  else List.range' (offset / pageSize) ((stop - 1) / pageSize + 1 - offset / pageSize)

/-- Walks over pages from `offset` on, up to the first one that stops the walk: the bytes of the
range before that page, and why it stopped if it did. -/
def walk (pageSize stop : Nat) : (offset : Nat) → List Nat → Bytes × Option StopCause
  | _, [] => ([], none)
  | offset, page :: pages =>
    if Call.pageLimit ≤ page then ([], some (.offsetOutOfRange offset b.size))
    else
      match b.fetch pageSize page with
      | .error cause => ([], some cause)
      | .ok bytes =>
        let piece := (bytes.drop (offset - page * pageSize)).take (stop - offset)
        let (rest, cause) := walk pageSize stop (offset + piece.length) pages
        (piece ++ rest, cause)

/-- Reads up to `count` bytes of an object, as far as it goes. -/
def read (pageSize : Nat) (offset : Int) (count : Nat) : Bytes × Option StopCause :=
  if offset < 0 then ([], some (.offsetOutOfRange offset b.size))
  else if b.size ≤ offset then ([], none)
  else
    let first := offset.toNat
    let stop := first + min count (b.size - first)
    b.walk pageSize stop first (pages pageSize first stop)

/-- A page that was fetched is full or reaches the end of the object. -/
theorem fetch_eq_ok {b : Backing} {pageSize page : Nat} {bytes : Bytes}
    (h : b.fetch pageSize page = .ok bytes) :
    bytes.length ≤ pageSize ∧
      (bytes.length < pageSize → b.size ≤ page * pageSize + bytes.length) := by
  unfold fetch at h
  split at h
  · exact absurd h (by simp)
  · rename_i found hanswer
    split at h
    · exact absurd h (by simp)
    · rename_i hshort
      obtain rfl := Except.ok.inj h
      refine ⟨b.source.length_le _ _ _ hanswer, ?_⟩
      intro hlt
      exact Nat.le_of_not_lt fun hend => hshort ⟨hlt, hend⟩

/-! ## Pages of a range -/

theorem pages_eq_nil {pageSize offset stop : Nat} (h : stop ≤ offset) :
    pages pageSize offset stop = [] := if_pos h

/-- The pages of a range are the page of its start and those of the rest. -/
theorem pages_eq_cons {pageSize offset stop : Nat} (hpositive : 0 < pageSize)
    (h : offset < stop) :
    pages pageSize offset stop = offset / pageSize ::
      pages pageSize (offset + min (stop - offset) (pageSize - offset % pageSize)) stop := by
  have hsplit := Nat.div_add_mod offset pageSize
  have hmod := Nat.mod_lt offset hpositive
  have hcomm : offset / pageSize * pageSize = pageSize * (offset / pageSize) := Nat.mul_comm _ _
  rw [pages, if_neg (Nat.not_le.2 h)]
  by_cases hlast : stop - offset ≤ pageSize - offset % pageSize
  · -- The range ends in the page of its start.
    have hnumber : (stop - 1) / pageSize = offset / pageSize := by
      apply Nat.div_eq_of_lt_le
      · omega
      · rw [Nat.succ_mul]
        omega
    rw [Nat.min_eq_left hlast, pages_eq_nil (by omega), hnumber, Nat.add_sub_cancel_left]
    rfl
  · have hnext : offset + (pageSize - offset % pageSize) = (offset / pageSize + 1) * pageSize := by
      rw [Nat.succ_mul]
      omega
    rw [Nat.min_eq_right (by omega), hnext, pages, if_neg (by omega),
      Nat.mul_div_cancel _ hpositive]
    have hle : offset / pageSize + 1 ≤ (stop - 1) / pageSize := by
      rw [Nat.le_div_iff_mul_le hpositive]
      omega
    have hcount : (stop - 1) / pageSize + 1 - offset / pageSize
        = ((stop - 1) / pageSize + 1 - (offset / pageSize + 1)) + 1 := by omega
    rw [hcount, List.range'_succ]

end Backing

/-! ## The contract of fixed sources -/

/-- Pages hold what fetching them gives, and a read stops where there is no page to be had. -/
def Contract.fixed (objects : UInt32 → Backing) (pageSize : Nat) : Contract where
  pageSize := pageSize
  good key page := (objects key.object).fetch pageSize key.page.toNat = .ok page
  stops view offset cause :=
    (Call.pageLimit ≤ offset / pageSize ∧ cause = .offsetOutOfRange offset view.size) ∨
      (offset / pageSize < Call.pageLimit ∧
        (objects view.object).fetch pageSize (offset / pageSize) = .error cause)
  stops_unnamed _ _ h := .inl ⟨h, rfl⟩

variable {objects : UInt32 → Backing} {pageSize : Nat}

/-- A walk over pages of fixed sources is the walk without a cache. -/
theorem Contract.Walk.eq_walk {view : View} {stop offset : Nat} {bytes : Bytes}
    {cause : Option StopCause} (h : (fixed objects pageSize).Walk view stop offset bytes cause)
    (hpositive : 0 < pageSize) (hsize : view.size = (objects view.object).size)
    (hstop : stop ≤ view.size) :
    (objects view.object).walk pageSize stop offset (Backing.pages pageSize offset stop)
      = (bytes, cause) := by
  induction h with
  | done hdone => rw [Backing.pages_eq_nil hdone, Backing.walk]
  | halt hoffset hstops =>
    rw [Backing.pages_eq_cons hpositive hoffset, Backing.walk]
    obtain ⟨hlimit, rfl⟩ | ⟨hlimit, herror⟩ := hstops
    · rw [if_pos hlimit, hsize]
    · rw [if_neg (Nat.not_le.2 hlimit), herror]
  | @page offset page rest cause hoffset hnumber hgood _ ih =>
    have hid : (offset / pageSize).toUInt32.toNat = offset / pageSize :=
      Call.toNat_toUInt32 hnumber
    have hfetch : (objects view.object).fetch pageSize (offset / pageSize) = .ok page := by
      rw [← hid]
      exact hgood
    obtain ⟨hlength, hreaches⟩ := Backing.fetch_eq_ok hfetch
    have hsplit := Nat.div_add_mod offset pageSize
    have hmod := Nat.mod_lt offset hpositive
    have hcomm : offset / pageSize * pageSize = pageSize * (offset / pageSize) := Nat.mul_comm _ _
    have hintra : offset - offset / pageSize * pageSize = offset % pageSize := by omega
    have hsame : (fixed objects pageSize).pageSize = pageSize := rfl
    have hwant : (fixed objects pageSize).want offset stop
        = min (stop - offset) (pageSize - offset % pageSize) := rfl
    rw [hsame] at hnumber
    rw [hwant] at ih
    rw [hsame, hwant]
    -- An accepted page has all that the range wants from it.
    have hwithin : offset % pageSize + min (stop - offset) (pageSize - offset % pageSize)
        ≤ page.length := by
      by_cases hfull : page.length < pageSize
      · have hend := hreaches hfull
        omega
      · omega
    have hpiece : (page.drop (offset % pageSize)).take (stop - offset)
        = Bytes.window page (offset % pageSize)
          (min (stop - offset) (pageSize - offset % pageSize)) := by
      rw [Bytes.window_eq hwithin, List.take_eq_take_iff, List.length_drop]
      omega
    rw [Backing.pages_eq_cons hpositive hoffset, Backing.walk, if_neg (Nat.not_le.2 hnumber),
      hfetch]
    dsimp only
    rw [hintra, hpiece, Bytes.length_window, ih]

/-- What a request to an object with a fixed source may be served with is what reading without a
cache gives. -/
theorem Contract.Serves.eq_read {r : Request} {bytes : Bytes} {cause : Option StopCause}
    (h : (fixed objects pageSize).Serves r bytes cause) (hpositive : 0 < pageSize)
    (hsize : r.view.size = (objects r.view.object).size) :
    (objects r.view.object).read pageSize r.offset r.buffer.length = (bytes, cause) := by
  unfold Serves at h
  unfold Backing.read
  split at h
  · rename_i hnegative
    obtain ⟨rfl, rfl⟩ := h
    rw [if_pos hnegative, hsize]
  · rename_i hnegative
    rw [if_neg hnegative]
    split
    · rename_i hpast
      -- Nothing is left to walk over.
      cases h with
      | done _ => rfl
      | halt hlt _ => omega
      | page hlt _ _ _ => omega
    · rename_i hinside
      have hstop : min (r.offset.toNat + r.buffer.length) r.view.size
          = r.offset.toNat
            + min r.buffer.length ((objects r.view.object).size - r.offset.toNat) := by omega
      rw [hstop] at h
      exact h.eq_walk hpositive hsize (by omega)

/-! ## Reads through a cache -/

/-- The reader of an object, through a cache that nobody else uses at the time. -/
def Backing.reader (objects : UInt32 → Backing) (object : UInt32) : Reader (StateM Cache) where
  view := ⟨object, (objects object).size⟩
  host := .alone
  backing := fun offset buffer => pure ((objects object).source.transfer offset buffer)

/-- The caches that a new one comes to by reads of any objects, one after the other. -/
inductive Backing.Served (objects : UInt32 → Backing) (start : Cache) : Cache → Prop
  | start : Served objects start start
  | read {cache : Cache} (object : UInt32) (offset : Int) (buffer : Bytes) :
    Served objects start cache →
    Served objects start ((reader objects object).readAt offset buffer cache).2

/-- The answers of a fixed source are within the contract. -/
theorem Contract.accepts_fixed {object : UInt32} {offset : Int} {buffer : Bytes} {c : Call}
    {slot : Slot}
    (h : (fixed objects pageSize).Follows ⟨⟨object, (objects object).size⟩, offset, buffer⟩ c)
    (hphase : c.phase = .fetch slot) :
    (fixed objects pageSize).Accepts c ((objects object).source.transfer c.pageStart c.frame) := by
  have hpending := h.pending (by rw [Call.active, hphase])
  have hlength := h.sound.length_frame
  have hsize : c.pageSize = pageSize := h.pageSize_eq
  have hview : c.view = ⟨object, (objects object).size⟩ := h.view_eq
  have hnumber : c.page = c.offset / pageSize := by rw [c.page_eq, hsize]
  have hstart : c.pageStart = c.page * pageSize := by rw [c.pageStart_eq, hsize]
  have hlimit : c.offset / pageSize < Call.pageLimit := hnumber ▸ hpending.2.1
  unfold Accepts FixedSource.transfer
  rw [hlength, hsize, hstart]
  cases hanswer : (objects object).source.answer (c.page * pageSize) pageSize with
  | error error =>
    refine .inr ⟨hlimit, ?_⟩
    rw [hview, ← hnumber, Backing.fetch, hanswer]
  | ok bytes =>
    have hle := (objects object).source.length_le _ _ _ hanswer
    refine ⟨hle, ?_⟩
    rw [hview]
    split
    · rename_i hshort
      refine .inr ⟨hlimit, ?_⟩
      rw [← hnumber, Backing.fetch, hanswer]
      exact if_pos hshort
    · rename_i hfull
      -- Whatever the source leaves behind the bytes it read, these are what is published.
      have hwritten : (c.frame.overlay (bytes ++ (objects object).source.residue (c.page * pageSize)
          c.frame)).take bytes.length = bytes := by
        rw [Bytes.take_overlay (by omega) (by rw [List.length_append]; omega)]
        exact List.take_left' rfl
      show (objects c.view.object).fetch pageSize c.key.page.toNat = _
      rw [hview, Call.toNat_page_key hpending.2.1, hwritten, Backing.fetch, hanswer]
      exact if_neg hfull

/-- A read of which every answer to a fetch is within the contract delivers what its request may be
served with, and the cache goes on keeping good pages. -/
theorem Contract.readAt_serves {K : Contract} {cache : Cache} {r : Request}
    (answer : Nat → Bytes → Transfer)
    (haccepts : ∀ c slot, K.Follows r c → c.phase = .fetch slot →
      K.Accepts c (answer c.pageStart c.frame))
    (hcache : cache.Keeps K.good fun _ => []) (hsize : cache.geometry.pageSize = K.pageSize)
    (hpages : 1 ≤ cache.geometry.pagesPerBucket) :
    let reader : Reader (StateM Cache) :=
      ⟨r.view, .alone, fun offset buffer => pure (answer offset buffer)⟩
    let result := reader.readAt r.offset r.buffer cache
    (∃ bytes cause, K.Serves r bytes cause ∧
      result.1.outcome = .ofDelivery bytes.length cause ∧
      result.1.buffer.take bytes.length = bytes ∧
      result.1.buffer.length = r.buffer.length) ∧
    result.2.Keeps K.good (fun _ => []) ∧ result.2.geometry = cache.geometry := by
  intro reader result
  -- The read is a run of a call and nothing else.
  obtain ⟨ended, hended⟩ : ∃ ended, Call.run .alone reader.backing
      (.start r.view cache.geometry.pageShift r.offset r.buffer) cache = ended := ⟨_, rfl⟩
  have hresult : result = (⟨ended.1.outcome, ended.1.destination.contents⟩, ended.2) := by
    rw [← hended]
    rfl
  obtain ⟨hfollows, hinactive, hkept, hgeometry⟩ : K.Follows r ended.1 ∧ ended.1.active = false ∧
      ended.2.Keeps K.good (fun _ => []) ∧ ended.2.geometry = cache.geometry := by
    rw [← hended]
    exact Contract.Follows.run answer haccepts hcache hsize hpages
  obtain ⟨cause, hserves, houtcome⟩ := hfollows.exists_cause hinactive
  have hcopied : ended.1.destination.copied = ended.1.destination.behind.reverse.length :=
    List.length_reverse.symm
  rw [hresult]
  refine ⟨⟨_, cause, hserves, ?_, ?_, hfollows.length_eq⟩, hkept, hgeometry⟩
  · rw [houtcome, hcopied]
  · rw [← hcopied]
    exact Destination.take_copied_contents _

/-- A read through a cache that keeps the pages of fixed sources has the outcome of a read without
a cache and delivers its bytes, and the cache goes on keeping such pages. -/
theorem Backing.readAt_eq {cache : Cache}
    (hcache : cache.Keeps (Contract.fixed objects cache.geometry.pageSize).good fun _ => [])
    (hpages : 1 ≤ cache.geometry.pagesPerBucket) (object : UInt32) (offset : Int)
    (buffer : Bytes) :
    let expected := (objects object).read cache.geometry.pageSize offset buffer.length
    let result := (reader objects object).readAt offset buffer cache
    result.1.outcome = .ofDelivery expected.1.length expected.2 ∧
      result.1.buffer.take expected.1.length = expected.1 ∧
      result.1.buffer.length = buffer.length ∧
      (expected.2 = none → (expected.1.length : Int)
        = min (buffer.length : Int) (max ((objects object).size - offset) 0)) ∧
      result.2.Keeps (Contract.fixed objects cache.geometry.pageSize).good (fun _ => []) ∧
      result.2.geometry = cache.geometry := by
  intro expected result
  have hpositive := cache.geometry.pageSize_pos
  obtain ⟨⟨bytes, cause, hserves, houtcome, hbytes, hlength⟩, hkept, hgeometry⟩ :=
    Contract.readAt_serves (K := .fixed objects cache.geometry.pageSize)
      (r := ⟨⟨object, (objects object).size⟩, offset, buffer⟩) (objects object).source.transfer
      (fun _ _ => Contract.accepts_fixed) hcache rfl hpages
  have hexpected : expected = (bytes, cause) := hserves.eq_read hpositive rfl
  rw [hexpected]
  exact ⟨houtcome, hbytes, hlength, (hserves.length_le hpositive).2, hkept, hgeometry⟩

/-- Every cache that reads of fixed sources lead to keeps their pages. -/
theorem Backing.Served.keeps {g : Geometry} {seed : UInt64} {cache : Cache}
    (h : Served objects (.ofGeometry g seed) cache) (hpages : 1 ≤ g.pagesPerBucket) :
    cache.Keeps (Contract.fixed objects g.pageSize).good (fun _ => []) ∧ cache.geometry = g := by
  induction h with
  | start => exact ⟨Cache.keeps_ofGeometry g seed, rfl⟩
  | @read cache object offset buffer _ ih =>
    obtain ⟨hkeeps, rfl⟩ := ih
    obtain ⟨-, -, -, -, hkept, hgeometry⟩ := readAt_eq hkeeps hpages object offset buffer
    exact ⟨hkept, hgeometry⟩

/-- Whatever reads a cache has served, the next one ends as if there were no cache, with the same
count or the same error after as many bytes, and delivers the same bytes; if nothing stops it, these
are all that was asked for and is there. -/
theorem reads_transparent {config : Config} {seed : UInt64} {start cache : Cache}
    (hstart : Cache.ofConfig config seed = .ok start) (objects : UInt32 → Backing)
    (hserved : Backing.Served objects start cache) (object : UInt32) (offset : Int)
    (buffer : Bytes) :
    let expected := (objects object).read start.geometry.pageSize offset buffer.length
    let result := ((Backing.reader objects object).readAt offset buffer cache).1
    result.outcome = .ofDelivery expected.1.length expected.2 ∧
      result.buffer.take expected.1.length = expected.1 ∧
      result.buffer.length = buffer.length ∧
      (expected.2 = none → (expected.1.length : Int)
        = min (buffer.length : Int) (max ((objects object).size - offset) 0)) := by
  obtain ⟨g, hg, rfl⟩ := Cache.eq_of_ofConfig_eq_ok hstart
  have hpages : 1 ≤ g.pagesPerBucket := (Config.pagesPerBucket_of_geometry_eq_ok hg).1
  obtain ⟨hkeeps, rfl⟩ := hserved.keeps hpages
  obtain ⟨houtcome, hbytes, hlength, hall, -⟩ :=
    Backing.readAt_eq hkeeps hpages object offset buffer
  exact ⟨houtcome, hbytes, hlength, hall⟩

/-- Three bytes of which a source can give the first two only. -/
def Backing.cut : Backing where
  size := 3
  source := {
    answer offset count := if offset = 0 then .ok ([1, 2].take count) else .error ⟨.timedOut, none⟩
    length_le offset count bytes h := by
      split at h
      · obtain rfl := Except.ok.inj h
        exact List.length_take_le ..
      · exact absurd h (by simp) }

/-- With pages of two bytes, a read that starts in the first page delivers its end and the error of
the second one, also when the first is resident already. -/
theorem reads_transparent_up_to_failed_page :
    ∃ start cache, Cache.ofConfig ⟨2, 1⟩ 7 = .ok start ∧
      Backing.Served (fun _ => .cut) start cache ∧
      let result := ((Backing.reader (fun _ => .cut) 5).readAt 1 [0, 0, 0] cache).1
      result.outcome = .stopped ⟨1, .io ⟨.timedOut, none⟩⟩ ∧ result.buffer.take 1 = [2] := by
  have hstart : Cache.ofConfig ⟨2, 1⟩ 7 = .ok (.ofGeometry ⟨1, 64⟩ 7) := rfl
  have hserved : Backing.Served (fun _ => .cut) (.ofGeometry ⟨1, 64⟩ 7) _ :=
    .read 5 1 [0, 0, 0] .start
  obtain ⟨houtcome, hbytes, -⟩ := reads_transparent hstart (fun _ => .cut) hserved 5 1 [0, 0, 0]
  have hread : Backing.cut.read 2 1 3 = ([2], some (.io ⟨.timedOut, none⟩)) := rfl
  exact ⟨_, _, hstart, hserved, houtcome, hbytes⟩

end ReadThrough
