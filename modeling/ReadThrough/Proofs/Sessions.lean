import ReadThrough.Proofs.CacheOrder
import ReadThrough.Proofs.Exhaustion
import ReadThrough.Proofs.Transparency

/-!
# Sessions

A session is a list of reads, one after the other, on a cache that nobody else uses. `Errand` is one
of them with all that its source answers, `Errand.run` performs it, `Errand.deeds` is the log of
what it does and `Errand.visits` the pages that the log tells of; `runAll`, `deedsAll` and
`visitsAll` do the same for a session. The sources are asked for the pages of the visits that were
no hits (`Errand.asks_deedsAll`), and a session in which no source breaks off leads the cache
through its visits (`Errand.goesThrough_runAll`). Which pages these are can be told without the
cache: the pages of all ranges if every page is delivered (`Errand.keys_visitsAll`), and with fixed
sources those up to the first of each range that cannot be fetched (`Backing.visitsAll_errands`).
-/

namespace ReadThrough

/-- The position where the range of a read ends within its view. -/
def Request.stop (r : Request) : Nat := min (r.offset.toNat + r.buffer.length) r.view.size

/-- The pages of the range of a read in order, up to the first one that has no number. -/
def Request.pages (r : Request) (pageSize : Nat) : List PageKey :=
  if r.offset < 0 then []
  else ((Backing.pages pageSize r.offset.toNat r.stop).takeWhile (· < Call.pageLimit)).map
    fun page => ⟨r.view.object, page.toUInt32⟩

/-- A read and the answers of its source. A read asks for no page twice, so a function of the
position stands for any source, also for one whose answers to other reads differ. -/
structure Errand where
  request : Request
  answer : Nat → Bytes → Transfer

namespace Errand

/-! ## Reads one after the other -/

/-- The reader that the read is made with. -/
def reader (e : Errand) : Reader (StateM Cache) where
  view := e.request.view
  host := .alone
  backing := fun offset buffer => pure (e.answer offset buffer)

/-- How the read ends and what it makes of the cache. -/
def run (e : Errand) (cache : Cache) : ReadResult × Cache :=
  e.reader.readAt e.request.offset e.request.buffer cache

/-- The call that makes the read, before its first step. -/
def started (e : Errand) (cache : Cache) : Call :=
  .start e.request.view cache.geometry.pageShift e.request.offset e.request.buffer

/-- The log of the read. -/
def deeds (e : Errand) (cache : Cache) : List Deed :=
  e.request.deeds .whole (fun offset buffer => pure (e.answer offset buffer)) cache

/-- The pages that the read visits. -/
def visits (e : Errand) (cache : Cache) : List Visit := Visit.ofDeeds (e.deeds cache)

/-- What a session makes of the cache. -/
def runAll (session : List Errand) (cache : Cache) : Cache :=
  session.foldl (fun cache e => (e.run cache).2) cache

/-- The log of a session. -/
def deedsAll : List Errand → Cache → List Deed
  | [], _ => []
  | e :: session, cache => e.deeds cache ++ deedsAll session (e.run cache).2

/-- The pages that a session visits, in order. -/
def visitsAll : List Errand → Cache → List Visit
  | [], _ => []
  | e :: session, cache => e.visits cache ++ visitsAll session (e.run cache).2

/-- A read at a place, with a source that leaves the cache there alone, does what it does on the
cache alone. -/
theorem readAt_of_quiet {σ : Type} {p : Place σ} {source : Source (StateM σ)} {e : Errand}
    (h : p.Quiet source e.answer) (s : σ) :
    let ended := (p.reader e.request.view source).readAt e.request.offset e.request.buffer s
    ended.1 = (e.run (p.get s)).1 ∧ p.get ended.2 = (e.run (p.get s)).2 ∧
      e.request.deeds p source s = e.deeds (p.get s) := by
  obtain ⟨hcall, hcache, hdeeds⟩ := h.runFor_eq (e.started (p.get s)).stepBound
    (e.started (p.get s)) s
  rw [p.readAt_reader]
  exact ⟨congrArg (fun c => (⟨c.outcome, c.destination.contents⟩ : ReadResult)) hcall, hcache,
    hdeeds⟩

/-! ## Reads as turns -/

variable {K : Contract} {lossy : Prop} {e : Errand} {cache : Cache}

/-- A read is the turns at the pages that it visits, and ends as its last call did. Its source is
asked for the pages of the visits. -/
theorem exists_turns (hadmits : K.Admits lossy e.request e.answer)
    (hkeeps : cache.Keeps K.good fun _ => [])
    (hsize : 1 <<< cache.geometry.pageShift = K.pageSize)
    (hpages : 1 ≤ cache.geometry.pagesPerBucket) :
    (∃ last, Turns K lossy e.answer (e.started cache) cache (e.visits cache) last
      (e.run cache).2 ∧ (e.run cache).1.outcome = last.outcome) ∧
    asksOf (e.deeds cache) = (e.visits cache).filterMap (·.ask? K.pageSize) := by
  have hstart : K.Hosts e.request (fun _ => []) (e.started cache) cache :=
    ⟨.start e.request hsize,
      (Contract.keeps_iff_of_slot?_eq_none (Call.slot?_start ..)).2 hkeeps, hsize⟩
  obtain ⟨hturns, hasks⟩ :=
    hstart.turns hadmits (Call.rank_start_le ..) hpages (Call.phase_start _ _ _ _)
  exact ⟨⟨_, hturns, rfl⟩, hasks⟩

/-- Of the answer to a fetch either any bytes are taken, or the call is abandoned. -/
theorem admits_anyBytes (r : Request) (answer : Nat → Bytes → Transfer) (pageSize : Nat) :
    (Contract.anyBytes pageSize True).Admits True r answer := by
  intro c slot hfollows hphase
  obtain ⟨ahead, scratch, hframe⟩ :=
    c.setFrame_eq (c.frame.overlay (answer c.pageStart c.frame).written)
  unfold Contract.Accepts Call.answered Call.receive
  rw [hphase]
  dsimp only
  rw [hframe]
  cases hreply : (answer c.pageStart c.frame).reply with
  | failed error => exact .inl fun _ => trivial
  | abandoned => exact .inr ⟨trivial, rfl⟩
  | count n =>
    by_cases hle : n ≤ c.pageSize
    · refine .inl ⟨hle, ?_⟩
      split
      · exact fun _ => trivial
      · trivial
    · refine .inr ⟨trivial, ?_⟩
      dsimp only
      split
      · rfl
      · rename_i hnot
        exact absurd (Nat.lt_of_not_le hle) hnot

/-- A read in which no slot is lost leads the cache through its visits. -/
theorem goesThrough_run (hidle : cache.Idle) (hpages : 1 ≤ cache.geometry.pagesPerBucket)
    (hkept : ∀ v ∈ e.visits cache, v.result ≠ .abandoned) :
    cache.GoesThrough (e.visits cache) (e.run cache).2 := by
  -- Nothing is known of the pages here, so any bytes are good for them.
  obtain ⟨⟨last, hturns, -⟩, -⟩ :=
    exists_turns (admits_anyBytes e.request e.answer (1 <<< cache.geometry.pageShift)) hidle rfl
      hpages
  exact hturns.goesThrough hidle hpages hkept

theorem goesThrough_runAll (session : List Errand) (hidle : cache.Idle)
    (hpages : 1 ≤ cache.geometry.pagesPerBucket)
    (hkept : ∀ v ∈ visitsAll session cache, v.result ≠ .abandoned) :
    cache.GoesThrough (visitsAll session cache) (runAll session cache) := by
  induction session generalizing cache with
  | nil => exact .nil hidle
  | cons e session ih =>
    rw [visitsAll] at hkept ⊢
    have hfirst := goesThrough_run hidle hpages
      fun v hv => hkept v (List.mem_append_left _ hv)
    have hrest := ih hfirst.idle (by rw [hfirst.geometry_eq]; exact hpages)
      fun v hv => hkept v (List.mem_append_right _ hv)
    exact hfirst.append hrest

/-- The sources of a session are asked for the pages of the visits. -/
theorem asks_deedsAll (session : List Errand) (hidle : cache.Idle)
    (hpages : 1 ≤ cache.geometry.pagesPerBucket)
    (hkept : ∀ v ∈ visitsAll session cache, v.result ≠ .abandoned) :
    asksOf (deedsAll session cache)
      = (visitsAll session cache).filterMap (·.ask? cache.geometry.pageSize) := by
  induction session generalizing cache with
  | nil => rfl
  | cons e session ih =>
    rw [visitsAll] at hkept ⊢
    have hgoes := goesThrough_run hidle hpages fun v hv => hkept v (List.mem_append_left _ hv)
    have hrest := ih hgoes.idle (by rw [hgoes.geometry_eq]; exact hpages)
      fun v hv => hkept v (List.mem_append_right _ hv)
    obtain ⟨-, hasks⟩ :=
      exists_turns (admits_anyBytes e.request e.answer (1 <<< cache.geometry.pageShift)) hidle rfl
        hpages
    rw [deedsAll, asksOf_append, hasks, hrest, hgoes.geometry_eq, List.filterMap_append]
    rfl

/-- On a new cache the visits of a session are all there is to its orders and counters. -/
theorem replays_runAll (g : Geometry) (seed : UInt64) (session : List Errand)
    (hpages : 1 ≤ g.pagesPerBucket)
    (hkept : ∀ v ∈ visitsAll session (.ofGeometry g seed), v.result ≠ .abandoned) :
    let cache := Cache.ofGeometry g seed
    let visits := visitsAll session cache
    let last := runAll session cache
    Replays cache.shardOf g.pagesPerBucket (fun _ => []) visits last.order ∧
      last.counters.lookups = visits.length ∧
      last.counters.hits = visits.countP (·.result = .hit) := by
  intro cache visits last
  have hgoes : cache.GoesThrough visits last :=
    goesThrough_runAll session (Cache.idle_ofGeometry g seed) hpages hkept
  have hreplays := hgoes.replays
  rw [Cache.order_ofGeometry] at hreplays
  obtain ⟨hlookups, hhits⟩ := Cache.counters_ofGeometry g seed
  refine ⟨hreplays, ?_, ?_⟩
  · rw [hgoes.lookups_eq, hlookups, Nat.zero_add]
  · rw [hgoes.hits_eq, hhits, Nat.zero_add]

end Errand

/-! ## Which pages are visited -/

/-- The pages that a call with a page to visit is going to visit if it gets all of them. -/
def Call.keysAhead (c : Call) : List PageKey :=
  ((Backing.pages c.pageSize c.offset c.stop).takeWhile (· < pageLimit)).map
    fun page => ⟨c.view.object, page.toUInt32⟩

namespace Call

variable {c : Call}

theorem keysAhead_eq_nil (h : c.stop ≤ c.offset ∨ pageLimit ≤ c.page) : c.keysAhead = [] := by
  unfold keysAhead
  by_cases hdone : c.stop ≤ c.offset
  · rw [Backing.pages_eq_nil hdone]
    rfl
  · have hnumber := h.resolve_left hdone
    rw [Backing.pages_eq_cons c.pageSize_pos (Nat.lt_of_not_le hdone), ← c.page_eq,
      List.takeWhile_cons_of_neg (by simpa using hnumber)]
    rfl

/-- A call that moves on and ends with that had no page left to visit. -/
theorem keysAhead_visit (c : Call) :
    (if c.visit.active then c.visit.keysAhead else []) = c.keysAhead := by
  obtain ⟨hdone, heq⟩ | ⟨-, hnumber, heq⟩ | ⟨-, -, heq⟩ := c.visit_cases
  · rw [heq, keysAhead_eq_nil (.inl hdone)]
    rfl
  · rw [heq, keysAhead_eq_nil (.inr hnumber)]
    rfl
  · rw [heq]
    rfl

theorem view_visit (c : Call) : c.visit.view = c.view := by
  obtain ⟨phase, heq⟩ := c.visit_eq
  rw [heq]

section Cons

variable (hoffset : c.offset < c.stop) (hnumber : c.page < pageLimit)

include hoffset hnumber

theorem exists_keysAhead_eq_cons : ∃ keys, c.keysAhead = c.key :: keys := by
  rw [keysAhead, Backing.pages_eq_cons c.pageSize_pos hoffset, ← c.page_eq,
    List.takeWhile_cons_of_pos (by simpa using hnumber)]
  exact ⟨_, rfl⟩

/-- The page at hand comes first, and the others are ahead of the call once it has moved on. -/
theorem keysAhead_eq_cons {moved : Call} (hview : moved.view = c.view)
    (hsize : moved.pageSize = c.pageSize) (hmoved : moved.offset = c.offset + c.want)
    (hstop : moved.stop = c.stop) : c.keysAhead = c.key :: moved.keysAhead := by
  have hwant : c.want = min (c.stop - c.offset) (c.pageSize - c.offset % c.pageSize) := by
    rw [want, c.intra_eq]
  rw [keysAhead, Backing.pages_eq_cons c.pageSize_pos hoffset, ← c.page_eq,
    List.takeWhile_cons_of_pos (by simpa using hnumber), keysAhead, hview, hsize, hmoved, hstop,
    hwant]
  rfl

end Cons

end Call

/-- A call that gets all the pages that it visits visits all that are ahead of it. -/
theorem Turns.keys_eq {K : Contract} {lossy : Prop} {answer : Nat → Bytes → Transfer}
    {c last : Call} {cache cache' : Cache} {visits : List Visit}
    (h : Turns K lossy answer c cache visits last cache')
    (hdelivered : ∀ v ∈ visits, v.delivered = true) :
    visits.map (·.key) = if c.active then c.keysAhead else [] := by
  induction h with
  | ended hended =>
    rw [hended]
    rfl
  | @turn c next last _ _ _ v visits hactive _ hoffset hnumber hturn _ ih =>
    obtain ⟨hfirst, hrest⟩ := List.forall_mem_cons.1 hdelivered
    obtain ⟨moved, hnext, hview, hsize, hmoved, hstop⟩ := hturn.exists_visit hfirst
    rw [hnext, Call.keysAhead_visit] at ih
    rw [if_pos hactive, List.map_cons, ih hrest, hturn.key_eq,
      Call.keysAhead_eq_cons hoffset hnumber hview hsize hmoved hstop]

namespace Errand

/-- Before the first step the pages of the whole range are ahead. -/
theorem keysAhead_started (e : Errand) (cache : Cache) :
    (if (e.started cache).active then (e.started cache).keysAhead else [])
        = e.request.pages cache.geometry.pageSize ∧
      (e.started cache).view = e.request.view := by
  unfold started Call.start Request.pages
  dsimp only
  split
  · exact ⟨rfl, rfl⟩
  · exact ⟨Call.keysAhead_visit _, Call.view_visit _⟩

/-- A read that gets all the pages that it visits visits the pages of its range. -/
theorem keys_visits {e : Errand} {cache : Cache} (hidle : cache.Idle)
    (hpages : 1 ≤ cache.geometry.pagesPerBucket)
    (hdelivered : ∀ v ∈ e.visits cache, v.delivered = true) :
    (e.visits cache).map (·.key) = e.request.pages cache.geometry.pageSize := by
  obtain ⟨⟨last, hturns, -⟩, -⟩ :=
    exists_turns (admits_anyBytes e.request e.answer (1 <<< cache.geometry.pageShift)) hidle rfl
      hpages
  exact (hturns.keys_eq hdelivered).trans (e.keysAhead_started cache).1

theorem keys_visitsAll (session : List Errand) {cache : Cache} (hidle : cache.Idle)
    (hpages : 1 ≤ cache.geometry.pagesPerBucket)
    (hdelivered : ∀ v ∈ visitsAll session cache, v.delivered = true) :
    (visitsAll session cache).map (·.key)
      = session.flatMap (·.request.pages cache.geometry.pageSize) := by
  induction session generalizing cache with
  | nil => rfl
  | cons e session ih =>
    rw [visitsAll] at hdelivered ⊢
    have hfirst : ∀ v ∈ e.visits cache, v.delivered = true :=
      fun v hv => hdelivered v (List.mem_append_left _ hv)
    have hgoes := goesThrough_run hidle hpages
      fun v hv => Visit.ne_abandoned_of_delivered (hfirst v hv)
    have hrest := ih hgoes.idle (by rw [hgoes.geometry_eq]; exact hpages)
      fun v hv => hdelivered v (List.mem_append_right _ hv)
    rw [List.map_append, keys_visits hidle hpages hfirst, hrest, hgoes.geometry_eq,
      List.flatMap_cons]

end Errand

/-! ## Sessions over fixed sources -/

namespace Backing

/-- Of the pages ahead of a read those that it visits, and whether it gets them: all of them, or up
to the first one that cannot be fetched. -/
def itinerary (b : Backing) (pageSize : Nat) : List PageKey → List (PageKey × Bool)
  | [] => []
  | key :: keys =>
    match b.fetch pageSize key.page.toNat with
    | .ok _ => (key, true) :: b.itinerary pageSize keys
    | .error _ => [(key, false)]

/-- A read of an object. -/
def errand (objects : UInt32 → Backing) (object : UInt32) (offset : Int) (buffer : Bytes) :
    Errand where
  request := ⟨⟨object, (objects object).size⟩, offset, buffer⟩
  answer := (objects object).source.transfer

end Backing

section Fixed

variable {objects : UInt32 → Backing} {pageSize : Nat}

/-- Which pages a call visits and gets depends on its range and the sources, not on the cache. -/
theorem Turns.itinerary_eq {answer : Nat → Bytes → Transfer} {c last : Call}
    {cache cache' : Cache} {visits : List Visit}
    (h : Turns (.fixed objects pageSize) False answer c cache visits last cache') :
    visits.map (fun v => (v.key, v.delivered)) = (objects c.view.object).itinerary pageSize
      (if c.active then c.keysAhead else []) := by
  induction h with
  | ended hended =>
    rw [hended]
    rfl
  | @turn c next last _ _ _ v visits hactive hsize hoffset hnumber hturn hturns ih =>
    rw [if_pos hactive, List.map_cons, hturn.key_eq]
    obtain ⟨hdelivered, page, hgood⟩ | ⟨hdelivered, cause, hstops⟩ := hturn.good_or_stops
    · obtain ⟨moved, hnext, hview, hsize', hmoved, hstop⟩ := hturn.exists_visit hdelivered
      have hfetch : (objects c.view.object).fetch pageSize c.key.page.toNat = .ok page := hgood
      rw [hnext, Call.keysAhead_visit, Call.view_visit, hview] at ih
      rw [Call.keysAhead_eq_cons hoffset hnumber hview hsize' hmoved hstop, Backing.itinerary,
        hfetch, hdelivered, ih]
    · have hsize : c.pageSize = pageSize := hsize
      have hpage : c.key.page.toNat = c.offset / pageSize := by
        rw [Call.toNat_page_key hnumber, c.page_eq, hsize]
      have hfetch : (objects c.view.object).fetch pageSize c.key.page.toNat = .error cause := by
        obtain ⟨hunnamed, -⟩ | ⟨-, herror⟩ := hstops
        · rw [c.page_eq, hsize] at hnumber
          exact absurd hunnamed (Nat.not_le.2 hnumber)
        · rw [hpage]
          exact herror
      -- The call has ended, and so does its itinerary, whatever lies ahead.
      obtain ⟨rest, hahead⟩ := Call.exists_keysAhead_eq_cons hoffset hnumber
      rw [hahead, Backing.itinerary, hfetch, hdelivered,
        hturns.visits_of_active_eq_false (hturn.active_eq_false hdelivered)]
      rfl

namespace Backing

/-- Reads of objects, one after the other. -/
def errands (objects : UInt32 → Backing) (reads : List (UInt32 × Int × Bytes)) : List Errand :=
  reads.map fun (object, offset, buffer) => errand objects object offset buffer

/-- The pages that a read of an object visits, and whether it gets them. -/
def itineraryOf (objects : UInt32 → Backing) (pageSize : Nat) (e : Errand) :
    List (PageKey × Bool) :=
  (objects e.request.view.object).itinerary pageSize (e.request.pages pageSize)

variable (objects)

/-- A read of an object visits the pages of its itinerary. -/
theorem visits_errand {cache : Cache}
    (hkeeps : cache.Keeps (Contract.fixed objects cache.geometry.pageSize).good fun _ => [])
    (hpages : 1 ≤ cache.geometry.pagesPerBucket) (object : UInt32) (offset : Int)
    (buffer : Bytes) :
    let e := errand objects object offset buffer
    (e.visits cache).map (fun v => (v.key, v.delivered))
        = itineraryOf objects cache.geometry.pageSize e ∧
      ∀ v ∈ e.visits cache, v.result ≠ .refused ∧ v.result ≠ .abandoned := by
  intro e
  have hadmits : (Contract.fixed objects cache.geometry.pageSize).Admits False e.request e.answer :=
    fun c slot hfollows hphase => .inl (Contract.accepts_fixed hfollows hphase)
  obtain ⟨⟨last, hturns, -⟩, -⟩ := Errand.exists_turns hadmits hkeeps rfl hpages
  obtain ⟨hahead, hview⟩ := e.keysAhead_started cache
  have hfates := hturns.itinerary_eq
  rw [hahead, hview] at hfates
  exact ⟨hfates, hturns.result_ne⟩

/-- Reads of objects visit the pages of their itineraries, whatever the cache holds. -/
theorem visitsAll_errands (reads : List (UInt32 × Int × Bytes)) {cache : Cache}
    (hkeeps : cache.Keeps (Contract.fixed objects cache.geometry.pageSize).good fun _ => [])
    (hpages : 1 ≤ cache.geometry.pagesPerBucket) :
    let visits := Errand.visitsAll (errands objects reads) cache
    visits.map (fun v => (v.key, v.delivered))
        = (errands objects reads).flatMap (itineraryOf objects cache.geometry.pageSize) ∧
      ∀ v ∈ visits, v.result ≠ .refused ∧ v.result ≠ .abandoned := by
  induction reads generalizing cache with
  | nil => exact ⟨rfl, by simp [errands, Errand.visitsAll]⟩
  | cons r reads ih =>
    obtain ⟨object, offset, buffer⟩ := r
    obtain ⟨hfirst, hresults⟩ := visits_errand objects hkeeps hpages object offset buffer
    obtain ⟨-, -, -, -, hkept, hgeometry⟩ := readAt_eq hkeeps hpages object offset buffer
    have hrun : ((reader objects object).readAt offset buffer cache).2
        = ((errand objects object offset buffer).run cache).2 := rfl
    rw [← hgeometry, hrun] at hkept
    rw [hrun] at hgeometry
    obtain ⟨hrest, hresults'⟩ := ih hkept (by rw [hgeometry]; exact hpages)
    rw [hgeometry] at hrest
    have herrands : errands objects ((object, offset, buffer) :: reads)
        = errand objects object offset buffer :: errands objects reads := rfl
    dsimp only
    rw [herrands, Errand.visitsAll, List.map_append, hfirst, hrest, List.flatMap_cons]
    refine ⟨rfl, ?_⟩
    intro v hv
    rcases List.mem_append.1 hv with hv | hv
    · exact hresults v hv
    · exact hresults' v hv

end Backing

end Fixed

end ReadThrough
