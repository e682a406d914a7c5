import Mathlib.Data.List.Nodup
import Mathlib.Logic.Function.Basic
import ReadThrough.Proofs.CallEnd
import ReadThrough.Proofs.Exhaustion
import ReadThrough.Proofs.Interleaving
import ReadThrough.Proofs.Places

/-!
# Towers of readers

A reader is a source, so a reader may read through another one, which may be a view of another
object in the same cache. `Tower.source` is the source at the top of a list of such levels, over a
source that serves a content and may fail now and then. While a level waits for the one below it, it
holds a slot, and the levels below find one more slot taken; what one read of a source keeps of all
caches (`Tower.Answers`) is therefore stated for any slots that are held meanwhile, and goes from
each level to the one above it (`Tower.answers_level`). So every level reads like the content cut to
its size, whatever the page sizes of the caches are, and what it fails with is what the source at
the bottom has failed with (`tower_reads_content`). New caches have nothing to give, so with a
source that always fails a read of any bytes fails (`Tower.Fits.failed_of_new`).
-/

namespace ReadThrough

namespace Content

/-- The first `size` bytes of the content. -/
def cut (c : Content) (size : Nat) : Content := { c with size }

variable {c : Content} {size offset count : Nat}

/-- Within the cut there is no difference. -/
theorem slice_cut (h : offset + count ≤ size) (hsize : size ≤ c.size) :
    (c.cut size).slice offset count = c.slice offset count := by
  have hcut : (c.cut size).size = size := rfl
  rw [slice_eq (Nat.le_trans h hsize), slice_eq (by rw [hcut]; exact h)]
  rfl

end Content

/-! ## Caches side by side -/

/-- Caches, and how many reads were made of the source behind them. -/
structure Rack (n : Nat) where
  caches : Fin n → Cache
  asked : Nat := 0

namespace Rack

variable {n : Nat}

/-- The place of one of the caches. -/
def place (i : Fin n) : Place (Rack n) where
  get s := s.caches i
  set cache s := { s with caches := Function.update s.caches i cache }
  get_set _ _ := Function.update_self ..
  set_get _ := by rw [Function.update_eq_self]
  set_set _ _ _ := by rw [Function.update_idem]

end Rack

/-- A read of the source at the bottom that fails, and what it leaves in its buffer. -/
structure Fault where
  error : IoError
  written : Bytes := []

/-- A view that reads through one of the caches. -/
structure Level (n : Nat) where
  cache : Fin n
  object : UInt32
  size : Nat

/-- The view of a level. -/
def Level.view {n : Nat} (l : Level n) : View := ⟨l.object, l.size⟩

namespace Tower

variable {n : Nat} (content : Content) (faults : Nat → Option Fault)

/-- The source that serves the content, but for those of its reads that fail. -/
def bottom : Source (StateM (Rack n)) := fun offset buffer s =>
  let found := content.slice offset buffer.length
  let transfer : Transfer := match faults s.asked with
    | none => ⟨.count found.length, found⟩
    | some fault => ⟨.failed fault.error, fault.written⟩
  (transfer, { s with asked := s.asked + 1 })

/-- The source at the top of some levels, the topmost one first. -/
def source : List (Level n) → Source (StateM (Rack n))
  | [] => bottom content faults
  | l :: below => ((Rack.place l.cache).reader l.view (source below)).source

/-- The reader of a level that stands on other levels. -/
def reader (l : Level n) (below : List (Level n)) : Reader (StateM (Rack n)) :=
  (Rack.place l.cache).reader l.view (source content faults below)

/-- The size of what a level stands on. -/
def sizeOf : List (Level n) → Nat
  | [] => content.size
  | l :: _ => l.size

/-- New caches may bear the tower: each level is no larger than what it stands on, no two levels are
views of one object in one cache, every page of a level has a number, and no cache has more levels
than slots in a bucket. -/
structure Fits (levels : List (Level n)) (start : Fin n → Cache) : Prop where
  new : ∀ i, ∃ config seed, Cache.ofConfig config seed = .ok (start i)
  descending : levels.Pairwise fun upper lower => upper.size ≤ lower.size
  size_le : ∀ l ∈ levels, l.size ≤ content.size
  distinct : (levels.map fun l => (l.cache, l.object)).Nodup
  named : ∀ l ∈ levels, l.size ≤ Call.pageLimit * (start l.cache).geometry.pageSize
  room : ∀ i, levels.countP (·.cache = i) ≤ (start i).geometry.pagesPerBucket

/-- What the caches come to by reads of any levels, one after the other, be it as readers or as
sources. -/
inductive Reached (levels : List (Level n)) (start : Fin n → Cache) : Rack n → Prop
  | start : Reached levels start { caches := start }
  | readAt {s : Rack n} {l : Level n} {below : List (Level n)} (offset : Int) (buffer : Bytes) :
    Reached levels start s → l :: below <:+ levels →
    Reached levels start ((reader content faults l below).readAt offset buffer s).2
  | source {s : Rack n} {below : List (Level n)} (offset : Nat) (buffer : Bytes) :
    Reached levels start s → below <:+ levels →
    Reached levels start (source content faults below offset buffer s).2

/-! ## Reads of the source at the bottom -/

/-- What became of the reads of the source from one number up to another: all of them went well, or
the last one was the first to fail. -/
def Account (first last : Nat) : Option IoError → Prop
  | none => first ≤ last ∧ ∀ ask, first ≤ ask → ask < last → faults ask = none
  | some error => ∃ ask fault, last = ask + 1 ∧ first ≤ ask ∧ faults ask = some fault ∧
    fault.error = error ∧ ∀ earlier, first ≤ earlier → earlier < ask → faults earlier = none

/-- The answer is that of a content, or it reports the failure. -/
def Truthful (c : Content) (offset : Nat) (buffer : Bytes) (t : Transfer) : Option IoError → Prop
  | none => t.reply = .count (c.slice offset buffer.length).length ∧
    buffer.overlay t.written = buffer.overlay (c.slice offset buffer.length)
  | some error => t.reply = .failed error

variable {content faults}

theorem Account.refl (first : Nat) : Account faults first first none :=
  ⟨Nat.le_refl first, fun _ hge hlt => absurd hge (Nat.not_le.2 hlt)⟩

theorem Account.trans {first mid last : Nat} {failure : Option IoError}
    (h : Account faults first mid none) (h' : Account faults mid last failure) :
    Account faults first last failure := by
  obtain ⟨hle, hgood⟩ := h
  cases failure with
  | none =>
    obtain ⟨hle', hgood'⟩ := h'
    refine ⟨Nat.le_trans hle hle', fun ask hge hlt => ?_⟩
    rcases Nat.lt_or_ge ask mid with hmid | hmid
    · exact hgood ask hge hmid
    · exact hgood' ask hmid hlt
  | some error =>
    obtain ⟨ask, fault, hlast, hge, hfault, herror, hgood'⟩ := h'
    refine ⟨ask, fault, hlast, Nat.le_trans hle hge, hfault, herror, fun earlier hge' hlt => ?_⟩
    rcases Nat.lt_or_ge earlier mid with hmid | hmid
    · exact hgood earlier hge' hmid
    · exact hgood' earlier hmid hlt

end Tower

/-! ## The contracts of the caches -/

namespace Tower

variable {n : Nat} (content : Content) (levels : List (Level n)) (start : Fin n → Cache)

/-- A page of a level holds the content up to the size of the level, and a read stops only because
its source has failed. -/
def contract (i : Fin n) : Contract where
  pageSize := (start i).geometry.pageSize
  good key page := ∀ l ∈ levels, l.cache = i → l.object = key.object →
    ∀ intra count, intra + count ≤ (start i).geometry.pageSize →
      key.page.toNat * (start i).geometry.pageSize + intra + count ≤ l.size →
      Bytes.window page intra count
        = content.slice (key.page.toNat * (start i).geometry.pageSize + intra) count
  stops view offset cause := (∃ error, cause = .io error) ∨
    Call.pageLimit ≤ offset / (start i).geometry.pageSize ∧
      cause = .offsetOutOfRange offset view.size
  stops_unnamed _ _ h := .inr ⟨h, rfl⟩

/-- Every cache keeps good pages, with the slots that are held in its buckets. -/
structure Kept (held : Fin n → Fin Geometry.bucketCount → List Slot) (s : Rack n) : Prop where
  keeps : ∀ i, (s.caches i).Keeps (contract content levels start i).good (held i)
  geometry_eq : ∀ i, (s.caches i).geometry = (start i).geometry
  shardOf_eq : ∀ i, (s.caches i).shardOf = (start i).shardOf

/-- Reads of a source tell the truth about a content unless the source at the bottom fails, and keep
all caches good in which some levels more may take a slot each. -/
def Answers (faults : Nat → Option Fault) (c : Content) (below : List (Level n))
    (source : Source (StateM (Rack n))) : Prop :=
  ∀ (held : Fin n → Fin Geometry.bucketCount → List Slot) (s : Rack n),
    Kept content levels start held s →
    (∀ i shard, (held i shard).length + below.countP (·.cache = i)
      ≤ (start i).geometry.pagesPerBucket) →
    ∀ (offset : Nat) (buffer : Bytes),
      let read := source offset buffer s
      Kept content levels start held read.2 ∧ ∃ failure,
        Account faults s.asked read.2.asked failure ∧
          Truthful c offset buffer read.1 failure

variable {content levels start} {faults : Nat → Option Fault}

theorem answers_bottom :
    Answers content levels start faults content [] (bottom content faults) := by
  intro held s hkept _ offset buffer
  cases hfault : faults s.asked with
  | none =>
    have hread : bottom content faults offset buffer s
        = (⟨.count (content.slice offset buffer.length).length,
          content.slice offset buffer.length⟩, { s with asked := s.asked + 1 }) := by
      simp only [bottom, hfault]
    rw [hread]
    refine ⟨⟨hkept.keeps, hkept.geometry_eq, hkept.shardOf_eq⟩, none, ⟨Nat.le_succ _, ?_⟩, rfl, rfl⟩
    intro ask hge hlt
    obtain rfl : ask = s.asked := by
      dsimp only at hlt
      omega
    exact hfault
  | some fault =>
    have hread : bottom content faults offset buffer s
        = (⟨.failed fault.error, fault.written⟩, { s with asked := s.asked + 1 }) := by
      simp only [bottom, hfault]
    rw [hread]
    refine ⟨⟨hkept.keeps, hkept.geometry_eq, hkept.shardOf_eq⟩, some fault.error, ?_, rfl⟩
    exact ⟨s.asked, fault, rfl, Nat.le_refl _, hfault, rfl,
      fun _ hge hlt => absurd hge (Nat.not_le.2 hlt)⟩

/-! ## One level -/

variable (content levels start) in
/-- A level of the tower that stands on a source of the given size. -/
structure Stands (l : Level n) (size : Nat) : Prop where
  mem : l ∈ levels
  le_size : l.size ≤ size
  size_le : size ≤ content.size
  named : l.size ≤ Call.pageLimit * (start l.cache).geometry.pageSize
  unique : ∀ l' ∈ levels, l'.cache = l.cache → l'.object = l.object → l' = l

section Level

variable {l : Level n} {size : Nat} {r : Request} {c : Call} {slot : Slot} {t : Transfer}
  {failure : Option IoError}

/-- What serves a request in full is what the content cut to the size of the level has there. -/
theorem Stands.eq_slice_of_serves (h : Stands content levels start l size) {offset : Nat}
    {buffer bytes : Bytes}
    (hserves : (contract content levels start l.cache).Serves ⟨l.view, offset, buffer⟩ bytes none) :
    bytes = (content.cut l.size).slice offset buffer.length := by
  have hpositive : 0 < (contract content levels start l.cache).pageSize :=
    (start l.cache).geometry.pageSize_pos
  have hcontent := Nat.le_trans h.le_size h.size_le
  have hlength : (bytes.length : Int) = min (buffer.length : Int) (max (l.size - offset) 0) :=
    (hserves.length_le hpositive).2 rfl
  unfold Contract.Serves at hserves
  rw [if_neg (Int.not_lt.2 (Int.natCast_nonneg offset))] at hserves
  have hslice : bytes = content.slice offset bytes.length := by
    refine (hserves.eq_slice_of_pages hpositive
      fun number page hgood intra count hwithin hend => ?_).2
    have hend' := Nat.le_trans hend (Nat.min_le_right ..)
    exact ⟨Nat.le_trans hend' hcontent, hgood l h.mem rfl rfl intra count hwithin hend'⟩
  have hinside : min bytes.length (content.size - offset)
      = min buffer.length (l.size - offset) := by omega
  rw [hslice, Content.slice, hinside]
  rfl

/-- What a source tells the truth about is no short page for a level that is no larger. -/
theorem Stands.not_short_of_truthful (h : Stands content levels start l size)
    (hview : c.view = l.view) (hframe : c.frame.length = c.pageSize)
    (htruthful : Truthful (content.cut size) c.pageStart c.frame t none) :
    ∃ count, t.reply = .count count ∧ count = min c.pageSize (size - c.pageStart) ∧
      ¬ (count < c.pageSize ∧ c.pageStart + count < c.view.size) := by
  obtain ⟨hreply, -⟩ := htruthful
  have hle := h.le_size
  rw [Content.length_slice, hframe] at hreply
  refine ⟨_, hreply, rfl, ?_⟩
  rintro ⟨hlt, hend⟩
  rw [hview] at hend
  have hlevel : c.pageStart + min c.pageSize (size - c.pageStart) < l.size := hend
  have hlt' : min c.pageSize (size - c.pageStart) < c.pageSize := hlt
  omega

/-- The answers of a source that tells the truth are within the contract of the cache. -/
theorem Stands.accepts_of_truthful (h : Stands content levels start l size)
    (hview : c.view = l.view) (hfollows : (contract content levels start l.cache).Follows r c)
    (hphase : c.phase = .fetch slot)
    (htruthful : Truthful (content.cut size) c.pageStart c.frame t failure) :
    (contract content levels start l.cache).Accepts c t := by
  have hframe := hfollows.sound.length_frame
  unfold Contract.Accepts
  cases failure with
  | some error =>
    rw [show t.reply = .failed error from htruthful]
    exact .inl ⟨error, rfl⟩
  | none =>
    obtain ⟨count, hreply, hcount, hfull⟩ := h.not_short_of_truthful hview hframe htruthful
    have hle : count ≤ c.pageSize := hcount ▸ Nat.min_le_left ..
    rw [hreply]
    refine ⟨hle, ?_⟩
    rw [if_neg hfull]
    intro l' hl' hcache hobject intra wanted hwithin hend
    obtain rfl := h.unique l' hl' hcache (hobject.trans (congrArg View.object hview))
    -- the published bytes are what the source has of the page
    have hpending := hfollows.pending (by rw [Call.active, hphase])
    have hpage : c.pageSize = (start l'.cache).geometry.pageSize := hfollows.pageSize_eq
    have hstart : c.key.page.toNat * (start l'.cache).geometry.pageSize = c.pageStart := by
      rw [Call.toNat_page_key hpending.2.1, c.pageStart_eq, hpage]
    have hlength : ((content.cut size).slice c.pageStart c.frame.length).length = count := by
      rw [Content.length_slice, hframe, hcount]
      rfl
    have hfound : (c.frame.overlay t.written).take count
        = (content.cut size).slice c.pageStart c.pageSize := by
      rw [htruthful.2, Bytes.overlay_of_length_le (by omega), List.take_left' hlength, hframe]
    rw [hstart] at hend ⊢
    rw [← hpage] at hwithin
    have hend' : c.pageStart + intra + wanted ≤ size := Nat.le_trans hend h.le_size
    rw [hfound, Content.window_slice hwithin hend', Content.slice_cut hend' h.size_le]

variable (content levels start faults) in
/-- A read through a level that was begun when the source at the bottom had been read `first` times
and some slots were held by others. -/
structure Underway (l : Level n) (held : Fin n → Fin Geometry.bucketCount → List Slot)
    (r : Request) (first : Nat) (c : Call) (s : Rack n) : Prop where
  hosts : (contract content levels start l.cache).Hosts r (held l.cache) c (s.caches l.cache)
  keeps : ∀ i, i ≠ l.cache → (s.caches i).Keeps (contract content levels start i).good (held i)
  geometry_eq : ∀ i, (s.caches i).geometry = (start i).geometry
  shardOf_eq : ∀ i, (s.caches i).shardOf = (start i).shardOf
  spared : c.spared = r.buffer.drop (min r.buffer.length (r.view.size - r.offset.toNat))
  account : ∃ failure, Account faults first s.asked failure ∧ c.failure? = failure.map .io

variable {held : Fin n → Fin Geometry.bucketCount → List Slot} {first : Nat} {s : Rack n}

/-- All pages of a call's range have numbers if those of its level have. -/
theorem Underway.named (h : Underway content levels start faults l held r first c s)
    (hview : r.view = l.view)
    (hnamed : l.size ≤ Call.pageLimit * (start l.cache).geometry.pageSize) :
    c.stop ≤ Call.pageLimit * c.pageSize := by
  have hstop := h.hosts.follows.sound.stop_le
  have hpage : c.pageSize = (start l.cache).geometry.pageSize := h.hosts.follows.pageSize_eq
  rw [h.hosts.follows.view_eq, hview] at hstop
  rw [hpage]
  exact Nat.le_trans hstop hnamed

theorem Underway.touch (h : Underway content levels start faults l held r first c s)
    (hview : r.view = l.view)
    (hnamed : l.size ≤ Call.pageLimit * (start l.cache).geometry.pageSize)
    (hroom : ∀ shard, (held l.cache shard).length < (start l.cache).geometry.pagesPerBucket) :
    Underway content levels start faults l held r first (c.touch (s.caches l.cache)).1.1
      ((Rack.place l.cache).set (c.touch (s.caches l.cache)).2 s) := by
  obtain ⟨hgeometry, hshardOf⟩ := Contract.geometry_touch c (s.caches l.cache)
  have hslot : c.phase = .acquire → ((s.caches l.cache).acquire c.key).1.slot? ≠ none := by
    intro hphase hnone
    have hkeeps := (Contract.keeps_iff_of_slot?_eq_none (by rw [Call.slot?, hphase])).1
      h.hosts.keeps
    have hfull := (hkeeps.bucket _).owned.length_of_acquire_eq_none hnone
    rw [(hkeeps.shape _).1, h.geometry_eq] at hfull
    exact absurd hfull (Nat.ne_of_lt (hroom _))
  have hcaches (i : Fin n) :
      ((Rack.place l.cache).set (c.touch (s.caches l.cache)).2 s).caches i
        = if i = l.cache then (c.touch (s.caches l.cache)).2 else s.caches i :=
    Function.update_apply ..
  constructor
  · rw [hcaches, if_pos rfl]
    exact h.hosts.touch fun hphase hnone => absurd hnone (hslot hphase)
  · intro i hi
    rw [hcaches, if_neg hi]
    exact h.keeps i hi
  · intro i
    rw [hcaches]
    split
    · rename_i hi
      rw [hgeometry, h.geometry_eq, hi]
    · exact h.geometry_eq i
  · intro i
    rw [hcaches]
    split
    · rename_i hi
      rw [hshardOf, h.shardOf_eq, hi]
    · exact h.shardOf_eq i
  · exact h.hosts.spared_touch.trans h.spared
  · obtain ⟨failure, haccount, hfailure⟩ := h.account
    exact ⟨failure, haccount, (Call.failure?_touch (h.named hview hnamed) hslot).trans hfailure⟩

/-- The slots that are held while a level waits for its source: one more than before. -/
def heldWith (l : Level n) (held : Fin n → Fin Geometry.bucketCount → List Slot) (c : Call)
    (s : Rack n) : Fin n → Fin Geometry.bucketCount → List Slot :=
  Function.update held l.cache fun shard =>
    (s.caches l.cache).slotsOf c shard ++ held l.cache shard

theorem Underway.kept (h : Underway content levels start faults l held r first c s) :
    Kept content levels start (heldWith l held c s) s := by
  refine ⟨fun i => ?_, h.geometry_eq, h.shardOf_eq⟩
  by_cases hi : i = l.cache
  · subst hi
    rw [heldWith, Function.update_self]
    exact h.hosts.keeps
  · rw [heldWith, Function.update_of_ne hi]
    exact h.keeps i hi

/-- A level takes one slot at a time, so there is room for the levels below it. -/
theorem length_heldWith_le {below : List (Level n)}
    (hroom : ∀ i shard, (held i shard).length + (l :: below).countP (·.cache = i)
      ≤ (start i).geometry.pagesPerBucket) (c : Call) (s : Rack n) (i : Fin n)
    (shard : Fin Geometry.bucketCount) :
    (heldWith l held c s i shard).length + below.countP (·.cache = i)
      ≤ (start i).geometry.pagesPerBucket := by
  have hle := hroom i shard
  rw [List.countP_cons] at hle
  by_cases hi : i = l.cache
  · subst hi
    have hone := (s.caches l.cache).length_slotsOf_le c shard
    have hbool : c.active.toNat ≤ 1 := Bool.toNat_le c.active
    rw [heldWith, Function.update_self, List.length_append]
    simp only [decide_true, if_true] at hle
    omega
  · rw [heldWith, Function.update_of_ne hi]
    omega

/-- No slot is held and nothing has failed when a read begins. -/
theorem Kept.underway (hkept : Kept content levels start held s)
    (hnamed : l.size ≤ Call.pageLimit * (start l.cache).geometry.pageSize) (offset : Nat)
    (buffer : Bytes) :
    Underway content levels start faults l held ⟨l.view, offset, buffer⟩ s.asked
      (.start l.view (s.caches l.cache).geometry.pageShift offset buffer) s := by
  have hshift : 1 <<< (s.caches l.cache).geometry.pageShift
      = (start l.cache).geometry.pageSize := by
    rw [hkept.geometry_eq]
    rfl
  refine ⟨⟨.start ⟨l.view, offset, buffer⟩ hshift, ?_, hshift⟩, fun i _ => hkept.keeps i,
    hkept.geometry_eq, hkept.shardOf_eq, Call.spared_start .., none, .refl _, ?_⟩
  · exact (Contract.keeps_iff_of_slot?_eq_none (Call.slot?_start ..)).2 (hkept.keeps _)
  · exact Call.failure?_start (by rw [hshift]; exact hnamed)

/-- A read that has ended holds no slot, and tells the truth or the failure. -/
theorem Underway.ended {offset : Nat} {buffer : Bytes}
    (h : Underway content levels start faults l held ⟨l.view, offset, buffer⟩ first c s)
    (hstands : Stands content levels start l size) (hinactive : c.active = false) :
    Kept content levels start held s ∧ ∃ failure, Account faults first s.asked failure ∧
      Truthful (content.cut l.size) offset buffer
        ⟨Reader.replyOf c.outcome, c.destination.contents⟩ failure := by
  obtain ⟨failure, haccount, hfailure⟩ := h.account
  obtain ⟨cause, hserves, houtcome⟩ := h.hosts.follows.exists_cause hinactive
  obtain rfl : failure.map .io = cause :=
    hfailure.symm.trans (Call.failure?_of_outcome hinactive houtcome)
  refine ⟨⟨fun i => ?_, h.geometry_eq, h.shardOf_eq⟩, failure, haccount, ?_⟩
  · by_cases hi : i = l.cache
    · subst hi
      exact (Contract.keeps_iff_of_slot?_eq_none (Call.slot?_of_active_eq_false hinactive)).1
        h.hosts.keeps
    · exact h.keeps i hi
  · rw [houtcome]
    cases failure with
    | some error => rfl
    | none =>
      have hslice := hstands.eq_slice_of_serves hserves
      have hcopied : c.destination.copied
          = ((content.cut l.size).slice offset buffer.length).length := by
        rw [← hslice, List.length_reverse, Destination.copied]
      have hspared : c.spared = buffer.drop c.destination.copied := by
        rw [h.spared, hcopied, Content.length_slice]
        rfl
      have hlength : c.destination.contents.length = buffer.length := h.hosts.follows.length_eq
      have hcontents := Call.contents_of_spared hlength hspared
      rw [hslice, hcopied] at hcontents
      refine ⟨congrArg Reply.count hcopied, ?_⟩
      rw [Bytes.overlay_of_length_le (Nat.le_of_eq hlength), hlength, List.drop_length,
        List.append_nil, hcontents, Bytes.overlay_of_length_le]
      rw [Content.length_slice]
      exact Nat.min_le_left ..

section Source

variable {below : List (Level n)} {below' : Source (StateM (Rack n))}
  (hanswers : Answers content levels start faults (content.cut size) below below')
  (hstands : Stands content levels start l size)
  (hroom : ∀ i shard, (held i shard).length + (l :: below).countP (·.cache = i)
    ≤ (start i).geometry.pagesPerBucket)

include hanswers hstands hroom

/-- What a level asks of the source below it, it gets, or that source has failed. -/
theorem Underway.receive (h : Underway content levels start faults l held r first c s)
    (hview : r.view = l.view) (hphase : c.phase = .fetch slot) :
    Underway content levels start faults l held r first
      (c.receive (below' c.pageStart c.frame s).1).1 (below' c.pageStart c.frame s).2 := by
  obtain ⟨hkept, failure, haccount, htruthful⟩ :=
    hanswers _ s h.kept (length_heldWith_le hroom c s) c.pageStart c.frame
  have hview : c.view = l.view := h.hosts.follows.view_eq.trans hview
  have hhosts : (contract content levels start l.cache).Hosts r (held l.cache) c
      ((below' c.pageStart c.frame s).2.caches l.cache) := by
    have hshard := (hkept.shardOf_eq l.cache).trans (h.shardOf_eq l.cache).symm
    have hkeeps := hkept.keeps l.cache
    rw [heldWith, Function.update_self] at hkeeps
    refine ⟨h.hosts.follows, ?_, ?_⟩
    · rw [Cache.slotsOf, hshard]
      exact hkeeps
    · rw [hkept.geometry_eq]
      rfl
  constructor
  · exact hhosts.receive fun slot hphase =>
      hstands.accepts_of_truthful hview h.hosts.follows hphase htruthful
  · intro i hi
    have hkeeps := hkept.keeps i
    rwa [heldWith, Function.update_of_ne hi] at hkeeps
  · exact hkept.geometry_eq
  · exact hkept.shardOf_eq
  · exact (h.hosts.follows.spared_receive _).trans h.spared
  · obtain ⟨before, hbefore, hnone⟩ := h.account
    have hnone' : c.failure? = none := by rw [Call.failure?, hphase]
    obtain rfl : before = none := by
      rw [hnone'] at hnone
      exact Option.map_eq_none_iff.1 hnone.symm
    refine ⟨failure, hbefore.trans haccount, ?_⟩
    cases failure with
    | some error => exact Call.failure?_receive_of_failed hphase htruthful
    | none =>
      obtain ⟨count, hreply, hcount, hfull⟩ :=
        hstands.not_short_of_truthful hview h.hosts.follows.sound.length_frame htruthful
      exact Call.failure?_receive_of_count hphase hreply (hcount ▸ Nat.min_le_left ..) hfull

/-- A read through a level keeps all caches good and gives the content cut to the size of the level,
unless the source at the bottom has failed. -/
theorem readAt_level (hkept : Kept content levels start held s) (offset : Nat) (buffer : Bytes) :
    let read := ((Rack.place l.cache).reader l.view below').readAt offset buffer s
    Kept content levels start held read.2 ∧ ∃ failure,
      Account faults s.asked read.2.asked failure ∧
        Truthful (content.cut l.size) offset buffer
          ⟨Reader.replyOf read.1.outcome, read.1.buffer⟩ failure := by
  have hfree (shard : Fin Geometry.bucketCount) :
      (held l.cache shard).length < (start l.cache).geometry.pagesPerBucket := by
    have hle := hroom l.cache shard
    rw [List.countP_cons] at hle
    simp only [decide_true, if_true] at hle
    omega
  obtain ⟨hended, hinactive⟩ := Call.runFor_keeps (Rack.place l.cache) below'
    (Underway content levels start faults l held ⟨l.view, offset, buffer⟩ s.asked)
    (fun c s h => h.hosts.follows.offset_lt)
    (fun c s h _ _ => h.touch rfl hstands.named hfree)
    (fun c s slot h hphase => h.receive hanswers hstands hroom rfl hphase)
    (Call.rank_start_le ..) (hkept.underway hstands.named offset buffer)
  intro read
  rw [show read = _ from (Rack.place l.cache).readAt_reader l.view below' offset buffer s]
  exact hended.ended hstands hinactive

/-- A level on a source that answers is one itself: positions past all signed numbers are past its
end. -/
theorem answers_level (hlimit : l.size ≤ Reader.offsetLimit)
    (hkept : Kept content levels start held s) (offset : Nat) (buffer : Bytes) :
    let read := ((Rack.place l.cache).reader l.view below').source offset buffer s
    Kept content levels start held read.2 ∧ ∃ failure,
      Account faults s.asked read.2.asked failure ∧
        Truthful (content.cut l.size) offset buffer read.1 failure := by
  by_cases hoffset : Reader.offsetLimit ≤ offset
  · have hread : ((Rack.place l.cache).reader l.view below').source offset buffer s
        = (⟨.count 0, []⟩, s) := by
      unfold Reader.source
      rw [if_pos hoffset]
      rfl
    have hempty : (content.cut l.size).slice offset buffer.length = [] := by
      have hlength : ((content.cut l.size).slice offset buffer.length).length
          = min buffer.length (l.size - offset) := Content.length_slice ..
      exact List.length_eq_zero_iff.1 (by omega)
    rw [hread]
    refine ⟨hkept, none, .refl _, ?_⟩
    rw [Truthful, hempty]
    exact ⟨rfl, rfl⟩
  · have hread : ((Rack.place l.cache).reader l.view below').source offset buffer s
        = let read := ((Rack.place l.cache).reader l.view below').readAt offset buffer s
          (⟨Reader.replyOf read.1.outcome, read.1.buffer⟩, read.2) := by
      unfold Reader.source
      rw [if_neg hoffset]
      rfl
    rw [hread]
    exact readAt_level hanswers hstands hroom hkept offset buffer

end Source

end Level

/-! ## All levels -/

/-- Where the source at the bottom always fails its content does not matter. -/
theorem source_congr (content other : Content) (fault : Fault) (below : List (Level n)) :
    source content (fun _ => some fault) below = source other (fun _ => some fault) below := by
  induction below with
  | nil => rfl
  | cons l below ih => rw [source, source, ih]

variable (hfits : Fits content levels start) {l : Level n} {below : List (Level n)}

include hfits

theorem Fits.stands (hlevel : l :: below <:+ levels) :
    Stands content levels start l (sizeOf content below) := by
  have hmem : l ∈ levels := hlevel.subset List.mem_cons_self
  refine ⟨hmem, ?_, ?_, hfits.named l hmem, fun l' hl' hcache hobject => ?_⟩
  · cases below with
    | nil => exact hfits.size_le l hmem
    | cons l' below =>
      exact List.rel_of_pairwise_cons (hfits.descending.sublist hlevel.sublist)
        List.mem_cons_self
  · cases below with
    | nil => exact Nat.le_refl _
    | cons l' below =>
      exact hfits.size_le l' (hlevel.subset (List.mem_cons_of_mem l List.mem_cons_self))
  · exact List.inj_on_of_nodup_map hfits.distinct hl' hmem (Prod.ext hcache hobject)

/-- Pages that all have numbers end at positions that all have signed numbers. -/
theorem Fits.size_le_offsetLimit (hl : l ∈ levels) : l.size ≤ Reader.offsetLimit := by
  obtain ⟨config, seed, hcache⟩ := hfits.new l.cache
  obtain ⟨g, hg, hstart⟩ := Cache.eq_of_ofConfig_eq_ok hcache
  have hpage : (start l.cache).geometry.pageSize ≤ Geometry.maxPageSize := by
    rw [hstart]
    exact Config.pageSize_le_of_geometry_eq_ok hg
  calc l.size
    _ ≤ Call.pageLimit * (start l.cache).geometry.pageSize := hfits.named l hl
    _ ≤ Call.pageLimit * Geometry.maxPageSize := Nat.mul_le_mul_left _ hpage
    _ ≤ Reader.offsetLimit := by decide

/-- Where no slots are held there are enough for some of the levels. -/
theorem Fits.room_of_suffix (hsuffix : below <:+ levels) (i : Fin n)
    (shard : Fin Geometry.bucketCount) :
    ((fun _ _ => [] : Fin n → Fin Geometry.bucketCount → List Slot) i shard).length
      + below.countP (·.cache = i) ≤ (start i).geometry.pagesPerBucket := by
  rw [List.length_nil, Nat.zero_add]
  exact Nat.le_trans hsuffix.sublist.countP_le (hfits.room i)

/-- Each level answers for what it stands on, so all of them do. -/
theorem Fits.answers (hsuffix : below <:+ levels) :
    Answers content levels start faults (content.cut (sizeOf content below)) below
      (source content faults below) := by
  induction below with
  | nil => exact answers_bottom
  | cons l below ih =>
    intro held s hkept hroom offset buffer
    have hbelow := (List.suffix_cons l below).trans hsuffix
    have hlimit := hfits.size_le_offsetLimit (hsuffix.subset List.mem_cons_self)
    exact answers_level (ih hbelow) (hfits.stands hsuffix) hroom hlimit hkept offset buffer

/-- New caches hold no pages at all. -/
theorem Fits.kept_start : Kept content levels start (fun _ _ => []) { caches := start } := by
  refine ⟨fun i => ?_, fun _ => rfl, fun _ => rfl⟩
  obtain ⟨config, seed, hcache⟩ := hfits.new i
  obtain ⟨g, -, hstart⟩ := Cache.eq_of_ofConfig_eq_ok hcache
  show (start i).Keeps _ _
  rw [hstart]
  exact Cache.keeps_ofGeometry g seed

/-- Between reads, no slots are held and all pages are good. -/
theorem Fits.kept {s : Rack n} (hreached : Reached content faults levels start s) :
    Kept content levels start (fun _ _ => []) s := by
  induction hreached with
  | start => exact hfits.kept_start
  | @readAt s l below offset buffer _ hlevel ih =>
    by_cases hnegative : offset < 0
    · rw [reader, Place.readAt_reader_of_neg _ _ _ hnegative]
      exact ih
    · obtain ⟨position, rfl⟩ := Int.eq_ofNat_of_zero_le (Int.not_lt.1 hnegative)
      have hanswers : Answers content levels start faults _ below _ :=
        hfits.answers ((List.suffix_cons l below).trans hlevel)
      exact (readAt_level hanswers (hfits.stands hlevel) (hfits.room_of_suffix hlevel) ih
        position buffer).1
  | source offset buffer _ hsuffix ih =>
    exact (hfits.answers hsuffix _ _ ih (hfits.room_of_suffix hsuffix) offset buffer).1

/-- New caches have nothing to give: a read of any bytes fails if the source at the bottom does. -/
theorem Fits.failed_of_new (hlevel : l :: below <:+ levels) (fault : Fault) {offset : Nat}
    {buffer : Bytes} (hslice : (content.cut l.size).slice offset buffer.length ≠ []) :
    (source content (fun _ => some fault) (l :: below) offset buffer
      { caches := start }).1.reply = .failed fault.error := by
  -- the same read over a content that differs everywhere
  let other : Content := { content with byteAt := fun k => content.byteAt k + 1 }
  have hfits' : Fits other levels start := ⟨hfits.new, hfits.descending, hfits.size_le,
    hfits.distinct, hfits.named, hfits.room⟩
  have hanswers : Answers content levels start (fun _ => some fault) _ (l :: below) _ :=
    hfits.answers hlevel
  have hanswers' : Answers other levels start (fun _ => some fault) _ (l :: below) _ :=
    hfits'.answers hlevel
  obtain ⟨-, failure, haccount, htruthful⟩ :=
    hanswers _ _ hfits.kept_start (hfits.room_of_suffix hlevel) offset buffer
  obtain ⟨-, failure', -, htruthful'⟩ :=
    hanswers' _ _ hfits'.kept_start (hfits'.room_of_suffix hlevel) offset buffer
  rw [← source_congr content other] at htruthful'
  cases failure with
  | some error =>
    obtain ⟨ask, found, -, -, hfound, rfl, -⟩ := haccount
    obtain rfl := Option.some.inj hfound
    exact htruthful
  | none =>
    cases failure' with
    | some error => exact absurd (htruthful.1.symm.trans htruthful') (by simp)
    | none =>
      obtain ⟨k, hcount⟩ : ∃ k, min buffer.length (l.size - offset) = k + 1 := by
        refine Nat.exists_eq_succ_of_ne_zero fun hzero => hslice (List.length_eq_zero_iff.1 ?_)
        rw [Content.length_slice]
        exact hzero
      have hfirst (c : Content) : (buffer.overlay ((c.cut l.size).slice offset buffer.length)).head?
          = some (c.byteAt offset) := by
        rw [Bytes.overlay_of_length_le (by rw [Content.length_slice]; exact Nat.min_le_left ..)]
        show (((List.range' offset (min buffer.length (l.size - offset))).map c.byteAt)
          ++ _).head? = _
        rw [hcount, List.range'_succ]
        rfl
      have hbyte : some (content.byteAt offset) = some (content.byteAt offset + 1) :=
        (hfirst content).symm.trans
          ((congrArg List.head? (htruthful.2.symm.trans htruthful'.2)).trans (hfirst other))
      exact absurd (Option.some.inj hbyte) (by simp)

end Tower

/-- A tower of readers over a content gives what the content cut to the size of the topmost level
gives, at any position and into any buffer, unless the source at the bottom fails; and with what
that one fails, the tower fails. -/
theorem tower_reads_content {n : Nat} {content : Content} {faults : Nat → Option Fault}
    {levels : List (Level n)} {start : Fin n → Cache} (hfits : Tower.Fits content levels start)
    {s : Rack n} (hreached : Tower.Reached content faults levels start s) {l : Level n}
    {below : List (Level n)} (hlevel : l :: below <:+ levels) (offset : Nat) (buffer : Bytes) :
    let read := Tower.source content faults (l :: below) offset buffer s
    let slice : Transfer := (content.cut l.size).source (m := Id) offset buffer
    ((∀ ask, s.asked ≤ ask → ask < read.2.asked → faults ask = none) →
      read.1.reply = slice.reply ∧
        buffer.overlay read.1.written = buffer.overlay slice.written) ∧
    ∀ ask fault, s.asked ≤ ask → ask < read.2.asked → faults ask = some fault →
      read.1.reply = .failed fault.error := by
  intro read slice
  obtain ⟨-, failure, haccount, htruthful⟩ := hfits.answers hlevel _ s (hfits.kept hreached)
    (hfits.room_of_suffix hlevel) offset buffer
  cases failure with
  | none =>
    obtain ⟨-, hgood⟩ := haccount
    refine ⟨fun _ => htruthful, fun ask fault hge hlt hfault => ?_⟩
    exact absurd (hfault.symm.trans (hgood ask hge hlt)) (by simp)
  | some error =>
    obtain ⟨last, fault, hlast, hge, hfault, herror, hgood⟩ := haccount
    have hlt : last < read.2.asked := Nat.lt_of_lt_of_eq (Nat.lt_succ_self last) hlast.symm
    refine ⟨fun hall => absurd (hfault.symm.trans (hall last hge hlt)) (by simp), ?_⟩
    intro ask fault' hge' hlt' hfault'
    -- the reads end with the first one that fails
    have hle : ask ≤ last := Nat.le_of_lt_succ (Nat.lt_of_lt_of_eq hlt' hlast)
    obtain rfl | hearlier := Nat.eq_or_lt_of_le hle
    · obtain rfl := Option.some.inj (hfault.symm.trans hfault')
      rw [herror]
      exact htruthful
    · exact absurd (hfault'.symm.trans (hgood ask hge' hearlier)) (by simp)

/-- Two levels in one cache of two-byte pages, over three bytes of which the upper one shows two. -/
theorem tower_reads_content_of_two_levels :
    let levels : List (Level 1) := [⟨0, 2, 2⟩, ⟨0, 1, 3⟩]
    let read := Tower.source (.ofBytes [1, 2, 3]) (fun _ => none) levels 1 [9, 9, 9]
      { caches := fun _ => .ofGeometry ⟨1, 128⟩ 7 }
    read.1.reply = .count 1 ∧ Bytes.overlay [9, 9, 9] read.1.written = [2, 9, 9] := by
  have hsize : ∀ l ∈ ([⟨0, 2, 2⟩, ⟨0, 1, 3⟩] : List (Level 1)), l.size ≤ 3 := by decide
  have hpages : 3 ≤ Call.pageLimit * Geometry.pageSize ⟨1, 128⟩ := by decide
  have hfits : Tower.Fits (.ofBytes [1, 2, 3]) [⟨0, 2, 2⟩, ⟨0, 1, 3⟩]
      (fun _ : Fin 1 => .ofGeometry ⟨1, 128⟩ 7) := by
    refine ⟨fun _ => ⟨⟨2, 128⟩, 7, rfl⟩, by decide, by decide, by decide, ?_, ?_⟩
    · intro l hl
      exact Nat.le_trans (hsize l hl) hpages
    · intro i
      obtain rfl : i = 0 := Subsingleton.elim i 0
      decide
  exact (tower_reads_content hfits .start (List.suffix_refl _) 1 [9, 9, 9]).1 fun _ _ _ => rfl

end ReadThrough
