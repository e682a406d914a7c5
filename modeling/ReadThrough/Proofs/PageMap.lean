import ReadThrough.Proofs.Usage

/-!
# Buckets as page maps

`Bucket.page?` is what a bucket holds under a key. Reading is reading from this map, and of the
other operations only installing under the key and giving up its page change what the map has there.
`PageEvent` writes both down, so that after any run the map has under a key what its last install
stored, unless the page was given up since (`Usage.Logged.page?_eq`). `Bucket.memory` is the map in
one row of bytes, a page after the other by slot, and `BucketOp.write` is what an operation writes
there.
-/

namespace ReadThrough

/-! ## Pieces of one length in a row -/

section Pieces

variable {α β : Type} {f : α → List β} {n : Nat}

theorem drop_flatMap_of_length (hf : ∀ a, (f a).length = n) (l : List α) (i : Nat) :
    (l.flatMap f).drop (i * n) = (l.drop i).flatMap f := by
  induction i generalizing l with
  | zero => simp
  | succ i ih =>
    rcases l with _ | ⟨a, l⟩
    · simp
    · rw [List.flatMap_cons, List.drop_succ_cons, ← ih l, Nat.succ_mul, Nat.add_comm,
        ← List.drop_drop, List.drop_left' (hf a)]

theorem take_flatMap_of_length (hf : ∀ a, (f a).length = n) (l : List α) (i : Nat) :
    (l.flatMap f).take (i * n) = (l.take i).flatMap f := by
  induction i generalizing l with
  | zero => simp
  | succ i ih =>
    rcases l with _ | ⟨a, l⟩
    · simp
    · rw [List.flatMap_cons, List.take_succ_cons, List.flatMap_cons, ← ih l, Nat.succ_mul,
        Nat.add_comm, ← hf a, List.take_length_add_append]

end Pieces

namespace Bytes

theorem getElem?_window (bytes : Bytes) (offset count i : Nat) :
    (window bytes offset count)[i]?
      = if i < count then some (bytes.getD (offset + i) 0) else none := by
  simp only [window, List.getElem?_append, List.getElem?_take, List.getElem?_drop,
    List.length_take, List.length_drop, zeros, List.getElem?_replicate, List.getD_eq_getElem?_getD]
  by_cases hcount : i < count
  · by_cases hbytes : offset + i < bytes.length
    · rw [if_pos (by omega), if_pos hcount, if_pos hcount, List.getElem?_eq_getElem hbytes]
      rfl
    · rw [if_neg (by omega), if_pos (by omega), if_pos hcount,
        List.getElem?_eq_none (Nat.le_of_not_lt hbytes)]
      rfl
  · rw [if_neg (by omega), if_neg (by omega), if_neg hcount]

/-- A window from the beginning on is a piece and the zeros that are missing. -/
theorem window_zero (bytes : Bytes) (n : Nat) :
    window bytes 0 n = bytes.take n ++ zeros (n - bytes.length) := by
  have hmissing : n - min n bytes.length = n - bytes.length := by omega
  rw [window, List.drop_zero, List.length_take, hmissing]

theorem window_take_self (bytes : Bytes) (n : Nat) :
    window (bytes.take n) 0 n = window bytes 0 n := by
  simp only [window, List.drop_zero, List.take_take, Nat.min_self]

/-- A piece of a window is a window. -/
theorem take_drop_window {bytes : Bytes} {n offset count : Nat} (h : offset + count ≤ n) :
    ((window bytes 0 n).drop offset).take count = window bytes offset count := by
  refine List.ext_getElem? fun i => ?_
  rw [List.getElem?_take, List.getElem?_drop, getElem?_window, getElem?_window]
  split
  · rw [if_pos (by omega), Nat.zero_add]
  · rfl

end Bytes

/-! ## Pages by key -/

/-- The page that lost its slot for the grant. -/
def Grant.victim? : Grant → Option PageKey
  | reclaimed _ victim => some victim
  | free _ | exhausted => none

/-- Whether the page was resident, and what a buffer holds once it was offered to the lookup; a
lookup past the end of the page answers nothing. -/
def Lookup.fill (dest : Bytes) : Lookup → Option (Bool × Bytes)
  | hit bytes => some (true, dest.overlay bytes)
  | miss => some (false, dest)
  | pastPage => none

namespace Bucket

variable {ι : Type} [EvictionPolicy ι PageKey Slot]

/-- The bytes of a resident page; zeros follow up to the page size. -/
def page? (b : Bucket ι) (key : PageKey) : Option Bytes :=
  (EvictionPolicy.lookup b.index key).1.map (b.pages.getD · [])

/-- A lookup is one in the map of the resident pages. -/
theorem read_fst (b : Bucket ι) (key : PageKey) (offset count : Nat) :
    (b.read key offset count).1 = match b.page? key with
      | none => .miss
      | some page =>
        if b.pageSize < offset then .pastPage
        else .hit (Bytes.window page offset (min count (b.pageSize - offset))) := by
  unfold read page? pageBytes
  rcases EvictionPolicy.lookup b.index key with ⟨_ | slot, index⟩
  · rfl
  · by_cases hpast : b.pageSize < offset <;> simp [hpast]

/-- Offers a buffer to a lookup, which copies to its front what it finds and fits. -/
def serve (b : Bucket ι) (key : PageKey) (dest : Bytes) (offset : Nat) : Option (Bool × Bytes) :=
  (b.read key offset dest.length).1.fill dest

/-! ## What each operation makes of the map -/

variable [LawfulPolicy ι] {b : Bucket ι} {held : List Slot} {key : PageKey}

theorem page?_eq_some_iff (hvalid : LawfulPolicy.Valid b.index) {page : Bytes} :
    b.page? key = some page ↔ ∃ slot, (key, slot) ∈ b.residents ∧ b.pages.getD slot [] = page := by
  simp only [page?, Option.map_eq_some_iff, LawfulPolicy.lookup_eq_some_iff hvalid, residents]

/-- Buckets with the same bindings hold the same pages if the bound slots do. -/
theorem page?_congr {b' : Bucket ι} (hvalid : LawfulPolicy.Valid b.index)
    (hvalid' : LawfulPolicy.Valid b'.index)
    (hbound : ∀ slot, (key, slot) ∈ b'.residents ↔ (key, slot) ∈ b.residents)
    (hpages : ∀ slot, (key, slot) ∈ b.residents → b'.pages.getD slot [] = b.pages.getD slot []) :
    b'.page? key = b.page? key := by
  refine Option.ext fun page => ?_
  rw [page?_eq_some_iff hvalid, page?_eq_some_iff hvalid']
  refine exists_congr fun slot => ?_
  rw [hbound]
  exact and_congr_right fun hslot => by rw [hpages slot hslot]

theorem page?_ofCapacity {index : ι} (hvalid : LawfulPolicy.Valid index)
    (hempty : LawfulPolicy.bindings index = []) (capacity pageShift : Nat) (key : PageKey) :
    (ofCapacity capacity pageShift index).page? key = none := by
  refine Option.eq_none_iff_forall_ne_some.2 fun page hpage => ?_
  obtain ⟨slot, hmem, -⟩ := (page?_eq_some_iff hvalid).1 hpage
  simp [residents, ofCapacity, hempty] at hmem

theorem page?_read (hvalid : LawfulPolicy.Valid b.index) (other : PageKey) (offset count : Nat) :
    (b.read other offset count).2.page? key = b.page? key := by
  rw [read_eq]
  exact page?_congr hvalid (LawfulPolicy.valid_lookup other hvalid)
    (fun _ => (LawfulPolicy.bindings_lookup other hvalid).mem_iff) fun _ _ => rfl

/-- Acquiring takes away at most the page that loses its slot. -/
theorem page?_acquire (hvalid : LawfulPolicy.Valid b.index) :
    b.acquire.2.page? key = if b.acquire.1.victim? = some key then none else b.page? key := by
  obtain ⟨slot, free, hfree, heq⟩ | ⟨slot, victim, index, hfree, hindex, hperm, heq⟩ |
    ⟨index, hfree, hempty, hindex, hnone, heq⟩ := b.acquire_cases hvalid <;> rw [heq]
  · rfl
  · have hdistinct := (LawfulPolicy.distinctKeys hvalid).perm hperm
    obtain ⟨hvictim, -⟩ := List.nodup_cons.1 hdistinct
    simp only [Grant.victim?, Option.some.injEq]
    by_cases hkey : victim = key
    · subst hkey
      rw [if_pos rfl, Option.eq_none_iff_forall_ne_some]
      intro page hpage
      obtain ⟨place, hplace, -⟩ := (page?_eq_some_iff hindex).1 hpage
      exact hvictim (List.mem_map_of_mem (f := (·.1)) hplace)
    · rw [if_neg hkey]
      refine page?_congr hvalid hindex (fun place => ?_) fun _ _ => rfl
      have hne : (key, place) ≠ (victim, slot) := fun h => hkey (Prod.mk.inj h).1.symm
      rw [residents, hperm.mem_iff, List.mem_cons, or_iff_right hne]
      rfl
  · refine page?_congr hvalid hindex (fun place => ?_) fun _ _ => rfl
    rw [hempty, residents, hnone]

/-- Installing under a key binds the data, cut to the page size. No slot of another page is written
to, as the slot of the holder is bound to none. -/
theorem page?_install {slot : Slot} (h : b.Owned (slot :: held)) (other : PageKey) (data : Bytes) :
    (b.install other slot data).2.page? key
      = if other = key then some (data.take b.pageSize) else b.page? key := by
  obtain ⟨hlt, -, hunbound⟩ := h.of_mem_held List.mem_cons_self
  have hvalid := (h.install other data).valid
  have hresidents := b.residents_install h.valid other slot data
  rw [← h.pages_size] at hlt
  by_cases hkey : other = key
  · subst hkey
    rw [if_pos rfl, page?_eq_some_iff hvalid]
    refine ⟨slot, hresidents.mem_iff.2 List.mem_cons_self, ?_⟩
    rw [pages_install, Array.getD_eq_getD_getElem?, Array.getElem?_setIfInBounds, if_pos rfl,
      if_pos hlt]
    rfl
  · rw [if_neg hkey]
    refine page?_congr h.valid hvalid (fun place => ?_) fun place hplace => ?_
    · rw [hresidents.mem_iff, List.mem_cons, List.mem_filter]
      simp [Ne.symm hkey]
    · have hne : slot ≠ place := by
        rintro rfl
        exact hunbound (List.mem_map_of_mem (f := (·.2)) hplace)
      rw [pages_install, Array.getD_eq_getD_getElem?, Array.getElem?_setIfInBounds, if_neg hne,
        ← Array.getD_eq_getD_getElem?]

/-! ## The pages as one row of bytes -/

section Memory

omit [EvictionPolicy ι PageKey Slot] [LawfulPolicy ι]

/-- All pages with the zeros that follow in them, one after the other by slot. -/
def memory (b : Bucket ι) : Bytes := b.pages.toList.flatMap (Bytes.window · 0 b.pageSize)

theorem shiftLeft_pageShift (b : Bucket ι) (slot : Slot) :
    slot <<< b.pageShift = slot * b.pageSize := by
  rw [pageSize, Nat.shiftLeft_eq, Nat.one_shiftLeft]

/-- The bytes of a page are those in the row from the start of its slot on. -/
theorem pageBytes_eq_memory {b : Bucket ι} {slot : Slot} (hslot : slot < b.pages.size)
    {offset count : Nat} (h : offset + count ≤ b.pageSize) :
    b.pageBytes slot offset count
      = (b.memory.drop (slot <<< b.pageShift + offset)).take count := by
  have hpage : b.pages.toList.drop slot
      = b.pages.getD slot [] :: b.pages.toList.drop (slot + 1) := by
    rw [List.drop_eq_getElem_cons (by simpa using hslot)]
    simp [Array.getD, hslot]
  rw [shiftLeft_pageShift, memory, ← List.drop_drop,
    drop_flatMap_of_length (fun _ => Bytes.length_window ..), hpage, List.flatMap_cons,
    List.drop_append_of_le_length (by rw [Bytes.length_window]; omega),
    List.take_append_of_le_length (by rw [List.length_drop, Bytes.length_window]; omega),
    Bytes.take_drop_window h, pageBytes]

/-- Installing writes the page of its slot, with zeros behind the data, and nothing else. -/
theorem memory_install [EvictionPolicy ι PageKey Slot] {b : Bucket ι} {slot : Slot}
    (hslot : slot < b.pages.size) (key : PageKey) (data : Bytes) :
    (b.install key slot data).2.memory
      = b.memory.take (slot <<< b.pageShift)
        ++ (data.take b.pageSize ++ Bytes.zeros (b.pageSize - data.length))
        ++ b.memory.drop ((slot + 1) <<< b.pageShift) := by
  rw [memory, pages_install, (b.sameShape_install key slot data).pageSize_eq,
    shiftLeft_pageShift, shiftLeft_pageShift, Array.toList_setIfInBounds,
    List.set_eq_take_append_cons_drop, if_pos (by simpa using hslot), List.flatMap_append,
    List.flatMap_cons, memory, take_flatMap_of_length (fun _ => Bytes.length_window ..),
    drop_flatMap_of_length (fun _ => Bytes.length_window ..), List.append_assoc,
    Bytes.window_take_self, Bytes.window_zero]

/-- A page that is resident is in the row where its slot starts. -/
theorem exists_memory_of_page? [EvictionPolicy ι PageKey Slot] [LawfulPolicy ι] {b : Bucket ι}
    {held : List Slot} (h : b.Owned held) {key : PageKey} {page : Bytes}
    (hpage : b.page? key = some page) :
    ∃ slot < b.capacity, (key, slot) ∈ b.residents ∧
      (b.memory.drop (slot <<< b.pageShift)).take b.pageSize
        = page.take b.pageSize ++ Bytes.zeros (b.pageSize - page.length) := by
  obtain ⟨slot, hbound, rfl⟩ := (page?_eq_some_iff h.valid).1 hpage
  obtain ⟨hslot, -⟩ := h.of_mem_residents hbound
  have hstored : slot < b.pages.size := by rwa [h.pages_size]
  have hbytes := pageBytes_eq_memory hstored (Nat.le_of_eq (Nat.zero_add b.pageSize))
  rw [Nat.add_zero, pageBytes, Bytes.window_zero] at hbytes
  exact ⟨slot, hslot, hbound, hbytes.symm⟩

end Memory

end Bucket

/-! ## Histories -/

/-- What changes which page a bucket holds under a key. -/
inductive PageEvent where
  | installed (key : PageKey) (data : Bytes)
  /-- The page lost its slot. -/
  | evicted (key : PageKey)
deriving DecidableEq

namespace PageEvent

/-- The page that the event is about. -/
def key : PageEvent → PageKey
  | installed key _ | evicted key => key

/-- What the page holds from then on. -/
def data? : PageEvent → Option Bytes
  | installed _ data => some data
  | evicted _ => none

/-- What a page holds after events, the latest first: it holds nothing before its first. -/
def latest (history : List PageEvent) (key : PageKey) : Option Bytes :=
  (history.find? (·.key = key)).bind data?

theorem latest_append (newer older : List PageEvent) (key : PageKey) :
    latest (newer ++ older) key = match newer.find? (·.key = key) with
      | some e => e.data?
      | none => latest older key := by
  rw [latest, List.find?_append]
  cases newer.find? (·.key = key) <;> rfl

/-- A page holds what its last install stored, if it was not given up since. -/
theorem latest_eq_some_iff {history : List PageEvent} {key : PageKey} {data : Bytes} :
    latest history key = some data ↔ ∃ newer older,
      history = newer ++ installed key data :: older ∧ ∀ e ∈ newer, e.key ≠ key := by
  rw [latest, Option.bind_eq_some_iff]
  constructor
  · rintro ⟨e, hfound, hdata⟩
    obtain ⟨hkey, newer, older, rfl, hnewer⟩ := List.find?_eq_some_iff_append.1 hfound
    cases e with
    | evicted => cases hdata
    | installed other stored =>
      obtain rfl : stored = data := Option.some.inj hdata
      obtain rfl : other = key := of_decide_eq_true hkey
      exact ⟨newer, older, rfl, by simpa using hnewer⟩
  · rintro ⟨newer, older, rfl, hnewer⟩
    refine ⟨installed key data, List.find?_eq_some_iff_append.2 ⟨?_, newer, older, rfl, ?_⟩, rfl⟩
    · simp [PageEvent.key]
    · simpa using hnewer

end PageEvent

/-- An operation on a bucket. -/
inductive BucketOp where
  | read (key : PageKey) (offset count : Nat)
  | acquire
  | install (key : PageKey) (slot : Slot) (data : Bytes)
  | release (slot : Slot)
deriving DecidableEq

/-- What an operation makes of the row of all pages: installing fills the page of its slot to its
end, and nothing else is written. -/
def BucketOp.write (pageShift : Nat) (memory : Bytes) : BucketOp → Bytes
  | install _ slot data =>
    let pageSize := 1 <<< pageShift
    memory.take (slot <<< pageShift)
      ++ (data.take pageSize ++ Bytes.zeros (pageSize - data.length))
      ++ memory.drop ((slot + 1) <<< pageShift)
  | read .. | acquire | release _ => memory

namespace Usage

variable {ι : Type} [EvictionPolicy ι PageKey Slot]

/-- What an operation makes of the bucket and of the slots in flight. -/
def perform (u : Usage ι) : BucketOp → Usage ι
  | .read key offset count => { u with bucket := (u.bucket.read key offset count).2 }
  | .acquire => { u with
      bucket := u.bucket.acquire.2
      held := u.bucket.acquire.1.slot?.toList ++ u.held }
  | .install key slot data => {
      bucket := (u.bucket.install key slot data).2
      held := u.held.erase slot
      lost := u.lost + (u.bucket.install key slot data).1.toList.length }
  | .release slot => { u with bucket := u.bucket.release slot, held := u.held.erase slot }

/-- Only slots in flight are installed and released. -/
def Permits (u : Usage ι) : BucketOp → Prop
  | .install _ slot _ | .release slot => slot ∈ u.held
  | .read _ _ _ | .acquire => True

instance (u : Usage ι) : (op : BucketOp) → Decidable (u.Permits op)
  | .install _ slot _ | .release slot => inferInstanceAs (Decidable (slot ∈ u.held))
  | .read _ _ _ | .acquire => inferInstanceAs (Decidable True)

/-- Which pages an operation changes. -/
def events (u : Usage ι) : BucketOp → List PageEvent
  | .install key _ data => [.installed key data]
  | .acquire => u.bucket.acquire.1.victim?.toList.map .evicted
  | .read _ _ _ | .release _ => []

theorem Permits.step {u : Usage ι} {op : BucketOp} (h : u.Permits op) : Step u (u.perform op) := by
  cases op with
  | read key offset count => exact .read u key offset count
  | acquire => exact .acquire u
  | install key slot data => exact .install u key slot data h
  | release slot => exact .release u slot h

/-- What a bucket comes to by any number of operations in any order, and the events on the way, the
latest first. -/
inductive Logged (start : Bucket ι) : List PageEvent → Usage ι → Prop
  | start : Logged start [] { bucket := start }
  | step {history : List PageEvent} {u : Usage ι} (h : Logged start history u) (op : BucketOp) :
    u.Permits op → Logged start (u.events op ++ history) (u.perform op)

theorem Logged.reaches {start : Bucket ι} {history : List PageEvent} {u : Usage ι}
    (h : Logged start history u) : Reaches start u := by
  induction h with
  | start => exact .start
  | step _ _ hop ih => exact ih.step hop.step

variable [LawfulPolicy ι] {u : Usage ι}

/-- An operation makes of a page what its event about the page says, and keeps it if there is
none. -/
theorem page?_perform (hu : u.bucket.Owned u.held) {op : BucketOp} (hop : u.Permits op)
    (key : PageKey) :
    (u.perform op).bucket.page? key = match (u.events op).find? (·.key = key) with
      | some e => e.data?.map (·.take u.bucket.pageSize)
      | none => u.bucket.page? key := by
  cases op with
  | read other offset count => exact Bucket.page?_read hu.valid ..
  | acquire =>
    simp only [perform, events, Bucket.page?_acquire hu.valid]
    rcases u.bucket.acquire.1.victim? with _ | victim
    · rfl
    · by_cases hkey : victim = key <;> simp [PageEvent.key, PageEvent.data?, hkey]
  | install other slot data =>
    simp only [perform, events, Bucket.page?_install (hu.perm (List.perm_cons_erase hop))]
    by_cases hkey : other = key <;> simp [PageEvent.key, PageEvent.data?, hkey]
  | release slot => rfl

theorem memory_perform (hu : u.bucket.Owned u.held) {op : BucketOp} (hop : u.Permits op) :
    (u.perform op).bucket.memory = op.write u.bucket.pageShift u.bucket.memory := by
  cases op with
  | read key offset count =>
    show (u.bucket.read key offset count).2.memory = _
    rw [Bucket.read_eq]
    rfl
  | acquire =>
    show u.bucket.acquire.2.memory = _
    obtain ⟨_, _, _, heq⟩ | ⟨_, _, _, _, _, _, heq⟩ | ⟨_, _, _, _, _, heq⟩ :=
      u.bucket.acquire_cases hu.valid <;> rw [heq] <;> rfl
  | install key slot data =>
    have hslot := (hu.of_mem_held hop).1
    rw [← hu.pages_size] at hslot
    exact Bucket.memory_install hslot key data
  | release slot => rfl

/-- After any operations a bucket holds of each page what the events on the way make of it. -/
theorem Logged.page?_eq {start : Bucket ι} {history : List PageEvent} (h : Logged start history u)
    (hstart : Sound { bucket := start }) (hnone : ∀ key, start.page? key = none) (key : PageKey) :
    u.bucket.page? key = (PageEvent.latest history key).map (·.take start.pageSize) := by
  induction h with
  | start => exact hnone key
  | @step history u hrun op hop ih =>
    rw [page?_perform (hrun.reaches.sound hstart).owned hop, PageEvent.latest_append, ih,
      hrun.reaches.sameShape.pageSize_eq]
    split <;> rfl

end Usage

/-- After any operations on a bucket under any policy, a lookup that starts within its page hits if
and only if the page was installed and not given up since. It then writes the bytes that the last
install stored, cut to the page size and followed by zeros, to the front of the buffer, and the rest
of the buffer stays; a miss writes nothing. No operation changes what is served of a page but one
that installs it or gives it up.

In the memory of the bucket these bytes are where the slot of the page starts. An install fills the
page of its slot to its end and writes nowhere else, and no other operation writes at all. -/
theorem bucket_serves_latest_install {ι : Type} [EvictionPolicy ι PageKey Slot] [LawfulPolicy ι]
    {index : ι} (hvalid : LawfulPolicy.Valid index) (hempty : LawfulPolicy.bindings index = [])
    (capacity pageShift : Nat) {history : List PageEvent} {u : Usage ι}
    (h : Usage.Logged (.ofCapacity capacity pageShift index) history u) (key : PageKey) :
    let pageSize := 1 <<< pageShift
    (∀ dest offset, offset ≤ pageSize →
      u.bucket.serve key dest offset = match PageEvent.latest history key with
        | some data =>
          let count := min dest.length (pageSize - offset)
          some (true, Bytes.window (data.take pageSize) offset count ++ dest.drop count)
        | none => some (false, dest)) ∧
      (∀ op, u.Permits op → (∀ e ∈ u.events op, e.key ≠ key) → ∀ dest offset,
        (u.perform op).bucket.serve key dest offset = u.bucket.serve key dest offset) ∧
      (∀ data, PageEvent.latest history key = some data → ∃ slot < capacity,
        (key, slot) ∈ u.bucket.residents ∧
          (u.bucket.memory.drop (slot <<< pageShift)).take pageSize
            = data.take pageSize ++ Bytes.zeros (pageSize - data.length)) ∧
      ∀ op, u.Permits op → (u.perform op).bucket.memory = op.write pageShift u.bucket.memory := by
  intro pageSize
  have hstart := Usage.Sound.ofCapacity hvalid hempty capacity pageShift
  have howned := (h.reaches.sound hstart).owned
  obtain ⟨hcapacity, hshift⟩ : u.bucket.capacity = capacity ∧ u.bucket.pageShift = pageShift :=
    h.reaches.sameShape
  have hsize : u.bucket.pageSize = pageSize := congrArg (1 <<< ·) hshift
  have hpage : u.bucket.page? key = (PageEvent.latest history key).map (·.take pageSize) := by
    exact h.page?_eq hstart (fun _ => Bucket.page?_ofCapacity hvalid hempty ..) key
  refine ⟨fun dest offset hoffset => ?_, fun op hop hother dest offset => ?_, fun data hdata => ?_,
    fun op hop => ?_⟩
  · rw [Bucket.serve, Bucket.read_fst, hpage, hsize]
    rcases PageEvent.latest history key with _ | data
    · rfl
    · have hfits := Nat.min_le_left dest.length (pageSize - offset)
      simp only [Option.map_some, if_neg (Nat.not_lt.2 hoffset), Lookup.fill]
      rw [Bytes.overlay_of_length_le (by rwa [Bytes.length_window]), Bytes.length_window]
  · have hkept : (u.perform op).bucket.page? key = u.bucket.page? key := by
      have hnone : (u.events op).find? (·.key = key) = none := by
        simpa [List.find?_eq_none] using hother
      rw [Usage.page?_perform howned hop, hnone]
    rw [Bucket.serve, Bucket.serve, Bucket.read_fst, Bucket.read_fst, hkept,
      hop.step.sameShape.pageSize_eq]
  · rw [hdata, Option.map_some] at hpage
    obtain ⟨slot, hslot, hbound, hbytes⟩ := Bucket.exists_memory_of_page? howned hpage
    -- Where the data was cut there is no room for zeros.
    have hmissing : pageSize - min pageSize data.length = pageSize - data.length := by omega
    rw [hsize, hshift, List.take_take, Nat.min_self, List.length_take, hmissing] at hbytes
    exact ⟨slot, hcapacity ▸ hslot, hbound, hbytes⟩
  · rw [Usage.memory_perform howned hop, hshift]

/-- In a bucket of one slot of four bytes a page of five is cut, and once it lost the slot to a page
of one byte, nothing of it shows behind that byte, in the memory of the bucket as little as in what
is served. -/
theorem bucket_serves_latest_install_of_recycled_slot :
    let long : PageKey := ⟨1, 0⟩
    let short : PageKey := ⟨1, 7⟩
    let index : Fifo PageKey Slot := .empty
    ∃ u v : Usage (Fifo PageKey Slot),
      Usage.Logged (.ofCapacity 1 2 index) [.installed long [1, 2, 3, 4, 5]] u ∧
      u.bucket.serve long [9, 9, 9, 9] 1 = some (true, [2, 3, 4, 9]) ∧
      u.bucket.memory = [1, 2, 3, 4] ∧
      Usage.Logged (.ofCapacity 1 2 index)
        [.installed short [6], .evicted long, .installed long [1, 2, 3, 4, 5]] v ∧
      v.bucket.serve short [9, 9, 9, 9, 9] 0 = some (true, [6, 0, 0, 0, 9]) ∧
      v.bucket.serve long [9, 9, 9, 9] 1 = some (false, [9, 9, 9, 9]) ∧
      v.bucket.memory = [6, 0, 0, 0] := by
  intro long short index
  have hstart : Usage.Logged (.ofCapacity 1 2 index) [] _ := .start
  have hu := (hstart.step .acquire trivial).step (.install long 0 [1, 2, 3, 4, 5]) (by decide)
  have hw := hu.step .acquire trivial
  have hv := hw.step (.install short 0 [6]) (by decide)
  have hserved {history : List PageEvent} {w : Usage (Fifo PageKey Slot)}
      (hw : Usage.Logged (.ofCapacity 1 2 index) history w) (key : PageKey) :=
    bucket_serves_latest_install List.nodup_nil rfl 1 2 hw key
  -- The short page is stored where the long one was.
  have hmemory := (hserved hw short).2.2.2 (.install short 0 [6]) (by decide)
  exact ⟨_, _, hu, ((hserved hu long).1 _ 1 (by decide)).trans (by decide), by decide, hv,
    ((hserved hv short).1 _ 0 (by decide)).trans (by decide),
    ((hserved hv long).1 _ 1 (by decide)).trans (by decide), hmemory.trans (by decide)⟩

end ReadThrough
