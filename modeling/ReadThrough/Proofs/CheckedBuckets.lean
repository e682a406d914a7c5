import ReadThrough.Proofs.Bookkeeping
import ReadThrough.Proofs.ExactGeometry

/-!
# Checked operations of a bucket

An operation of a bucket computes where a page is in words of 64 bits, cuts pieces out of the memory
and copies pieces over others, and counts in words. `Bucket.read?`, `Bucket.acquire?`,
`Bucket.install?` and `Bucket.release?` are the operations with all of this written out: there is no
result if a number is not a word, a piece is not within its bytes, or a piece is copied over one of
another length.

On a bucket of an accepted geometry whose slots are in order (`Bucket.Fits`) nothing of this can
happen but that a counter runs over: each of them is the operation itself if the counters that it
leaves are words, and has no result otherwise (`Bucket.counted?`).
-/

namespace ReadThrough

/-! ## Pieces of bytes -/

namespace Bytes

variable {bytes : Bytes} {start stop n : Nat}

/-- The bytes from `start` up to `stop`. -/
def slice? (bytes : Bytes) (start stop : Nat) : Option Bytes :=
  if start ≤ stop ∧ stop ≤ bytes.length then some ((bytes.take stop).drop start) else none

/-- What is in a piece after other bytes, as many as it has, were copied over it. -/
def copy? (target source : Bytes) : Option Bytes :=
  if target.length = source.length then some source else none

/-- A piece within bounds. -/
theorem slice?_of_le (horder : start ≤ stop) (hwithin : stop ≤ bytes.length) :
    bytes.slice? start stop = some ((bytes.take stop).drop start) :=
  if_pos ⟨horder, hwithin⟩

/-- A piece from the beginning on. -/
theorem slice?_front (h : n ≤ bytes.length) : bytes.slice? 0 n = some (bytes.take n) := by
  rw [slice?_of_le (Nat.zero_le _) h, List.drop_zero]

/-- The piece up to the end. -/
theorem slice?_rest (h : n ≤ bytes.length) : bytes.slice? n bytes.length = some (bytes.drop n) := by
  rw [slice?_of_le h Nat.le.refl, List.take_length]

/-- There is no piece longer than the whole. -/
theorem slice?_front_eq_none (h : bytes.length < n) : bytes.slice? 0 n = none :=
  if_neg fun hwithin => absurd hwithin.2 (Nat.not_le.2 h)

/-- Copying between pieces of one length gives the bytes of the source. -/
theorem copy?_of_length_eq {target source : Bytes} (h : target.length = source.length) :
    target.copy? source = some source :=
  if_pos h

end Bytes

/-- The number, if 64 bits can hold it with a sign. -/
def Word.signed? (n : Int) : Option Int :=
  if -(Reader.offsetLimit : Int) ≤ n ∧ n < Reader.offsetLimit then some n else none

theorem Word.signed?_of_lt {n : Int} (hnonneg : 0 ≤ n) (h : n < Reader.offsetLimit) :
    signed? n = some n :=
  if_pos ⟨by omega, h⟩

/-- A number that has a sign bit to spare. -/
theorem Word.add?_of_lt_offsetLimit {a b : Nat} (h : a + b < Reader.offsetLimit) :
    add? a b = some (a + b) := by
  have hlimit : Reader.offsetLimit < Geometry.sizeLimit := by decide
  exact add?_eq_some_iff.2 ⟨by omega, rfl⟩

/-! ## Buckets -/

namespace Bucket

variable {ι : Type}

/-- Where the page of a slot starts and ends in the memory of the bucket. -/
def span? (b : Bucket ι) (slot : Slot) : Option (Nat × Nat) := do
  let start ← Word.shl? slot b.pageShift
  let size ← Word.shl? 1 b.pageShift
  let stop ← Word.add? start size
  return (start, stop)

/-- The page of a slot. -/
def cell? (b : Bucket ι) (slot : Slot) : Option Bytes := do
  let (start, stop) ← b.span? slot
  b.memory.slice? start stop

/-- The memory has room for the page of each slot. -/
theorem length_memory (b : Bucket ι) : b.memory.length = b.pages.size * b.pageSize := by
  have hall (pages : List Bytes) :
      (pages.flatMap (Bytes.window · 0 b.pageSize)).length = pages.length * b.pageSize := by
    simp
  rw [memory, hall, Array.length_toList]

/-- `Bucket.record` in words. -/
def record? (b : Bucket ι) (event : Counters.Event) : Option (Bucket ι) := do
  let counters ← b.counters.record? event
  return { b with counters }

/-- `Bucket.release` in words. -/
def release? (b : Bucket ι) (slot : Slot) : Option (Bucket ι) :=
  { b with free := slot :: b.free }.record? .free

/-- What an operation gives, if the counters that it leaves are words. -/
def counted? {α : Type} (done : α × Bucket ι) : Option (α × Bucket ι) :=
  if done.2.counters.Fit then some done else none

/-- Counting goes wrong exactly if the counters do not fit afterwards. -/
theorem record?_eq {b : Bucket ι} (h : b.counters.Fit) (event : Counters.Event) :
    b.record? event = if (b.record event).counters.Fit then some (b.record event) else none := by
  rw [record?, Counters.record?_eq h, Counters.words?]
  unfold record
  dsimp only
  split <;> rfl

theorem record?_bind {α : Type} {b : Bucket ι} (h : b.counters.Fit) (event : Counters.Event)
    (result : α) :
    ((b.record? event).bind fun b => some (result, b)) = counted? (result, b.record event) := by
  rw [record?_eq h, counted?]
  split <;> rfl

theorem release?_eq {b : Bucket ι} (h : b.counters.Fit) (slot : Slot) :
    b.release? slot = if (b.release slot).counters.Fit then some (b.release slot) else none :=
  record?_eq (b := { b with free := slot :: b.free }) h .free

variable [EvictionPolicy ι PageKey Slot]

/-- `Bucket.read` into the front of `dest`. -/
def read? (b : Bucket ι) (key : PageKey) (dest : Bytes) (offset : Nat) :
    Option (Lookup × Bucket ι) :=
  match EvictionPolicy.lookup b.index key with
  | (none, index) => do return (.miss, ← { b with index }.record? (.lookup false))
  | (some slot, index) => do
    let page ← b.cell? slot
    let source ← page.slice? offset page.length
    let n := min dest.length source.length
    let target ← dest.slice? 0 n
    let bytes ← target.copy? (← source.slice? 0 n)
    return (.hit bytes, ← { b with index }.record? (.lookup true))

/-- `Bucket.acquire` in words. -/
def acquire? (b : Bucket ι) : Option (Grant × Bucket ι) :=
  match b.free with
  | slot :: free => do return (.free slot, ← { b with free }.record? .allocation)
  | [] =>
    match EvictionPolicy.evict b.index with
    | (some (victim, slot), index) => do
      return (.reclaimed slot victim, ← { b with index }.record? .eviction)
    | (none, index) => some (.exhausted, { b with index })

/-- `Bucket.install` of the bytes that it has copied to the front of the page; the zeros behind them
are implied. -/
def install? (b : Bucket ι) (key : PageKey) (slot : Slot) (data : Bytes) :
    Option (Option Slot × Bucket ι) := do
  let page ← b.cell? slot
  let n := min data.length page.length
  let target ← page.slice? 0 n
  let bytes ← target.copy? (← data.slice? 0 n)
  let _zeroed ← page.slice? n page.length
  let pages := b.pages.setIfInBounds slot bytes
  match EvictionPolicy.insert b.index key slot with
  | (some former, index) =>
    let freed ← { b with pages, index }.release? former
    return (some former, ← freed.record? .insert)
  | (none, index) => return (none, ← { b with pages, index }.record? .insert)

/-- Nothing but the counters can keep a bucket from handing out a slot. -/
theorem acquire?_eq {b : Bucket ι} (h : b.counters.Fit) : b.acquire? = counted? b.acquire := by
  unfold acquire? acquire
  cases b.free with
  | cons slot free => exact record?_bind (b := { b with free }) h .allocation _
  | nil =>
    rcases EvictionPolicy.evict b.index with ⟨_ | ⟨victim, slot⟩, index⟩
    · exact (if_pos h).symm
    · exact record?_bind (b := { b with free := [], index }) h .eviction _

variable [LawfulPolicy ι]

/-- A bucket of an accepted geometry, with every slot in one place. -/
structure Fits (g : Geometry) (b : Bucket ι) (held : List Slot) : Prop where
  accepted : g.Accepted
  pageShift_eq : b.pageShift = g.pageShift
  capacity_eq : b.capacity = g.pagesPerBucket
  owned : b.Owned held

namespace Fits

variable {g : Geometry} {b : Bucket ι} {held : List Slot} {slot : Slot}

theorem pageSize_eq (h : b.Fits g held) : b.pageSize = g.pageSize := by
  rw [Bucket.pageSize, Geometry.pageSize, h.pageShift_eq]

/-- Where the page of a slot is, computed in words. -/
theorem span?_eq (h : b.Fits g held) (hslot : slot < b.capacity) :
    b.span? slot = some (slot * b.pageSize, (slot + 1) * b.pageSize) := by
  rw [h.capacity_eq] at hslot
  have hshift : g.pageShift < 64 := Nat.lt_of_le_of_lt h.accepted.pageShift_le (by decide)
  have hstart := h.accepted.shl?_pageShift (Nat.le_of_lt hslot)
  have hend := h.accepted.mul_pageSize_lt (Nat.succ_le_of_lt hslot)
  have hstop : Word.add? (slot * g.pageSize) g.pageSize = some ((slot + 1) * g.pageSize) := by
    rw [Nat.succ_mul] at hend ⊢
    exact Word.add?_eq_some_iff.2 ⟨hend, rfl⟩
  have hsize : Word.shl? 1 g.pageShift = some g.pageSize := Word.one_shl?_of_lt hshift
  rw [span?, h.pageShift_eq, h.pageSize_eq, hstart, hsize]
  simp [hstop]

/-- The page of a slot lies within the memory. -/
theorem cell?_eq (h : b.Fits g held) (hslot : slot < b.capacity) :
    b.cell? slot = some (b.pageBytes slot 0 b.pageSize) := by
  have hpages : slot < b.pages.size := by rwa [h.owned.pages_size]
  have hwithin : (slot + 1) * b.pageSize ≤ b.memory.length := by
    rw [b.length_memory]
    exact Nat.mul_le_mul_right _ hpages
  have horder : slot * b.pageSize ≤ (slot + 1) * b.pageSize :=
    Nat.mul_le_mul_right _ (Nat.le_succ _)
  have hlength : (slot + 1) * b.pageSize - slot * b.pageSize = b.pageSize := by
    rw [Nat.succ_mul, Nat.add_sub_cancel_left]
  rw [pageBytes_eq_memory hpages (Nat.le_of_eq (Nat.zero_add _)), Nat.add_zero,
    b.shiftLeft_pageShift, cell?, h.span?_eq hslot]
  show b.memory.slice? _ _ = _
  rw [Bytes.slice?_of_le horder hwithin, List.drop_take, hlength]

/-- Reading from within a page copies between pieces of one length. -/
theorem read?_eq (h : b.Fits g held) (hcounts : b.counters.Fit) (key : PageKey) (dest : Bytes)
    {offset : Nat} (hoffset : offset ≤ b.pageSize) :
    b.read? key dest offset = counted? (b.read key offset dest.length) := by
  have hbound (slot : Slot) :
      (EvictionPolicy.lookup b.index key).1 = some slot ↔ (key, slot) ∈ b.residents :=
    LawfulPolicy.lookup_eq_some_iff h.owned.valid
  unfold read? Bucket.read
  rcases hpair : EvictionPolicy.lookup b.index key with ⟨_ | slot, index⟩
  · exact record?_bind (b := { b with index }) hcounts (.lookup false) _
  · rw [hpair] at hbound
    have hslot := (h.owned.of_mem_residents ((hbound slot).1 rfl)).1
    have hpage : (b.pageBytes slot 0 b.pageSize).length = b.pageSize := Bytes.length_window ..
    have hsource : (b.pageBytes slot 0 b.pageSize).slice? offset b.pageSize
        = some ((b.pageBytes slot 0 b.pageSize).drop offset) := by
      have hrest := Bytes.slice?_rest (hpage ▸ hoffset)
      rwa [hpage] at hrest
    have hcount : ((b.pageBytes slot 0 b.pageSize).drop offset).length = b.pageSize - offset := by
      rw [List.length_drop, hpage]
    have hbytes : ((b.pageBytes slot 0 b.pageSize).drop offset).take
          (min dest.length (b.pageSize - offset))
        = b.pageBytes slot offset (min dest.length (b.pageSize - offset)) :=
      Bytes.take_drop_window (by omega)
    dsimp only
    rw [h.cell?_eq hslot, if_neg (Nat.not_lt.2 hoffset)]
    simp only [Option.bind_eq_bind, Option.bind_some, hpage, hsource, hcount]
    rw [Bytes.slice?_front (Nat.min_le_left ..), Bytes.slice?_front (by omega)]
    simp only [Option.bind_some]
    rw [Bytes.copy?_of_length_eq (by simp [hpage]), hbytes]
    exact record?_bind (b := { b with index }) hcounts (.lookup true) _

/-- Installing into a slot that is held writes within the page of that slot. -/
theorem install?_eq (h : b.Fits g held) (hcounts : b.counters.Fit) (hslot : slot ∈ held)
    (key : PageKey) (data : Bytes) :
    b.install? key slot data = counted? (b.install key slot data) := by
  have hpage : (b.pageBytes slot 0 b.pageSize).length = b.pageSize := Bytes.length_window ..
  have hrest : (b.pageBytes slot 0 b.pageSize).slice? (min data.length b.pageSize) b.pageSize
      = some _ := Bytes.slice?_of_le (Nat.min_le_right ..) (Nat.le_of_eq hpage.symm)
  have hbytes : data.take (min data.length b.pageSize) = data.take b.pageSize := by
    rw [List.take_eq_take_iff]
    omega
  unfold install? install
  rw [h.cell?_eq (h.owned.of_mem_held hslot).1]
  simp only [Option.bind_eq_bind, Option.bind_some, hpage, hrest]
  rw [Bytes.slice?_front (by omega), Bytes.slice?_front (Nat.min_le_left ..)]
  simp only [Option.bind_some]
  rw [Bytes.copy?_of_length_eq (by simp [hpage])]
  simp only [Option.bind_some, hbytes]
  rcases EvictionPolicy.insert b.index key slot with ⟨_ | former, index⟩
  · exact record?_bind
      (b := { b with pages := b.pages.setIfInBounds slot (data.take b.pageSize), index })
      hcounts .insert _
  · let published : Bucket ι :=
      { b with pages := b.pages.setIfInBounds slot (data.take b.pageSize), index }
    show ((published.release? former).bind fun freed => (freed.record? .insert).bind fun b =>
      some (some former, b)) = counted? (some former, (published.release former).record .insert)
    rw [release?_eq (b := published) hcounts]
    split
    · rename_i hreleased
      exact record?_bind hreleased .insert _
    · -- a counter that has run over stays over
      rename_i hover
      have hgrows := (published.release former).counters.atMost_record .insert
      exact (if_neg fun hfits => hover (hfits.of_atMost hgrows)).symm

end Fits

end Bucket

/-! ## Caches -/

namespace Cache

/-- An operation that may have no result, on the bucket of a key. -/
def onBucket? {α : Type} (c : Cache) (key : PageKey)
    (act? : CacheBucket → Option (α × CacheBucket)) : Option (α × Cache) := do
  let done ← act? (c.bucket (c.shardOf key))
  return c.onBucket key fun _ => done

/-- `Cache.read` into the front of `dest`. -/
def read? (c : Cache) (key : PageKey) (dest : Bytes) (offset : Nat) : Option (Lookup × Cache) :=
  c.onBucket? key (·.read? key dest offset)

/-- `Cache.acquire` in words. -/
def acquire? (c : Cache) (key : PageKey) : Option (Grant × Cache) :=
  c.onBucket? key (·.acquire?)

/-- `Cache.install` with the bounds of the page checked. -/
def install? (c : Cache) (key : PageKey) (slot : Slot) (data : Bytes) :
    Option (Option Slot × Cache) :=
  c.onBucket? key (·.install? key slot data)

/-- `Cache.release` in words. -/
def release? (c : Cache) (key : PageKey) (slot : Slot) : Option Cache :=
  (c.onBucket? key fun b => do return ((), ← b.release? slot)).map (·.2)

/-- What an operation gives, if the counters that it leaves in the bucket of the key are words. -/
def counted? {α : Type} (key : PageKey) (done : α × Cache) : Option (α × Cache) :=
  if (done.2.bucket (done.2.shardOf key)).counters.Fit then some done else none

variable {c : Cache} {key : PageKey} {g : Geometry} {held : List Slot}

/-- An operation on a bucket goes wrong exactly if the counters of that bucket do not fit then. -/
theorem onBucket?_eq {α : Type} {act? : CacheBucket → Option (α × CacheBucket)}
    {act : CacheBucket → α × CacheBucket}
    (h : act? (c.bucket (c.shardOf key)) = Bucket.counted? (act (c.bucket (c.shardOf key)))) :
    c.onBucket? key act? = counted? key (c.onBucket key act) := by
  have hbucket : (c.onBucket key act).2.bucket (c.shardOf key)
      = (act (c.bucket (c.shardOf key))).2 := by
    rw [bucket_onBucket, if_pos rfl]
  rw [onBucket?, h, Bucket.counted?, counted?, shardOf_onBucket, hbucket]
  split <;> rfl

section Operations

variable (hcounts : (c.bucket (c.shardOf key)).counters.Fit)

include hcounts

theorem read?_eq (h : (c.bucket (c.shardOf key)).Fits g held) (dest : Bytes) {offset : Nat}
    (hoffset : offset ≤ g.pageSize) :
    c.read? key dest offset = counted? key (c.read key offset dest.length) :=
  onBucket?_eq (h.read?_eq hcounts key dest (h.pageSize_eq ▸ hoffset))

theorem acquire?_eq : c.acquire? key = counted? key (c.acquire key) :=
  onBucket?_eq (Bucket.acquire?_eq hcounts)

theorem install?_eq (h : (c.bucket (c.shardOf key)).Fits g held) {slot : Slot}
    (hslot : slot ∈ held) (data : Bytes) :
    c.install? key slot data = counted? key (c.install key slot data) :=
  onBucket?_eq (h.install?_eq hcounts hslot key data)

theorem release?_eq (slot : Slot) :
    c.release? key slot = (counted? key ((), c.release key slot)).map (·.2) := by
  have hbucket : ((c.bucket (c.shardOf key)).release? slot).bind (fun b => some ((), b))
      = Bucket.counted? ((), (c.bucket (c.shardOf key)).release slot) := by
    rw [Bucket.release?_eq hcounts, Bucket.counted?]
    split <;> rfl
  have hcache : c.onBucket? key (fun b => (b.release? slot).bind fun b => some ((), b))
      = counted? key (c.onBucket key fun b => ((), b.release slot)) := onBucket?_eq hbucket
  exact congrArg (Option.map (·.2)) hcache

end Operations

end Cache

end ReadThrough
