import ReadThrough.Proofs.CheckedBuckets
import ReadThrough.Proofs.Journeys

/-!
# Checked steps

A step of a call computes positions and lengths in words of 64 bits and cuts pieces out of its
buffer and of a page besides what it does to its bucket. `Call.start?`, `Call.touch?` and
`Call.receive?` are the steps with all of this written out: there is no result if a number is not a
word, a piece is not within its bytes, or a piece is copied over one of another length.

For a call that is on its way in its range (`Call.Fits`), and on a bucket whose slots are in order,
each of them is the step itself, with two exceptions. A step on the cache has no result if a counter
of the bucket runs over (`Call.Fits.touch?_eq`), and the step which takes an untenable answer has
none (`Call.Fits.receive?_eq`).
-/

namespace ReadThrough

/-! ## Calls -/

/-- The number of bytes at the front of the buffer that a read may deliver. -/
def Request.reach (r : Request) : Nat := min r.buffer.length (r.view.size - r.offset).toNat

theorem Request.offset_add_reach {r : Request} (hnonneg : 0 ≤ r.offset)
    (hwithin : r.offset < r.view.size) : r.offset.toNat + r.reach = r.stop := by
  rw [reach, stop]
  omega

namespace Call

section Steps

variable (c : Call) (reach : Nat)

/-- The page at hand, where it starts, and the place of the next byte in it. -/
def hand? : Option (Nat × Nat × Nat) := do
  let page ← Word.shr? c.offset c.pageShift
  let pageStart ← Word.shl? page c.pageShift
  let intra ← Word.sub? c.offset pageStart
  return (page, pageStart, intra)

/-- What is still to be filled of the buffer, of which no more than `reach` bytes are used. -/
def ahead? : Option Bytes := do
  let range ← c.destination.contents.slice? 0 reach
  range.slice? c.destination.copied range.length

/-- What the bytes wanted from the page at hand are copied over. -/
def wanted? : Option Bytes := do
  let ahead ← c.ahead? reach
  let room ← Word.sub? c.pageSize c.intra
  ahead.slice? 0 (min ahead.length room)

/-- The buffer that the page at hand is fetched into. -/
def frame? : Option Bytes :=
  if c.wholePage then do
    let ahead ← c.ahead? reach
    ahead.slice? 0 c.pageSize
  else some (if c.scratch.isEmpty then Bytes.zeros c.pageSize else c.scratch)

/-- `Call.visit`, which cuts out the bytes that the page at hand is wanted for. -/
def visit? : Option Call :=
  if reach ≤ c.destination.copied then some (c.finish (.done c.destination.copied))
  else do
    let (page, _, _) ← c.hand?
    if pageLimit ≤ page then do
      let position ← Word.signed? c.offset
      return c.stopFor (.offsetOutOfRange position c.view.size)
    else do
      let _target ← c.wanted? reach
      return { c with phase := .lookup }

/-- `Call.deliver` of bytes that are in the buffer by then. -/
def deliver? (bytes : Bytes) : Option Call := do
  let offset ← Word.add? c.offset bytes.length
  let _copied ← Word.add? c.destination.copied bytes.length
  visit? { c with destination := c.destination.deliver bytes, offset } reach

/-- `Call.deliver` of what is wanted of the fetched page. A page that is wanted whole was fetched
into its place. -/
def serve? (frame : Bytes) : Option Call :=
  if c.wholePage then c.deliver? reach frame
  else do
    let target ← c.wanted? reach
    let stop ← Word.add? c.intra target.length
    let bytes ← target.copy? (← frame.slice? c.intra stop)
    c.deliver? reach bytes

/-- `Call.touch` without what there is to tell. -/
def touch? (cache : Cache) : Option (Call × Cache) :=
  match c.phase with
  | .lookup => do
    let target ← c.wanted? reach
    let (found, cache) ← cache.read? c.key target c.intra
    match found with
    | .hit bytes => return (← c.deliver? reach bytes, cache)
    | .miss => return ({ c with phase := .acquire }, cache)
    -- no piece of the page starts past its end
    | .pastPage => none
  | .acquire => do
    let (grant, cache) ← cache.acquire? c.key
    match grant.slot? with
    | some slot =>
      let _frame ← c.frame? reach
      return ({ c with phase := .fetch slot }, cache)
    | none => return (c.stopFor .noFreePages, cache)
  | .publish slot n => do
    let frame ← c.frame? reach
    let data ← frame.slice? 0 n
    let (_, cache) ← cache.install? c.key slot data
    return (← c.serve? reach frame, cache)
  | .release slot cause => do return (c.stopFor cause, ← cache.release? c.key slot)
  | .fetch _ => some (c, cache)
  | .finished _ => some (c, cache)

/-- Whether a count that is below a page ends before the view does. -/
def short? (frame : Bytes) (n : Nat) : Option Bool :=
  if n < frame.length then do
    let stop ← Word.add? c.pageStart n
    return decide (stop < c.view.size)
  else some false

/-- `Call.afterReply`, which cuts the fetched bytes off the buffer of the page. -/
def afterReply? (slot : Slot) (frame : Bytes) : Reply → Option Phase
  | .failed error => some (.release slot (.io error))
  | .abandoned => none
  | .count n => do
    let short ← c.short? frame n
    if short then return .release slot (.noProgress c.pageStart frame.length n)
    else do
      let _data ← frame.slice? 0 n
      return .publish slot n

/-- `Call.receive` without what there is to tell. -/
def receive? (t : Transfer) : Option Call :=
  match c.phase with
  | .fetch slot => do
    let frame ← c.frame? reach
    let phase ← c.afterReply? slot frame t.reply
    return { c.setFrame (frame.overlay t.written) with phase }
  | _ => some c

end Steps

/-- The call for a request, as `Call.start` gives it. -/
def start? (r : Request) (pageShift : Nat) : Option Call :=
  let c := ofRequest r pageShift
  if r.offset < 0 then some (c.stopFor (.offsetOutOfRange r.offset r.view.size))
  else if r.view.size ≤ r.offset then some (c.finish (.done 0))
  else do
    let remaining ← Word.signed? (r.view.size - r.offset)
    let reach := min r.buffer.length remaining.toNat
    let _range ← r.buffer.slice? 0 reach
    let _pageSize ← Word.shl? 1 pageShift
    c.visit? reach

/-- A call is within the bytes that it may deliver, and these lie at positions that have signed
numbers. -/
structure Fits (reach : Nat) (c : Call) : Prop where
  pageShift_le : c.pageShift ≤ 30
  stop_lt : c.stop < Reader.offsetLimit
  room : reach ≤ c.destination.contents.length
  left : c.destination.copied + (c.stop - c.offset) = reach
  copied_le : c.destination.copied ≤ c.offset

namespace Fits

variable {reach : Nat} {c : Call}

theorem hand?_eq (h : c.Fits reach) (hleft : c.offset < c.stop) :
    c.hand? = some (c.page, c.pageStart, c.intra) := by
  have hshift : c.pageShift < 64 := Nat.lt_of_le_of_lt h.pageShift_le (by decide)
  have hlimit : Reader.offsetLimit < Geometry.sizeLimit := by decide
  have hstop := h.stop_lt
  have hle : c.pageStart ≤ c.offset := c.pageStart_add_intra ▸ Nat.le_add_right ..
  have hstart : Word.shl? c.page c.pageShift = some c.pageStart :=
    Word.shl?_of_lt hshift (show c.pageStart < _ by omega)
  have hpage : Word.shr? c.offset c.pageShift = some c.page := Word.shr?_of_lt hshift
  rw [hand?, hpage]
  simp only [Option.bind_eq_bind, Option.bind_some, hstart, Word.sub?_of_le hle]
  rfl

theorem ahead?_eq (h : c.Fits reach) :
    c.ahead? reach = some (c.destination.ahead.take (c.stop - c.offset)) := by
  have hleft := h.left
  have hlength : (c.destination.contents.take reach).length = reach :=
    List.length_take_of_le h.room
  have hcopied : c.destination.copied ≤ (c.destination.contents.take reach).length := by omega
  rw [ahead?, Bytes.slice?_front h.room]
  show Bytes.slice? _ _ _ = _
  rw [Bytes.slice?_rest hcopied, List.drop_take, Destination.contents_eq, Destination.copied,
    List.drop_left' List.length_reverse]
  congr 2
  exact (Nat.eq_sub_of_add_eq' hleft).symm

theorem length_ahead (h : c.Fits reach) :
    (c.destination.ahead.take (c.stop - c.offset)).length = c.stop - c.offset := by
  have hleft := h.left
  have hroom := h.room
  rw [Destination.contents_eq, List.length_append, List.length_reverse, ← Destination.copied]
    at hroom
  exact List.length_take_of_le (by omega)

theorem wanted?_eq (h : c.Fits reach) :
    ∃ target, c.wanted? reach = some target ∧ target.length = c.want := by
  have hlength := h.length_ahead
  have hwithin : c.want ≤ (c.destination.ahead.take (c.stop - c.offset)).length := by
    rw [hlength]
    exact Nat.min_le_left ..
  refine ⟨_, ?_, List.length_take_of_le hwithin⟩
  rw [wanted?, h.ahead?_eq, Word.sub?_of_le (Nat.le_of_lt c.intra_lt)]
  simp only [Option.bind_eq_bind, Option.bind_some, hlength]
  exact Bytes.slice?_front hwithin

theorem frame?_eq (h : c.Fits reach) : c.frame? reach = some c.frame := by
  unfold frame? frame
  split
  · rename_i hwhole
    have hwant := (want_eq_of_wholePage hwhole).1
    have hle : c.pageSize ≤ c.stop - c.offset := hwant ▸ Nat.min_le_left ..
    have hwithin := hle.trans_eq h.length_ahead.symm
    rw [h.ahead?_eq]
    show Bytes.slice? _ 0 _ = _
    rw [Bytes.slice?_front hwithin, List.take_take, Nat.min_eq_left hle]
  · split <;> rfl

theorem visit?_eq (h : c.Fits reach) : c.visit? reach = some c.visit := by
  have hleft := h.left
  have hstop := h.stop_lt
  unfold visit? visit
  by_cases hdone : c.stop ≤ c.offset
  · rw [if_pos hdone, if_pos (by omega)]
  · rw [if_neg hdone, if_neg (by omega), h.hand?_eq (Nat.lt_of_not_le hdone)]
    obtain ⟨target, htarget, -⟩ := h.wanted?_eq
    simp only [Option.bind_eq_bind, Option.bind_some, htarget]
    rw [Word.signed?_of_lt (by omega) (by omega)]
    split <;> rfl

theorem delivered (h : c.Fits reach) (hleft : c.offset < c.stop) {bytes : Bytes}
    (hbytes : bytes.length = c.want) :
    Fits reach { c with
      destination := c.destination.deliver bytes
      offset := c.offset + bytes.length } := by
  have hbefore := h.left
  have hcopied := h.copied_le
  have hend := offset_add_want_le hleft
  have hroom : bytes.length ≤ c.destination.ahead.length := by
    have hlength := h.length_ahead
    rw [List.length_take] at hlength
    omega
  refine ⟨h.pageShift_le, h.stop_lt, ?_, ?_, ?_⟩
  · rw [Destination.length_contents_deliver hroom]
    exact h.room
  · rw [Destination.copied_deliver]
    dsimp only
    omega
  · rw [Destination.copied_deliver]
    exact Nat.add_le_add_right hcopied _

theorem deliver?_eq (h : c.Fits reach) (hleft : c.offset < c.stop) {bytes : Bytes}
    (hbytes : bytes.length = c.want) : c.deliver? reach bytes = some (c.deliver bytes) := by
  have hstop := h.stop_lt
  have hcopied := h.copied_le
  have hend := offset_add_want_le hleft
  rw [deliver?, Word.add?_of_lt_offsetLimit (by omega), Word.add?_of_lt_offsetLimit (by omega)]
  show visit? _ reach = _
  rw [(h.delivered hleft hbytes).visit?_eq, deliver, hbytes]

/-- What is wanted of the page is cut out of the buffer it was fetched into. -/
theorem serve?_eq (h : c.Fits reach) (hleft : c.offset < c.stop)
    (hframe : c.frame.length = c.pageSize) :
    c.serve? reach c.frame = some (c.deliver ((c.frame.drop c.intra).take c.want)) := by
  have hwithin := c.intra_add_want_le
  unfold serve?
  split
  · rename_i hwhole
    obtain ⟨hwant, hintra⟩ := want_eq_of_wholePage hwhole
    have hall : (c.frame.drop c.intra).take c.want = c.frame := by
      rw [hintra, List.drop_zero, hwant, ← hframe, List.take_length]
    rw [h.deliver?_eq hleft (hframe.trans hwant.symm), hall]
  · obtain ⟨target, htarget, hlength⟩ := h.wanted?_eq
    have hend : Word.add? c.intra target.length = some (c.intra + c.want) := by
      have hstop := h.stop_lt
      have hstart := c.pageStart_add_intra
      have hroom := offset_add_want_le hleft
      rw [hlength]
      exact Word.add?_of_lt_offsetLimit (by omega)
    have hpart : c.frame.slice? c.intra (c.intra + c.want)
        = some ((c.frame.drop c.intra).take c.want) := by
      rw [Bytes.slice?_of_le (Nat.le_add_right ..) (hwithin.trans_eq hframe.symm),
        List.drop_take, Nat.add_sub_cancel_left]
    have hbytes : ((c.frame.drop c.intra).take c.want).length = c.want := by
      rw [List.length_take, List.length_drop]
      omega
    simp only [htarget, Option.bind_eq_bind, Option.bind_some, hend, hpart,
      Bytes.copy?_of_length_eq (hlength.trans hbytes.symm), h.deliver?_eq hleft hbytes]

/-- On a bucket that is in order the steps of a call on its cache are within all bounds if the
counters that they leave are words. -/
theorem touch?_eq {r : Request} {pageShift : Nat} (h : c.Fits reach)
    (htracks : c.Tracks r pageShift) {cache : Cache} (hshape : cache.Shaped c.pageShift)
    {g : Geometry} {held : List Slot}
    (hbucket : (cache.bucket (cache.shardOf c.key)).Fits g held)
    (hcounts : (cache.bucket (cache.shardOf c.key)).counters.Fit)
    (hheld : ∀ slot, c.slot? = some slot → slot ∈ held) :
    c.touch? reach cache = Cache.counted? c.key ((c.touch cache).1.1, (c.touch cache).2) := by
  have hstage := htracks.stage
  have hframe := htracks.sound.length_frame
  have hwithin := c.intra_add_want_le
  obtain ⟨target, htarget, hlength⟩ := h.wanted?_eq
  rw [Stage] at hstage
  unfold touch?
  cases hphase : c.phase with
  | lookup =>
    rw [hphase] at hstage
    have hsize : g.pageSize = c.pageSize := by
      rw [← hbucket.pageSize_eq, Bucket.pageSize, hshape.bucket_eq, pageSize]
    have hread := Cache.read?_eq hcounts hbucket target (hsize ▸ Nat.le_of_lt c.intra_lt)
    have hfound : (cache.read c.key c.intra c.want).1 = _ := hshape.read_fst hwithin
    rw [hlength, Cache.counted?] at hread
    simp only [htarget, Option.bind_eq_bind, Option.bind_some, hread]
    cases hpage : cache.page? c.key with
    | none =>
      rw [hpage] at hfound
      rw [touch_of_miss hphase hfound, Cache.counted?]
      split
      · simp only [Option.bind_some, hfound]
        rfl
      · rfl
    | some page =>
      rw [hpage] at hfound
      have hbytes := h.deliver?_eq hstage.1 (Bytes.length_window page c.intra c.want)
      rw [touch_of_hit hphase hfound, Cache.counted?]
      split
      · simp only [Option.bind_some, hfound, hbytes]
        rfl
      · rfl
  | acquire =>
    dsimp only
    rw [Cache.acquire?_eq hcounts, Cache.counted?]
    cases hslot : (cache.acquire c.key).1.slot? with
    | none =>
      obtain ⟨hcall, hcache⟩ := touch_of_exhausted hphase hslot
      rw [hcall, hcache, Cache.counted?]
      split
      · simp only [Option.bind_eq_bind, Option.bind_some, hslot]
        rfl
      · rfl
    | some slot =>
      obtain ⟨hcall, hcache⟩ := touch_of_grant hphase hslot
      rw [hcall, hcache, Cache.counted?]
      split
      · simp only [Option.bind_eq_bind, Option.bind_some, hslot, h.frame?_eq]
        rfl
      · rfl
  | publish slot n =>
    rw [hphase] at hstage
    obtain ⟨⟨hleft, -⟩, hcount, -⟩ := hstage
    have hslot := hheld slot (by rw [slot?, hphase])
    have hdata := Bytes.slice?_front (hcount.trans_eq hframe.symm)
    have hinstall := Cache.install?_eq hcounts hbucket hslot (c.frame.take n)
    obtain ⟨hcall, hcache⟩ := touch_of_publish cache hphase
    rw [Cache.counted?] at hinstall
    rw [hcall, hcache, Cache.counted?]
    simp only [h.frame?_eq, Option.bind_eq_bind, Option.bind_some, hdata, hinstall]
    split
    · simp only [Option.bind_some, h.serve?_eq hleft hframe]
      rfl
    · rfl
  | release slot cause =>
    obtain ⟨hcall, hcache⟩ := touch_of_release cache hphase
    dsimp only
    rw [hcall, hcache, Cache.release?_eq hcounts, Cache.counted?, Cache.counted?]
    dsimp only
    split <;> rfl
  | fetch slot =>
    unfold touch
    rw [hphase]
    exact (if_pos hcounts).symm
  | finished outcome =>
    unfold touch
    rw [hphase]
    exact (if_pos hcounts).symm

theorem short?_eq (h : c.Fits reach) (hleft : c.offset < c.stop) {frame : Bytes}
    (hframe : frame.length = c.pageSize) (n : Nat) :
    c.short? frame n = some (decide (n < c.pageSize ∧ c.pageStart + n < c.view.size)) := by
  unfold short?
  rw [hframe]
  split
  · rename_i hbelow
    have hpage : c.pageSize ≤ 1 <<< 30 := one_shiftLeft_le h.pageShift_le
    have hsum : 1 <<< 30 + Reader.offsetLimit < Geometry.sizeLimit := by decide
    have hstart := c.pageStart_add_intra
    have hstop := h.stop_lt
    have hend : Word.add? c.pageStart n = some (c.pageStart + n) :=
      Word.add?_eq_some_iff.2 ⟨by omega, rfl⟩
    simp [hend, hbelow]
  · rename_i hfull
    simp [hfull]

/-- What follows from an answer is found within all bounds, unless the answer is untenable. -/
theorem afterReply?_eq (h : c.Fits reach) (hleft : c.offset < c.stop) (slot : Slot) {frame : Bytes}
    (hframe : frame.length = c.pageSize) (t : Transfer) :
    c.afterReply? slot frame t.reply
      = if t.untenable c.pageSize then none else some (c.afterReply slot t.reply) := by
  unfold afterReply? afterReply Transfer.untenable
  cases t.reply with
  | failed error => rfl
  | abandoned => rfl
  | count n =>
    simp only [h.short?_eq hleft hframe n, Option.bind_eq_bind, Option.bind_some,
      decide_eq_true_iff, hframe]
    by_cases habove : c.pageSize < n
    · rw [if_neg (fun hshort => absurd habove (Nat.lt_asymm hshort.1)), if_pos habove,
        Bytes.slice?_front_eq_none (hframe ▸ habove)]
      rfl
    · rw [if_neg habove, if_neg habove, Bytes.slice?_front (by omega)]
      split <;> rfl

/-- The step that takes an answer is within all bounds, unless the answer is untenable. -/
theorem receive?_eq {r : Request} {pageShift : Nat} (h : c.Fits reach)
    (htracks : c.Tracks r pageShift) {slot : Slot} (hphase : c.phase = .fetch slot) (t : Transfer) :
    c.receive? reach t = if t.untenable c.pageSize then none else some (c.receive t).1 := by
  have hframe := htracks.sound.length_frame
  have hstage := htracks.stage
  rw [Stage, hphase] at hstage
  rw [receive?, hphase, receive_eq hphase]
  simp only [h.frame?_eq, Option.bind_eq_bind, Option.bind_some,
    h.afterReply?_eq hstage.1 slot hframe t]
  split <;> rfl

end Fits

/-- A call starts within all bounds. -/
theorem start?_eq {r : Request} (hsize : r.view.size < Reader.offsetLimit) {pageShift : Nat}
    (hshift : pageShift ≤ 30) :
    start? r pageShift = some (start r.view pageShift r.offset r.buffer) := by
  rw [start_ofRequest, start?]
  dsimp only
  split
  · rfl
  split
  · have hempty : (ofRequest r pageShift).stop ≤ (ofRequest r pageShift).offset := by
      show r.stop ≤ r.offset.toNat
      rw [Request.stop]
      omega
    rw [visit, if_pos hempty]
    rfl
  · have hreach := r.offset_add_reach (by omega) (by omega)
    have hend : r.stop ≤ r.view.size := Nat.min_le_right ..
    have hleft : 0 + (r.stop - r.offset.toNat) = r.reach := by omega
    have hfits : (ofRequest r pageShift).Fits r.reach :=
      ⟨hshift, Nat.lt_of_le_of_lt hend hsize, Nat.min_le_left .., hleft, Nat.zero_le _⟩
    rw [Word.signed?_of_lt (by omega) (by omega)]
    simp only [Option.bind_eq_bind, Option.bind_some,
      Bytes.slice?_front (Nat.min_le_left r.buffer.length _),
      Word.one_shl?_of_lt (Nat.lt_of_le_of_lt hshift (by decide))]
    exact hfits.visit?_eq

end Call

namespace Journey

variable {r : Request} {pageShift : Nat} {deeds : List Deed} {c : Call}

/-- A call at a negative position finishes at once. -/
theorem nonneg (h : Journey r pageShift deeds c) (hactive : c.active = true) : 0 ≤ r.offset := by
  induction h with
  | start =>
    rw [Call.start_ofRequest] at hactive
    split at hactive
    · exact absurd hactive (by simp [Call.stopFor, Call.finish, Call.active])
    · omega
  | step _ hstep ih => exact ih hstep.active

/-- A call under way is within the bytes that it may deliver. -/
theorem fits (h : Journey r pageShift deeds c) (hshift : pageShift ≤ 30)
    (hsize : r.view.size < Reader.offsetLimit) (hactive : c.active = true) : c.Fits r.reach := by
  have htracks := h.tracks
  have hoffset := htracks.offset_eq
  have hstop := htracks.stop_eq
  have hleft := h.offset_lt hactive
  have hend : r.stop ≤ r.view.size := Nat.min_le_right ..
  have hreach := r.offset_add_reach (h.nonneg hactive) (by omega)
  refine ⟨htracks.pageShift_eq ▸ hshift, by omega, ?_, by omega, by omega⟩
  rw [htracks.length_eq]
  exact Nat.min_le_left ..

end Journey

end ReadThrough
