import ReadThrough.Call

/-!
# The shape of a call

Where the page at hand lies, in terms of division by the page size, and what holds of the buffers of
a call at every point (`Call.Sound`): the destination has room for the rest of the range, and the
buffer that a page is fetched into has one page.
-/

namespace ReadThrough

namespace Bytes

/-- Written bytes that fit are what the buffer then starts with. -/
theorem take_overlay {buffer written : Bytes} {n : Nat} (hb : n ≤ buffer.length)
    (hw : n ≤ written.length) : (overlay buffer written).take n = written.take n := by
  rw [overlay, List.take_append_of_le_length (by rw [List.length_take]; omega), List.take_take,
    Nat.min_eq_left hb]

/-- A window within the bytes is a piece of them. -/
theorem window_eq {bytes : Bytes} {offset count : Nat} (h : offset + count ≤ bytes.length) :
    window bytes offset count = (bytes.drop offset).take count := by
  have hlength : ((bytes.drop offset).take count).length = count := by
    rw [List.length_take, List.length_drop]
    omega
  simp only [window, hlength, Nat.sub_self, zeros, List.replicate_zero, List.append_nil]

/-- A window of the front of a byte string does not see the rest of it. -/
theorem window_take {bytes : Bytes} {offset count n : Nat} (hn : n ≤ bytes.length)
    (h : offset + count ≤ n) :
    window (bytes.take n) offset count = (bytes.drop offset).take count := by
  rw [window_eq (by rw [List.length_take]; omega), List.drop_take, List.take_take]
  congr 1
  omega

end Bytes

namespace Destination

/-- Delivering what fits keeps the length of the buffer. -/
theorem length_contents_deliver {d : Destination} {bytes : Bytes}
    (h : bytes.length ≤ d.ahead.length) :
    (d.deliver bytes).contents.length = d.contents.length := by
  rw [contents_deliver]
  simp only [contents_eq, stage, List.length_append, List.length_drop]
  omega

/-- The delivered bytes are the front of the buffer. -/
theorem take_copied_contents (d : Destination) : d.contents.take d.copied = d.behind.reverse := by
  rw [contents_eq, copied]
  exact List.take_left' List.length_reverse

end Destination

namespace Call

/-! ## The page at hand -/

/-- Page numbers below the limit fit a key. -/
theorem toNat_toUInt32 {n : Nat} (h : n < pageLimit) : n.toUInt32.toNat = n := by
  have hlimit : pageLimit = 2 ^ 32 := Nat.one_shiftLeft 32
  rw [hlimit] at h
  exact Nat.mod_eq_of_lt h

section Position

variable (c : Call)

/-- Pages are not empty. -/
theorem pageSize_pos : 0 < c.pageSize := by
  rw [pageSize, Nat.one_shiftLeft]
  exact Nat.two_pow_pos _

/-- The page of a position, by division. -/
theorem page_eq : c.page = c.offset / c.pageSize := by
  rw [page, pageSize, Nat.shiftRight_eq_div_pow, Nat.one_shiftLeft]

/-- A page starts at a multiple of the page size. -/
theorem pageStart_eq : c.pageStart = c.page * c.pageSize := by
  rw [pageStart, pageSize, Nat.shiftLeft_eq, Nat.one_shiftLeft]

/-- The place within the page is the remainder. -/
theorem intra_eq : c.intra = c.offset % c.pageSize := by
  rw [intra, pageStart_eq, page_eq, Nat.mul_comm]
  have hsplit := Nat.div_add_mod c.offset c.pageSize
  omega

/-- Where the page starts and the place in it make the position. -/
theorem pageStart_add_intra : c.pageStart + c.intra = c.offset := by
  rw [pageStart_eq, intra_eq, page_eq, Nat.mul_comm]
  exact Nat.div_add_mod ..

/-- The place is within the page. -/
theorem intra_lt : c.intra < c.pageSize := by
  rw [intra_eq]
  exact Nat.mod_lt _ c.pageSize_pos

/-- No more is wanted of a page than it has. -/
theorem intra_add_want_le : c.intra + c.want ≤ c.pageSize := by
  have hintra := c.intra_lt
  rw [want]
  omega

variable {c}

/-- As long as bytes are missing, some are wanted of the page. -/
theorem want_pos (h : c.offset < c.stop) : 0 < c.want := by
  have hintra := c.intra_lt
  rw [want]
  omega

/-- What is wanted lies before the end of the range. -/
theorem offset_add_want_le (h : c.offset < c.stop) : c.offset + c.want ≤ c.stop := by
  rw [want]
  omega

/-- A page that is wanted whole is wanted from its start. -/
theorem want_eq_of_wholePage (h : c.wholePage = true) : c.want = c.pageSize ∧ c.intra = 0 := by
  have hwant : c.want = c.pageSize := by simpa [wholePage] using h
  have hle := c.intra_add_want_le
  exact ⟨hwant, by omega⟩

/-- The number in the key is that of the page, if there is a number for it. -/
theorem toNat_page_key (h : c.page < pageLimit) : c.key.page.toNat = c.page :=
  toNat_toUInt32 h

end Position

/-! ## Buffers -/

/-- The destination has room for the rest of the range, which lies within the view, and the scratch
buffer has one page or was not needed yet. -/
structure Sound (c : Call) : Prop where
  room : c.stop ≤ c.offset + c.destination.ahead.length
  stop_le : c.stop ≤ c.view.size
  scratch : c.scratch = [] ∨ c.scratch.length = c.pageSize

variable {c : Call}

/-- The buffers do not depend on the phase. -/
theorem Sound.setPhase (h : c.Sound) (phase : Phase) : ({ c with phase } : Call).Sound :=
  ⟨h.room, h.stop_le, h.scratch⟩

/-- A page that is not short of the end of the view has all that is wanted from it. -/
theorem Sound.intra_add_want_le_of_not_short (h : c.Sound) (hoffset : c.offset < c.stop) {n : Nat}
    (hshort : ¬ (n < c.pageSize ∧ c.pageStart + n < c.view.size)) : c.intra + c.want ≤ n := by
  have hend := offset_add_want_le hoffset
  have hstop := h.stop_le
  have hstart := c.pageStart_add_intra
  have hwithin := c.intra_add_want_le
  by_cases hfull : n < c.pageSize
  · have hreaches : ¬ c.pageStart + n < c.view.size := fun hlt => hshort ⟨hfull, hlt⟩
    omega
  · omega

/-- What a page is fetched into has the length of a page. -/
theorem Sound.length_frame (h : c.Sound) : c.frame.length = c.pageSize := by
  have hroom := h.room
  unfold frame
  split
  · rename_i hwhole
    have hwant := (want_eq_of_wholePage hwhole).1
    rw [want] at hwant
    rw [List.length_take]
    omega
  · split
    · exact Bytes.length_zeros _
    · rename_i hscratch
      exact h.scratch.resolve_left fun hnil => hscratch (by rw [hnil]; rfl)

section SetFrame

variable {bytes : Bytes}

/-- Filling the fetch buffer of a call leaves everything else of it alone. -/
theorem setFrame_eq (c : Call) (bytes : Bytes) : ∃ ahead scratch,
    c.setFrame bytes = { c with destination := ⟨c.destination.behind, ahead⟩, scratch } := by
  unfold setFrame
  split
  · exact ⟨_, _, rfl⟩
  · exact ⟨c.destination.ahead, bytes, rfl⟩

/-- Filling the frame keeps a call sound. -/
theorem Sound.setFrame (h : c.Sound) (hlength : bytes.length = c.pageSize) :
    (c.setFrame bytes).Sound := by
  have hroom := h.room
  unfold Call.setFrame
  split
  · refine ⟨?_, h.stop_le, h.scratch⟩
    simp only [Destination.stage, List.length_append, List.length_drop]
    omega
  · exact ⟨h.room, h.stop_le, .inr hlength⟩

/-- What was put into the frame is there. -/
theorem frame_setFrame (hlength : bytes.length = c.pageSize) :
    (c.setFrame bytes).frame = bytes := by
  unfold Call.setFrame
  split
  · rename_i hwhole
    -- Staging does not change which page is wanted whole, so the frame is still the destination.
    have hwhole' : ({ c with destination := c.destination.stage bytes } : Call).wholePage = true :=
      hwhole
    rw [frame, if_pos hwhole']
    exact List.take_left' hlength
  · rename_i hpart
    have hpart' : ¬ ({ c with scratch := bytes } : Call).wholePage = true := hpart
    have hpos := c.pageSize_pos
    have hnil : bytes.isEmpty = false := by
      rw [List.isEmpty_eq_false_iff]
      rintro rfl
      exact absurd hlength (by simp only [List.length_nil]; omega)
    rw [frame, if_neg hpart']
    simp only [hnil, Bool.false_eq_true, if_false]

/-- Filling the frame keeps the length of the buffer. -/
theorem length_contents_setFrame (h : c.Sound) (hlength : bytes.length = c.pageSize) :
    (c.setFrame bytes).destination.contents.length = c.destination.contents.length := by
  have hroom := h.room
  unfold Call.setFrame
  split
  · rename_i hwhole
    have hwant := (want_eq_of_wholePage hwhole).1
    rw [want] at hwant
    simp only [Destination.contents_eq, Destination.stage, List.length_append, List.length_drop,
      List.length_reverse]
    omega
  · rfl

end SetFrame

/-! ## Answers -/

/-- What a call that holds a slot does next when its source has answered. -/
def afterReply (c : Call) (slot : Slot) : Reply → Phase
  | .failed error => .release slot (.io error)
  | .abandoned => .finished .abandoned
  | .count n =>
    if c.pageSize < n then .finished .abandoned
    else if n < c.pageSize ∧ c.pageStart + n < c.view.size then
      .release slot (.noProgress c.pageStart c.pageSize n)
    else .publish slot n

/-- An answer overlays the frame, and its report decides on how the call goes on. -/
theorem receive_eq {slot : Slot} (hphase : c.phase = .fetch slot) (t : Transfer) :
    (c.receive t).1
      = { c.setFrame (c.frame.overlay t.written) with phase := c.afterReply slot t.reply } := by
  obtain ⟨ahead, scratch, heq⟩ := c.setFrame_eq (c.frame.overlay t.written)
  unfold receive
  rw [hphase, heq]
  dsimp only
  cases t.reply with
  | failed error => rfl
  | abandoned => rfl
  | count n =>
    unfold afterReply
    dsimp only
    by_cases habove : c.pageSize < n
    · rw [if_pos habove]
      exact congrArg Prod.fst (if_pos habove)
    · rw [if_neg habove]
      refine (congrArg Prod.fst (if_neg habove)).trans ?_
      by_cases hshort : n < c.pageSize ∧ c.pageStart + n < c.view.size
      · rw [if_pos hshort]
        exact congrArg Prod.fst (if_pos hshort)
      · rw [if_neg hshort]
        exact congrArg Prod.fst (if_neg hshort)

/-- A call that does not wait for its source makes nothing of an answer. -/
theorem receive_of_not_fetch (c : Call) (h : ∀ slot, c.phase ≠ .fetch slot) (t : Transfer) :
    c.receive t = (c, none) := by
  unfold receive
  split
  · rename_i slot hphase
    exact absurd hphase (h slot)
  · rfl

/-- An answer changes nothing of a call but what it writes to and the phase. -/
theorem exists_receive_eq {slot : Slot} (hphase : c.phase = .fetch slot) (t : Transfer) :
    ∃ ahead scratch, (c.receive t).1 = { c with
      destination := ⟨c.destination.behind, ahead⟩
      scratch
      phase := c.afterReply slot t.reply } := by
  obtain ⟨ahead, scratch, heq⟩ := c.setFrame_eq (c.frame.overlay t.written)
  exact ⟨ahead, scratch, by rw [receive_eq hphase, heq]⟩

/-- A call whose source has answered still holds its slot, or gives up. -/
theorem afterReply_cases (c : Call) (slot : Slot) (reply : Reply) :
    c.afterReply slot reply = .finished .abandoned ∨
    (∃ cause, c.afterReply slot reply = .release slot cause) ∨
    ∃ n, c.afterReply slot reply = .publish slot n := by
  unfold afterReply
  cases reply with
  | failed error => exact .inr (.inl ⟨_, rfl⟩)
  | abandoned => exact .inl rfl
  | count n =>
    dsimp only
    split
    · exact .inl rfl
    · split
      · exact .inr (.inl ⟨_, rfl⟩)
      · exact .inr (.inr ⟨_, rfl⟩)

/-! ## Phases -/

/-- The slot that a call holds. -/
def slot? (c : Call) : Option Slot :=
  match c.phase with
  | .fetch slot => some slot
  | .publish slot _ => some slot
  | .release slot _ => some slot
  | .lookup => none
  | .acquire => none
  | .finished _ => none

/-- Whether a call has not finished. -/
def active (c : Call) : Bool :=
  match c.phase with
  | .finished _ => false
  | _ => true

/-- Only a call under way holds a slot. -/
theorem active_of_slot?_eq_some {slot : Slot} (h : c.slot? = some slot) : c.active = true := by
  unfold slot? at h
  unfold active
  split at h <;> simp_all

/-- A call that is not active has finished. -/
theorem exists_phase_of_active_eq_false (h : c.active = false) :
    ∃ outcome, c.phase = .finished outcome := by
  unfold active at h
  split at h
  · rename_i outcome hphase
    exact ⟨outcome, hphase⟩
  · exact absurd h (by simp)

/-- With an answer a call keeps its slot or is abandoned. -/
theorem receive_keeps {slot : Slot} (hphase : c.phase = .fetch slot) (t : Transfer) :
    (c.receive t).1.key = c.key ∧
      ((c.receive t).1.phase ≠ .finished .abandoned → (c.receive t).1.slot? = some slot) := by
  obtain ⟨ahead, scratch, heq⟩ := exists_receive_eq hphase t
  rw [heq]
  refine ⟨rfl, fun hgoes => ?_⟩
  obtain hend | ⟨cause, hrelease⟩ | ⟨n, hpublish⟩ := c.afterReply_cases slot t.reply
  · exact absurd hend hgoes
  · rw [slot?, hrelease]
  · rw [slot?, hpublish]

/-- A call that has finished holds no slot. -/
theorem slot?_of_active_eq_false (h : c.active = false) : c.slot? = none := by
  obtain ⟨outcome, hphase⟩ := exists_phase_of_active_eq_false h
  rw [slot?, hphase]

/-- Visiting a page ends the call or makes it look for the page; no slot is held by then. -/
theorem slot?_visit (c : Call) : c.visit.slot? = none := by
  unfold visit
  split
  · rfl
  · split <;> rfl

/-- A call that has delivered a page holds no slot. -/
theorem slot?_deliver (c : Call) (bytes : Bytes) : (c.deliver bytes).slot? = none := slot?_visit _

/-- A call that has just begun holds no slot. -/
theorem slot?_start (view : View) (pageShift : Nat) (offset : Int) (buffer : Bytes) :
    (start view pageShift offset buffer).slot? = none := by
  unfold start
  dsimp only
  split
  · rfl
  · exact slot?_visit _

/-! ## Steps on a cache -/

section Touch

variable {cache : Cache}

/-- After a miss the call asks for a slot. -/
theorem touch_of_miss (hphase : c.phase = .lookup)
    (hmiss : (cache.read c.key c.intra c.want).1 = .miss) :
    c.touch cache
      = (({ c with phase := .acquire }, none), (cache.read c.key c.intra c.want).2) := by
  unfold touch
  rw [hphase]
  rcases hpair : cache.read c.key c.intra c.want with ⟨found, cache'⟩
  rw [hpair] at hmiss
  obtain rfl : found = .miss := hmiss
  rfl

/-- After a hit the call delivers what it found. -/
theorem touch_of_hit (hphase : c.phase = .lookup) {bytes : Bytes}
    (hhit : (cache.read c.key c.intra c.want).1 = .hit bytes) :
    c.touch cache = ((c.deliver bytes, none), (cache.read c.key c.intra c.want).2) := by
  unfold touch
  rw [hphase]
  rcases hpair : cache.read c.key c.intra c.want with ⟨found, cache'⟩
  rw [hpair] at hhit
  obtain rfl : found = .hit bytes := hhit
  rfl

/-- A lookup past the end of a page breaks the call off. -/
theorem touch_of_pastPage (hphase : c.phase = .lookup)
    (hpast : (cache.read c.key c.intra c.want).1 = .pastPage) :
    c.touch cache = ((c.finish .abandoned, none), (cache.read c.key c.intra c.want).2) := by
  unfold touch
  rw [hphase]
  rcases hpair : cache.read c.key c.intra c.want with ⟨found, cache'⟩
  rw [hpair] at hpast
  obtain rfl : found = .pastPage := hpast
  rfl

/-- With a slot the call turns to its source. -/
theorem touch_of_grant (hphase : c.phase = .acquire) {slot : Slot}
    (hslot : (cache.acquire c.key).1.slot? = some slot) :
    (c.touch cache).1.1 = { c with phase := .fetch slot } ∧
      (c.touch cache).2 = (cache.acquire c.key).2 := by
  unfold touch
  rw [hphase]
  constructor
  · simp only [hslot]
  · rfl

/-- Without a slot the call stops. -/
theorem touch_of_exhausted (hphase : c.phase = .acquire)
    (hslot : (cache.acquire c.key).1.slot? = none) :
    (c.touch cache).1.1 = c.stopFor .noFreePages ∧
      (c.touch cache).2 = (cache.acquire c.key).2 := by
  unfold touch
  rw [hphase]
  constructor
  · simp only [hslot]
  · rfl

variable (cache)

/-- A lookup leaves a call without a slot. -/
theorem touch_of_lookup (hphase : c.phase = .lookup) :
    (c.touch cache).1.1.slot? = none ∧
      (c.touch cache).2 = (cache.read c.key c.intra c.want).2 := by
  cases hfound : (cache.read c.key c.intra c.want).1 with
  | hit bytes =>
    rw [touch_of_hit hphase hfound]
    exact ⟨slot?_deliver .., rfl⟩
  | miss =>
    rw [touch_of_miss hphase hfound]
    exact ⟨rfl, rfl⟩
  | pastPage =>
    rw [touch_of_pastPage hphase hfound]
    exact ⟨rfl, rfl⟩

/-- A call has the slot that it was granted. -/
theorem touch_of_acquire (hphase : c.phase = .acquire) :
    (c.touch cache).1.1.slot? = (cache.acquire c.key).1.slot? ∧
      (c.touch cache).1.1.key = c.key ∧ (c.touch cache).2 = (cache.acquire c.key).2 := by
  cases hslot : (cache.acquire c.key).1.slot? with
  | none =>
    obtain ⟨hcall, hcache⟩ := touch_of_exhausted hphase hslot
    rw [hcall]
    exact ⟨rfl, rfl, hcache⟩
  | some slot =>
    obtain ⟨hcall, hcache⟩ := touch_of_grant hphase hslot
    rw [hcall]
    exact ⟨rfl, rfl, hcache⟩

/-- Publishing installs the page and delivers what is wanted of it. -/
theorem touch_of_publish {slot : Slot} {n : Nat} (hphase : c.phase = .publish slot n) :
    (c.touch cache).1.1 = c.deliver ((c.frame.drop c.intra).take c.want) ∧
      (c.touch cache).2 = (cache.install c.key slot (c.frame.take n)).2 := by
  unfold touch
  rw [hphase]
  exact ⟨rfl, rfl⟩

/-- Releasing gives the slot back and stops the call. -/
theorem touch_of_release {slot : Slot} {cause : StopCause}
    (hphase : c.phase = .release slot cause) :
    (c.touch cache).1.1 = c.stopFor cause ∧ (c.touch cache).2 = cache.release c.key slot := by
  unfold touch
  rw [hphase]
  exact ⟨rfl, rfl⟩

end Touch

end Call

end ReadThrough
