import ReadThrough.Proofs.Bookkeeping
import ReadThrough.Proofs.SplitReads

/-!
# Journeys

`Call.Advance` is everything that one step of a call can do, whatever cache the call is on and
whatever its source answers, and a `Journey` is what steps in a row can come to, with their log.
Where a call is in its request at any point of a journey is told by `Call.Tracks`. A call that runs
at a place goes on a journey, and has finished at its end (`Journey.readAt`), so that what holds of
journeys holds of all reads, also of those whose source acts on the state that the cache is in.
-/

namespace ReadThrough

/-! ## Caches of one page size -/

namespace Cache.Shaped

variable {cache : Cache} {pageShift : Nat}

/-- An operation that keeps the shape of its bucket keeps that of the cache. -/
theorem onBucket {α : Type} (h : cache.Shaped pageShift) {key : PageKey}
    {act : CacheBucket → α × CacheBucket}
    (hact : (cache.bucket (cache.shardOf key)).SameShape
      (act (cache.bucket (cache.shardOf key))).2) :
    (cache.onBucket key act).2.Shaped pageShift := by
  refine ⟨h.geometry_eq, fun shard => ?_⟩
  rw [bucket_onBucket]
  split
  · rename_i hshard
    subst hshard
    rw [hact.2]
    exact h.bucket_eq _
  · exact h.bucket_eq shard

/-- No step changes the shape of the cache. -/
theorem touch (h : cache.Shaped pageShift) (c : Call) : (c.touch cache).2.Shaped pageShift := by
  have hstep : (c.touch cache).2 = (cache.onBucket c.key c.touchIn).2 :=
    congrArg Prod.snd (c.touch_eq_onBucket cache)
  rw [hstep]
  refine h.onBucket ?_
  generalize cache.bucket (cache.shardOf c.key) = b
  unfold Call.touchIn
  cases hphase : c.phase with
  | lookup =>
    have hread := b.sameShape_read c.key c.intra c.want
    dsimp only
    rcases hpair : b.read c.key c.intra c.want with ⟨_ | _ | _, b'⟩ <;> rw [hpair] at hread <;>
      exact hread
  | acquire =>
    dsimp only
    split <;> exact b.sameShape_acquire
  | publish slot n => exact b.sameShape_install c.key slot _
  | release slot cause => exact b.sameShape_release slot
  | fetch slot => exact ⟨rfl, rfl⟩
  | finished outcome => exact ⟨rfl, rfl⟩

end Cache.Shaped

/-! ## Steps -/

namespace Call

/-- Whether the source has been asked for the page at hand. -/
def asked (c : Call) : Bool :=
  match c.phase with
  | .lookup => false
  | .acquire => false
  | .fetch _ => false
  | .publish .. => true
  | .release .. => true
  | .finished (.done _) => false
  | .finished (.stopped error) => error.cause.ofSource
  | .finished .abandoned => true

/-- Whatever was answered, the source was asked. -/
theorem asked_afterReply (c : Call) (slot : Slot) (reply : Reply) :
    ({ c with phase := c.afterReply slot reply } : Call).asked = true := by
  obtain heq | ⟨cause, heq⟩ | ⟨n, heq⟩ := c.afterReply_cases slot reply <;> rw [asked, heq]

/-- Everything that a step of a call can do, and what becomes of the call. -/
inductive Advance (c : Call) : List Deed → Call → Prop
  | found (bytes : Bytes) : c.phase = .lookup → bytes.length = c.want →
    Advance c [.looked c.key true] (c.deliver bytes)
  | missed : c.phase = .lookup → Advance c [.looked c.key false] { c with phase := .acquire }
  | granted (slot : Slot) : c.phase = .acquire → Advance c [] { c with phase := .fetch slot }
  | refused : c.phase = .acquire → Advance c [] (c.stopFor .noFreePages)
  | answered (slot : Slot) (bytes : Bytes) (t : Transfer) : c.phase = .fetch slot →
    bytes.length = c.pageSize →
    Advance c [.asked c.pageStart c.pageSize t]
      { c.setFrame bytes with phase := c.afterReply slot t.reply }
  | published (slot : Slot) (n : Nat) (bytes : Bytes) : c.phase = .publish slot n →
    bytes.length = c.want → Advance c [.published c.key] (c.deliver bytes)
  | released (slot : Slot) (cause : StopCause) : c.phase = .release slot cause →
    Advance c [] (c.stopFor cause)

/-- The call for a request before it has looked at its position. -/
def ofRequest (r : Request) (pageShift : Nat) : Call where
  view := r.view
  pageShift := pageShift
  offset := r.offset.toNat
  stop := r.stop
  destination := { ahead := r.buffer }

/-- A call begins with its request, which it refuses at once before the beginning of the view. -/
theorem start_ofRequest (r : Request) (pageShift : Nat) :
    start r.view pageShift r.offset r.buffer = if r.offset < 0
      then (ofRequest r pageShift).stopFor (.offsetOutOfRange r.offset r.view.size)
      else (ofRequest r pageShift).visit := rfl

/-- A call that has just begun differs from its request in the phase only. -/
theorem start_eq (r : Request) (pageShift : Nat) : ∃ phase,
    start r.view pageShift r.offset r.buffer = { ofRequest r pageShift with phase } := by
  rw [start_ofRequest]
  split
  · exact ⟨_, rfl⟩
  · exact visit_eq _

/-- A call that turns to its next page has not asked for it yet. -/
theorem asked_visit (c : Call) : c.visit.asked = false := by
  obtain ⟨-, heq⟩ | ⟨-, -, heq⟩ | ⟨-, -, heq⟩ := c.visit_cases <;> rw [heq] <;> rfl

/-- A call that has just begun has not asked its source yet. -/
theorem asked_start (view : View) (pageShift : Nat) (offset : Int) (buffer : Bytes) :
    (start view pageShift offset buffer).asked = false := by
  unfold start
  dsimp only
  split
  · rfl
  · exact asked_visit _

/-- Turning to the next page does not break a call off. -/
theorem phase_visit_ne_abandoned (c : Call) : c.visit.phase ≠ .finished .abandoned := by
  obtain ⟨-, heq⟩ | ⟨-, -, heq⟩ | ⟨-, -, heq⟩ := c.visit_cases <;> rw [heq] <;>
    simp [stopFor, finish]

/-- A call is not broken off before it has begun. -/
theorem phase_start_ne_abandoned (view : View) (pageShift : Nat) (offset : Int) (buffer : Bytes) :
    (start view pageShift offset buffer).phase ≠ .finished .abandoned := by
  unfold start
  dsimp only
  split
  · simp [stopFor, finish]
  · exact phase_visit_ne_abandoned _

namespace Advance

variable {c c' : Call} {deeds : List Deed}

/-- A call that has finished takes no step. -/
theorem active (h : c.Advance deeds c') : c.active = true := by
  unfold Call.active
  cases h <;> simp_all

/-- A step leaves a call abandoned if the source was asked and its answer is untenable. -/
theorem abandoned_iff (h : c.Advance deeds c') :
    c'.phase = .finished .abandoned ↔ ∃ deed ∈ deeds, deed.untenable = true := by
  cases h with
  | found bytes _ _ => simp [deliver, phase_visit_ne_abandoned]
  | missed _ => simp
  | granted slot _ => simp
  | refused _ => simp [stopFor, finish]
  | answered slot bytes t _ _ => simp [afterReply_eq_abandoned_iff]
  | published slot n bytes _ _ => simp [deliver, phase_visit_ne_abandoned]
  | released slot cause _ => simp [stopFor, finish]

end Advance

variable {c : Call}

/-- A step on the cache moves the call as what it does there says. -/
theorem advance_touch (hsound : c.Sound) {cache : Cache} (hshape : cache.Shaped c.pageShift)
    (hactive : c.active = true) (hfetch : ∀ slot, c.phase ≠ .fetch slot) :
    c.Advance (c.deeds cache) (c.touch cache).1.1 := by
  unfold deeds
  cases hphase : c.phase with
  | lookup =>
    have hfound : (cache.read c.key c.intra c.want).1 = _ := hshape.read_fst c.intra_add_want_le
    cases hpage : cache.page? c.key with
    | none =>
      rw [hpage] at hfound
      rw [touch_of_miss hphase hfound]
      exact .missed hphase
    | some page =>
      rw [hpage] at hfound
      rw [touch_of_hit hphase hfound]
      exact .found _ hphase (Bytes.length_window ..)
  | acquire =>
    cases hslot : (cache.acquire c.key).1.slot? with
    | none =>
      rw [(touch_of_exhausted hphase hslot).1]
      exact .refused hphase
    | some slot =>
      rw [(touch_of_grant hphase hslot).1]
      exact .granted slot hphase
  | publish slot n =>
    rw [(touch_of_publish cache hphase).1]
    refine .published slot n _ hphase ?_
    have hlength := hsound.length_frame
    have hle := c.intra_add_want_le
    rw [List.length_take, List.length_drop]
    omega
  | release slot cause =>
    rw [(touch_of_release cache hphase).1]
    exact .released slot cause hphase
  | fetch slot => exact absurd hphase (hfetch slot)
  | finished outcome =>
    rw [active, hphase] at hactive
    exact absurd hactive (by simp)

/-- An answer moves the call as the answer says. -/
theorem advance_receive (hsound : c.Sound) {slot : Slot} (hphase : c.phase = .fetch slot)
    (t : Transfer) : c.Advance [.asked c.pageStart c.frame.length t] (c.receive t).1 := by
  have hlength := hsound.length_frame
  rw [receive_eq hphase, hlength]
  exact .answered slot _ t hphase (by rw [Bytes.length_overlay, hlength])

end Call

/-! ## Where a call is in its request -/

namespace Call

/-- The call is at a page of its range that has a number. -/
def AtPage (c : Call) : Prop := c.offset < c.stop ∧ c.page < pageLimit

/-- What the phase of a call says about how far it has come. -/
def Stage (c : Call) : Prop :=
  match c.phase with
  | .lookup => c.AtPage
  | .acquire => c.AtPage
  | .fetch _ => c.AtPage
  | .publish _ n => c.AtPage ∧ n ≤ c.pageSize ∧ c.intra + c.want ≤ n
  | .release _ cause => c.AtPage ∧ cause.ofSource = true
  | .finished (.done n) => n = c.destination.copied ∧ c.stop ≤ c.offset
  | .finished (.stopped error) => error.copied = c.destination.copied ∧
    if error.cause.unnamed then c.destination.copied = 0 ∨ c.offset < c.stop else c.AtPage
  | .finished .abandoned => c.AtPage

/-- Where a call is in its request: it has delivered all from the start of the range to its
position, and past the first page it is at the start of a page. -/
structure Tracks (r : Request) (pageShift : Nat) (c : Call) : Prop where
  sound : c.Sound
  view_eq : c.view = r.view
  pageShift_eq : c.pageShift = pageShift
  stop_eq : c.stop = r.stop
  offset_eq : c.offset = r.offset.toNat + c.destination.copied
  offset_le : c.offset ≤ max r.offset.toNat r.stop
  length_eq : c.destination.contents.length = r.buffer.length
  aligned : c.offset < c.stop → c.destination.copied = 0 ∨ c.offset % c.pageSize = 0
  stage : c.Stage

namespace Tracks

variable {r : Request} {pageShift : Nat} {c c' : Call}

theorem pageSize_eq (h : c.Tracks r pageShift) : c.pageSize = 1 <<< pageShift := by
  rw [pageSize, h.pageShift_eq]

/-- A call that has not finished is at a page. -/
theorem atPage (h : c.Tracks r pageShift) (hactive : c.active = true) : c.AtPage := by
  have hstage := h.stage
  unfold Stage at hstage
  unfold active at hactive
  split at hstage
  · exact hstage
  · exact hstage
  · exact hstage
  · exact hstage.1
  · exact hstage.1
  all_goals
    rename_i hphase
    rw [hphase] at hactive
    exact absurd hactive (by simp)

theorem setPhase (h : c.Tracks r pageShift) {phase : Phase}
    (hstage : ({ c with phase } : Call).Stage) : ({ c with phase } : Call).Tracks r pageShift :=
  ⟨h.sound.setPhase phase, h.view_eq, h.pageShift_eq, h.stop_eq, h.offset_eq, h.offset_le,
    h.length_eq, h.aligned, hstage⟩

/-- A call keeps track when it looks at the page of its position. -/
theorem visit (hsound : c.Sound) (hview : c.view = r.view) (hshift : c.pageShift = pageShift)
    (hstop : c.stop = r.stop) (hoffset : c.offset = r.offset.toNat + c.destination.copied)
    (hle : c.offset ≤ max r.offset.toNat r.stop)
    (hlength : c.destination.contents.length = r.buffer.length)
    (haligned : c.offset < c.stop → c.destination.copied = 0 ∨ c.offset % c.pageSize = 0) :
    c.visit.Tracks r pageShift := by
  have hphase (phase : Phase) (hstage : ({ c with phase } : Call).Stage) :
      ({ c with phase } : Call).Tracks r pageShift :=
    ⟨hsound.setPhase phase, hview, hshift, hstop, hoffset, hle, hlength, haligned, hstage⟩
  obtain ⟨hdone, heq⟩ | ⟨hleft, -, heq⟩ | ⟨hleft, hnumber, heq⟩ := c.visit_cases <;> rw [heq]
  · exact hphase _ ⟨rfl, hdone⟩
  · exact hphase _ ⟨rfl, .inr hleft⟩
  · exact hphase _ ⟨hleft, hnumber⟩

/-- A call that has just begun is on the track of its request. -/
theorem start (r : Request) (pageShift : Nat) :
    (start r.view pageShift r.offset r.buffer).Tracks r pageShift := by
  have hsound : (ofRequest r pageShift).Sound :=
    ⟨Nat.min_le_left .., Nat.min_le_right .., .inl rfl⟩
  rw [start_ofRequest]
  split
  · exact ⟨hsound.setPhase _, rfl, rfl, rfl, rfl, Nat.le_max_left .., rfl, fun _ => .inl rfl, rfl,
      .inl rfl⟩
  · exact visit hsound rfl rfl rfl rfl (Nat.le_max_left ..) rfl fun _ => .inl rfl

/-- Delivering a page keeps the call on its track. -/
theorem deliver (h : c.Tracks r pageShift) (hpage : c.AtPage) {bytes : Bytes}
    (hbytes : bytes.length = c.want) : (c.deliver bytes).Tracks r pageShift := by
  have hroom := h.sound.room
  have hle := offset_add_want_le hpage.1
  refine visit ⟨?_, h.sound.stop_le, h.sound.scratch⟩ h.view_eq h.pageShift_eq h.stop_eq ?_ ?_ ?_ ?_
  · simp only [Destination.deliver, List.length_drop]
    omega
  · rw [Destination.copied_deliver, hbytes, h.offset_eq, Nat.add_assoc]
  · exact Nat.le_trans (h.stop_eq ▸ hle) (Nat.le_max_right ..)
  · rw [← h.length_eq]
    exact Destination.length_contents_deliver (by omega)
  · intro hleft
    have hleft : c.offset + c.want < c.stop := hleft
    -- there is more to come, so the page was wanted up to its end
    have hend : c.want = c.pageSize - c.intra := by
      rw [want] at hleft ⊢
      omega
    have hnext : c.offset + c.want = (c.page + 1) * c.pageSize := by
      have hstart := c.pageStart_add_intra
      have hintra := c.intra_lt
      rw [c.pageStart_eq] at hstart
      rw [Nat.succ_mul]
      omega
    refine .inr ?_
    show (c.offset + c.want) % c.pageSize = 0
    rw [hnext, Nat.mul_mod_left]

/-- The answer of the source leads to a page to publish that has all that is wanted, or to a slot to
release because of the source, or to an abandoned call. -/
theorem stage_afterReply (h : c.Tracks r pageShift) (hpage : c.AtPage) (slot : Slot)
    (reply : Reply) : ({ c with phase := c.afterReply slot reply } : Call).Stage := by
  cases reply with
  | failed error => exact ⟨hpage, rfl⟩
  | abandoned => exact hpage
  | count n =>
    unfold afterReply
    dsimp only
    split
    · exact hpage
    · rename_i hle
      split
      · exact ⟨hpage, rfl⟩
      · rename_i hshort
        exact ⟨hpage, Nat.le_of_not_lt hle,
          h.sound.intra_add_want_le_of_not_short hpage.1 hshort⟩

/-- An answer keeps the call on its track. -/
theorem answered (h : c.Tracks r pageShift) (hpage : c.AtPage) {bytes : Bytes}
    (hbytes : bytes.length = c.pageSize) (slot : Slot) (reply : Reply) :
    ({ c.setFrame bytes with phase := c.afterReply slot reply } : Call).Tracks r pageShift := by
  have hsound := h.sound.setFrame hbytes
  have hcontents := length_contents_setFrame h.sound hbytes
  have hstage := h.stage_afterReply hpage slot reply
  obtain ⟨ahead, scratch, heq⟩ := c.setFrame_eq bytes
  rw [heq] at hsound hcontents ⊢
  exact ⟨hsound.setPhase _, h.view_eq, h.pageShift_eq, h.stop_eq, h.offset_eq, h.offset_le,
    hcontents.trans h.length_eq, h.aligned, hstage⟩

/-- No step loses track. -/
theorem advance (h : c.Tracks r pageShift) {deeds : List Deed} (hstep : c.Advance deeds c') :
    c'.Tracks r pageShift := by
  have hstage := h.stage
  rw [Stage] at hstage
  cases hstep with
  | found bytes hphase hbytes =>
    rw [hphase] at hstage
    exact h.deliver hstage hbytes
  | missed hphase =>
    rw [hphase] at hstage
    exact h.setPhase hstage
  | granted slot hphase =>
    rw [hphase] at hstage
    exact h.setPhase hstage
  | refused hphase =>
    rw [hphase] at hstage
    exact h.setPhase ⟨rfl, hstage⟩
  | answered slot bytes t hphase hbytes =>
    rw [hphase] at hstage
    exact h.answered hstage hbytes slot t.reply
  | published slot n bytes hphase hbytes =>
    rw [hphase] at hstage
    exact h.deliver hstage.1 hbytes
  | released slot cause hphase =>
    rw [hphase] at hstage
    obtain ⟨hpage, hcause⟩ := hstage
    refine h.setPhase ⟨rfl, ?_⟩
    rw [if_neg (by cases cause <;> simp_all [StopCause.ofSource, StopCause.unnamed])]
    exact hpage

end Tracks

end Call

/-! ## Steps in a row -/

/-- What a call for a request may have done and have come to. -/
inductive Journey (r : Request) (pageShift : Nat) : List Deed → Call → Prop
  | start : Journey r pageShift [] (.start r.view pageShift r.offset r.buffer)
  | step {deeds more : List Deed} {c c' : Call} : Journey r pageShift deeds c →
    c.Advance more c' → Journey r pageShift (deeds ++ more) c'

namespace Journey

variable {r : Request} {pageShift : Nat} {deeds : List Deed} {c : Call}

/-- A call on a journey is on the track of its request. -/
theorem tracks (h : Journey r pageShift deeds c) : c.Tracks r pageShift := by
  induction h with
  | start => exact .start r pageShift
  | step _ hstep ih => exact ih.advance hstep

/-- A step on the cache takes the journey on. -/
theorem touch (h : Journey r pageShift deeds c) {cache : Cache} (hshape : cache.Shaped pageShift)
    (hactive : c.active = true) (hfetch : ∀ slot, c.phase ≠ .fetch slot) :
    Journey r pageShift (deeds ++ c.deeds cache) (c.touch cache).1.1 := by
  have htracks := h.tracks
  rw [← htracks.pageShift_eq] at hshape
  exact h.step (Call.advance_touch htracks.sound hshape hactive hfetch)

/-- An answer takes the journey on. -/
theorem receive (h : Journey r pageShift deeds c) {slot : Slot} (hphase : c.phase = .fetch slot)
    (t : Transfer) :
    Journey r pageShift (deeds ++ [.asked c.pageStart c.frame.length t]) (c.receive t).1 :=
  h.step (Call.advance_receive h.tracks.sound hphase t)

/-- As long as the call is active there are bytes missing. -/
theorem offset_lt (h : Journey r pageShift deeds c) (hactive : c.active = true) :
    c.offset < c.stop :=
  (h.tracks.atPage hactive).1

/-- A call is abandoned exactly if its source has given an untenable answer. -/
theorem abandoned_iff (h : Journey r pageShift deeds c) :
    c.phase = .finished .abandoned ↔ ∃ deed ∈ deeds, deed.untenable = true := by
  induction h with
  | start => simp [Call.phase_start_ne_abandoned]
  | @step deeds more c c' _ hstep ih =>
    -- a call that takes a step has not finished, so there was no such answer before
    have hnone : ¬∃ deed ∈ deeds, deed.untenable = true :=
      fun hsome => absurd hstep.active (by simp [Call.active, ih.2 hsome])
    simp only [List.mem_append, or_and_right, exists_or, hnone, false_or]
    exact hstep.abandoned_iff

end Journey

/-! ## Runs -/

section Runs

variable {σ : Type} {p : Place σ} {source : Source (StateM σ)}

namespace Call

variable {c : Call} {s : σ}

/-- A call stops with what it has delivered if its page is missing, there is a slot for it, and the
source fails. -/
theorem outcome_runFor_of_failed (hphase : c.phase = .lookup)
    (hmiss : ((p.get s).read c.key c.intra c.want).1 = .miss) {slot : Slot}
    (hslot : (((p.get s).read c.key c.intra c.want).2.acquire c.key).1.slot? = some slot)
    {error : IoError} (hsource : ∀ offset buffer s,
      (source offset buffer s).1.reply = .failed error) (limit : Nat) :
    (c.runFor p.host source (limit + 4) s).1.outcome
      = .stopped ⟨c.destination.copied, .io error⟩ := by
  obtain ⟨ahead, scratch, heq⟩ := exists_receive_eq (c := { c with phase := .fetch slot }) rfl
    (source c.pageStart c.frame
      (p.set (((p.get s).read c.key c.intra c.want).2.acquire c.key).2 s)).1
  rw [hsource] at heq
  rw [runFor_of_failed p source hphase hmiss hslot rfl heq rfl]
  rfl

end Call

variable {r : Request} {pageShift : Nat}

/-- A read of a cache that has no pages delivers nothing if its source fails. -/
theorem Request.outcome_of_failed {s : σ}
    (hempty : (p.get s).Keeps (fun _ _ => False) fun _ => [])
    (hpages : 1 ≤ (p.get s).geometry.pagesPerBucket)
    (hactive : (Call.start r.view (p.get s).geometry.pageShift r.offset r.buffer).active = true)
    {error : IoError} (hsource : ∀ offset buffer s,
      (source offset buffer s).1.reply = .failed error) :
    ((p.reader r.view source).readAt r.offset r.buffer s).1.outcome
      = .stopped ⟨0, .io error⟩ := by
  have hphase := Call.phase_start _ _ _ _ hactive
  have hleft := (Call.ready_start _ _ _ _ hactive).1
  obtain ⟨phase, heq⟩ := Call.start_eq r (p.get s).geometry.pageShift
  have hcopied : (Call.start r.view (p.get s).geometry.pageShift r.offset
      r.buffer).destination.copied = 0 := by
    rw [heq]
    rfl
  have hsize := (Call.Tracks.start r (p.get s).geometry.pageShift).pageSize_eq
  rw [p.readAt_reader]
  generalize Call.start r.view (p.get s).geometry.pageShift r.offset r.buffer = c
    at hphase hleft hcopied hsize ⊢
  obtain ⟨hmiss, slot, hslot⟩ := hempty.misses (fun _ h => h) hpages hsize
  have hbound : c.stepBound = c.stepBound - 4 + 4 := by
    rw [Call.stepBound]
    omega
  dsimp only
  rw [hbound, Call.outcome_runFor_of_failed hphase hmiss hslot hsource, hcopied]

/-- A read at a place is a journey to its end, if its source leaves the page size alone. -/
theorem Journey.readAt (hsource : ∀ offset buffer s, (p.get s).Shaped pageShift →
      (p.get (source offset buffer s).2).Shaped pageShift)
    {s : σ} (hshape : (p.get s).Shaped pageShift) :
    ∃ last, Journey r pageShift (r.deeds p source s) last ∧ last.active = false ∧
      ((p.reader r.view source).readAt r.offset r.buffer s).1 = last.result := by
  have hstarted : Journey r pageShift []
      (.start r.view (p.get s).geometry.pageShift r.offset r.buffer) := by
    rw [hshape.geometry_eq]
    exact .start
  obtain ⟨⟨hjourney, -⟩, hended⟩ := Call.runFor_keeps_deeds p source
    (fun deeds c s => Journey r pageShift deeds c ∧ (p.get s).Shaped pageShift)
    (fun _ _ _ h => h.1.offset_lt)
    (fun _ c _ h hactive hfetch => ⟨h.1.touch h.2 hactive hfetch, by
      rw [p.get_set]
      exact h.2.touch c⟩)
    (fun _ _ _ _ h hphase => ⟨h.1.receive hphase _, hsource _ _ _ h.2⟩)
    (Call.rank_start_le ..) ⟨hstarted, hshape⟩
  rw [p.readAt_reader]
  exact ⟨_, hjourney, hended, rfl⟩

end Runs

end ReadThrough
