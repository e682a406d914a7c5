import ReadThrough.Proofs.CallInvariant

/-!
# What calls stop for and what they spare

`Call.failure?` is why a call is about to stop or has stopped: no step on the cache makes a call
fail unless there is no slot to be had (`failure?_touch`), and what the source answers does so only
if it is a failure or too few bytes. `Call.spared` is the part of the buffer past the range of a
call, which no step writes to (`Contract.Hosts.spared_touch`, `Contract.Follows.spared_receive`).
-/

namespace ReadThrough

/-! ## Failures of calls -/

/-- Why a call is about to stop or has stopped. -/
def Call.failure? (c : Call) : Option StopCause :=
  match c.phase with
  | .release _ cause => some cause
  | .finished (.stopped error) => some error.cause
  | _ => none

namespace Call

variable {c : Call} {cache : Cache}

/-- A call does not fail by moving on where all pages have numbers. -/
theorem failure?_visit (hnamed : c.stop ≤ pageLimit * c.pageSize) : c.visit.failure? = none := by
  unfold visit
  split
  · rfl
  · rename_i hstop
    have hpage : c.page < pageLimit := by
      rw [c.page_eq]
      exact Nat.div_lt_of_lt_mul (by rw [Nat.mul_comm]; omega)
    rw [if_neg (Nat.not_le.2 hpage)]
    rfl

/-- A call whose pages all have numbers has nothing to fail with yet. -/
theorem failure?_start {view : View} {pageShift offset : Nat} {buffer : Bytes}
    (hnamed : view.size ≤ pageLimit * (1 <<< pageShift)) :
    (start view pageShift offset buffer).failure? = none := by
  unfold start
  dsimp only
  rw [if_neg (by omega)]
  exact failure?_visit (Nat.le_trans (Nat.min_le_right ..) hnamed)

/-- A step on the cache is no failure unless there is no slot to be had. -/
theorem failure?_touch (hnamed : c.stop ≤ pageLimit * c.pageSize)
    (hslot : c.phase = .acquire → (cache.acquire c.key).1.slot? ≠ none) :
    (c.touch cache).1.1.failure? = c.failure? := by
  have hkept (h : c.failure? = none) (bytes : Bytes) :
      (c.deliver bytes).failure? = c.failure? := by
    rw [h, deliver]
    exact failure?_visit hnamed
  cases hphase : c.phase with
  | lookup =>
    have hnone : c.failure? = none := by rw [failure?, hphase]
    cases hfound : (cache.read c.key c.intra c.want).1 with
    | hit bytes =>
      rw [touch_of_hit hphase hfound]
      exact hkept hnone bytes
    | miss =>
      rw [touch_of_miss hphase hfound]
      exact hnone.symm
    | pastPage =>
      rw [touch_of_pastPage hphase hfound]
      exact hnone.symm
  | acquire =>
    have hnone : c.failure? = none := by rw [failure?, hphase]
    cases hgrant : (cache.acquire c.key).1.slot? with
    | none => exact absurd hgrant (hslot hphase)
    | some slot =>
      rw [(touch_of_grant hphase hgrant).1]
      exact hnone.symm
  | publish slot n =>
    rw [(touch_of_publish cache hphase).1]
    exact hkept (by rw [failure?, hphase]) _
  | release slot cause =>
    rw [(touch_of_release cache hphase).1, failure?, failure?, hphase]
    rfl
  | fetch slot =>
    unfold touch
    rw [hphase]
  | finished outcome =>
    unfold touch
    rw [hphase]

section Receive

variable {slot : Slot} (hphase : c.phase = .fetch slot) {t : Transfer}

include hphase

/-- A call fails with what its source failed with. -/
theorem failure?_receive_of_failed {error : IoError} (hreply : t.reply = .failed error) :
    (c.receive t).1.failure? = some (.io error) := by
  rw [receive_eq hphase, hreply]
  rfl

/-- A count that is neither too large nor too small is no failure. -/
theorem failure?_receive_of_count {count : Nat} (hreply : t.reply = .count count)
    (hle : count ≤ c.pageSize)
    (hfull : ¬ (count < c.pageSize ∧ c.pageStart + count < c.view.size)) :
    (c.receive t).1.failure? = none := by
  rw [receive_eq hphase, hreply, afterReply]
  dsimp only
  rw [if_neg (Nat.not_lt.2 hle), if_neg hfull]
  rfl

end Receive

/-- A call that has finished has failed for the cause that its outcome tells. -/
theorem failure?_of_outcome {count : Nat} {cause : Option StopCause} (hended : c.active = false)
    (houtcome : c.outcome = .ofDelivery count cause) : c.failure? = cause := by
  obtain ⟨outcome, hphase⟩ := exists_phase_of_active_eq_false hended
  rw [Call.outcome, hphase] at houtcome
  obtain rfl : outcome = .ofDelivery count cause := houtcome
  rw [failure?, hphase]
  cases cause <;> rfl

end Call

/-! ## The rest of the buffer -/

namespace Call

/-- The part of the buffer that is past the range of the call. -/
def spared (c : Call) : Bytes := c.destination.ahead.drop (c.stop - c.offset)

variable {c : Call} {bytes : Bytes}

/-- Turning to the next page writes nothing. -/
theorem spared_visit (c : Call) : c.visit.spared = c.spared := by
  unfold visit
  split
  · rfl
  · split <;> rfl

/-- Delivering spares what lies behind the range. -/
theorem spared_deliver (hoffset : c.offset < c.stop) (hlength : bytes.length = c.want) :
    (c.deliver bytes).spared = c.spared := by
  have hle := offset_add_want_le hoffset
  rw [deliver, spared_visit]
  show (c.destination.ahead.drop bytes.length).drop (c.stop - (c.offset + c.want)) = _
  rw [List.drop_drop, hlength, spared]
  congr 1
  omega

/-- A page that is fetched into the buffer is wanted whole, so it ends within the range. -/
theorem spared_setFrame (hlength : bytes.length = c.pageSize) :
    (c.setFrame bytes).spared = c.spared := by
  unfold setFrame
  split
  · rename_i hwhole
    have hwant := (want_eq_of_wholePage hwhole).1
    rw [want] at hwant
    show (bytes ++ c.destination.ahead.drop bytes.length).drop (c.stop - c.offset) = _
    rw [List.drop_append, List.drop_eq_nil_of_le (by omega), List.nil_append, List.drop_drop,
      spared]
    congr 1
    omega
  · rfl

/-- At first all that lies behind the range is to be spared. -/
theorem spared_start (view : View) (pageShift : Nat) (offset : Int) (buffer : Bytes) :
    (start view pageShift offset buffer).spared
      = buffer.drop (min buffer.length (view.size - offset.toNat)) := by
  have hrange : min (offset.toNat + buffer.length) view.size - offset.toNat
      = min buffer.length (view.size - offset.toNat) := by omega
  unfold start
  dsimp only
  split
  · rw [← hrange]
    rfl
  · rw [spared_visit, ← hrange]
    rfl

/-- Where a call has delivered all of its range, the rest of the buffer is as it was. -/
theorem contents_of_spared {buffer : Bytes}
    (hlength : c.destination.contents.length = buffer.length)
    (hspared : c.spared = buffer.drop c.destination.copied) :
    c.destination.contents
      = c.destination.behind.reverse ++ buffer.drop c.destination.copied := by
  rw [Destination.contents_eq, List.length_append, List.length_reverse] at hlength
  have hsame : c.spared.length = c.destination.ahead.length := by
    rw [hspared, List.length_drop, Destination.copied]
    omega
  have hahead : c.spared = c.destination.ahead := (List.drop_suffix _ _).eq_of_length hsame
  rw [Destination.contents_eq, ← hspared, hahead]

end Call

namespace Contract

variable {K : Contract} {r : Request} {others : Fin Geometry.bucketCount → List Slot} {c : Call}
  {cache : Cache}

/-- No step on the cache writes behind the range. -/
theorem Hosts.spared_touch (h : K.Hosts r others c cache) :
    (c.touch cache).1.1.spared = c.spared := by
  cases hphase : c.phase with
  | lookup =>
    have hoffset := h.follows.offset_lt (by rw [Call.active, hphase])
    have hkeeps := (keeps_iff_of_slot?_eq_none (by rw [Call.slot?, hphase])).1 h.keeps
    have hpage : 1 <<< cache.geometry.pageShift = c.pageSize :=
      h.pageSize_eq.trans h.follows.pageSize_eq.symm
    have hle := c.intra_add_want_le
    obtain hmiss | ⟨-, hpast⟩ | ⟨page, -, hhit⟩ := hkeeps.read_cases c.key c.intra c.want
    · rw [Call.touch_of_miss hphase hmiss]
      rfl
    · rw [Call.touch_of_pastPage hphase hpast]
      rfl
    · rw [Call.touch_of_hit hphase hhit]
      refine Call.spared_deliver hoffset ?_
      rw [Bytes.length_window, hpage]
      omega
  | acquire =>
    cases hslot : (cache.acquire c.key).1.slot? with
    | none =>
      rw [(Call.touch_of_exhausted hphase hslot).1]
      rfl
    | some slot =>
      rw [(Call.touch_of_grant hphase hslot).1]
      rfl
  | publish slot n =>
    rw [(Call.touch_of_publish cache hphase).1]
    refine Call.spared_deliver (h.follows.offset_lt (by rw [Call.active, hphase])) ?_
    have hlength := h.follows.sound.length_frame
    have hle := c.intra_add_want_le
    rw [List.length_take, List.length_drop]
    omega
  | release slot cause =>
    rw [(Call.touch_of_release cache hphase).1]
    rfl
  | fetch slot =>
    unfold Call.touch
    rw [hphase]
  | finished outcome =>
    unfold Call.touch
    rw [hphase]

/-- No answer of the source is written behind the range. -/
theorem Follows.spared_receive (h : K.Follows r c) (t : Transfer) :
    (c.receive t).1.spared = c.spared := by
  have hlength : (c.frame.overlay t.written).length = c.pageSize := by
    rw [Bytes.length_overlay, h.sound.length_frame]
  by_cases hfetch : ∃ slot, c.phase = .fetch slot
  · obtain ⟨slot, hphase⟩ := hfetch
    rw [Call.receive_eq hphase]
    exact Call.spared_setFrame hlength
  · rw [c.receive_of_not_fetch (not_exists.1 hfetch)]

end Contract

end ReadThrough
