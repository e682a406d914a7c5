import ReadThrough.Proofs.Journeys

/-!
# What reads leave alone

A read writes the bytes that it delivers, and past them only where it lets its source write: into
the page at hand, and only when that page is wanted whole. `Call.exposed` is how many bytes past the
delivered ones the source may have written, and `Call.Spares` says that from there on the buffer is
as it was. No step undoes this (`Spares.advance`), so a read leaves alone whatever is past what it
reports, up to one page if it stopped at a page that was wanted whole (`read_writes_within_range`).
-/

namespace ReadThrough

namespace Call

/-- The number of bytes past the delivered ones that the source may have written. -/
def exposed (c : Call) : Nat := if c.asked ∧ c.wholePage then c.pageSize else 0

/-- The buffer past the exposed bytes is as it was. -/
def Spares (r : Request) (c : Call) : Prop :=
  c.destination.ahead.drop c.exposed = r.buffer.drop (c.destination.copied + c.exposed)

variable {r : Request} {pageShift : Nat} {c c' : Call}

theorem exposed_of_asked_eq_false (h : c.asked = false) : c.exposed = 0 :=
  if_neg fun hboth => absurd (h.symm.trans hboth.1) (by simp)

/-- Whole pages that are exposed end within the range. -/
theorem Tracks.copied_add_exposed_le (h : c.Tracks r pageShift) :
    c.destination.copied + c.exposed ≤ r.stop - r.offset.toNat := by
  have hoffset := h.offset_eq
  have hle := h.offset_le
  unfold exposed
  split
  · rename_i hboth
    have hwant := (want_eq_of_wholePage hboth.2).1
    have hpositive := c.pageSize_pos
    rw [want, h.stop_eq] at hwant
    omega
  · omega

namespace Spares

theorem of_asked_eq_false (hasked : c.asked = false)
    (h : c.destination.ahead = r.buffer.drop c.destination.copied) : c.Spares r := by
  rw [Spares, exposed_of_asked_eq_false hasked]
  exact h

theorem ahead_eq (h : c.Spares r) (hasked : c.asked = false) :
    c.destination.ahead = r.buffer.drop c.destination.copied := by
  rwa [Spares, exposed_of_asked_eq_false hasked] at h

/-- What the source may have written of the page at hand is overwritten when the page is
delivered. -/
theorem deliver (h : c.Spares r) {bytes : Bytes} (hbytes : bytes.length = c.want) :
    (c.deliver bytes).Spares r := by
  have hexposed : c.exposed ≤ c.want := by
    unfold exposed
    split
    · rename_i hboth
      rw [(want_eq_of_wholePage hboth.2).1]
    · exact Nat.zero_le _
  have hrest : c.destination.ahead.drop c.want = r.buffer.drop (c.destination.copied + c.want) := by
    have hdrop := congrArg (List.drop (c.want - c.exposed)) h
    rwa [List.drop_drop, List.drop_drop, Nat.add_assoc, Nat.add_sub_cancel' hexposed] at hdrop
  have hasked : (c.deliver bytes).asked = false := asked_visit _
  obtain ⟨phase, heq⟩ := c.deliver_eq bytes
  refine of_asked_eq_false hasked ?_
  rw [heq]
  dsimp only
  rw [Destination.copied_deliver, hbytes, ← hrest, ← hbytes]
  rfl

/-- The source writes to the buffer only if the page is wanted whole, and then no more than the
page. -/
theorem setFrame (h : c.Spares r) (hasked : c.asked = false) {bytes : Bytes}
    (hbytes : bytes.length = c.pageSize) (phase : Phase)
    (hphase : ({ c with phase } : Call).asked = true) :
    ({ c.setFrame bytes with phase } : Call).Spares r := by
  have hahead := h.ahead_eq hasked
  unfold Call.setFrame
  split
  · rename_i hwhole
    have hexposed : ({ c with destination := c.destination.stage bytes, phase } : Call).exposed
        = c.pageSize := if_pos ⟨hphase, hwhole⟩
    rw [Spares, hexposed]
    show (bytes ++ c.destination.ahead.drop bytes.length).drop c.pageSize
      = r.buffer.drop (c.destination.copied + c.pageSize)
    rw [List.drop_left' hbytes, hbytes, hahead, List.drop_drop]
  · rename_i hpart
    have hexposed : ({ c with scratch := bytes, phase } : Call).exposed = 0 :=
      if_neg fun hboth => hpart hboth.2
    rw [Spares, hexposed]
    exact hahead

/-- No step touches the buffer past what is exposed after it. -/
theorem advance (h : c.Spares r) (htracks : c.Tracks r pageShift) {deeds : List Deed}
    (hstep : c.Advance deeds c') : c'.Spares r := by
  have hstage := htracks.stage
  cases hstep with
  | found bytes _ hbytes => exact h.deliver hbytes
  | missed hphase => exact of_asked_eq_false rfl (h.ahead_eq (by rw [asked, hphase]))
  | granted slot hphase => exact of_asked_eq_false rfl (h.ahead_eq (by rw [asked, hphase]))
  | refused hphase => exact of_asked_eq_false rfl (h.ahead_eq (by rw [asked, hphase]))
  | answered slot bytes t hphase hbytes =>
    exact h.setFrame (by rw [asked, hphase]) hbytes _ (c.asked_afterReply slot t.reply)
  | published slot n bytes _ hbytes => exact h.deliver hbytes
  | released slot cause hphase =>
    rw [Stage, hphase] at hstage
    have hexposed : (c.stopFor cause).exposed = c.exposed := by
      have hasked : (c.stopFor cause).asked = c.asked := by
        rw [asked, asked, hphase]
        exact hstage.2
      rw [exposed, hasked]
      rfl
    rw [Spares, hexposed]
    exact h

end Spares

end Call

theorem Journey.spares {r : Request} {pageShift : Nat} {deeds : List Deed} {c : Call}
    (h : Journey r pageShift deeds c) : c.Spares r := by
  induction h with
  | start =>
    obtain ⟨phase, heq⟩ := Call.start_eq r pageShift
    refine .of_asked_eq_false (Call.asked_start ..) ?_
    rw [heq]
    rfl
  | step hbefore hstep ih => exact ih.advance hbefore.tracks hstep

/-! ## Reads -/

namespace Call

variable {r : Request} {pageShift : Nat} {c : Call}

/-- The buffer is as it was from the exposed bytes on. -/
theorem Spares.drop_contents (h : c.Spares r) {k : Nat}
    (hle : c.destination.copied + c.exposed ≤ k) :
    c.destination.contents.drop k = r.buffer.drop k := by
  have hexposed : c.destination.contents.drop (c.destination.copied + c.exposed)
      = r.buffer.drop (c.destination.copied + c.exposed) := by
    rw [← h, Destination.contents_eq, Destination.copied, ← List.drop_drop,
      List.drop_left' List.length_reverse]
  have hrest := congrArg (List.drop (k - (c.destination.copied + c.exposed))) hexposed
  rwa [List.drop_drop, List.drop_drop, Nat.add_sub_cancel' hle] at hrest

theorem exposed_le (c : Call) : c.exposed ≤ c.pageSize := by
  unfold exposed
  split
  · exact Nat.le_refl _
  · exact Nat.zero_le _

/-- Nothing is exposed of a page that is not wanted whole, or that the source was not asked for. -/
theorem Tracks.exposed_eq_zero (h : c.Tracks r pageShift)
    (hpart : c.asked = false ∨ ¬(c.offset % c.pageSize = 0 ∧ c.offset + c.pageSize ≤ r.stop)) :
    c.exposed = 0 := by
  refine if_neg fun hboth => ?_
  obtain ⟨hasked, hwhole⟩ := hboth
  obtain ⟨hwant, hintra⟩ := want_eq_of_wholePage hwhole
  rcases hpart with hnot | hnot
  · exact absurd (hnot.symm.trans hasked) (by simp)
  · have hpositive := c.pageSize_pos
    rw [c.intra_eq] at hintra
    rw [want, h.stop_eq] at hwant
    exact hnot ⟨hintra, by omega⟩

end Call

/-- What a read leaves of its buffer as it was. If it is done, all that is past the bytes that it
reports. If it stops, all that is past the bytes that it has delivered, and these end where it
started or where a page starts; but when the page where it stops was wanted whole and its source
failed, the bytes of that page may have been written. And however it ends, also if its source breaks
off, whatever is past the end of the view. -/
theorem read_writes_within_range {σ : Type} (p : Place σ) (source : Source (StateM σ))
    {pageShift : Nat} (hsource : ∀ offset buffer s, (p.get s).Shaped pageShift →
      (p.get (source offset buffer s).2).Shaped pageShift)
    (r : Request) {s : σ} (hshape : (p.get s).Shaped pageShift) :
    let pageSize := 1 <<< pageShift
    let first := r.offset.toNat
    let result := ((p.reader r.view source).readAt r.offset r.buffer s).1
    result.buffer.length = r.buffer.length ∧
    (∀ n, result.outcome = .done n → result.buffer.drop n = r.buffer.drop n) ∧
    (∀ copied cause, result.outcome = .stopped ⟨copied, cause⟩ →
      (copied = 0 ∨ (first + copied) % pageSize = 0) ∧
      result.buffer.drop (copied + pageSize) = r.buffer.drop (copied + pageSize) ∧
      (cause.unnamed = true ∨ cause = .noFreePages ∨
          ¬((first + copied) % pageSize = 0 ∧ first + copied + pageSize ≤ r.stop) →
        result.buffer.drop copied = r.buffer.drop copied)) ∧
    let reach := min r.buffer.length (r.view.size - r.offset).toNat
    result.buffer.drop reach = r.buffer.drop reach := by
  intro pageSize first result
  obtain ⟨last, hjourney, hended, hresult⟩ := Journey.readAt (r := r) hsource hshape
  have htracks := hjourney.tracks
  have hspares := hjourney.spares
  have hstage := htracks.stage
  have hoffset := htracks.offset_eq
  have hsize : last.pageSize = pageSize := htracks.pageSize_eq
  obtain ⟨outcome, hphase⟩ := Call.exists_phase_of_active_eq_false hended
  have houtcome : result.outcome = outcome := by
    refine (congrArg ReadResult.outcome hresult).trans ?_
    rw [Call.result, Call.outcome, hphase]
  have hbuffer : result.buffer = last.destination.contents := congrArg ReadResult.buffer hresult
  rw [houtcome, hbuffer]
  rw [Call.Stage, hphase] at hstage
  refine ⟨htracks.length_eq, fun n hdone => ?_, fun copied cause hstopped => ?_, ?_⟩
  · subst hdone
    have hexposed : last.exposed = 0 := Call.exposed_of_asked_eq_false (by rw [Call.asked, hphase])
    exact hspares.drop_contents (by rw [hexposed, hstage.1]; exact Nat.le_refl _)
  · subst hstopped
    obtain ⟨hcopied, hstart⟩ := hstage
    have hcopied : copied = last.destination.copied := hcopied
    have hat : first + copied = last.offset := by rw [hoffset, hcopied]
    have hexposed := last.exposed_le
    rw [hat, ← hsize]
    refine ⟨?_, hspares.drop_contents (by omega), fun hnot => hspares.drop_contents ?_⟩
    · rw [hcopied]
      split at hstart
      · exact hstart.elim .inl htracks.aligned
      · exact htracks.aligned hstart.1
    · have hzero : last.exposed = 0 := by
        refine htracks.exposed_eq_zero ?_
        rw [Call.asked, hphase]
        obtain hunnamed | rfl | hpart := hnot
        · cases cause <;> simp_all [StopCause.unnamed, StopCause.ofSource]
        · exact .inl rfl
        · exact .inr hpart
      omega
  · have hle := htracks.copied_add_exposed_le
    have hstop : r.stop = min (r.offset.toNat + r.buffer.length) r.view.size := rfl
    exact hspares.drop_contents (by omega)

/-- A source that fails after it has written to a whole page leaves the rest of the buffer alone. -/
theorem read_writes_within_range_of_failed_read :
    let s : Recorded := { cache := .ofGeometry ⟨1, 64⟩ 7 }
    let source : Source (StateM Recorded) := fun _ _ s => (⟨.failed ⟨.other, none⟩, [7, 7, 7]⟩, s)
    let r : Request := ⟨⟨1, 4⟩, 0, [0, 0, 5]⟩
    let result := ((Recorded.place.reader r.view source).readAt r.offset r.buffer s).1
    s.cache.Shaped 1 ∧ result.outcome = .stopped ⟨0, .io ⟨.other, none⟩⟩ ∧
      result.buffer.length = 3 ∧ result.buffer.drop 2 = [5] := by
  intro s source r result
  have hempty : (Recorded.place.get s).Keeps (fun _ _ => False) fun _ => [] :=
    Cache.keeps_ofGeometry ⟨1, 64⟩ 7
  have hshape : (Recorded.place.get s).Shaped 1 := hempty.shaped
  have hpages : 1 ≤ (⟨1, 64⟩ : Geometry).pagesPerBucket := by decide
  have hactive : (Call.start ⟨1, 4⟩ 1 0 [0, 0, 5]).active = true := rfl
  have houtcome : result.outcome = .stopped ⟨0, .io ⟨.other, none⟩⟩ :=
    Request.outcome_of_failed hempty hpages hactive fun _ _ _ => rfl
  obtain ⟨hlength, -, hstopped, -⟩ := read_writes_within_range Recorded.place source
    (fun _ _ _ h => h) ⟨⟨1, 4⟩, 0, [0, 0, 5]⟩ hshape
  obtain ⟨-, hrest, -⟩ := hstopped 0 _ houtcome
  exact ⟨hshape, houtcome, hlength, hrest⟩

end ReadThrough
