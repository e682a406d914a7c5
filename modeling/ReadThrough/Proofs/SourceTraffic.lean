import ReadThrough.Proofs.Journeys

/-!
# Lookups and reads of the source

A read looks for the pages of its range once each and in order, and asks its source for those that
are not resident, each of them whole. `Tally` is the account of a journey: the pages before the page
at hand with what was found of them, and what was done so far about the page at hand. Steps keep it
(`Tally.advance`), and where a read ends tells how far it got (`traffic_of_read_exact`).
-/

namespace ReadThrough

/-! ## Accounts of the log -/

/-- The read of the source for a page that was looked for: none if the page was resident. -/
def askFor (pageSize : Nat) (visit : PageKey × Bool) : Option (Nat × Nat) :=
  if visit.2 then none else some (visit.1.page.toNat * pageSize, pageSize)

/-! ## Pages of a range -/

namespace Backing

variable {pageSize offset stop : Nat}

/-- A range that ends where a page starts has no part of that page. -/
theorem pages_of_aligned (hpositive : 0 < pageSize) (hle : offset ≤ stop)
    (haligned : stop = offset ∨ stop % pageSize = 0) :
    pages pageSize offset stop
      = List.range' (offset / pageSize) (stop / pageSize - offset / pageSize) := by
  by_cases hsame : stop = offset
  · rw [pages_eq_nil (by omega), hsame, Nat.sub_self, List.range'_zero]
  · have hmod := haligned.resolve_left hsame
    have hsplit := Nat.div_add_mod stop pageSize
    have hpage : 0 < stop / pageSize := by
      rw [Nat.pos_iff_ne_zero]
      intro hzero
      rw [hzero] at hsplit
      omega
    have hlast : (stop - 1) / pageSize = stop / pageSize - 1 := by
      have hcomm : stop / pageSize * pageSize = pageSize * (stop / pageSize) := Nat.mul_comm _ _
      apply Nat.div_eq_of_lt_le
      · rw [Nat.sub_one_mul]
        omega
      · rw [Nat.sub_add_cancel hpage]
        omega
    rw [pages, if_neg (by omega), hlast, Nat.sub_add_cancel hpage]

/-- A range that goes on into one more page has that page last. -/
theorem pages_append (hpositive : 0 < pageSize) (hle : offset ≤ stop)
    (haligned : stop = offset ∨ stop % pageSize = 0) {length : Nat} (hlength : 0 < length)
    (hwithin : length ≤ pageSize - stop % pageSize) :
    pages pageSize offset (stop + length)
      = pages pageSize offset stop ++ [stop / pageSize] := by
  have hsplit := Nat.div_add_mod stop pageSize
  have hmod := Nat.mod_lt stop hpositive
  have hlast : (stop + length - 1) / pageSize = stop / pageSize := by
    have hcomm : stop / pageSize * pageSize = pageSize * (stop / pageSize) := Nat.mul_comm _ _
    apply Nat.div_eq_of_lt_le
    · omega
    · rw [Nat.succ_mul]
      omega
  have hpage : offset / pageSize ≤ stop / pageSize := Nat.div_le_div_right hle
  rw [pages_of_aligned hpositive hle haligned, pages, if_neg (by omega), hlast,
    Nat.succ_sub hpage, List.range'_1_concat, Nat.add_sub_cancel' hpage]

/-- A range that ends earlier meets the first of the pages. -/
theorem pages_prefix {middle : Nat} (hle : middle ≤ stop) :
    pages pageSize offset middle <+: pages pageSize offset stop := by
  by_cases hempty : middle ≤ offset
  · rw [pages_eq_nil hempty]
    exact List.nil_prefix
  · have hlast : (middle - 1) / pageSize ≤ (stop - 1) / pageSize :=
      Nat.div_le_div_right (Nat.sub_le_sub_right hle 1)
    have hcount : (stop - 1) / pageSize + 1 - offset / pageSize
        = (middle - 1) / pageSize + 1 - offset / pageSize
          + ((stop - 1) / pageSize - (middle - 1) / pageSize) := by
      have hfirst : offset / pageSize ≤ (middle - 1) / pageSize := Nat.div_le_div_right (by omega)
      omega
    rw [pages, pages, if_neg hempty, if_neg (by omega), hcount, ← List.range'_append_1]
    exact List.prefix_append ..

end Backing

/-! ## The account of a journey -/

/-- Whether the page at hand was looked for and not found. -/
def Call.missed (c : Call) : Bool :=
  match c.phase with
  | .lookup => false
  | .acquire => true
  | .fetch _ => true
  | .publish .. => true
  | .release .. => true
  | .finished (.done _) => false
  | .finished (.stopped error) => !error.cause.unnamed
  | .finished .abandoned => true

/-- The visits of a journey are those of the pages before the page at hand, and what is known of
the page at hand; the source was asked for those that were missed, but not yet for the page at hand
as long as there is no slot for it. -/
structure Tally (r : Request) (deeds : List Deed) (c : Call) (past : List (PageKey × Bool)) :
    Prop where
  visits : visitsOf deeds = past ++ if c.missed then [(c.key, false)] else []
  asks : asksOf deeds = past.filterMap (askFor c.pageSize)
    ++ if c.asked then [(c.pageStart, c.pageSize)] else []
  object : ∀ v ∈ past, v.1.object = r.view.object
  pages : past.map (·.1.page.toNat) = Backing.pages c.pageSize r.offset.toNat c.offset

namespace Call

variable {c : Call}

theorem missed_visit (c : Call) : c.visit.missed = false := by
  obtain ⟨-, heq⟩ | ⟨-, -, heq⟩ | ⟨-, -, heq⟩ := c.visit_cases <;> rw [heq] <;> rfl

namespace Tracks

variable {r : Request} {pageShift : Nat}

/-- A call that stops or goes on past the first page does so where a page starts. -/
theorem pages_eq (h : c.Tracks r pageShift)
    (hstart : c.destination.copied = 0 ∨ c.offset < c.stop) :
    Backing.pages c.pageSize r.offset.toNat c.offset
      = List.range' (r.offset.toNat / c.pageSize) (c.page - r.offset.toNat / c.pageSize) := by
  have hoffset := h.offset_eq
  have haligned : c.offset = r.offset.toNat ∨ c.offset % c.pageSize = 0 := by
    rcases hstart with hzero | hleft
    · exact .inl (by omega)
    · exact (h.aligned hleft).imp (by omega) id
  rw [Backing.pages_of_aligned c.pageSize_pos (by omega) haligned, c.page_eq]

/-- The page at hand comes next after those before it. -/
theorem pages_append (h : c.Tracks r pageShift) (hpage : c.AtPage) :
    Backing.pages c.pageSize r.offset.toNat (c.offset + c.want)
      = Backing.pages c.pageSize r.offset.toNat c.offset ++ [c.page] := by
  have hoffset := h.offset_eq
  have haligned : c.offset = r.offset.toNat ∨ c.offset % c.pageSize = 0 :=
    (h.aligned hpage.1).imp (by omega) id
  rw [Backing.pages_append c.pageSize_pos (by omega) haligned (want_pos hpage.1)
    (by rw [← c.intra_eq, want]; exact Nat.min_le_right ..), c.page_eq]

/-- A call that has missed a page is at that page. -/
theorem atPage_of_missed (h : c.Tracks r pageShift) (hmissed : c.missed = true) : c.AtPage := by
  have hstage := h.stage
  unfold Stage at hstage
  unfold missed at hmissed
  split at hstage <;> simp_all

end Tracks

/-- A call that starts has not looked for anything. -/
theorem missed_start (view : View) (pageShift : Nat) (offset : Int) (buffer : Bytes) :
    (start view pageShift offset buffer).missed = false := by
  unfold start
  dsimp only
  split
  · rfl
  · exact missed_visit _

theorem missed_afterReply (c : Call) (slot : Slot) (reply : Reply) :
    ({ c with phase := c.afterReply slot reply } : Call).missed = true := by
  obtain heq | ⟨cause, heq⟩ | ⟨n, heq⟩ := c.afterReply_cases slot reply <;> rw [missed, heq]

/-- The read of the source for a page that was missed is one of the page at hand. -/
theorem askFor_key (hpage : c.page < pageLimit) :
    askFor c.pageSize (c.key, false) = some (c.pageStart, c.pageSize) := by
  rw [askFor, if_neg (by simp), toNat_page_key hpage, pageStart_eq]

end Call

namespace Tally

variable {r : Request} {pageShift : Nat} {deeds more : List Deed} {c c' : Call}
  {past : List (PageKey × Bool)}

theorem start (r : Request) (pageShift : Nat) :
    Tally r [] (.start r.view pageShift r.offset r.buffer) [] := by
  have hmissed := Call.missed_start r.view pageShift r.offset r.buffer
  have hasked := Call.asked_start r.view pageShift r.offset r.buffer
  obtain ⟨phase, heq⟩ := Call.start_eq r pageShift
  refine ⟨by rw [hmissed]; rfl, by rw [hasked]; rfl, fun _ hmem => absurd hmem List.not_mem_nil, ?_⟩
  rw [heq]
  exact (Backing.pages_eq_nil Nat.le.refl).symm

/-- Once a call has what it wants of the page at hand, that page is one of those before. -/
theorem deliver (h : Tally r deeds c past) (htracks : c.Tracks r pageShift) (hpage : c.AtPage)
    (resident : Bool) {bytes : Bytes}
    (hvisits : visitsOf (deeds ++ more) = past ++ [(c.key, resident)])
    (hasks : asksOf (deeds ++ more)
      = past.filterMap (askFor c.pageSize) ++ (askFor c.pageSize (c.key, resident)).toList) :
    Tally r (deeds ++ more) (c.deliver bytes) (past ++ [(c.key, resident)]) := by
  have hmissed : (c.deliver bytes).missed = false := Call.missed_visit _
  have hasked : (c.deliver bytes).asked = false := Call.asked_visit _
  obtain ⟨phase, heq⟩ := c.deliver_eq bytes
  constructor
  · rw [hmissed, hvisits]
    simp
  · rw [hasked, hasks, heq]
    cases resident <;> simp [askFor, Call.pageSize]
  · intro v hv
    rcases List.mem_append.1 hv with hbefore | hlast
    · exact h.object v hbefore
    · obtain rfl := List.mem_singleton.1 hlast
      exact congrArg View.object htracks.view_eq
  · rw [List.map_append, h.pages, heq]
    show _ = Backing.pages c.pageSize r.offset.toNat (c.offset + c.want)
    rw [htracks.pages_append hpage]
    exact congrArg _ (congrArg (fun page => [page]) (Call.toNat_page_key hpage.2))

/-- Every step keeps the account. -/
theorem advance (h : Tally r deeds c past) (htracks : c.Tracks r pageShift)
    (hstep : c.Advance more c') : ∃ past, Tally r (deeds ++ more) c' past := by
  have hpage : c.AtPage := htracks.atPage hstep.active
  have hstage := htracks.stage
  have hask := Call.askFor_key hpage.2
  have hvisits := h.visits
  have hasks := h.asks
  cases hstep with
  | found bytes hphase _ =>
    simp only [Call.missed, Call.asked, hphase, Bool.false_eq_true, if_false, List.append_nil]
      at hvisits hasks
    refine ⟨_, h.deliver htracks hpage true ?_ ?_⟩
    · rw [visitsOf_append, hvisits]
      rfl
    · rw [asksOf_append, hasks]
      rfl
  | missed hphase =>
    simp only [Call.missed, Call.asked, hphase, Bool.false_eq_true, if_false, List.append_nil]
      at hvisits hasks
    refine ⟨past, ?_, ?_, h.object, h.pages⟩
    · rw [visitsOf_append, hvisits]
      rfl
    · rw [asksOf_append, hasks]
      rfl
  | granted slot hphase =>
    simp only [Call.missed, Call.asked, hphase] at hvisits hasks
    rw [List.append_nil]
    exact ⟨past, hvisits, hasks, h.object, h.pages⟩
  | refused hphase =>
    simp only [Call.missed, Call.asked, hphase] at hvisits hasks
    rw [List.append_nil]
    exact ⟨past, hvisits, hasks, h.object, h.pages⟩
  | answered slot bytes t hphase _ =>
    simp only [Call.missed, Call.asked, hphase, if_true, Bool.false_eq_true, if_false,
      List.append_nil] at hvisits hasks
    have hmissed := c.missed_afterReply slot t.reply
    have hasked := c.asked_afterReply slot t.reply
    obtain ⟨ahead, scratch, heq⟩ := c.setFrame_eq bytes
    rw [heq]
    refine ⟨past, ?_, ?_, h.object, h.pages⟩
    · rw [visitsOf_append, hvisits]
      exact (List.append_nil _).trans (congrArg (past ++ ·) (if_pos hmissed).symm)
    · rw [asksOf_append, hasks]
      exact congrArg (past.filterMap (askFor c.pageSize) ++ ·) (if_pos hasked).symm
  | published slot n bytes hphase _ =>
    simp only [Call.missed, Call.asked, hphase, if_true] at hvisits hasks
    refine ⟨_, h.deliver htracks hpage false ?_ ?_⟩
    · rw [visitsOf_append, hvisits]
      exact List.append_nil _
    · rw [asksOf_append, hasks, hask]
      exact List.append_nil _
  | released slot cause hphase =>
    simp only [Call.missed, Call.asked, hphase, if_true] at hvisits hasks
    rw [Call.Stage, hphase] at hstage
    have hcause := hstage.2
    have hunnamed : cause.unnamed = false := by
      cases cause <;> simp_all [StopCause.ofSource, StopCause.unnamed]
    rw [List.append_nil]
    refine ⟨past, ?_, ?_, h.object, h.pages⟩
    · rw [hvisits, Call.missed]
      simp [Call.stopFor, Call.finish, hunnamed, Call.key, Call.page]
    · rw [hasks, Call.asked]
      simp [Call.stopFor, Call.finish, hcause, Call.pageStart, Call.page, Call.pageSize]

/-- The pages that were looked for are the first ones of the range. -/
theorem pages_visits (h : Tally r deeds c past) (htracks : c.Tracks r pageShift) :
    (visitsOf deeds).map (·.1.page.toNat) <+: Backing.pages c.pageSize r.offset.toNat r.stop := by
  rw [h.visits, List.map_append, h.pages]
  cases hmissed : c.missed with
  | false =>
    simp only [Bool.false_eq_true, if_false, List.map_nil, List.append_nil]
    by_cases hle : c.offset ≤ r.stop
    · exact Backing.pages_prefix hle
    · have hoffset := htracks.offset_le
      rw [Backing.pages_eq_nil (by omega)]
      exact List.nil_prefix
  | true =>
    have hpage := htracks.atPage_of_missed hmissed
    have hle := Call.offset_add_want_le hpage.1
    simp only [if_true, List.map_cons, List.map_nil, Call.toNat_page_key hpage.2]
    rw [← htracks.pages_append hpage]
    exact Backing.pages_prefix (htracks.stop_eq ▸ hle)

theorem object_visits (h : Tally r deeds c past) (htracks : c.Tracks r pageShift) :
    ∀ v ∈ visitsOf deeds, v.1.object = r.view.object := by
  have hkey : c.key.object = r.view.object := congrArg View.object htracks.view_eq
  intro v hv
  rw [h.visits] at hv
  rcases List.mem_append.1 hv with hbefore | hlast
  · exact h.object v hbefore
  · split at hlast
    · obtain rfl := List.mem_singleton.1 hlast
      exact hkey
    · exact absurd hlast List.not_mem_nil

/-- A call that is done with at least one byte has looked for all pages of the bytes. -/
theorem of_done (h : Tally r deeds c past) (htracks : c.Tracks r pageShift) {n : Nat}
    (hphase : c.phase = .finished (.done n)) (hpositive : 1 ≤ n) :
    (visitsOf deeds).map (·.1.page.toNat)
        = List.range' (r.offset.toNat / c.pageSize)
          ((r.offset.toNat + n - 1) / c.pageSize - r.offset.toNat / c.pageSize + 1) ∧
      asksOf deeds = (visitsOf deeds).filterMap (askFor c.pageSize) := by
  have hvisits := h.visits
  have hasks := h.asks
  have hstage := htracks.stage
  have hoffset := htracks.offset_eq
  simp only [Call.missed, Call.asked, hphase, Bool.false_eq_true, if_false, List.append_nil]
    at hvisits hasks
  rw [Call.Stage, hphase] at hstage
  rw [← hstage.1] at hoffset
  have hfirst : r.offset.toNat / c.pageSize ≤ (r.offset.toNat + n - 1) / c.pageSize :=
    Nat.div_le_div_right (by omega)
  rw [hvisits, hasks, h.pages, hoffset, Backing.pages, if_neg (by omega), Nat.succ_sub hfirst]
  exact ⟨rfl, rfl⟩

/-- A call that has stopped has looked for all pages before the one where it stopped, and for that
one unless it has no number. -/
theorem of_stopped (h : Tally r deeds c past) (htracks : c.Tracks r pageShift) {error : ReadError}
    (hphase : c.phase = .finished (.stopped error)) :
    let last := (r.offset.toNat + error.copied) / c.pageSize
    past.map (·.1.page.toNat)
        = List.range' (r.offset.toNat / c.pageSize) (last - r.offset.toNat / c.pageSize) ∧
      visitsOf deeds = past
        ++ (if error.cause.unnamed then [] else [(⟨r.view.object, last.toUInt32⟩, false)]) ∧
      asksOf deeds = past.filterMap (askFor c.pageSize)
        ++ (if error.cause.ofSource then [(last * c.pageSize, c.pageSize)] else []) ∧
      (error.cause.unnamed = false → last < Call.pageLimit) := by
  intro last
  have hvisits := h.visits
  have hasks := h.asks
  have hstage := htracks.stage
  simp only [Call.missed, Call.asked, hphase] at hvisits hasks
  rw [Call.Stage, hphase] at hstage
  obtain ⟨hcopied, hstage⟩ := hstage
  have hlast : last = c.page := by
    rw [c.page_eq, htracks.offset_eq, ← hcopied]
  have hkey : c.key = ⟨r.view.object, last.toUInt32⟩ := by
    rw [Call.key, htracks.view_eq, hlast]
  have hstart : c.destination.copied = 0 ∨ c.offset < c.stop := by
    split at hstage
    · exact hstage
    · exact .inr hstage.1
  refine ⟨?_, ?_, ?_, fun hnamed => ?_⟩
  · rw [h.pages, htracks.pages_eq hstart, hlast]
  · rw [hvisits, hkey]
    cases error.cause.unnamed <;> rfl
  · rw [hasks, hlast, c.pageStart_eq]
  · rw [hnamed, if_neg (by simp)] at hstage
    rw [hlast]
    exact hstage.2

end Tally

theorem Journey.exists_tally {r : Request} {pageShift : Nat} {deeds : List Deed} {c : Call}
    (h : Journey r pageShift deeds c) : ∃ past, Tally r deeds c past := by
  induction h with
  | start => exact ⟨[], .start r pageShift⟩
  | step hbefore hstep ih =>
    obtain ⟨past, htally⟩ := ih
    exact htally.advance hbefore.tracks hstep

/-! ## Counted lookups -/

namespace Bucket

variable {ι : Type} [EvictionPolicy ι PageKey Slot]

theorem lookups_acquire (b : Bucket ι) : b.acquire.2.counters.lookups = b.counters.lookups := by
  rw [counters_acquire_eq]
  split <;> rfl

theorem lookups_install (b : Bucket ι) (key : PageKey) (slot : Slot) (data : Bytes) :
    (b.install key slot data).2.counters.lookups = b.counters.lookups := by
  unfold install
  dsimp only
  split <;> rfl

end Bucket

/-- A lookup of a call is counted, and no other step is. -/
theorem Cache.Shaped.lookups_touch {cache : Cache} {pageShift : Nat} (h : cache.Shaped pageShift)
    {c : Call} (hshift : c.pageShift = pageShift) :
    (c.touch cache).2.counters.lookups
      = cache.counters.lookups + (visitsOf (c.deeds cache)).length := by
  refine cache.counters_eq_add (·.lookups) rfl (fun _ _ => rfl) (cache.shardOf c.key)
    fun shard => ?_
  rw [c.bucket_touch]
  split
  · rename_i hshard
    subst hshard
    unfold Call.touchIn Call.deeds
    cases hphase : c.phase with
    | lookup =>
      have hwithin : c.intra + c.want ≤ 1 <<< pageShift := hshift ▸ c.intra_add_want_le
      have hfound : ((cache.bucket (cache.shardOf c.key)).read c.key c.intra c.want).1 = _ :=
        h.read_fst hwithin
      have hcounted :=
        (cache.bucket (cache.shardOf c.key)).counters_read_eq c.key c.intra c.want
      generalize (cache.bucket (cache.shardOf c.key)).read c.key c.intra c.want = answer
        at hfound hcounted ⊢
      obtain ⟨found, b⟩ := answer
      cases hpage : cache.page? c.key <;> rw [hpage] at hfound <;> obtain rfl := hfound <;>
        exact congrArg Counters.lookups hcounted
    | acquire =>
      dsimp only
      split <;> exact Bucket.lookups_acquire _
    | publish slot n => exact Bucket.lookups_install ..
    | release slot cause => rfl
    | fetch slot => rfl
    | finished outcome => rfl
  · rfl

/-! ## Reads -/

section Reads

variable {σ : Type} {p : Place σ} {source : Source (StateM σ)} {r : Request} {pageShift : Nat}
  {s : σ}

/-- A read whose source leaves the cache alone is a journey to its end, and the lookups that are
counted meanwhile are its own. -/
theorem Journey.readAt_of_quiet
    (hquiet : ∀ offset buffer s, p.get (source offset buffer s).2 = p.get s)
    (hshape : (p.get s).Shaped pageShift) :
    let ended := (p.reader r.view source).readAt r.offset r.buffer s
    ∃ last, Journey r pageShift (r.deeds p source s) last ∧ last.active = false ∧
      ended.1 = last.result ∧
      (p.get ended.2).counters.lookups
        = (p.get s).counters.lookups + (visitsOf (r.deeds p source s)).length := by
  intro ended
  have hstarted : Journey r pageShift []
      (.start r.view (p.get s).geometry.pageShift r.offset r.buffer) := by
    rw [hshape.geometry_eq]
    exact .start
  obtain ⟨⟨hjourney, -, hlookups⟩, hended⟩ := Call.runFor_keeps_deeds p source
    (fun deeds c s' => Journey r pageShift deeds c ∧ (p.get s').Shaped pageShift ∧
      (p.get s').counters.lookups = (p.get s).counters.lookups + (visitsOf deeds).length)
    (fun _ _ _ h => h.1.offset_lt)
    (fun deeds c s' h hactive hfetch => by
      obtain ⟨hjourney, hshape, hlookups⟩ := h
      rw [p.get_set, visitsOf_append, List.length_append, ← Nat.add_assoc, ← hlookups]
      exact ⟨hjourney.touch hshape hactive hfetch, hshape.touch c,
        hshape.lookups_touch hjourney.tracks.pageShift_eq⟩)
    (fun deeds c s' slot h hphase => by
      obtain ⟨hjourney, hshape, hlookups⟩ := h
      rw [hquiet, visitsOf_append, hlookups]
      exact ⟨hjourney.receive hphase _, hshape,
        congrArg (_ + List.length ·) (List.append_nil _).symm⟩)
    (Call.rank_start_le ..) ⟨hstarted, hshape, rfl⟩
  have hread := p.readAt_reader r.view source r.offset r.buffer s
  exact ⟨_, hjourney, hended, congrArg Prod.fst hread,
    (congrArg (fun result => (p.get result.2).counters.lookups) hread).trans hlookups⟩

/-- A read of no bytes does nothing. -/
theorem Request.deeds_of_idle
    (hidle : r.offset < 0 ∨ (r.view.size : Int) ≤ r.offset ∨ r.buffer = []) :
    r.deeds p source s = [] ∧ ((p.reader r.view source).readAt r.offset r.buffer s).2 = s := by
  have hended : (Call.start r.view (p.get s).geometry.pageShift r.offset r.buffer).active
      = false := by
    unfold Call.start
    dsimp only
    split
    · rfl
    · rename_i hnonneg
      unfold Call.visit
      dsimp only
      rw [if_pos]
      · rfl
      · obtain hnegative | hpast | hempty := hidle
        · exact absurd hnegative hnonneg
        · omega
        · rw [hempty, List.length_nil]
          omega
  obtain ⟨outcome, hphase⟩ := Call.exists_phase_of_active_eq_false hended
  refine ⟨Call.deedsFor_of_active_eq_false hended _, ?_⟩
  rw [p.readAt_reader, Call.runFor_finished _ _ hphase]
  rfl

/-- What a read looks for and what it asks of a source that does not touch the cache. It looks for
the first pages of its range, once each and in order, and no other lookups are counted; its reads of
the source are those that a log would have. A read of no bytes does neither. A read that is done has
looked for every page that its bytes are from, and asked for each that was not resident, whole and
in order. A read that stops has looked for all pages before the one where it stopped and for that
one too, unless it has no number; it has asked for those that it missed, and for the last one only
if it is the source that failed. It ends in one of these ways unless the source breaks off or claims
more than it was asked for. -/
theorem traffic_of_read_exact {σ : Type} (p : Place σ) (source : Source (StateM σ))
    (hquiet : ∀ offset buffer s, p.get (source offset buffer s).2 = p.get s)
    (r : Request) {pageShift : Nat} {s : σ} (hshape : (p.get s).Shaped pageShift) :
    let pageSize := 1 <<< pageShift
    let first := r.offset.toNat
    let ended := (p.reader r.view source).readAt r.offset r.buffer s
    let visits := visitsOf (r.deeds p source s)
    let asks := asksOf (r.deeds p source s)
    ((p.get ended.2).counters.lookups = (p.get s).counters.lookups + visits.length ∧
      (∀ log, Logs p source log → log ended.2 = log s ++ asks) ∧
      visits.map (·.1.page.toNat) <+: Backing.pages pageSize first r.stop ∧
      ∀ v ∈ visits, v.1.object = r.view.object) ∧
    (r.offset < 0 ∨ (r.view.size : Int) ≤ r.offset ∨ r.buffer = [] →
      visits = [] ∧ asks = [] ∧ ended.2 = s) ∧
    (∀ n, ended.1.outcome = .done n → 1 ≤ n →
      visits.map (·.1.page.toNat)
        = List.range' (first / pageSize) ((first + n - 1) / pageSize - first / pageSize + 1) ∧
      asks = visits.filterMap (askFor pageSize)) ∧
    (∀ error, ended.1.outcome = .stopped error →
      let last := (first + error.copied) / pageSize
      ∃ before,
        before.map (·.1.page.toNat)
          = List.range' (first / pageSize) (last - first / pageSize) ∧
        visits = before
          ++ (if error.cause.unnamed then [] else [(⟨r.view.object, last.toUInt32⟩, false)]) ∧
        asks = before.filterMap (askFor pageSize)
          ++ (if error.cause.ofSource then [(last * pageSize, pageSize)] else []) ∧
        (error.cause.unnamed = false → last < Call.pageLimit)) ∧
    (ended.1.outcome = .abandoned ↔
      ∃ deed ∈ r.deeds p source s, deed.untenable = true) := by
  intro pageSize first ended visits asks
  obtain ⟨last, hjourney, hended, hresult, hlookups⟩ :=
    Journey.readAt_of_quiet (r := r) hquiet hshape
  obtain ⟨past, htally⟩ := hjourney.exists_tally
  have htracks := hjourney.tracks
  have hsize : last.pageSize = pageSize := htracks.pageSize_eq
  obtain ⟨outcome, hphase⟩ := Call.exists_phase_of_active_eq_false hended
  have houtcome : ended.1.outcome = outcome := by
    rw [hresult, Call.result, Call.outcome, hphase]
  rw [houtcome, ← hsize]
  refine ⟨⟨hlookups, fun log hlog => hlog.readAt_eq r s, htally.pages_visits htracks,
    htally.object_visits htracks⟩,
    fun hidle => ?_, fun n hdone hpositive => ?_, fun error hstopped => ?_, ?_⟩
  · obtain ⟨hnone, hsame⟩ : r.deeds p source s = [] ∧ ended.2 = s := Request.deeds_of_idle hidle
    simp only [visits, asks, hnone]
    exact ⟨rfl, rfl, hsame⟩
  · exact htally.of_done htracks (hdone ▸ hphase) hpositive
  · exact ⟨past, htally.of_stopped htracks (hstopped ▸ hphase)⟩
  · rw [← hjourney.abandoned_iff, hphase]
    simp

/-- On a new cache a read of two pages whose source fails looks for the first page and asks for
it. -/
theorem traffic_of_read_exact_of_failed_read :
    let s : Recorded := { cache := .ofGeometry ⟨1, 64⟩ 7 }
    let source : Source (StateM Recorded) := fun offset buffer s =>
      (⟨.failed ⟨.other, none⟩, []⟩, { s with asks := s.asks ++ [(offset, buffer.length)] })
    let r : Request := ⟨⟨1, 4⟩, 1, [0, 0]⟩
    let ended := (Recorded.place.reader r.view source).readAt r.offset r.buffer s
    s.cache.Shaped 1 ∧ ended.1.outcome = .stopped ⟨0, .io ⟨.other, none⟩⟩ ∧
      visitsOf (r.deeds Recorded.place source s) = [(⟨1, 0⟩, false)] ∧ ended.2.asks = [(0, 2)] ∧
      ended.2.cache.counters.lookups = s.cache.counters.lookups + 1 := by
  intro s source r ended
  have hempty : (Recorded.place.get s).Keeps (fun _ _ => False) fun _ => [] :=
    Cache.keeps_ofGeometry ⟨1, 64⟩ 7
  have hpages : 1 ≤ (⟨1, 64⟩ : Geometry).pagesPerBucket := by decide
  have hactive : (Call.start ⟨1, 4⟩ 1 1 [0, 0]).active = true := rfl
  have houtcome : ended.1.outcome = .stopped ⟨0, .io ⟨.other, none⟩⟩ :=
    Request.outcome_of_failed hempty hpages hactive fun _ _ _ => rfl
  have hshape : (Recorded.place.get s).Shaped 1 := hempty.shaped
  obtain ⟨⟨hlookups, hlogged, -⟩, -, -, hstopped, -⟩ := traffic_of_read_exact Recorded.place source
    (fun _ _ _ => rfl) ⟨⟨1, 4⟩, 1, [0, 0]⟩ hshape
  obtain ⟨before, hbefore, hvisits, hasks, -⟩ := hstopped _ houtcome
  obtain rfl : before = [] := List.map_eq_nil_iff.1 hbefore
  have hlogs := hlogged (·.asks) ⟨fun _ _ => rfl, fun _ _ _ => rfl⟩
  rw [hvisits] at hlookups
  rw [hasks] at hlogs
  exact ⟨hshape, houtcome, hvisits, hlogs, hlookups⟩

end Reads

end ReadThrough
