import ReadThrough.Proofs.Exhaustion
import ReadThrough.Proofs.Steps

/-!
# Failed visits

A page that is missed may get no slot, or its source may fail or end early. `Call.FailsAt` is such a
visit; it is how every read ends that stops at a page with a number (`Errand.exists_failsAt`).
`Bucket.failedVisit` is what it makes of the bucket of the page: if no slot is free and a page is
resident, the page used longest ago gives way and its slot is free from then on; otherwise only the
counters move. So any number of failed visits cost a bucket one page at most
(`FailedVisits.spares`).
-/

namespace ReadThrough

/-! ## Buckets -/

namespace Bucket

/-- What a visit to a missing page makes of a bucket if nothing comes of it. -/
def failedVisit (b : CacheBucket) : CacheBucket :=
  let (grant, b) := (b.record (.lookup false)).acquire
  match grant.slot? with
  | some slot => b.release slot
  | none => b

variable {b b' : CacheBucket} {held : List Slot} {key : PageKey}

/-- A miss changes nothing but the counters. -/
theorem read_snd_of_miss (h : b.Owned held) {offset count : Nat}
    (hmiss : (b.read key offset count).1 = .miss) :
    (b.read key offset count).2 = b.record (.lookup false) := by
  have hvalid : b.index.Valid := h.valid
  have hnot := (read_eq_miss_iff offset count h).1 hmiss
  have hlookup : EvictionPolicy.lookup b.index key = (none, b.index) :=
    hvalid.lookup_of_not_mem fun slot hslot => hnot (mem_order.2 ⟨slot, hslot⟩)
  rw [read, hlookup]

/-- A free slot is handed out and put back. -/
theorem failedVisit_of_free (hfree : b.free ≠ []) :
    b.failedVisit = ((b.record (.lookup false)).record .allocation).record .free := by
  obtain ⟨slot, free, hfree⟩ := List.exists_cons_of_ne_nil hfree
  have hacquire : (b.record (.lookup false)).acquire
      = (.free slot, { b.record (.lookup false) with free }.record .allocation) := by
    rw [acquire]
    simp only [record, hfree]
  rw [failedVisit, hacquire]
  simp only [Grant.slot?, release, record, ← hfree]

/-- The page used longest ago gives up its slot. -/
theorem failedVisit_of_full (hvalid : b.index.Valid) (hfree : b.free = [])
    {rest : List (PageKey × Slot)} {victim : PageKey} {slot : Slot}
    (hentries : b.index.entries = rest ++ [(victim, slot)]) :
    b.failedVisit.index.entries = rest ∧ b.failedVisit.free = [slot] ∧
      b.failedVisit.pages = b.pages := by
  obtain ⟨hevict, -, hrest⟩ := hvalid.evict_of_concat hentries
  have hpair : EvictionPolicy.evict b.index = (some (victim, slot), b.index.evict.2) :=
    Prod.ext hevict rfl
  have hacquire : (b.record (.lookup false)).acquire = (.reclaimed slot victim,
      { b.record (.lookup false) with index := b.index.evict.2 }.record .eviction) := by
    rw [acquire]
    simp only [record, hfree, hpair]
  rw [failedVisit, hacquire]
  exact ⟨hrest, congrArg (slot :: ·) hfree, rfl⟩

/-- Where all slots are in flight there is nothing to give up. -/
theorem failedVisit_of_exhausted (hvalid : b.index.Valid) (hfree : b.free = [])
    (hentries : b.index.entries = []) : b.failedVisit = b.record (.lookup false) := by
  have hpair : EvictionPolicy.evict b.index = (none, b.index) := hvalid.evict_of_nil hentries
  have hacquire : (b.record (.lookup false)).acquire = (.exhausted, b.record (.lookup false)) := by
    rw [acquire]
    simp only [record, hfree, hpair]
  rw [failedVisit, hacquire]
  rfl

/-- All slots are in flight exactly when none is free and none is bound. -/
theorem Owned.forall_inFlight_iff (h : b.Owned held) :
    (∀ slot < b.capacity, b.InFlight slot) ↔ b.free = [] ∧ b.index.entries = [] := by
  constructor
  · intro hall
    refine ⟨List.eq_nil_iff_forall_not_mem.2 fun slot hfree => ?_,
      List.eq_nil_iff_forall_not_mem.2 fun entry hentry => ?_⟩
    · have hcount := h.count slot
      have hpos := List.count_pos_iff.2 hfree
      rw [List.count_range] at hcount
      split at hcount
      · exact (hall slot ‹_›).2.1 hfree
      · omega
    · have hbound : (entry.1, entry.2) ∈ b.residents := hentry
      obtain ⟨hlt, -⟩ := h.of_mem_residents hbound
      exact (hall entry.2 hlt).2.2 (List.mem_map_of_mem (f := (·.2)) hentry)
  · rintro ⟨hfree, hentries⟩ slot hlt
    have hbound : b.boundSlots = [] :=
      congrArg (List.map fun entry : PageKey × Slot => entry.2) hentries
    refine ⟨hlt, ?_, ?_⟩
    · rw [hfree]
      exact List.not_mem_nil
    · rw [hbound]
      exact List.not_mem_nil

theorem Owned.record (h : b.Owned held) (event : Counters.Event) : (b.record event).Owned held :=
  ⟨h.valid, h.pages_size, h.count⟩

/-- No slot gets lost in a failed visit. -/
theorem Owned.failedVisit (h : b.Owned held) : b.failedVisit.Owned held := by
  have hacquired := (h.record (.lookup false)).acquire
  unfold Bucket.failedVisit
  dsimp only
  split <;> rename_i hslot <;> rw [hslot] at hacquired
  · exact hacquired.release
  · exact hacquired

/-- What failed visits leave of a bucket: its pages, and its free slots and its order, or else the
order without the page used longest ago, for whose slot none had been free. -/
structure Spares (b b' : CacheBucket) : Prop where
  pages : b'.pages = b.pages
  order : (b'.free = b.free ∧ b'.index = b.index) ∨
    (b.free = [] ∧ b'.free ≠ [] ∧ ∃ entry, b.index.entries = b'.index.entries ++ [entry])

/-- One page is the most that a bucket loses. -/
theorem Spares.failedVisit (h : b.Spares b') (howned : b'.Owned held) :
    b.Spares b'.failedVisit := by
  have hvalid : b'.index.Valid := howned.valid
  by_cases hfree : b'.free = []
  · -- Only a bucket that had lost nothing so far can be without a free slot.
    obtain ⟨hsameFree, hsame⟩ : b'.free = b.free ∧ b'.index = b.index :=
      h.order.resolve_right fun hlost => hlost.2.1 hfree
    rcases List.eq_nil_or_concat b'.index.entries with hentries | ⟨rest, ⟨victim, slot⟩, hentries⟩
    · rw [failedVisit_of_exhausted hvalid hfree hentries]
      exact ⟨h.pages, .inl ⟨hsameFree, hsame⟩⟩
    · rw [List.concat_eq_append] at hentries
      obtain ⟨hrest, hslot, hpages⟩ := failedVisit_of_full hvalid hfree hentries
      refine ⟨hpages.trans h.pages, .inr ⟨hsameFree ▸ hfree, ?_, (victim, slot), ?_⟩⟩
      · rw [hslot]
        exact List.cons_ne_nil _ _
      · rw [hrest, ← hsame, hentries]
  · rw [failedVisit_of_free hfree]
    exact ⟨h.pages, h.order⟩

/-- The page of a failed visit is not resident after it. -/
theorem not_mem_failedVisit (h : b.Owned held) (hnot : key ∉ b.order) :
    key ∉ b.failedVisit.order := by
  have hrefl : b.Spares b := ⟨rfl, .inl ⟨rfl, rfl⟩⟩
  obtain ⟨-, ⟨-, hsame⟩ | ⟨-, -, entry, hentries⟩⟩ := hrefl.failedVisit h
  · rw [order, hsame]
    exact hnot
  · intro hmem
    rw [order, hentries, List.map_append] at hnot
    exact hnot (List.mem_append_left _ hmem)

end Bucket

/-! ## Calls -/

namespace Call

/-- The call misses the page at hand and fails at it. No visit takes more than four steps, and the
last of them leaves the call at the page with the given cause to stop. -/
structure FailsAt (answer : Nat → Bytes → Transfer) (c : Call) (cache : Cache)
    (cause : StopCause) : Prop where
  phase : c.phase = .lookup
  offset_lt : c.offset < c.stop
  miss : (cache.read c.key c.intra c.want).1 = .miss
  stays : (c.stepsFor answer 4 cache).1.offset = c.offset
  stopped : (c.stepsFor answer 4 cache).1.outcome = .stopped ⟨c.destination.copied, cause⟩

theorem offset_visit (c : Call) : c.visit.offset = c.offset := by
  obtain ⟨phase, heq⟩ := c.visit_eq
  rw [heq]

theorem stop_visit (c : Call) : c.visit.stop = c.stop := by
  obtain ⟨phase, heq⟩ := c.visit_eq
  rw [heq]

/-- Between two pages a call stops only for want of a page with a number. -/
theorem cause_visit {c : Call} {error : ReadError}
    (h : c.visit.phase = .finished (.stopped error)) :
    ∃ offset size, error.cause = .offsetOutOfRange offset size := by
  obtain ⟨-, heq⟩ | ⟨-, -, heq⟩ | ⟨-, -, heq⟩ := c.visit_cases
  · rw [heq] at h
    exact absurd h (by simp [finish])
  · rw [heq] at h
    exact ⟨_, _, congrArg ReadError.cause (Outcome.stopped.inj (Phase.finished.inj h)).symm⟩
  · rw [heq] at h
    exact absurd h (by simp)

variable (answer : Nat → Bytes → Transfer) {c : Call} {cache : Cache} {cause : StopCause}

/-- The answer of its source leaves a call at its page with what it has delivered. -/
theorem stays_answered {slot : Slot} (hphase : c.phase = .fetch slot) :
    (c.answered answer).offset = c.offset ∧ (c.answered answer).stop = c.stop ∧
      (c.answered answer).want = c.want ∧
      (c.answered answer).destination.copied = c.destination.copied := by
  obtain ⟨ahead, scratch, heq⟩ := c.answered_eq answer hphase
  rw [heq]
  exact ⟨rfl, rfl, rfl, rfl⟩

/-- No answer of a source says that there are no slots. -/
theorem ne_noFreePages_of_answered {slot : Slot} (hphase : c.phase = .fetch slot)
    (hrelease : (c.answered answer).phase = .release slot cause) : cause ≠ .noFreePages := by
  rintro rfl
  unfold answered receive at hrelease
  rw [hphase] at hrelease
  dsimp only at hrelease
  split at hrelease
  · exact absurd hrelease (by simp)
  · exact absurd hrelease (by simp [finish])
  · split at hrelease
    · exact absurd hrelease (by simp [finish])
    · split at hrelease
      · exact absurd hrelease (by simp)
      · exact absurd hrelease (by simp)

section Visit

variable (hphase : c.phase = .lookup)

include hphase

/-- A call that misses its page and gets no slot stops. -/
theorem stepsFor_of_refused (hmiss : (cache.read c.key c.intra c.want).1 = .miss)
    (hslot : ((cache.read c.key c.intra c.want).2.acquire c.key).1.slot? = none) :
    c.stepsFor answer 4 cache
      = (c.stopFor .noFreePages, ((cache.read c.key c.intra c.want).2.acquire c.key).2) := by
  have hfirst : c.next answer cache
      = ({ c with phase := .acquire }, (cache.read c.key c.intra c.want).2) := by
    rw [next_eq_touch answer (by simp [hphase]), touch_of_miss hphase hmiss]
  obtain ⟨hcall, hcache⟩ := touch_of_exhausted (c := { c with phase := .acquire }) rfl hslot
  rw [stepsFor, hfirst, stepsFor, next_eq_touch answer (by simp), hcall, hcache]
  exact stepsFor_of_active_eq_false rfl 2 _

section Granted

variable (hmiss : (cache.read c.key c.intra c.want).1 = .miss) {slot : Slot}
  (hslot : ((cache.read c.key c.intra c.want).2.acquire c.key).1.slot? = some slot)

include hmiss hslot

/-- A call that misses its page and gets a slot takes its fourth step when its source has
answered. -/
theorem stepsFor_of_granted : c.stepsFor answer 4 cache
    = (({ c with phase := .fetch slot } : Call).answered answer).next answer
        ((cache.read c.key c.intra c.want).2.acquire c.key).2 := by
  have hfirst : c.next answer cache
      = ({ c with phase := .acquire }, (cache.read c.key c.intra c.want).2) := by
    rw [next_eq_touch answer (by simp [hphase]), touch_of_miss hphase hmiss]
  obtain ⟨hcall, hcache⟩ := touch_of_grant (c := { c with phase := .acquire }) rfl hslot
  rw [stepsFor, hfirst, stepsFor, next_eq_touch answer (by simp), hcall, hcache]
  rfl

/-- If the answer stops it, the call ends at its page and its slot is given back. -/
theorem stepsFor_of_released
    (hrelease : (({ c with phase := .fetch slot } : Call).answered answer).phase
      = .release slot cause) :
    (c.stepsFor answer 4 cache).1.offset = c.offset ∧
      (c.stepsFor answer 4 cache).1.outcome = .stopped ⟨c.destination.copied, cause⟩ ∧
      (c.stepsFor answer 4 cache).2
        = ((cache.read c.key c.intra c.want).2.acquire c.key).2.release c.key slot := by
  obtain ⟨-, hkey, -⟩ := place_answered answer { c with phase := .fetch slot } rfl
  obtain ⟨hoffset, -, -, hcopied⟩ :=
    stays_answered (c := { c with phase := .fetch slot }) answer rfl
  rw [stepsFor_of_granted answer hphase hmiss hslot]
  generalize ({ c with phase := .fetch slot } : Call).answered answer = received at *
  obtain ⟨hcall, hcache⟩ := touch_of_release
    ((cache.read c.key c.intra c.want).2.acquire c.key).2 hrelease
  rw [next_eq_touch answer (by simp [hrelease]), hcall, hcache, hkey]
  refine ⟨hoffset, ?_, rfl⟩
  exact congrArg (fun copied => Outcome.stopped ⟨copied, cause⟩) hcopied

/-- If the answer is good, the call goes on behind its page. -/
theorem stepsFor_of_published {n : Nat}
    (hpublish : (({ c with phase := .fetch slot } : Call).answered answer).phase
      = .publish slot n) :
    ∃ moved, (c.stepsFor answer 4 cache).1 = visit moved ∧ moved.offset = c.offset + c.want ∧
      moved.stop = c.stop := by
  obtain ⟨hoffset, hstop, hwant, -⟩ :=
    stays_answered (c := { c with phase := .fetch slot }) answer rfl
  rw [stepsFor_of_granted answer hphase hmiss hslot]
  generalize ({ c with phase := .fetch slot } : Call).answered answer = received at *
  obtain ⟨hcall, -⟩ := touch_of_publish
    ((cache.read c.key c.intra c.want).2.acquire c.key).2 hpublish
  rw [next_eq_touch answer (by simp [hpublish]), hcall]
  refine ⟨_, rfl, ?_, hstop⟩
  exact congrArg₂ (· + ·) hoffset hwant

end Granted

/-- What there is to failing at a page. -/
theorem failsAt_iff (hoffset : c.offset < c.stop) : c.FailsAt answer cache cause ↔
    (cache.read c.key c.intra c.want).1 = .miss ∧
      ((((cache.read c.key c.intra c.want).2.acquire c.key).1.slot? = none ∧
          cause = .noFreePages) ∨
        ∃ slot, ((cache.read c.key c.intra c.want).2.acquire c.key).1.slot? = some slot ∧
          (({ c with phase := .fetch slot } : Call).answered answer).phase
            = .release slot cause) := by
  constructor
  · intro h
    refine ⟨h.miss, ?_⟩
    have hstays := h.stays
    have hstopped := h.stopped
    rcases hslot : ((cache.read c.key c.intra c.want).2.acquire c.key).1.slot? with _ | slot
    · rw [stepsFor_of_refused answer hphase h.miss hslot] at hstopped
      have hcause := (ReadError.mk.inj (Outcome.stopped.inj hstopped)).2
      exact .inl ⟨rfl, hcause.symm⟩
    · refine .inr ⟨slot, rfl, ?_⟩
      obtain ⟨n, hpublish⟩ | ⟨cause', hrelease⟩ | habandoned :=
        answered_cases answer (c := { c with phase := .fetch slot }) rfl
      · obtain ⟨moved, heq, hmoved, -⟩ :=
          stepsFor_of_published answer hphase h.miss hslot hpublish
        have hwant := want_pos hoffset
        rw [heq, offset_visit, hmoved] at hstays
        omega
      · obtain ⟨-, hends, -⟩ := stepsFor_of_released answer hphase h.miss hslot hrelease
        have hcause := (ReadError.mk.inj (Outcome.stopped.inj (hends.symm.trans hstopped))).2
        rw [hrelease, hcause]
      · rw [stepsFor_of_granted answer hphase h.miss hslot,
          next_of_active_eq_false answer (by rw [active, habandoned])] at hstopped
        rw [outcome, habandoned] at hstopped
        exact absurd hstopped (by simp)
  · rintro ⟨hmiss, ⟨hslot, rfl⟩ | ⟨slot, hslot, hrelease⟩⟩
    · have hsteps := stepsFor_of_refused answer hphase hmiss hslot
      exact ⟨hphase, hoffset, hmiss, by rw [hsteps]; rfl, by rw [hsteps]; rfl⟩
    · obtain ⟨hstays, hstopped, -⟩ := stepsFor_of_released answer hphase hmiss hslot hrelease
      exact ⟨hphase, hoffset, hmiss, hstays, hstopped⟩

/-- A call fails at its page, or goes on behind it, or is abandoned. -/
theorem failsAt_or_moves (hoffset : c.offset < c.stop) (cache : Cache) :
    (∃ cause, c.FailsAt answer cache cause) ∨
    (∃ steps moved, (c.stepsFor answer steps cache).1 = visit moved ∧
      moved.offset = c.offset + c.want ∧ moved.stop = c.stop) ∨
    ∃ steps, (c.stepsFor answer steps cache).1.phase = .finished .abandoned := by
  have htouch : c.stepsFor answer 1 cache = ((c.touch cache).1.1, (c.touch cache).2) :=
    next_eq_touch answer (by simp [hphase]) cache
  rcases hfound : (cache.read c.key c.intra c.want).1 with bytes | _ | _
  · refine .inr (.inl ⟨1, { c with
      destination := c.destination.deliver bytes, offset := c.offset + c.want }, ?_, rfl, rfl⟩)
    rw [htouch, touch_of_hit hphase hfound, deliver]
  · rcases hslot : ((cache.read c.key c.intra c.want).2.acquire c.key).1.slot? with _ | slot
    · exact .inl ⟨_, (failsAt_iff answer hphase hoffset).2 ⟨hfound, .inl ⟨hslot, rfl⟩⟩⟩
    · obtain ⟨n, hpublish⟩ | ⟨cause, hrelease⟩ | habandoned :=
        answered_cases answer (c := { c with phase := .fetch slot }) rfl
      · exact .inr (.inl ⟨4, stepsFor_of_published answer hphase hfound hslot hpublish⟩)
      · exact .inl ⟨cause, (failsAt_iff answer hphase hoffset).2
          ⟨hfound, .inr ⟨slot, hslot, hrelease⟩⟩⟩
      · refine .inr (.inr ⟨4, ?_⟩)
        rw [stepsFor_of_granted answer hphase hfound hslot,
          next_of_active_eq_false answer (by rw [active, habandoned])]
        exact habandoned
  · refine .inr (.inr ⟨1, ?_⟩)
    rw [htouch, touch_of_pastPage hphase hfound]
    rfl

end Visit

variable {answer}

/-- What a page gets that was missed depends on what was free and resident before. -/
theorem grant_of_miss {held : List Slot}
    (howned : (cache.bucket (cache.shardOf c.key)).Owned held)
    (hmiss : (cache.read c.key c.intra c.want).1 = .miss) :
    ((cache.read c.key c.intra c.want).2.acquire c.key).1
      = ((cache.bucket (cache.shardOf c.key)).record (.lookup false)).acquire.1 := by
  rw [← Bucket.read_snd_of_miss howned hmiss, ← Cache.bucket_read]
  rfl

/-- A failed visit concerns the bucket of its page and no other. -/
theorem FailsAt.bucket_stepsFor (h : c.FailsAt answer cache cause) {held : List Slot}
    (howned : (cache.bucket (cache.shardOf c.key)).Owned held)
    (shard : Fin Geometry.bucketCount) :
    (c.stepsFor answer 4 cache).2.bucket shard = if cache.shardOf c.key = shard
      then (cache.bucket shard).failedVisit else cache.bucket shard := by
  obtain ⟨hmiss, hcases⟩ := (failsAt_iff answer h.phase h.offset_lt).1 h
  have hread := Bucket.read_snd_of_miss howned hmiss
  have hgrant := grant_of_miss howned hmiss
  rw [hgrant] at hcases
  obtain ⟨hslot, -⟩ | ⟨slot, hslot, hrelease⟩ := hcases
  · rw [stepsFor_of_refused answer h.phase hmiss (hgrant ▸ hslot)]
    simp only [Cache.acquire, Cache.read, Cache.bucket_onBucket, Cache.shardOf_onBucket]
    split
    · rename_i hhome
      subst hhome
      rw [hread, Bucket.failedVisit]
      simp only [hslot]
    · rfl
  · obtain ⟨-, -, hcache⟩ :=
      stepsFor_of_released answer h.phase hmiss (hgrant ▸ hslot) hrelease
    rw [hcache]
    simp only [Cache.release, Cache.acquire, Cache.read, Cache.bucket_onBucket,
      Cache.shardOf_onBucket]
    split
    · rename_i hhome
      subst hhome
      rw [hread, Bucket.failedVisit]
      simp only [hslot]
    · rfl

/-- The cause of a failed visit is that there are no slots if and only if all are in flight. -/
theorem FailsAt.eq_noFreePages_iff (h : c.FailsAt answer cache cause) {held : List Slot}
    (howned : (cache.bucket (cache.shardOf c.key)).Owned held) :
    cause = .noFreePages ↔ ∀ slot < (cache.bucket (cache.shardOf c.key)).capacity,
      (cache.bucket (cache.shardOf c.key)).InFlight slot := by
  obtain ⟨hmiss, hcases⟩ := (failsAt_iff answer h.phase h.offset_lt).1 h
  have hrefused := (howned.record (.lookup false)).acquire_eq_none_iff
  simp only [← howned.inFlight_iff] at hrefused
  rw [grant_of_miss howned hmiss] at hcases
  obtain ⟨hslot, rfl⟩ | ⟨slot, hslot, hrelease⟩ := hcases
  · exact iff_of_true rfl (hrefused.1 hslot)
  · refine iff_of_false (ne_noFreePages_of_answered answer rfl hrelease) fun hall => ?_
    rw [hrefused.2 hall] at hslot
    exact absurd hslot (by simp)

/-- A call that has stopped at a page with a number has failed at it. -/
theorem Ready.exists_failsAt (h : c.Ready) (hphase : c.phase = .lookup) {steps copied : Nat}
    (hstopped : (c.stepsFor answer steps cache).1.phase = .finished (.stopped ⟨copied, cause⟩))
    (hcause : ∀ offset size, cause ≠ .offsetOutOfRange offset size) :
    ∃ before, (c.stepsFor answer before cache).1.FailsAt answer
        (c.stepsFor answer before cache).2 cause ∧
      c.stepsFor answer (before + 4) cache = c.stepsFor answer steps cache := by
  have hended : (c.stepsFor answer steps cache).1.active = false := by rw [active, hstopped]
  induction hleft : c.stop - c.offset using Nat.strong_induction_on generalizing c cache with
  | h left ih =>
    obtain ⟨hoffset, -⟩ := h (by rw [active, hphase])
    obtain ⟨cause', hfails⟩ | ⟨first, moved, hmoved, hat, hstop⟩ | ⟨first, habandoned⟩ :=
      failsAt_or_moves answer hphase hoffset cache
    · have hphase' := Contract.phase_of_outcome hfails.stopped (by simp)
      have hlast := stepsFor_eq_of_active_eq_false (by rw [active, hphase']) hended
      rw [hlast, hstopped] at hphase'
      obtain rfl : cause = cause' :=
        (ReadError.mk.inj (Outcome.stopped.inj (Phase.finished.inj hphase'))).2
      exact ⟨0, hfails, by rw [Nat.zero_add, hlast]⟩
    · -- Behind its page the call takes the rest of its steps.
      have hrest : stepsFor answer steps moved.visit (c.stepsFor answer first cache).2
          = c.stepsFor answer steps cache := by
        rw [← hmoved, ← stepsFor_add, Nat.add_comm, stepsFor_add,
          stepsFor_of_active_eq_false hended]
      have hwant := want_pos hoffset
      rw [← hrest] at hstopped hended
      cases hactive : moved.visit.active with
      | false =>
        rw [stepsFor_of_active_eq_false hactive] at hstopped
        obtain ⟨offset, size, hunnamed⟩ := cause_visit hstopped
        exact absurd hunnamed (hcause offset size)
      | true =>
        have hless : moved.visit.stop - moved.visit.offset < left := by
          rw [offset_visit, stop_visit]
          omega
        obtain ⟨before, hfails, hlast⟩ :=
          ih _ hless (ready_visit moved) (moved.phase_visit hactive) hstopped hended rfl
        refine ⟨first + before, ?_, ?_⟩
        · rw [stepsFor_add, hmoved]
          exact hfails
        · rw [Nat.add_assoc, stepsFor_add, hmoved, hlast, hrest]
    · have hlast := stepsFor_eq_of_active_eq_false (by rw [active, habandoned]) hended
      rw [hlast, hstopped] at habandoned
      exact absurd (Phase.finished.inj habandoned) (by simp)

/-- Before its first step a call stops only for want of a page with a number. -/
theorem cause_start {view : View} {pageShift : Nat} {offset : Int} {buffer : Bytes}
    {error : ReadError}
    (h : (start view pageShift offset buffer).phase = .finished (.stopped error)) :
    ∃ offset size, error.cause = .offsetOutOfRange offset size := by
  unfold start at h
  dsimp only at h
  split at h
  · exact ⟨_, _, congrArg ReadError.cause (Outcome.stopped.inj (Phase.finished.inj h)).symm⟩
  · exact cause_visit h

end Call

/-! ## Reads -/

/-- A read that stops at a page with a number has failed at the page that it visited last. -/
theorem Errand.exists_failsAt {e : Errand} {cache : Cache} {copied : Nat} {cause : StopCause}
    (hstopped : (e.run cache).1.outcome = .stopped ⟨copied, cause⟩)
    (hcause : ∀ offset size, cause ≠ .offsetOutOfRange offset size) :
    ∃ before, (e.stepsFor cache before).1.FailsAt e.answer (e.stepsFor cache before).2 cause ∧
      (e.run cache).2 = (e.stepsFor cache (before + 4)).2 := by
  have hended := e.active_stepsFor cache Nat.le.refl
  rw [run_eq_stepsFor hended] at hstopped ⊢
  have hlast := Contract.phase_of_outcome hstopped (by simp)
  cases hactive : (e.started cache).active with
  | true =>
    obtain ⟨before, hfails, hend⟩ := (e.ready_started cache).exists_failsAt
      (Call.phase_start _ _ _ _ hactive) hlast hcause
    exact ⟨before, hfails, congrArg Prod.snd hend.symm⟩
  | false =>
    rw [stepsFor, Call.stepsFor_of_active_eq_false hactive] at hlast
    obtain ⟨offset, size, hunnamed⟩ := Call.cause_start hlast
    exact absurd hunnamed (hcause offset size)

/-! ## Several failed visits -/

/-- Failed visits to pages of one bucket, one after the other; in between, anything may happen
elsewhere. -/
inductive FailedVisits (shard : Fin Geometry.bucketCount) (start : Cache) : Cache → Prop
  | none : FailedVisits shard start start
  | visit {answer : Nat → Bytes → Transfer} {c : Call} {cache : Cache} {cause : StopCause} :
    FailedVisits shard start cache → c.FailsAt answer cache cause →
    cache.shardOf c.key = shard → FailedVisits shard start (c.stepsFor answer 4 cache).2
  | elsewhere {cache cache' : Cache} :
    FailedVisits shard start cache → cache'.bucket shard = cache.bucket shard →
    FailedVisits shard start cache'

theorem FailedVisits.spares {shard : Fin Geometry.bucketCount} {start last : Cache}
    (h : FailedVisits shard start last) {held : List Slot}
    (howned : (start.bucket shard).Owned held) :
    (last.bucket shard).Owned held ∧ (start.bucket shard).Spares (last.bucket shard) := by
  induction h with
  | none => exact ⟨howned, rfl, .inl ⟨rfl, rfl⟩⟩
  | visit _ hfails hshard ih =>
    subst hshard
    rw [hfails.bucket_stepsFor ih.1, if_pos rfl]
    exact ⟨ih.1.failedVisit, ih.2.failedVisit ih.1⟩
  | elsewhere _ hsame ih =>
    rw [hsame]
    exact ih

/-- A visit that misses its page and fails changes no bucket but that of the page. There it leaves
everything as it was if a slot was free; if none was free and a page was resident, the page used
longest ago is gone and its slot is free; and if all slots are in flight, which is when the visit
gets no slot, one more lookup is counted and that is all. The page is not resident then. This is
how every read fails that stops at a page with a number, and any number of such visits cost a bucket
one page at most. -/
theorem failed_visit_costs_coldest_page {cache : Cache} (h : cache.Settled) :
    (∀ (answer : Nat → Bytes → Transfer) (c : Call) (cause : StopCause),
      c.FailsAt answer cache cause →
        let after := (c.stepsFor answer 4 cache).2
        let b := cache.bucket (cache.shardOf c.key)
        let b' := after.bucket (cache.shardOf c.key)
        (∀ shard, shard ≠ cache.shardOf c.key → after.bucket shard = cache.bucket shard) ∧
        (b.free ≠ [] → b'.free = b.free ∧ b'.index = b.index ∧ b'.pages = b.pages) ∧
        (b.free = [] → ∀ rest victim slot, b.index.entries = rest ++ [(victim, slot)] →
          b'.index.entries = rest ∧ b'.free = [slot] ∧ b'.pages = b.pages) ∧
        ((∀ slot < b.capacity, b.InFlight slot) → b' = b.record (.lookup false)) ∧
        (cause = .noFreePages ↔ ∀ slot < b.capacity, b.InFlight slot) ∧
        c.key ∉ b'.order ∧ after.Settled) ∧
    (∀ (e : Errand) (copied : Nat) (cause : StopCause),
      (e.run cache).1.outcome = .stopped ⟨copied, cause⟩ →
      (∀ offset size, cause ≠ .offsetOutOfRange offset size) →
        ∃ before,
          let c := (e.stepsFor cache before).1
          let mid := (e.stepsFor cache before).2
          mid.Settled ∧ c.FailsAt e.answer mid cause ∧
            (e.run cache).2 = (c.stepsFor e.answer 4 mid).2) ∧
    ∀ shard last, FailedVisits shard cache last →
      (last.bucket shard).pages = (cache.bucket shard).pages ∧
        ∃ lost, lost.length ≤ 1 ∧
          (cache.bucket shard).index.entries = (last.bucket shard).index.entries ++ lost := by
  have hsettled := h
  obtain ⟨held, hkeeps⟩ := h
  refine ⟨fun answer c cause hfails => ?_, fun e copied cause hstopped hcause => ?_,
    fun shard last hvisits => ?_⟩
  · intro after b b'
    have howned : b.Owned (held (cache.shardOf c.key)) := (hkeeps.bucket _).owned
    have hafter (shard : Fin Geometry.bucketCount) : after.bucket shard = _ :=
      hfails.bucket_stepsFor howned shard
    have hspent : b' = b.failedVisit := (hafter _).trans (if_pos rfl)
    have hmiss : c.key ∉ b.order := (Bucket.read_eq_miss_iff _ _ howned).1 hfails.miss
    have hslot : c.slot? = none := by rw [Call.slot?, hfails.phase]
    rw [hspent]
    refine ⟨fun shard hshard => (hafter shard).trans (if_neg hshard.symm), fun hfree => ?_,
      fun hfree rest victim slot hentries => ?_, fun hall => ?_,
      hfails.eq_noFreePages_iff howned, b.not_mem_failedVisit howned hmiss,
      hsettled.stepsFor hslot answer 4⟩
    · rw [Bucket.failedVisit_of_free hfree]
      exact ⟨rfl, rfl, rfl⟩
    · exact Bucket.failedVisit_of_full howned.valid hfree hentries
    · obtain ⟨hfree, hentries⟩ := howned.forall_inFlight_iff.1 hall
      exact Bucket.failedVisit_of_exhausted howned.valid hfree hentries
  · obtain ⟨before, hfails, hlast⟩ := Errand.exists_failsAt hstopped hcause
    refine ⟨before, hsettled.stepsFor (Call.slot?_start ..) e.answer before, hfails, ?_⟩
    rw [hlast, Errand.stepsFor, Call.stepsFor_add]
    rfl
  · obtain ⟨-, hpages, ⟨-, hsame⟩ | ⟨-, -, entry, hentries⟩⟩ :=
      hvisits.spares (hkeeps.bucket shard).owned
    · exact ⟨hpages, [], Nat.zero_le 1, by rw [hsame, List.append_nil]⟩
    · exact ⟨hpages, [entry], Nat.le_refl 1, hentries⟩

/-- Buckets of one slot, and a page whose source fails. On a new cache the slot stays free. If a
page of another object has been read into the bucket before, that page is gone afterwards. -/
theorem failed_visit_costs_coldest_page_of_one_slot :
    ∃ (cache full : Cache) (c : Call) (answer : Nat → Bytes → Transfer),
      cache = .ofGeometry ⟨1, 64⟩ 7 ∧ c = .start ⟨4, 3⟩ 1 0 [0, 0] ∧
      (cache.Settled ∧ c.FailsAt answer cache (.io ⟨.other, none⟩) ∧
        ((c.stepsFor answer 4 cache).2.bucket (cache.shardOf c.key)).free = [0]) ∧
      full = ((Backing.errand (fun _ => .cut) 5 0 [0, 0]).run cache).2 ∧ full.Settled ∧
      (full.bucket (full.shardOf c.key)).free = [] ∧
      (full.bucket (full.shardOf c.key)).order = [⟨5, 0⟩] ∧
      c.FailsAt answer full (.io ⟨.other, none⟩) ∧
      ((c.stepsFor answer 4 full).2.bucket (full.shardOf c.key)).free = [0] ∧
      ((c.stepsFor answer 4 full).2.bucket (full.shardOf c.key)).order = [] := by
  obtain ⟨cache, hcache, hsame⟩ : ∃ cache, cache = Cache.ofGeometry ⟨1, 64⟩ 7 ∧
      cache.shardOf ⟨5, 0⟩ = cache.shardOf ⟨4, 0⟩ := ⟨_, rfl, by decide +kernel⟩
  have hkeeps : cache.Keeps (Contract.fixed (fun _ => .cut) cache.geometry.pageSize).good
      fun _ => [] := hcache ▸ Cache.keeps_ofGeometry ⟨1, 64⟩ 7
  have hempty : cache.order = fun _ => [] := hcache ▸ Cache.order_ofGeometry ⟨1, 64⟩ 7
  have hpages : cache.geometry.pagesPerBucket = 1 := by rw [hcache]; rfl
  obtain ⟨c, hc, hkey, hphase, hoffset⟩ : ∃ c, c = Call.start ⟨4, 3⟩ 1 0 [0, 0] ∧
      c.key = ⟨4, 0⟩ ∧ c.phase = .lookup ∧ c.offset < c.stop := ⟨_, rfl, rfl, rfl, by decide⟩
  -- Wherever nobody holds a slot and the page is absent, it gets a slot and its source fails.
  have hfails (cache : Cache) (hidle : cache.Idle) (hpages : cache.geometry.pagesPerBucket = 1)
      (hnot : c.key ∉ cache.order (cache.shardOf c.key)) :
      c.FailsAt (fun _ _ => ⟨.failed ⟨.other, none⟩, []⟩) cache (.io ⟨.other, none⟩) := by
    have hmiss : (cache.read c.key c.intra c.want).1 = .miss :=
      (Bucket.read_eq_miss_iff _ _ (hidle.owned _)).2 hnot
    obtain ⟨slot, hslot⟩ := Option.ne_none_iff_exists'.1
      ((hidle.read c.key c.intra c.want).slot?_acquire_ne_none c.key (Nat.le_of_eq hpages.symm))
    refine (Call.failsAt_iff _ hphase hoffset).2 ⟨hmiss, .inr ⟨slot, hslot, ?_⟩⟩
    rw [Call.answered, Call.receive_eq rfl]
    rfl
  -- The read of the other object fetches one page.
  obtain ⟨hfates, hkept⟩ :=
    Backing.visits_errand (fun _ => .cut) hkeeps (Nat.le_of_eq hpages.symm) 5 0 [0, 0]
  have hpage : cache.geometry.pageSize = 2 := by rw [hcache]; rfl
  have hitinerary : Backing.itineraryOf (fun _ => .cut) 2
      (Backing.errand (fun _ => .cut) 5 0 [0, 0]) = [(⟨5, 0⟩, true)] := rfl
  rw [hpage, hitinerary] at hfates
  obtain ⟨v, visits, hvisits, hv, hnil⟩ := List.map_eq_cons_iff.1 hfates
  obtain rfl := List.map_eq_nil_iff.1 hnil
  obtain ⟨hread, hdelivered⟩ := Prod.mk.inj hv
  have hgoes := Errand.goesThrough_run hkeeps.idle (Nat.le_of_eq hpages.symm)
    fun v hv => (hkept v hv).2
  rw [hvisits] at hgoes
  generalize hfull : ((Backing.errand (fun _ => .cut) 5 0 [0, 0]).run cache).2 = full at hgoes
  have horder : full.order (full.shardOf c.key) = [⟨5, 0⟩] := by
    rw [hgoes.replays.of_singleton.2, hgoes.shardOf_eq, Visit.leaveAll, hread, hkey, if_pos hsame,
      Visit.leave_of_delivered hdelivered, hread, hempty, hpages]
    rfl
  have hother : c.key ≠ ⟨5, 0⟩ := by simp [hkey]
  have hmissed : c.FailsAt _ cache _ := hfails cache hkeeps.idle hpages (by simp [hempty])
  have hmissed' : c.FailsAt _ full _ := hfails full hgoes.idle
    (by rw [hgoes.geometry_eq, hpages]) (by simp [horder, hother])
  obtain ⟨hspared, -⟩ := failed_visit_costs_coldest_page (show cache.Settled from ⟨_, hkeeps.idle⟩)
  obtain ⟨hrobbed, -⟩ := failed_visit_costs_coldest_page (show full.Settled from ⟨_, hgoes.idle⟩)
  obtain ⟨-, hspared, -⟩ := hspared _ c _ hmissed
  obtain ⟨-, -, hrobbed, -⟩ := hrobbed _ c _ hmissed'
  have hnew : (cache.bucket (cache.shardOf c.key)).free = [0] := by
    rw [hcache, Cache.bucket_ofGeometry]
    rfl
  rw [hnew] at hspared
  -- With one page resident the only slot of the bucket is taken.
  have howned := hgoes.idle.owned (full.shardOf c.key)
  have hshape := (hgoes.idle.shape (full.shardOf c.key)).1
  rw [hgoes.geometry_eq, hpages] at hshape
  have hfree : (full.bucket (full.shardOf c.key)).free = [] := by
    have hlength := howned.length_order
    rw [hshape, show (full.bucket (full.shardOf c.key)).order = _ from horder] at hlength
    exact List.eq_nil_of_length_eq_zero (Nat.succ.inj hlength)
  obtain ⟨⟨victim, slot⟩, hentries, -⟩ := List.map_eq_singleton_iff.1 horder
  obtain rfl : slot = 0 := by
    have hbound : (victim, slot) ∈ (full.bucket (full.shardOf c.key)).index.entries := by
      rw [hentries]
      exact List.mem_cons_self
    have hlt := (howned.of_mem_residents hbound).1
    rw [hshape] at hlt
    exact Nat.lt_one_iff.1 hlt
  obtain ⟨hrest, hslot, -⟩ := hrobbed hfree [] victim 0 hentries
  refine ⟨cache, full, c, _, hcache, hc, ⟨⟨_, hkeeps.idle⟩, hmissed, ?_⟩, hfull.symm,
    ⟨_, hgoes.idle⟩, hfree, horder, hmissed', hslot, ?_⟩
  · exact (hspared (List.cons_ne_nil 0 [])).1
  · rw [Bucket.order, hrest]
    rfl

end ReadThrough
