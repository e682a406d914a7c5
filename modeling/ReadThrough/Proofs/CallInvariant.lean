import ReadThrough.Proofs.CallShape
import ReadThrough.Proofs.PageContents
import ReadThrough.Proofs.Walk

/-!
# Calls that keep to a contract

`Contract.Follows` is the invariant of a call under way: whatever a walk from its position delivers
is, after what the call has delivered so far, what the whole request may be served with.
`Contract.Hosts` adds the cache that the call runs on, with the slots that others hold there. Each
step keeps it (`Hosts.touch`, `Hosts.receive`), and a call that has finished has served its request
(`Follows.exists_cause`).
-/

namespace ReadThrough

/-- The slots of a call by bucket. -/
def Cache.slotsOf (cache : Cache) (c : Call) : Fin Geometry.bucketCount → List Slot :=
  slotsAt (cache.shardOf c.key) c.slot?.toList

/-- A call misses a page that no bytes are good for, and there is a slot for the page unless all
slots of its bucket are held. -/
theorem Cache.Keeps.misses {good : PageKey → Bytes → Prop} {cache : Cache}
    {held : Fin Geometry.bucketCount → List Slot} (h : cache.Keeps good held) {c : Call}
    (habsent : ∀ page, ¬good c.key page)
    (hheld : (held (cache.shardOf c.key)).length < cache.geometry.pagesPerBucket)
    (hsize : c.pageSize = 1 <<< cache.geometry.pageShift) :
    (cache.read c.key c.intra c.want).1 = .miss ∧
      ∃ slot, ((cache.read c.key c.intra c.want).2.acquire c.key).1.slot? = some slot := by
  constructor
  · obtain hmiss | ⟨hpast, -⟩ | ⟨page, hgood, -⟩ := h.read_cases c.key c.intra c.want
    · exact hmiss
    · have hintra := c.intra_lt
      omega
    · exact absurd hgood (habsent page)
  · exact Option.ne_none_iff_exists'.1
      ((h.read c.key c.intra c.want).slot?_acquire_ne_none c.key hheld)

namespace Contract

variable (K : Contract)

/-! ## The invariant -/

/-- A call that has a page to visit, and from there on delivers the rest of its request. -/
def Pending (r : Request) (c : Call) : Prop :=
  c.offset < c.stop ∧ c.page < Call.pageLimit ∧
    ∀ rest cause, K.Walk c.view c.stop c.offset rest cause →
      K.Serves r (c.destination.behind.reverse ++ rest) cause

/-- What a call has done and will do, by its phase. -/
def Progress (r : Request) (c : Call) : Prop :=
  match c.phase with
  | .lookup => K.Pending r c
  | .acquire => K.Pending r c
  | .fetch _ => K.Pending r c
  | .publish _ n => K.Pending r c ∧ n ≤ c.pageSize ∧ c.intra + c.want ≤ n ∧
    K.good c.key (c.frame.take n)
  | .release _ cause => K.Pending r c ∧ K.stops c.view c.offset cause
  | .finished (.done n) => n = c.destination.copied ∧ K.Serves r c.destination.behind.reverse none
  | .finished (.stopped e) => e.copied = c.destination.copied ∧
    K.Serves r c.destination.behind.reverse (some e.cause)
  | .finished .abandoned => False

/-- A call that was started for a request and keeps to the contract. -/
structure Follows (r : Request) (c : Call) : Prop where
  sound : c.Sound
  view_eq : c.view = r.view
  pageSize_eq : c.pageSize = K.pageSize
  length_eq : c.destination.contents.length = r.buffer.length
  progress : K.Progress r c

/-- What the source of a call may answer. -/
def Accepts (c : Call) (t : Transfer) : Prop :=
  match t.reply with
  | .failed error => K.stops c.view c.offset (.io error)
  | .abandoned => False
  | .count n => n ≤ c.pageSize ∧
    if n < c.pageSize ∧ c.pageStart + n < c.view.size then
      K.stops c.view c.offset (.noProgress c.pageStart c.pageSize n)
    else K.good c.key ((c.frame.overlay t.written).take n)

variable {K} {r : Request} {c : Call} {cache : Cache}

/-- A call under way has a page to visit. -/
theorem Follows.pending (h : K.Follows r c) (hactive : c.active = true) : K.Pending r c := by
  have hprogress := h.progress
  unfold Progress at hprogress
  unfold Call.active at hactive
  split at hprogress
  · exact hprogress
  · exact hprogress
  · exact hprogress
  · exact hprogress.1
  · exact hprogress.1
  all_goals
    rename_i hphase
    rw [hphase] at hactive
    exact absurd hactive (by simp)

theorem Follows.offset_lt (h : K.Follows r c) (hactive : c.active = true) : c.offset < c.stop :=
  (h.pending hactive).1

/-- The phase may change to one that the call has made as much progress for. -/
theorem Follows.setPhase (h : K.Follows r c) {phase : Phase}
    (hprogress : K.Progress r { c with phase }) : K.Follows r { c with phase } :=
  ⟨h.sound.setPhase phase, h.view_eq, h.pageSize_eq, h.length_eq, hprogress⟩

/-! ## Moving on -/

theorem Follows.visit (hsound : c.Sound) (hview : c.view = r.view) (hsize : c.pageSize = K.pageSize)
    (hlength : c.destination.contents.length = r.buffer.length)
    (hrest : ∀ rest cause, K.Walk c.view c.stop c.offset rest cause →
      K.Serves r (c.destination.behind.reverse ++ rest) cause) : K.Follows r c.visit := by
  unfold Call.visit
  split
  · rename_i hstop
    have hserves := hrest [] none (.done hstop)
    rw [List.append_nil] at hserves
    exact ⟨hsound.setPhase _, hview, hsize, hlength, rfl, hserves⟩
  · rename_i hstop
    split
    · rename_i hpage
      have hunnamed : Call.pageLimit ≤ c.offset / K.pageSize := by
        rw [← hsize, ← c.page_eq]
        exact hpage
      have hstops := K.stops_unnamed c.view _ hunnamed
      have hserves := hrest [] _ (.halt (Nat.lt_of_not_le hstop) hstops)
      rw [List.append_nil] at hserves
      exact ⟨hsound.setPhase _, hview, hsize, hlength, rfl, hserves⟩
    · rename_i hpage
      exact ⟨hsound.setPhase _, hview, hsize, hlength, Nat.lt_of_not_le hstop,
        Nat.lt_of_not_le hpage, hrest⟩

/-- Delivering the wanted bytes of a good page is one step of the walk. -/
theorem Follows.deliver (h : K.Follows r c) (hpending : K.Pending r c) {page : Bytes}
    (hgood : K.good c.key page) : K.Follows r (c.deliver (Bytes.window page c.intra c.want)) := by
  obtain ⟨hoffset, hpage, hrest⟩ := hpending
  have hroom := h.sound.room
  have hle := Call.offset_add_want_le hoffset
  refine Follows.visit ⟨?_, h.sound.stop_le, h.sound.scratch⟩ h.view_eq h.pageSize_eq ?_ ?_
  · simp only [Destination.deliver, Bytes.length_window, List.length_drop]
    omega
  · rw [← h.length_eq]
    exact Destination.length_contents_deliver (by rw [Bytes.length_window]; omega)
  · intro rest cause hwalk
    -- In the terms of the contract this is the page case of the walk.
    have hwant : c.want = K.want c.offset c.stop := by
      rw [Call.want, Contract.want, c.intra_eq, h.pageSize_eq]
    have hintra : c.intra = c.offset % K.pageSize := by rw [c.intra_eq, h.pageSize_eq]
    have hnumber : c.page = c.offset / K.pageSize := by rw [c.page_eq, h.pageSize_eq]
    rw [Call.key, hnumber] at hgood
    rw [hnumber] at hpage
    have hstep := Walk.page hoffset hpage hgood (hwant ▸ hwalk)
    simp only [Destination.deliver, List.reverseAux_eq, List.reverse_append, List.reverse_reverse,
      List.append_assoc, hwant, hintra]
    exact hrest _ _ hstep

/-- A call that starts follows its request. -/
theorem Follows.start (r : Request) {pageShift : Nat} (hsize : 1 <<< pageShift = K.pageSize) :
    K.Follows r (.start r.view pageShift r.offset r.buffer) := by
  have hsound : Call.Sound {
      view := r.view
      pageShift
      offset := r.offset.toNat
      stop := min (r.offset.toNat + r.buffer.length) r.view.size
      destination := { ahead := r.buffer } } :=
    ⟨Nat.min_le_left .., Nat.min_le_right .., .inl rfl⟩
  unfold Call.start
  dsimp only
  split
  · rename_i hnegative
    refine ⟨hsound.setPhase _, rfl, hsize, rfl, rfl, ?_⟩
    rw [Serves, if_pos hnegative]
    exact ⟨rfl, rfl⟩
  · rename_i hnegative
    apply Follows.visit hsound rfl hsize rfl
    intro rest cause hwalk
    rw [Serves, if_neg hnegative]
    exact hwalk

/-- A call that stops with a page still to visit has delivered what a walk may deliver. -/
theorem Follows.stopFor (h : K.Follows r c) (hpending : K.Pending r c) {cause : StopCause}
    (hstops : K.stops c.view c.offset cause) : K.Follows r (c.stopFor cause) := by
  obtain ⟨hoffset, hpage, hrest⟩ := hpending
  have hserves := hrest [] (some cause) (.halt hoffset hstops)
  rw [List.append_nil] at hserves
  exact h.setPhase ⟨rfl, hserves⟩

/-! ## Calls on a cache -/

variable {others : Fin Geometry.bucketCount → List Slot}

/-- A call that holds no slot leaves all slots to the others. -/
theorem keeps_iff_of_slot?_eq_none {good : PageKey → Bytes → Prop} (h : c.slot? = none) :
    (cache.Keeps good fun shard => cache.slotsOf c shard ++ others shard) ↔
      cache.Keeps good others := by
  have hslots : (fun shard => cache.slotsOf c shard ++ others shard) = others := by
    funext shard
    rw [Cache.slotsOf, h, Option.toList_none, slotsAt_nil, List.nil_append]
  rw [hslots]

/-- A call that holds a slot holds it in the bucket of its page. -/
theorem slotsOf_of_slot?_eq_some {slot : Slot} (h : c.slot? = some slot) :
    cache.slotsOf c = slotsAt (cache.shardOf c.key) [slot] := by
  rw [Cache.slotsOf, h, Option.toList_some]

variable (K) in
/-- A call that keeps to the contract, on a cache that keeps good pages and in which others hold
some slots too. -/
structure Hosts (r : Request) (others : Fin Geometry.bucketCount → List Slot) (c : Call)
    (cache : Cache) : Prop where
  follows : K.Follows r c
  keeps : cache.Keeps K.good fun shard => cache.slotsOf c shard ++ others shard
  pageSize_eq : 1 <<< cache.geometry.pageShift = K.pageSize

/-- Stepping on the cache changes neither its geometry nor where it keeps pages. -/
theorem geometry_touch (c : Call) (cache : Cache) : (c.touch cache).2.geometry = cache.geometry ∧
    (c.touch cache).2.shardOf = cache.shardOf := by
  unfold Call.touch
  split
  · split <;> rename_i heq <;> rw [Prod.ext_iff] at heq <;> rw [← heq.2] <;> exact ⟨rfl, rfl⟩
  all_goals exact ⟨rfl, rfl⟩

theorem Hosts.lookup (h : K.Hosts r others c cache) (hphase : c.phase = .lookup) :
    K.Hosts r others (c.touch cache).1.1 (c.touch cache).2 := by
  obtain ⟨hfollows, hkeeps, hsize⟩ := h
  have hpending := hfollows.pending (by rw [Call.active, hphase])
  rw [keeps_iff_of_slot?_eq_none (by rw [Call.slot?, hphase])] at hkeeps
  have hkept := hkeeps.read c.key c.intra c.want
  have hpage : 1 <<< cache.geometry.pageShift = c.pageSize := hsize.trans hfollows.pageSize_eq.symm
  obtain hmiss | ⟨hpast, -⟩ | ⟨page, hgood, hhit⟩ := hkeeps.read_cases c.key c.intra c.want
  · rw [Call.touch_of_miss hphase hmiss]
    exact ⟨hfollows.setPhase hpending, (keeps_iff_of_slot?_eq_none rfl).2 hkept, hsize⟩
  · -- The next byte of a call lies within the page at hand, so no read starts past its end.
    have hintra := c.intra_lt
    omega
  · have hle := c.intra_add_want_le
    rw [hpage, Nat.min_eq_left (by omega)] at hhit
    rw [Call.touch_of_hit hphase hhit]
    exact ⟨hfollows.deliver hpending hgood,
      (keeps_iff_of_slot?_eq_none (Call.slot?_deliver _ _)).2 hkept, hsize⟩

/-- Only a call that finds all slots of the bucket held has to have leave to stop for it. -/
theorem Hosts.acquire (h : K.Hosts r others c cache) (hphase : c.phase = .acquire)
    (hexhausted : (cache.acquire c.key).1.slot? = none → K.stops c.view c.offset .noFreePages) :
    K.Hosts r others (c.touch cache).1.1 (c.touch cache).2 := by
  obtain ⟨hfollows, hkeeps, hsize⟩ := h
  have hpending := hfollows.pending (by rw [Call.active, hphase])
  rw [keeps_iff_of_slot?_eq_none (by rw [Call.slot?, hphase])] at hkeeps
  have hkept := hkeeps.acquire c.key
  cases hslot : (cache.acquire c.key).1.slot? with
  | none =>
    simp only [hslot, Option.toList_none, slotsAt_nil, List.nil_append] at hkept
    obtain ⟨hcall, hcache⟩ := Call.touch_of_exhausted hphase hslot
    rw [hcall, hcache]
    exact ⟨hfollows.stopFor hpending (hexhausted hslot), (keeps_iff_of_slot?_eq_none rfl).2 hkept,
      hsize⟩
  | some slot =>
    rw [hslot] at hkept
    obtain ⟨hcall, hcache⟩ := Call.touch_of_grant hphase hslot
    rw [hcall, hcache]
    exact ⟨hfollows.setPhase hpending, hkept, hsize⟩

theorem Hosts.publish (h : K.Hosts r others c cache) {slot : Slot} {n : Nat}
    (hphase : c.phase = .publish slot n) :
    K.Hosts r others (c.touch cache).1.1 (c.touch cache).2 := by
  obtain ⟨hfollows, hkeeps, hsize⟩ := h
  have hprogress := hfollows.progress
  rw [Progress, hphase] at hprogress
  obtain ⟨hpending, hle, hwanted, hgood⟩ := hprogress
  rw [slotsOf_of_slot?_eq_some (by rw [Call.slot?, hphase])] at hkeeps
  have hlength := hfollows.sound.length_frame
  have hcut : (c.frame.take n).take (1 <<< cache.geometry.pageShift) = c.frame.take n := by
    rw [hsize, ← hfollows.pageSize_eq]
    exact List.take_of_length_le (by rw [List.length_take]; omega)
  have hkept := hkeeps.install (by rw [hcut]; exact hgood)
  have hdelivered := hfollows.deliver hpending hgood
  rw [Bytes.window_take (by omega) hwanted] at hdelivered
  obtain ⟨hcall, hcache⟩ := Call.touch_of_publish cache hphase
  rw [hcall, hcache]
  exact ⟨hdelivered, (keeps_iff_of_slot?_eq_none (Call.slot?_deliver _ _)).2 hkept, hsize⟩

theorem Hosts.release (h : K.Hosts r others c cache) {slot : Slot} {cause : StopCause}
    (hphase : c.phase = .release slot cause) :
    K.Hosts r others (c.touch cache).1.1 (c.touch cache).2 := by
  obtain ⟨hfollows, hkeeps, hsize⟩ := h
  have hprogress := hfollows.progress
  rw [Progress, hphase] at hprogress
  obtain ⟨hpending, hstops⟩ := hprogress
  rw [slotsOf_of_slot?_eq_some (by rw [Call.slot?, hphase])] at hkeeps
  obtain ⟨hcall, hcache⟩ := Call.touch_of_release cache hphase
  rw [hcall, hcache]
  exact ⟨hfollows.stopFor hpending hstops, (keeps_iff_of_slot?_eq_none rfl).2 hkeeps.release, hsize⟩

/-- Whatever a call does on the cache, both keep to the contract. -/
theorem Hosts.touch (h : K.Hosts r others c cache)
    (hexhausted : c.phase = .acquire → (cache.acquire c.key).1.slot? = none →
      K.stops c.view c.offset .noFreePages) :
    K.Hosts r others (c.touch cache).1.1 (c.touch cache).2 := by
  cases hphase : c.phase with
  | lookup => exact h.lookup hphase
  | acquire => exact h.acquire hphase (hexhausted hphase)
  | publish slot n => exact h.publish hphase
  | release slot cause => exact h.release hphase
  | fetch slot =>
    unfold Call.touch
    rwa [hphase]
  | finished outcome =>
    unfold Call.touch
    rwa [hphase]

/-! ## Answers of the source -/

theorem Follows.setFrame (h : K.Follows r c) (hpending : K.Pending r c) {slot : Slot}
    (hphase : c.phase = .fetch slot) {bytes : Bytes} (hlength : bytes.length = c.pageSize) :
    K.Follows r (c.setFrame bytes) := by
  have hsound := h.sound.setFrame hlength
  have hcontents := Call.length_contents_setFrame h.sound hlength
  obtain ⟨ahead, scratch, heq⟩ := c.setFrame_eq bytes
  rw [heq] at hsound hcontents ⊢
  refine ⟨hsound, h.view_eq, h.pageSize_eq, hcontents.trans h.length_eq, ?_⟩
  rw [Progress, hphase]
  exact hpending

/-- Whatever an accepted answer of the source makes of a call, it keeps to the contract. -/
theorem Hosts.receive (h : K.Hosts r others c cache) {t : Transfer}
    (haccepts : ∀ slot, c.phase = .fetch slot → K.Accepts c t) :
    K.Hosts r others (c.receive t).1 cache := by
  obtain ⟨hfollows, hkeeps, hsize⟩ := h
  by_cases hfetch : ∃ slot, c.phase = .fetch slot
  · obtain ⟨slot, hphase⟩ := hfetch
    have haccepts := haccepts slot hphase
    have hpending := hfollows.pending (by rw [Call.active, hphase])
    have hlength : (c.frame.overlay t.written).length = c.pageSize := by
      rw [Bytes.length_overlay, hfollows.sound.length_frame]
    have hfilled := hfollows.setFrame hpending hphase hlength
    have hframe := Call.frame_setFrame hlength
    rw [Call.receive_eq hphase]
    obtain ⟨ahead, scratch, heq⟩ := c.setFrame_eq (c.frame.overlay t.written)
    rw [heq] at hfilled hframe ⊢
    rw [slotsOf_of_slot?_eq_some (by rw [Call.slot?, hphase])] at hkeeps
    unfold Accepts at haccepts
    unfold Call.afterReply
    cases hreply : t.reply with
    | failed error =>
      rw [hreply] at haccepts
      exact ⟨hfilled.setPhase ⟨hpending, haccepts⟩, hkeeps, hsize⟩
    | abandoned =>
      rw [hreply] at haccepts
      exact haccepts.elim
    | count n =>
      rw [hreply] at haccepts
      obtain ⟨hle, haccepts⟩ := haccepts
      dsimp only
      rw [if_neg (Nat.not_lt.2 hle)]
      by_cases hshort : n < c.pageSize ∧ c.pageStart + n < c.view.size
      · rw [if_pos hshort] at haccepts ⊢
        exact ⟨hfilled.setPhase ⟨hpending, haccepts⟩, hkeeps, hsize⟩
      · rw [if_neg hshort] at haccepts ⊢
        refine ⟨hfilled.setPhase ⟨hpending, hle, ?_, ?_⟩, hkeeps, hsize⟩
        · exact hfollows.sound.intra_add_want_le_of_not_short hpending.1 hshort
        · show K.good c.key (({ c with destination := ⟨c.destination.behind, ahead⟩, scratch } :
            Call).frame.take n)
          rw [hframe]
          exact haccepts
  · rw [c.receive_of_not_fetch (not_exists.1 hfetch)]
    exact ⟨hfollows, hkeeps, hsize⟩

/-! ## Finished calls -/

theorem phase_of_outcome {outcome : Outcome} (h : c.outcome = outcome)
    (hne : outcome ≠ .abandoned) : c.phase = .finished outcome := by
  unfold Call.outcome at h
  split at h
  · rename_i hphase
    rw [hphase, h]
  · exact absurd h.symm hne

/-- A call that is done has been served to the end of its range. -/
theorem Follows.of_outcome_done (h : K.Follows r c) {n : Nat} (houtcome : c.outcome = .done n) :
    n = c.destination.copied ∧ K.Serves r c.destination.behind.reverse none := by
  have hprogress := h.progress
  rwa [Progress, phase_of_outcome houtcome (by simp)] at hprogress

/-- A call that has stopped has been served up to its cause to stop. -/
theorem Follows.of_outcome_stopped (h : K.Follows r c) {e : ReadError}
    (houtcome : c.outcome = .stopped e) :
    e.copied = c.destination.copied ∧ K.Serves r c.destination.behind.reverse (some e.cause) := by
  have hprogress := h.progress
  rwa [Progress, phase_of_outcome houtcome (by simp)] at hprogress

/-- No call that keeps to the contract is abandoned. -/
theorem Follows.phase_ne_abandoned (h : K.Follows r c) : c.phase ≠ .finished .abandoned := by
  intro hphase
  have hprogress := h.progress
  rwa [Progress, hphase] at hprogress

/-- A call that has finished has been served what it delivered. -/
theorem Follows.exists_cause (h : K.Follows r c) (hended : c.active = false) :
    ∃ cause, K.Serves r c.destination.behind.reverse cause ∧
      c.outcome = .ofDelivery c.destination.copied cause := by
  obtain ⟨outcome, hphase⟩ := Call.exists_phase_of_active_eq_false hended
  have houtcome : c.outcome = outcome := by rw [Call.outcome, hphase]
  cases outcome with
  | done n =>
    obtain ⟨rfl, hserves⟩ := h.of_outcome_done houtcome
    exact ⟨none, hserves, houtcome⟩
  | stopped e =>
    obtain ⟨hcopied, hserves⟩ := h.of_outcome_stopped houtcome
    exact ⟨some e.cause, hserves, by rw [houtcome, Outcome.ofDelivery, ← hcopied]⟩
  | abandoned => exact absurd hphase h.phase_ne_abandoned

end Contract

end ReadThrough
