import ReadThrough.Proofs.CallInvariant

/-!
# Calls that run alone

Every step takes a call closer to its end: `Call.rank` counts the steps that are left at most, and
falls with each. So the bound that `Call.run` sets is never reached before the call has finished,
and a call whose source answers by itself, with nobody else on the cache, comes to an end that keeps
to its contract (`Contract.Hosts.run`).
-/

namespace ReadThrough

namespace Call

/-- The number of steps that are left at most: four for each byte to deliver, less those that were
taken at the page at hand. -/
def rank (c : Call) : Nat :=
  match c.phase with
  | .lookup => 4 * (c.stop - c.offset)
  | .acquire => 4 * (c.stop - c.offset) - 1
  | .fetch _ => 4 * (c.stop - c.offset) - 2
  | .publish .. => 4 * (c.stop - c.offset) - 3
  | .release .. => 4 * (c.stop - c.offset) - 3
  | .finished _ => 0

variable {c : Call}

theorem rank_visit_le (c : Call) : c.visit.rank ≤ 4 * (c.stop - c.offset) := by
  unfold visit
  split
  · exact Nat.zero_le _
  · split
    · exact Nat.zero_le _
    · exact Nat.le_refl _

/-- Delivering what is wanted of a page takes care of at least one byte. -/
theorem rank_deliver_le (h : c.offset < c.stop) (bytes : Bytes) :
    (c.deliver bytes).rank ≤ 4 * (c.stop - c.offset) - 4 := by
  have hwant := want_pos h
  have hle : (c.deliver bytes).rank ≤ 4 * (c.stop - (c.offset + c.want)) := rank_visit_le _
  omega

theorem rank_touch_lt (hoffset : c.offset < c.stop) (hactive : c.active = true)
    (hfetch : ∀ slot, c.phase ≠ .fetch slot) (cache : Cache) :
    (c.touch cache).1.1.rank < c.rank := by
  have hdeliver := rank_deliver_le hoffset
  cases hphase : c.phase with
  | lookup =>
    have hrank : c.rank = 4 * (c.stop - c.offset) := by rw [rank, hphase]
    rw [hrank]
    cases hfound : (cache.read c.key c.intra c.want).1 with
    | hit bytes =>
      rw [touch_of_hit hphase hfound]
      have hle := hdeliver bytes
      dsimp only
      omega
    | miss =>
      rw [touch_of_miss hphase hfound]
      show 4 * (c.stop - c.offset) - 1 < 4 * (c.stop - c.offset)
      omega
    | pastPage =>
      rw [touch_of_pastPage hphase hfound]
      show 0 < 4 * (c.stop - c.offset)
      omega
  | acquire =>
    have hrank : c.rank = 4 * (c.stop - c.offset) - 1 := by rw [rank, hphase]
    rw [hrank]
    cases hslot : (cache.acquire c.key).1.slot? with
    | some slot =>
      rw [(touch_of_grant hphase hslot).1]
      show 4 * (c.stop - c.offset) - 2 < 4 * (c.stop - c.offset) - 1
      omega
    | none =>
      rw [(touch_of_exhausted hphase hslot).1]
      show 0 < 4 * (c.stop - c.offset) - 1
      omega
  | fetch slot => exact absurd hphase (hfetch slot)
  | publish slot n =>
    have hrank : c.rank = 4 * (c.stop - c.offset) - 3 := by rw [rank, hphase]
    have hle := hdeliver ((c.frame.drop c.intra).take c.want)
    rw [hrank, (touch_of_publish cache hphase).1]
    omega
  | release slot cause =>
    have hrank : c.rank = 4 * (c.stop - c.offset) - 3 := by rw [rank, hphase]
    rw [hrank, (touch_of_release cache hphase).1]
    show 0 < 4 * (c.stop - c.offset) - 3
    omega
  | finished outcome =>
    rw [active, hphase] at hactive
    exact absurd hactive (by simp)

theorem rank_receive_lt (hoffset : c.offset < c.stop) {slot : Slot} (hphase : c.phase = .fetch slot)
    (t : Transfer) : (c.receive t).1.rank < c.rank := by
  have hrank : c.rank = 4 * (c.stop - c.offset) - 2 := by rw [rank, hphase]
  obtain ⟨ahead, scratch, heq⟩ := exists_receive_eq hphase t
  rw [heq, hrank]
  obtain hnext | ⟨cause, hnext⟩ | ⟨n, hnext⟩ := c.afterReply_cases slot t.reply <;>
    rw [rank, hnext] <;> dsimp only <;> omega

/-- A call with a page to visit that has no steps left has finished. -/
theorem active_eq_false_of_rank_eq_zero (hoffset : c.active = true → c.offset < c.stop)
    (h : c.rank = 0) : c.active = false := by
  cases hactive : c.active with
  | false => rfl
  | true =>
    have hlt := hoffset hactive
    unfold rank at h
    unfold active at hactive
    split at h
    all_goals first
      | omega
      | rename_i hphase
        rw [hphase] at hactive
        exact absurd hactive (by simp)

/-- The bound on the steps of a call that starts is large enough. -/
theorem rank_start_le (view : View) (pageShift : Nat) (offset : Int) (buffer : Bytes) :
    (start view pageShift offset buffer).rank ≤ (start view pageShift offset buffer).stepBound := by
  unfold start
  dsimp only
  split
  · exact Nat.zero_le _
  · unfold visit
    split
    · exact Nat.zero_le _
    · split
      · exact Nat.zero_le _
      · exact Nat.le_refl _

/-! ## Steps of a run -/

/-- A cache that nobody else uses; notices are not kept. -/
def Host.alone : Host (StateM Cache) where
  onCache act := act
  notify _ := pure ()

theorem tell_alone (notice : Option Notice) : Host.alone.tell notice = pure () := by
  cases notice with
  | none => rfl
  | some notice => rfl

/-- A call that does not wait for its source steps on the cache. -/
theorem runFor_touch (source : Source (StateM Cache)) (limit : Nat) (cache : Cache)
    (hactive : c.active = true) (hfetch : ∀ slot, c.phase ≠ .fetch slot) :
    c.runFor .alone source (limit + 1) cache
      = (c.touch cache).1.1.runFor .alone source limit (c.touch cache).2 := by
  rw [runFor]
  cases hphase : c.phase with
  | finished outcome =>
    rw [active, hphase] at hactive
    exact absurd hactive (by simp)
  | fetch slot => exact absurd hphase (hfetch slot)
  | lookup => simp only [tell_alone]; rfl
  | acquire => simp only [tell_alone]; rfl
  | publish slot n => simp only [tell_alone]; rfl
  | release slot cause => simp only [tell_alone]; rfl

/-- A call that waits for its source takes the answer, here of a source that leaves the cache
alone. -/
theorem runFor_receive (answer : Nat → Bytes → Transfer) (limit : Nat) (cache : Cache) {slot : Slot}
    (hphase : c.phase = .fetch slot) :
    c.runFor .alone (fun offset buffer => pure (answer offset buffer)) (limit + 1) cache
      = (c.receive (answer c.pageStart c.frame)).1.runFor .alone
          (fun offset buffer => pure (answer offset buffer)) limit cache := by
  rw [runFor]
  simp only [hphase, tell_alone]
  rfl

end Call

/-! ## Runs -/

namespace Contract

variable {K : Contract} {r : Request} {c : Call} {cache : Cache}

/-- A call that runs alone long enough has finished, and it and the cache have kept to the
contract. -/
theorem Hosts.runFor (answer : Nat → Bytes → Transfer)
    (haccepts : ∀ c slot, K.Follows r c → c.phase = .fetch slot →
      K.Accepts c (answer c.pageStart c.frame))
    {limit : Nat} (hrank : c.rank ≤ limit) (h : K.Hosts r (fun _ => []) c cache)
    (hpages : 1 ≤ cache.geometry.pagesPerBucket) :
    let ended := c.runFor .alone (fun offset buffer => pure (answer offset buffer)) limit cache
    K.Hosts r (fun _ => []) ended.1 ended.2 ∧ ended.1.active = false ∧
      ended.2.geometry = cache.geometry := by
  induction limit generalizing c cache with
  | zero =>
    have hinactive := Call.active_eq_false_of_rank_eq_zero h.follows.offset_lt (by omega)
    exact ⟨h, hinactive, rfl⟩
  | succ limit ih =>
    cases hactive : c.active with
    | false =>
      obtain ⟨outcome, hphase⟩ := Call.exists_phase_of_active_eq_false hactive
      rw [Call.runFor_finished _ _ hphase]
      exact ⟨h, hactive, rfl⟩
    | true =>
      have hoffset := h.follows.offset_lt hactive
      by_cases hfetch : ∃ slot, c.phase = .fetch slot
      · obtain ⟨slot, hphase⟩ := hfetch
        rw [Call.runFor_receive answer limit cache hphase]
        have hlt := Call.rank_receive_lt hoffset hphase (answer c.pageStart c.frame)
        exact ih (by omega) (h.receive fun slot => haccepts c slot h.follows) hpages
      · have hfetch := not_exists.1 hfetch
        rw [Call.runFor_touch _ limit cache hactive hfetch]
        have hlt := Call.rank_touch_lt hoffset hactive hfetch cache
        have hgeometry := (geometry_touch c cache).1
        have htouched : K.Hosts r (fun _ => []) (c.touch cache).1.1 (c.touch cache).2 := by
          apply h.touch
          -- Nobody else holds a slot, so there is one to be had.
          intro hphase hnone
          have hkeeps := (keeps_iff_of_slot?_eq_none (by rw [Call.slot?, hphase])).1 h.keeps
          exact absurd hnone (hkeeps.slot?_acquire_ne_none c.key hpages)
        obtain ⟨hhosts, hended, hsame⟩ := ih (by omega) htouched (by rw [hgeometry]; exact hpages)
        exact ⟨hhosts, hended, hsame.trans hgeometry⟩

/-- A read that runs alone has finished, and it and the cache have kept to the contract. -/
theorem Follows.run (answer : Nat → Bytes → Transfer)
    (haccepts : ∀ c slot, K.Follows r c → c.phase = .fetch slot →
      K.Accepts c (answer c.pageStart c.frame))
    (hcache : cache.Keeps K.good fun _ => [])
    (hsize : 1 <<< cache.geometry.pageShift = K.pageSize)
    (hpages : 1 ≤ cache.geometry.pagesPerBucket) :
    let started := Call.start r.view cache.geometry.pageShift r.offset r.buffer
    let ended := started.run .alone (fun offset buffer => pure (answer offset buffer)) cache
    K.Follows r ended.1 ∧ ended.1.active = false ∧
      ended.2.Keeps K.good (fun _ => []) ∧ ended.2.geometry = cache.geometry := by
  have hstart : K.Hosts r (fun _ => []) (.start r.view cache.geometry.pageShift r.offset r.buffer)
      cache :=
    ⟨.start r hsize, (keeps_iff_of_slot?_eq_none (Call.slot?_start ..)).2 hcache, hsize⟩
  obtain ⟨hhosts, hended, hgeometry⟩ :=
    hstart.runFor answer haccepts (Call.rank_start_le ..) hpages
  have hslot := Call.slot?_of_active_eq_false hended
  exact ⟨hhosts.follows, hended, (keeps_iff_of_slot?_eq_none hslot).1 hhosts.keeps, hgeometry⟩

end Contract

end ReadThrough
