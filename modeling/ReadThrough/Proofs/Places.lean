import ReadThrough.Proofs.CallRun
import ReadThrough.Reader

/-!
# Calls on a part of a state

A `Place` is where a state keeps a cache, and `Place.host` lets calls run on the cache at a place
while their source acts on the whole state, be it that it takes notes or that it reads through
caches itself. A call takes its steps one by one (`Call.runFor_touch_at`, `Call.runFor_receive_at`),
so what each step keeps, a run keeps, and a call that may take as many steps as it has left has
finished after them (`Call.runFor_keeps`).
-/

namespace ReadThrough

/-- Where a state keeps a cache. -/
structure Place (σ : Type) where
  get : σ → Cache
  set : Cache → σ → σ
  get_set (cache : Cache) (s : σ) : get (set cache s) = cache
  set_get (s : σ) : set (get s) s = s
  set_set (cache cache' : Cache) (s : σ) : set cache (set cache' s) = set cache s

namespace Place

variable {σ : Type}

attribute [simp] get_set set_get set_set

/-- The cache at a place, which nobody else uses while a call runs; notices are not kept. -/
def host (p : Place σ) : Call.Host (StateM σ) where
  onCache act := fun s => ((act (p.get s)).1, p.set (act (p.get s)).2 s)
  notify _ := pure ()

theorem tell_host (p : Place σ) (notice : Option Notice) : p.host.tell notice = pure () := by
  cases notice with
  | none => rfl
  | some notice => rfl

/-- The reader of a view through the cache at a place. -/
def reader (p : Place σ) (view : View) (backing : Source (StateM σ)) : Reader (StateM σ) :=
  ⟨view, p.host, backing⟩

/-- A read is the run of a call. -/
theorem readAt_reader (p : Place σ) (view : View) (backing : Source (StateM σ)) (offset : Int)
    (buffer : Bytes) (s : σ) :
    let started := Call.start view (p.get s).geometry.pageShift offset buffer
    let ended := started.runFor p.host backing started.stepBound s
    (p.reader view backing).readAt offset buffer s
      = (⟨ended.1.outcome, ended.1.destination.contents⟩, ended.2) := by
  intro started ended
  have hread : (p.reader view backing).readAt offset buffer s
      = let ended := started.runFor p.host backing started.stepBound (p.set (p.get s) s)
        (⟨ended.1.outcome, ended.1.destination.contents⟩, ended.2) := rfl
  rw [hread, p.set_get]

/-- A read before the beginning changes nothing. -/
theorem readAt_reader_of_neg (p : Place σ) (view : View) (backing : Source (StateM σ))
    {offset : Int} (h : offset < 0) (buffer : Bytes) (s : σ) :
    ((p.reader view backing).readAt offset buffer s).2 = s := by
  have hphase : (Call.start view (p.get s).geometry.pageShift offset buffer).phase
      = .finished (.stopped ⟨0, .offsetOutOfRange offset view.size⟩) := by
    unfold Call.start
    dsimp only
    rw [if_pos h]
    rfl
  rw [readAt_reader, Call.runFor_finished _ _ hphase]
  rfl

end Place

namespace Call

variable {σ : Type} {c : Call}

/-- A call that does not wait for its source steps on its cache. -/
theorem runFor_touch_at (p : Place σ) (source : Source (StateM σ)) (limit : Nat) (s : σ)
    (hactive : c.active = true) (hfetch : ∀ slot, c.phase ≠ .fetch slot) :
    c.runFor p.host source (limit + 1) s
      = (c.touch (p.get s)).1.1.runFor p.host source limit (p.set (c.touch (p.get s)).2 s) := by
  rw [runFor]
  cases hphase : c.phase with
  | finished outcome =>
    rw [active, hphase] at hactive
    exact absurd hactive (by simp)
  | fetch slot => exact absurd hphase (hfetch slot)
  | lookup => simp only [p.tell_host]; rfl
  | acquire => simp only [p.tell_host]; rfl
  | publish slot n => simp only [p.tell_host]; rfl
  | release slot cause => simp only [p.tell_host]; rfl

/-- A call that waits for its source takes the answer, in the state that the source has made. -/
theorem runFor_receive_at (p : Place σ) (source : Source (StateM σ)) (limit : Nat) (s : σ)
    {slot : Slot} (hphase : c.phase = .fetch slot) :
    c.runFor p.host source (limit + 1) s
      = (c.receive (source c.pageStart c.frame s).1).1.runFor p.host source limit
          (source c.pageStart c.frame s).2 := by
  rw [runFor]
  simp only [hphase, p.tell_host]
  rfl

/-- A call that misses its page and gets a slot for it waits for its source. -/
theorem runFor_of_missed (p : Place σ) (source : Source (StateM σ)) {s : σ}
    (hphase : c.phase = .lookup) (hmiss : ((p.get s).read c.key c.intra c.want).1 = .miss)
    {slot : Slot}
    (hslot : (((p.get s).read c.key c.intra c.want).2.acquire c.key).1.slot? = some slot)
    (limit : Nat) :
    c.runFor p.host source (limit + 2) s
      = ({ c with phase := .fetch slot } : Call).runFor p.host source limit
          (p.set (((p.get s).read c.key c.intra c.want).2.acquire c.key).2 s) := by
  have hlooked := runFor_touch_at p source (limit + 1) s (by rw [active, hphase])
    (by simp [hphase])
  rw [touch_of_miss hphase hmiss] at hlooked
  obtain ⟨hcall, hcache⟩ := touch_of_grant (c := { c with phase := .acquire }) rfl hslot
  rw [hlooked, runFor_touch_at p source limit _ rfl (by simp), p.get_set, hcall, hcache, p.set_set]
  rfl

section Answered

variable {received : Call} (p : Place σ) (source : Source (StateM σ)) {s s' : σ}
  (hphase : c.phase = .lookup) (hmiss : ((p.get s).read c.key c.intra c.want).1 = .miss)
  {slot : Slot}
  (hslot : (((p.get s).read c.key c.intra c.want).2.acquire c.key).1.slot? = some slot)
  {answer : Transfer}
  (hsource : source c.pageStart c.frame
    (p.set (((p.get s).read c.key c.intra c.want).2.acquire c.key).2 s) = (answer, s'))
  (hreceived : (({ c with phase := .fetch slot } : Call).receive answer).1 = received)

include hphase hmiss hslot hsource hreceived

/-- It takes the answer in the state that the source has made. -/
theorem runFor_of_answered (limit : Nat) :
    c.runFor p.host source (limit + 3) s = received.runFor p.host source limit s' := by
  have hasked := runFor_receive_at (c := { c with phase := .fetch slot }) p source limit
    (p.set (((p.get s).read c.key c.intra c.want).2.acquire c.key).2 s) rfl
  have hanswered : source ({ c with phase := .fetch slot } : Call).pageStart
      ({ c with phase := .fetch slot } : Call).frame _ = _ := hsource
  rw [hanswered, hreceived] at hasked
  rw [runFor_of_missed p source hphase hmiss hslot (limit + 1), hasked]

/-- If the answer is good, the page is published and the call goes on behind it. -/
theorem runFor_of_fetched {n : Nat} (hpublish : received.phase = .publish slot n) (limit : Nat) :
    c.runFor p.host source (limit + 4) s
      = (received.deliver ((received.frame.drop received.intra).take received.want)).runFor p.host
          source limit (p.set ((p.get s').install c.key slot (received.frame.take n)).2 s') := by
  obtain ⟨hkey, -⟩ := receive_keeps (c := { c with phase := .fetch slot }) rfl answer
  rw [hreceived] at hkey
  obtain ⟨hcall, hcache⟩ := touch_of_publish (p.get s') hpublish
  rw [runFor_of_answered p source hphase hmiss hslot hsource hreceived,
    runFor_touch_at p source limit s' (by rw [active, hpublish]) (by simp [hpublish]), hcall,
    hcache, hkey]
  rfl

/-- If the answer stops the call, its slot is free again. -/
theorem runFor_of_failed {cause : StopCause} (hrelease : received.phase = .release slot cause)
    (limit : Nat) : c.runFor p.host source (limit + 4) s
      = (received.stopFor cause, p.set ((p.get s').release c.key slot) s') := by
  obtain ⟨hkey, -⟩ := receive_keeps (c := { c with phase := .fetch slot }) rfl answer
  rw [hreceived] at hkey
  obtain ⟨hcall, hcache⟩ := touch_of_release (p.get s') hrelease
  rw [runFor_of_answered p source hphase hmiss hslot hsource hreceived,
    runFor_touch_at p source limit s' (by rw [active, hrelease]) (by simp [hrelease]), hcall,
    hcache, hkey, runFor_finished _ _ rfl]
  rfl

end Answered

section Alone

variable (p : Place σ) (source : Source (StateM σ)) (c : Call) (s s' : σ)
  {good : PageKey → Bytes → Prop} (hkeeps : (p.get s).Keeps good fun _ => [])
  (habsent : ∀ page, ¬good c.key page)
  (hphase : c.phase = .lookup) (hsize : c.pageSize = 1 <<< (p.get s).geometry.pageShift)
  (hpages : 1 ≤ (p.get s).geometry.pagesPerBucket) (answer : Transfer)
  (hsource : ∀ cache, source c.pageStart c.frame (p.set cache s) = (answer, p.set cache s'))
  (received : Slot → Call)
  (hreceived : ∀ slot, (({ c with phase := .fetch slot } : Call).receive answer).1 = received slot)

include hkeeps habsent hphase hsize hpages hsource hreceived

/-- While nobody holds a slot there is one for a page that is not resident. If the answer is good,
the page is resident after the visit, and no other has become so. -/
theorem exists_runFor_of_fetched {n : Nat}
    (hpublish : ∀ slot, (received slot).phase = .publish slot n) (moved : Call)
    (hmoved : ∀ slot, (received slot).deliver
      (((received slot).frame.drop (received slot).intra).take (received slot).want) = moved) :
    ∃ cache, cache.geometry = (p.get s).geometry ∧
      cache.Keeps (fun key page => key = c.key ∨ good key page) (fun _ => []) ∧
      ∀ limit, c.runFor p.host source (limit + 4) s
        = moved.runFor p.host source limit (p.set cache s') := by
  obtain ⟨hmiss, slot, hslot⟩ := hkeeps.misses habsent hpages hsize
  have hacquired := (hkeeps.read c.key c.intra c.want).acquire c.key
  rw [hslot] at hacquired
  have hrun := runFor_of_fetched p source hphase hmiss hslot (hsource _) (hreceived slot)
    (hpublish slot)
  rw [p.get_set, p.set_set, hmoved] at hrun
  refine ⟨_, ?_, Cache.Keeps.install (hacquired.mono fun _ _ => Or.inr) (.inl rfl), hrun⟩
  rfl

/-- If the answer stops the call, no slot is held afterwards either. -/
theorem exists_runFor_of_failed {cause : StopCause}
    (hrelease : ∀ slot, (received slot).phase = .release slot cause) (last : Call)
    (hlast : ∀ slot, (received slot).stopFor cause = last) :
    ∃ cache, cache.geometry = (p.get s).geometry ∧ cache.Keeps good (fun _ => []) ∧
      ∀ limit, c.runFor p.host source (limit + 4) s = (last, p.set cache s') := by
  obtain ⟨hmiss, slot, hslot⟩ := hkeeps.misses habsent hpages hsize
  have hacquired := (hkeeps.read c.key c.intra c.want).acquire c.key
  rw [hslot] at hacquired
  have hrun := runFor_of_failed p source hphase hmiss hslot (hsource _) (hreceived slot)
    (hrelease slot)
  rw [p.get_set, p.set_set, hlast] at hrun
  refine ⟨_, ?_, Cache.Keeps.release hacquired, hrun⟩
  rfl

end Alone

/-- What every step keeps holds once the call has finished, which it has when it was given as many
steps as it may take. -/
theorem runFor_keeps (p : Place σ) (source : Source (StateM σ)) (keeps : Call → σ → Prop)
    (hoffset : ∀ c s, keeps c s → c.active = true → c.offset < c.stop)
    (htouch : ∀ c s, keeps c s → c.active = true → (∀ slot, c.phase ≠ .fetch slot) →
      keeps (c.touch (p.get s)).1.1 (p.set (c.touch (p.get s)).2 s))
    (hreceive : ∀ c s slot, keeps c s → c.phase = .fetch slot →
      keeps (c.receive (source c.pageStart c.frame s).1).1 (source c.pageStart c.frame s).2)
    {limit : Nat} {s : σ} (hrank : c.rank ≤ limit) (h : keeps c s) :
    let ended := c.runFor p.host source limit s
    keeps ended.1 ended.2 ∧ ended.1.active = false := by
  induction limit generalizing c s with
  | zero =>
    have hended := active_eq_false_of_rank_eq_zero (hoffset c s h) (Nat.le_zero.1 hrank)
    exact ⟨h, hended⟩
  | succ limit ih =>
    cases hactive : c.active with
    | false =>
      obtain ⟨outcome, hphase⟩ := exists_phase_of_active_eq_false hactive
      rw [runFor_finished _ _ hphase]
      exact ⟨h, hactive⟩
    | true =>
      have hlt := hoffset c s h hactive
      by_cases hfetch : ∃ slot, c.phase = .fetch slot
      · obtain ⟨slot, hphase⟩ := hfetch
        rw [runFor_receive_at p source limit s hphase]
        have hfewer := rank_receive_lt hlt hphase (source c.pageStart c.frame s).1
        exact ih (by omega) (hreceive c s slot h hphase)
      · have hfetch := not_exists.1 hfetch
        rw [runFor_touch_at p source limit s hactive hfetch]
        have hfewer := rank_touch_lt hlt hactive hfetch (p.get s)
        exact ih (by omega) (htouch c s h hactive hfetch)

end Call

end ReadThrough
