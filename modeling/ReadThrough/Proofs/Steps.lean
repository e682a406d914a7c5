import Mathlib.Data.List.Basic
import ReadThrough.Proofs.CallUsage
import ReadThrough.Proofs.RepeatedTouches

/-!
# Steps of a call

`Call.stepsFor` is what a number of steps that a call takes alone make of the call and the cache; a
read is its steps until its call has ended (`Errand.run_eq_stepsFor`). A step is an operation on the
bucket of the page at hand (`Call.next_eq_onBucket`), and the page at hand is one of those ahead. So
a call sees no bucket but those of the pages ahead of it, and changes no other
(`Call.Ready.stepsFor_congr`, `Call.Ready.bucket_stepsFor`).
-/

namespace ReadThrough

/-! ## A step is an operation on one bucket -/

namespace Cache

/-- An operation that leaves its bucket as it is leaves the cache as it is. -/
theorem onBucket_of_eq {α : Type} (c : Cache) (key : PageKey) (result : α) :
    c.onBucket key (fun bucket => (result, bucket)) = (result, c) := by
  refine Prod.ext rfl (ext_bucket rfl rfl fun shard => ?_)
  rw [bucket_onBucket]
  exact ite_self _

/-- Where pages belong depends on the seed only. -/
theorem shardOf_eq_of_seed_eq {c c' : Cache} (h : c'.seed = c.seed) : c'.shardOf = c.shardOf := by
  funext key
  apply Fin.ext
  show c'.router.place key = c.router.place key
  rw [router, router, h]

end Cache

namespace Call

/-- What a step on the cache makes of the call and of the bucket of the page at hand. -/
def touchIn (c : Call) (b : CacheBucket) : Call × CacheBucket :=
  match c.phase with
  | .lookup =>
    match b.read c.key c.intra c.want with
    | (.hit bytes, b) => (c.deliver bytes, b)
    | (.miss, b) => ({ c with phase := .acquire }, b)
    | (.pastPage, b) => (c.finish .abandoned, b)
  | .acquire =>
    match b.acquire.1.slot? with
    | some slot => ({ c with phase := .fetch slot }, b.acquire.2)
    | none => (c.stopFor .noFreePages, b.acquire.2)
  | .publish slot count =>
    (c.deliver ((c.frame.drop c.intra).take c.want), (b.install c.key slot (c.frame.take count)).2)
  | .release slot cause => (c.stopFor cause, b.release slot)
  | .fetch _ => (c, b)
  | .finished _ => (c, b)

/-- A step on the cache is an operation on the bucket of the page at hand. -/
theorem touch_eq_onBucket (c : Call) (cache : Cache) :
    ((c.touch cache).1.1, (c.touch cache).2) = cache.onBucket c.key c.touchIn := by
  have hidle (hbucket : c.touchIn = fun b => (c, b)) :
      cache.onBucket c.key c.touchIn = (c, cache) := by
    rw [hbucket, cache.onBucket_of_eq]
  cases hphase : c.phase with
  | lookup =>
    simp only [touch, hphase, Cache.read, Cache.onBucket, touchIn]
    rcases (cache.buckets[cache.shardOf c.key]).read c.key c.intra c.want with ⟨_ | _, b⟩ <;> rfl
  | acquire =>
    simp only [touch, hphase, Cache.acquire, Cache.onBucket, touchIn]
    cases (cache.buckets[cache.shardOf c.key]).acquire.1.slot? <;> rfl
  | publish slot n => simp only [touch, hphase, Cache.install, Cache.onBucket, touchIn]
  | release slot cause => simp only [touch, hphase, Cache.release, Cache.onBucket, touchIn]
  | fetch slot =>
    rw [hidle (by funext b; simp only [touchIn, hphase])]
    simp only [touch, hphase]
  | finished outcome =>
    rw [hidle (by funext b; simp only [touchIn, hphase])]
    simp only [touch, hphase]

/-- What a step makes of the call depends on the bucket of its page only. -/
theorem touch_fst (c : Call) (cache : Cache) :
    (c.touch cache).1.1 = (c.touchIn (cache.bucket (cache.shardOf c.key))).1 :=
  (congrArg Prod.fst (c.touch_eq_onBucket cache)).trans (Cache.onBucket_fst ..)

/-- A step on the cache changes no other bucket than that of its page. -/
theorem bucket_touch (c : Call) (cache : Cache) (shard : Fin Geometry.bucketCount) :
    (c.touch cache).2.bucket shard = if cache.shardOf c.key = shard
      then (c.touchIn (cache.bucket shard)).2 else cache.bucket shard :=
  (congrArg (fun result => result.2.bucket shard) (c.touch_eq_onBucket cache)).trans
    (Cache.bucket_onBucket ..)

variable (answer : Nat → Bytes → Transfer)

/-- What the next step makes of the call and of the bucket of the page at hand. -/
def nextIn (c : Call) (b : CacheBucket) : Call × CacheBucket :=
  match c.phase with
  | .fetch _ => (c.answered answer, b)
  | _ => c.touchIn b

/-- A call that does not wait for its source takes its next step on the cache. -/
theorem next_eq_touch {c : Call} (h : ∀ slot, c.phase ≠ .fetch slot) (cache : Cache) :
    c.next answer cache = ((c.touch cache).1.1, (c.touch cache).2) := by
  unfold next
  split
  · rename_i slot hphase
    exact absurd hphase (h slot)
  · rfl

/-- A step of a call is an operation on the bucket of the page at hand. -/
theorem next_eq_onBucket (c : Call) (cache : Cache) :
    c.next answer cache = cache.onBucket c.key (c.nextIn answer) := by
  by_cases hfetch : ∃ slot, c.phase = .fetch slot
  · obtain ⟨slot, hphase⟩ := hfetch
    have hbucket : c.nextIn answer = fun b => (c.answered answer, b) := by
      funext b
      rw [nextIn, hphase]
    rw [next, hphase, hbucket, cache.onBucket_of_eq]
  · have hbucket : c.nextIn answer = c.touchIn := by
      funext b
      unfold nextIn
      split
      · rename_i slot hphase
        exact absurd ⟨slot, hphase⟩ hfetch
      · rfl
    rw [next_eq_touch answer (not_exists.1 hfetch), touch_eq_onBucket, hbucket]

/-- What a step makes of the call depends on that bucket only, also if it turns to the source. -/
theorem next_fst (c : Call) (cache : Cache) :
    (c.next answer cache).1 = (c.nextIn answer (cache.bucket (cache.shardOf c.key))).1 := by
  rw [next_eq_onBucket, Cache.onBucket_fst]

/-- A step that may turn to the source changes no other bucket than that of its page. -/
theorem bucket_next (c : Call) (cache : Cache) (shard : Fin Geometry.bucketCount) :
    (c.next answer cache).2.bucket shard = if cache.shardOf c.key = shard
      then (c.nextIn answer (cache.bucket shard)).2 else cache.bucket shard := by
  rw [next_eq_onBucket, Cache.bucket_onBucket]

theorem geometry_next (c : Call) (cache : Cache) :
    (c.next answer cache).2.geometry = cache.geometry := by
  rw [next_eq_onBucket, Cache.geometry_onBucket]

theorem seed_next (c : Call) (cache : Cache) : (c.next answer cache).2.seed = cache.seed := by
  rw [next_eq_onBucket, Cache.seed_onBucket]

/-- A call that has finished takes no steps. -/
theorem next_of_active_eq_false {c : Call} (h : c.active = false) (cache : Cache) :
    c.next answer cache = (c, cache) := by
  obtain ⟨outcome, hphase⟩ := exists_phase_of_active_eq_false h
  simp only [next, touch, hphase]

/-! ## The pages ahead of a call -/

/-- The pages that a call may still visit. -/
def ahead (c : Call) : List PageKey := if c.active then c.keysAhead else []

/-- The buckets of the pages that a call may still visit. -/
def shards (c : Call) (cache : Cache) : List (Fin Geometry.bucketCount) :=
  c.ahead.map cache.shardOf

/-- A call that is under way has a page to visit. -/
def Ready (c : Call) : Prop := c.active = true → c.offset < c.stop ∧ c.page < pageLimit

/-- A call that turns to its next page is ready. -/
theorem ready_visit (c : Call) : c.visit.Ready := by
  intro hactive
  obtain ⟨-, heq⟩ | ⟨-, -, heq⟩ | ⟨hoffset, hpage, heq⟩ := c.visit_cases
  · rw [heq] at hactive
    exact absurd hactive (by simp [finish, active])
  · rw [heq] at hactive
    exact absurd hactive (by simp [stopFor, finish, active])
  · rw [heq]
    exact ⟨hoffset, hpage⟩

/-- A call that has just begun is ready. -/
theorem ready_start (view : View) (pageShift : Nat) (offset : Int) (buffer : Bytes) :
    (start view pageShift offset buffer).Ready := by
  unfold start
  dsimp only
  split
  · exact fun hactive => absurd hactive (by simp [stopFor, finish, active])
  · exact ready_visit _

/-- Which pages are ahead depends on the range. -/
theorem keysAhead_congr {c c' : Call} (hview : c'.view = c.view) (hsize : c'.pageSize = c.pageSize)
    (hoffset : c'.offset = c.offset) (hstop : c'.stop = c.stop) : c'.keysAhead = c.keysAhead := by
  rw [keysAhead, keysAhead, hview, hsize, hoffset, hstop]

section Next

variable {c : Call}

/-- The page that the call is at is one of those ahead. -/
theorem Ready.key_mem_ahead (h : c.Ready) (hactive : c.active = true) : c.key ∈ c.ahead := by
  obtain ⟨hoffset, hpage⟩ := h hactive
  obtain ⟨keys, hkeys⟩ := exists_keysAhead_eq_cons hoffset hpage
  rw [ahead, if_pos hactive, hkeys]
  exact List.mem_cons_self

/-- A step of a call under way leaves it at its page, or takes it past its page. -/
theorem next_cases (hactive : c.active = true) (cache : Cache) :
    let next := (c.next answer cache).1
    (next.view = c.view ∧ next.pageShift = c.pageShift ∧ next.offset = c.offset ∧
      next.stop = c.stop) ∨
    ∃ moved : Call, next = moved.visit ∧ moved.view = c.view ∧ moved.pageShift = c.pageShift ∧
      moved.offset = c.offset + c.want ∧ moved.stop = c.stop := by
  intro next
  have hnext : next = _ := next_fst answer c cache
  rw [hnext]
  unfold nextIn touchIn
  cases hphase : c.phase with
  | lookup =>
    dsimp only
    split
    · exact .inr ⟨_, rfl, rfl, rfl, rfl, rfl⟩
    · exact .inl ⟨rfl, rfl, rfl, rfl⟩
    · exact .inl ⟨rfl, rfl, rfl, rfl⟩
  | acquire =>
    dsimp only
    split <;> exact .inl ⟨rfl, rfl, rfl, rfl⟩
  | fetch slot =>
    obtain ⟨ahead, scratch, heq⟩ := c.answered_eq answer hphase
    dsimp only
    rw [heq]
    exact .inl ⟨rfl, rfl, rfl, rfl⟩
  | publish slot n => exact .inr ⟨_, rfl, rfl, rfl, rfl, rfl⟩
  | release slot cause => exact .inl ⟨rfl, rfl, rfl, rfl⟩
  | finished outcome =>
    rw [active, hphase] at hactive
    exact absurd hactive (by simp)

/-- A step of a ready call leaves it ready. -/
theorem Ready.next (h : c.Ready) (cache : Cache) : (c.next answer cache).1.Ready := by
  cases hactive : c.active with
  | false =>
    rw [next_of_active_eq_false answer hactive]
    exact h
  | true =>
    obtain ⟨-, hshift, hoffset, hstop⟩ | ⟨moved, heq, -⟩ := next_cases answer hactive cache
    · intro _
      rw [page, hoffset, hstop, hshift]
      exact h hactive
    · rw [heq]
      exact ready_visit moved

/-- No step adds to the pages ahead. -/
theorem Ready.ahead_next_subset (h : c.Ready) (cache : Cache) :
    (c.next answer cache).1.ahead ⊆ c.ahead := by
  cases hactive : c.active with
  | false =>
    rw [next_of_active_eq_false answer hactive]
    exact List.Subset.refl _
  | true =>
    obtain ⟨hoffset, hpage⟩ := h hactive
    obtain ⟨hview, hshift, hat, hstop⟩ | ⟨moved, heq, hview, hshift, hat, hstop⟩ :=
      next_cases answer hactive cache
    · rw [ahead, ahead, if_pos hactive,
        keysAhead_congr hview (congrArg (1 <<< ·) hshift) hat hstop]
      split
      · exact List.Subset.refl _
      · exact List.nil_subset _
    · have hmoved : moved.visit.ahead = moved.keysAhead := keysAhead_visit moved
      rw [heq, hmoved, ahead, if_pos hactive,
        keysAhead_eq_cons hoffset hpage hview (congrArg (1 <<< ·) hshift) hat hstop]
      exact List.subset_cons_self _ _

/-- A step of an active call leaves fewer to take. -/
theorem Ready.rank_next_lt (h : c.Ready) (hactive : c.active = true) (cache : Cache) :
    (c.next answer cache).1.rank < c.rank := by
  obtain ⟨hoffset, -⟩ := h hactive
  by_cases hfetch : ∃ slot, c.phase = .fetch slot
  · obtain ⟨slot, hphase⟩ := hfetch
    have hlt := rank_receive_lt hoffset hphase (answer c.pageStart c.frame)
    rw [Call.next, hphase]
    exact hlt
  · have hfetch := not_exists.1 hfetch
    rw [next_eq_touch answer hfetch]
    exact rank_touch_lt hoffset hactive hfetch cache

end Next

/-! ## Several steps -/

/-- The call and the cache after so many steps that the call takes alone. -/
def stepsFor : (steps : Nat) → Call → Cache → Call × Cache
  | 0, c, cache => (c, cache)
  | steps + 1, c, cache =>
    stepsFor steps (c.next answer cache).1 (c.next answer cache).2

variable {answer} {c : Call} {cache cache' : Cache}

/-- A run takes these steps. -/
theorem runFor_eq_stepsFor (steps : Nat) (c : Call) (cache : Cache) :
    c.runFor .alone (fun offset buffer => pure (answer offset buffer)) steps cache
      = stepsFor answer steps c cache := by
  induction steps generalizing c cache with
  | zero => rfl
  | succ steps ih => rw [runFor_succ, ih, stepsFor]

/-- Steps upon steps are as many steps. -/
theorem stepsFor_add (first second : Nat) (c : Call) (cache : Cache) :
    stepsFor answer (first + second) c cache
      = stepsFor answer second (stepsFor answer first c cache).1
          (stepsFor answer first c cache).2 := by
  induction first generalizing c cache with
  | zero => rw [Nat.zero_add, stepsFor]
  | succ first ih => rw [Nat.succ_add_eq_add_succ, Nat.add_succ, stepsFor, ih, stepsFor]

/-- A call that has finished stays as it is. -/
theorem stepsFor_of_active_eq_false (h : c.active = false) (steps : Nat) (cache : Cache) :
    stepsFor answer steps c cache = (c, cache) := by
  induction steps with
  | zero => rfl
  | succ steps ih => rw [stepsFor, next_of_active_eq_false answer h, ih]

/-- Once a call has ended it does not matter how many more steps it may take. -/
theorem stepsFor_eq_of_active_eq_false {first second : Nat}
    (hfirst : (stepsFor answer first c cache).1.active = false)
    (hsecond : (stepsFor answer second c cache).1.active = false) :
    stepsFor answer first c cache = stepsFor answer second c cache := by
  have hmore {steps : Nat} (h : (stepsFor answer steps c cache).1.active = false) (more : Nat) :
      stepsFor answer (steps + more) c cache = stepsFor answer steps c cache := by
    rw [stepsFor_add, stepsFor_of_active_eq_false h]
  rw [← hmore hfirst second, Nat.add_comm, hmore hsecond]

theorem geometry_stepsFor (steps : Nat) (c : Call) (cache : Cache) :
    (stepsFor answer steps c cache).2.geometry = cache.geometry := by
  induction steps generalizing c cache with
  | zero => rfl
  | succ steps ih => rw [stepsFor, ih, geometry_next]

theorem seed_stepsFor (steps : Nat) (c : Call) (cache : Cache) :
    (stepsFor answer steps c cache).2.seed = cache.seed := by
  induction steps generalizing c cache with
  | zero => rfl
  | succ steps ih => rw [stepsFor, ih, seed_next]

namespace Ready

variable (answer)

/-- A call has ended when it has taken as many steps as it may take. -/
theorem active_stepsFor (h : c.Ready) {steps : Nat} (hrank : c.rank ≤ steps) :
    (stepsFor answer steps c cache).1.active = false := by
  induction steps generalizing c cache with
  | zero =>
    exact active_eq_false_of_rank_eq_zero (fun hactive => (h hactive).1) (Nat.le_zero.1 hrank)
  | succ steps ih =>
    cases hactive : c.active with
    | false =>
      rw [stepsFor_of_active_eq_false hactive]
      exact hactive
    | true =>
      have hlt := h.rank_next_lt answer hactive cache
      exact ih (h.next answer cache) (Nat.le_of_lt_succ (hlt.trans_le hrank))

/-- A step brings no page into sight that was not there before. -/
theorem shards_next_subset (h : c.Ready) (cache : Cache) :
    (c.next answer cache).1.shards (c.next answer cache).2 ⊆ c.shards cache := by
  rw [shards, Cache.shardOf_eq_of_seed_eq (seed_next answer c cache)]
  exact List.map_subset _ (h.ahead_next_subset answer cache)

/-- A step changes no bucket but those of the pages ahead. -/
theorem bucket_next (h : c.Ready) {shard : Fin Geometry.bucketCount}
    (hshard : shard ∉ c.shards cache) :
    (c.next answer cache).2.bucket shard = cache.bucket shard := by
  cases hactive : c.active with
  | false => rw [next_of_active_eq_false answer hactive]
  | true =>
    rw [Call.bucket_next, if_neg]
    rintro rfl
    exact hshard (List.mem_map_of_mem (h.key_mem_ahead hactive))

/-- A run changes no bucket but those of the pages ahead. -/
theorem bucket_stepsFor (h : c.Ready) (steps : Nat) {shard : Fin Geometry.bucketCount}
    (hshard : shard ∉ c.shards cache) :
    (stepsFor answer steps c cache).2.bucket shard = cache.bucket shard := by
  induction steps generalizing c cache with
  | zero => rfl
  | succ steps ih =>
    have hrest := ih (h.next answer cache)
      fun hmem => hshard (h.shards_next_subset answer cache hmem)
    rw [stepsFor, hrest, h.bucket_next answer hshard]

/-- A run depends on no bucket but those of the pages ahead, and makes the same of a bucket that is
the same. -/
theorem stepsFor_congr (h : c.Ready) (hseed : cache'.seed = cache.seed)
    (hahead : ∀ shard ∈ c.shards cache, cache'.bucket shard = cache.bucket shard) (steps : Nat) :
    (stepsFor answer steps c cache').1 = (stepsFor answer steps c cache).1 ∧
      ∀ shard, cache'.bucket shard = cache.bucket shard →
        (stepsFor answer steps c cache').2.bucket shard
          = (stepsFor answer steps c cache).2.bucket shard := by
  induction steps generalizing c cache cache' with
  | zero => exact ⟨rfl, fun _ hsame => hsame⟩
  | succ steps ih =>
    cases hactive : c.active with
    | false =>
      rw [stepsFor_of_active_eq_false hactive, stepsFor_of_active_eq_false hactive]
      exact ⟨rfl, fun _ hsame => hsame⟩
    | true =>
      have hplace := Cache.shardOf_eq_of_seed_eq hseed
      have hhome := hahead _ (List.mem_map_of_mem (h.key_mem_ahead hactive))
      have hcall : (c.next answer cache').1 = (c.next answer cache).1 := by
        rw [next_fst, next_fst, hplace, hhome]
      have hbucket {shard : Fin Geometry.bucketCount}
          (hsame : cache'.bucket shard = cache.bucket shard) :
          (c.next answer cache').2.bucket shard = (c.next answer cache).2.bucket shard := by
        rw [Call.bucket_next, Call.bucket_next, hplace, hsame]
      have hseed' : (c.next answer cache').2.seed = (c.next answer cache).2.seed := by
        rw [seed_next, seed_next, hseed]
      have hrest := ih (h.next answer cache) hseed'
        fun shard hshard => hbucket (hahead shard (h.shards_next_subset answer cache hshard))
      rw [stepsFor, stepsFor, hcall]
      exact ⟨hrest.1, fun shard hsame => hrest.2 shard (hbucket hsame)⟩

end Ready

end Call

/-! ## Steps on caches in good order -/

namespace CacheUsage

variable {u v : CacheUsage}

/-- Every slot stays in one place. -/
theorem Step.keeps (h : Step u v) (hu : u.cache.Keeps (fun _ _ => True) u.held) :
    v.cache.Keeps (fun _ _ => True) v.held := by
  have hgeometry : v.cache.geometry = u.cache.geometry := by cases h <;> rfl
  constructor <;> intro shard
  · refine ⟨?_, fun _ _ _ => trivial⟩
    have howned := (hu.bucket shard).owned
    obtain heq | hstep := h.ofShard shard
    · have hheld : v.held shard = u.held shard := congrArg Usage.held heq
      have hbucket : v.cache.bucket shard = u.cache.bucket shard := congrArg Usage.bucket heq
      rw [hheld, hbucket]
      exact howned
    · exact hstep.owned howned
  · obtain heq | hstep := h.ofShard shard
    · have hbucket : v.cache.bucket shard = u.cache.bucket shard := congrArg Usage.bucket heq
      rw [hbucket, hgeometry]
      exact hu.shape shard
    · have hshape := hstep.sameShape
      rw [hgeometry]
      exact ⟨hshape.1.trans (hu.shape shard).1, hshape.2.trans (hu.shape shard).2⟩

/-- Steps of a call keep every slot in one place, with those that the call holds. -/
theorem exists_stepsFor {c : Call} (answer : Nat → Bytes → Transfer) (steps : Nat)
    (hu : u.cache.Keeps (fun _ _ => True) u.held) (hbears : u.Bears c) :
    ∃ v : CacheUsage, v.cache = (c.stepsFor answer steps u.cache).2 ∧
      v.cache.Keeps (fun _ _ => True) v.held := by
  induction steps generalizing u c with
  | zero => exact ⟨u, rfl, hu⟩
  | succ steps ih =>
    rw [Call.stepsFor]
    by_cases hfetch : ∃ slot, c.phase = .fetch slot
    · obtain ⟨slot, hphase⟩ := hfetch
      rw [Call.next, hphase]
      exact ih hu (hbears.receive _)
    · rw [Call.next_eq_touch answer (not_exists.1 hfetch)]
      obtain ⟨v, hstep, hcache, hbears'⟩ := hbears.touch
      rw [← hcache]
      refine ih ?_ hbears'
      rcases hstep with rfl | hstep
      · exact hu
      · exact hstep.keeps hu

end CacheUsage

/-- Steps of a call that holds no slot yet leave a cache in good order. -/
theorem Cache.Settled.stepsFor {cache : Cache} (h : cache.Settled) {c : Call}
    (hslot : c.slot? = none) (answer : Nat → Bytes → Transfer) (steps : Nat) :
    (c.stepsFor answer steps cache).2.Settled := by
  obtain ⟨held, hkeeps⟩ := h
  have hbears : CacheUsage.Bears { cache, held } c := CacheUsage.bears_of_slot?_eq_none hslot
  obtain ⟨v, hcache, hkept⟩ := CacheUsage.exists_stepsFor answer steps hkeeps hbears
  exact ⟨v.held, hcache ▸ hkept⟩

/-! ## Reads as steps -/

/-- How a call ended and what is in its buffer. -/
def Call.result (c : Call) : ReadResult := ⟨c.outcome, c.destination.contents⟩

namespace Errand

/-- The call of a read and the cache after so many steps that the call takes alone. -/
def stepsFor (e : Errand) (cache : Cache) (steps : Nat) : Call × Cache :=
  (e.started cache).stepsFor e.answer steps cache

variable {e : Errand} {cache : Cache}

theorem ready_started (e : Errand) (cache : Cache) : (e.started cache).Ready :=
  Call.ready_start _ _ _ _

/-- After as many steps as it may take a call has finished. -/
theorem active_stepsFor (e : Errand) (cache : Cache) {steps : Nat}
    (h : (e.started cache).stepBound ≤ steps) : (e.stepsFor cache steps).1.active = false :=
  (e.ready_started cache).active_stepsFor e.answer (Nat.le_trans (Call.rank_start_le ..) h)

/-- A read takes these steps until its call has ended. -/
theorem run_eq_stepsFor {steps : Nat} (hended : (e.stepsFor cache steps).1.active = false) :
    e.run cache = ((e.stepsFor cache steps).1.result, (e.stepsFor cache steps).2) := by
  have hbound := e.active_stepsFor cache Nat.le.refl
  rw [stepsFor, Call.stepsFor_eq_of_active_eq_false hended hbound, ← Call.runFor_eq_stepsFor]
  rfl

theorem geometry_run (e : Errand) (cache : Cache) : (e.run cache).2.geometry = cache.geometry := by
  rw [run_eq_stepsFor (e.active_stepsFor cache Nat.le.refl)]
  exact Call.geometry_stepsFor ..

theorem seed_run (e : Errand) (cache : Cache) : (e.run cache).2.seed = cache.seed := by
  rw [run_eq_stepsFor (e.active_stepsFor cache Nat.le.refl)]
  exact Call.seed_stepsFor ..

end Errand

end ReadThrough
