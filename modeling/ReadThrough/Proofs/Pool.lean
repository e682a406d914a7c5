import ReadThrough.Proofs.CallInvariant

/-!
# Pools of calls

A `Pool` is a cache with any number of calls on it. `Pool.Step` lets any one of them take its next
step, or a new call start, so a run of a pool is an interleaving of the steps of its calls; a call
that is made while another waits for its source is one more call of the pool. `Pool.Kept` is the
invariant of all runs: every call keeps to its contract and the slots that are held in the cache are
those of the calls, each slot of one call.
-/

namespace ReadThrough

/-- A call and the request that it was started for. -/
structure Task where
  request : Request
  call : Call

/-- A cache and the calls that were started on it, the latest one first. -/
structure Pool where
  cache : Cache
  tasks : List Task := []

/-- Which calls are made and how their sources answer. -/
structure Rules where
  admits : Request → Prop
  answers : Call → Transfer → Prop

namespace Pool

/-- A call starts, or a call takes its next step. -/
inductive Step (rules : Rules) : Pool → Pool → Prop
  | start (p : Pool) (r : Request) : rules.admits r →
    Step rules p { p with
      tasks := ⟨r, .start r.view p.cache.geometry.pageShift r.offset r.buffer⟩ :: p.tasks }
  | touch (cache : Cache) (before after : List Task) (t : Task) :
    Step rules ⟨cache, before ++ t :: after⟩
      ⟨(t.call.touch cache).2, before ++ { t with call := (t.call.touch cache).1.1 } :: after⟩
  | receive (cache : Cache) (before after : List Task) (t : Task) (slot : Slot)
    (answer : Transfer) : t.call.phase = .fetch slot → rules.answers t.call answer →
    Step rules ⟨cache, before ++ t :: after⟩
      ⟨cache, before ++ { t with call := (t.call.receive answer).1 } :: after⟩

/-- What a pool on a new cache comes to by steps through pools that are all permitted. -/
inductive Reaches (rules : Rules) (permits : Pool → Prop) (cache : Cache) : Pool → Prop
  | start : permits ⟨cache, []⟩ → Reaches rules permits cache ⟨cache, []⟩
  | step {p q : Pool} : Reaches rules permits cache p → Step rules p q → permits q →
    Reaches rules permits cache q

theorem Reaches.permitted {rules : Rules} {permits : Pool → Prop} {cache : Cache} {p : Pool}
    (h : Reaches rules permits cache p) : permits p := by
  cases h with
  | start hpermits => exact hpermits
  | step _ _ hpermits => exact hpermits

/-- No step changes the geometry of the cache. -/
theorem Reaches.geometry_eq {rules : Rules} {permits : Pool → Prop} {cache : Cache} {p : Pool}
    (h : Reaches rules permits cache p) : p.cache.geometry = cache.geometry := by
  induction h with
  | start => rfl
  | step _ hstep _ ih =>
    cases hstep with
    | start => exact ih
    | touch cache before after t => exact (Contract.geometry_touch t.call cache).1.trans ih
    | receive => exact ih

/-! ## Slots of the calls -/

/-- The slots that some calls hold, by bucket. -/
def heldBy (cache : Cache) (tasks : List Task) (shard : Fin Geometry.bucketCount) : List Slot :=
  tasks.flatMap fun t => cache.slotsOf t.call shard

/-- Where the calls hold slots depends only on where the cache keeps their pages. -/
theorem heldBy_congr {cache cache' : Cache} (h : cache'.shardOf = cache.shardOf)
    (tasks : List Task) : heldBy cache' tasks = heldBy cache tasks := by
  funext shard
  simp only [heldBy, Cache.slotsOf, h]

/-- The slots of all calls are those of one of them and those of the others. -/
theorem heldBy_perm (cache : Cache) (before after : List Task) (t : Task)
    (shard : Fin Geometry.bucketCount) :
    (heldBy cache (before ++ t :: after) shard).Perm
      (cache.slotsOf t.call shard ++ heldBy cache (before ++ after) shard) := by
  simp only [heldBy, List.flatMap_append, List.flatMap_cons]
  exact List.perm_append_comm_assoc _ _ _

/-! ## The invariant -/

variable {K : Contract} {rules : Rules}

variable (K rules) in
/-- Every call was admitted and keeps to the contract, and so does the cache, in which the slots
that are held are those of the calls. -/
structure Kept (p : Pool) : Prop where
  admitted : ∀ t ∈ p.tasks, rules.admits t.request
  follows : ∀ t ∈ p.tasks, K.Follows t.request t.call
  keeps : p.cache.Keeps K.good (heldBy p.cache p.tasks)
  pageSize_eq : 1 <<< p.cache.geometry.pageShift = K.pageSize

variable {cache cache' : Cache} {before after : List Task} {t : Task} {p q : Pool}

/-- In a pool each call is on a cache in which the other calls hold slots. -/
theorem Kept.hosts (h : Kept K rules ⟨cache, before ++ t :: after⟩) :
    K.Hosts t.request (heldBy cache (before ++ after)) t.call cache :=
  ⟨h.follows t (by simp), h.keeps.perm fun shard => heldBy_perm cache before after t shard,
    h.pageSize_eq⟩

/-- When one call and the cache have kept to the contract, the pool has. -/
theorem Kept.of_hosts (h : Kept K rules ⟨cache, before ++ t :: after⟩)
    (hshard : cache'.shardOf = cache.shardOf) {c : Call}
    (hhosts : K.Hosts t.request (heldBy cache (before ++ after)) c cache') :
    Kept K rules ⟨cache', before ++ { t with call := c } :: after⟩ := by
  have hmem (u : Task) (hu : u ∈ before ++ { t with call := c } :: after) :
      u = { t with call := c } ∨ u ∈ before ++ t :: after := by
    simp only [List.mem_append, List.mem_cons] at hu ⊢
    obtain hu | hu | hu := hu
    · exact .inr (.inl hu)
    · exact .inl hu
    · exact .inr (.inr (.inr hu))
  refine ⟨?_, ?_, ?_, hhosts.pageSize_eq⟩
  · intro u hu
    obtain rfl | hu := hmem u hu
    · exact h.admitted t (by simp)
    · exact h.admitted u hu
  · intro u hu
    obtain rfl | hu := hmem u hu
    · exact hhosts.follows
    · exact h.follows u hu
  · apply hhosts.keeps.perm
    intro shard
    rw [← heldBy_congr hshard]
    exact (heldBy_perm cache' before after { t with call := c } shard).symm

/-- What the invariant rests on: sources answer within the contract, and where all slots of a bucket
are held, a call that wants one has leave to stop. -/
structure Abides (K : Contract) (rules : Rules) (permits : Pool → Prop) : Prop where
  accepts : ∀ r c slot answer, rules.admits r → K.Follows r c → c.phase = .fetch slot →
    rules.answers c answer → K.Accepts c answer
  exhausted : ∀ p, Kept K rules p → permits p → ∀ t ∈ p.tasks, t.call.phase = .acquire →
    (p.cache.acquire t.call.key).1.slot? = none → K.stops t.call.view t.call.offset .noFreePages

variable {permits : Pool → Prop}

theorem Kept.step (h : Kept K rules p) (habides : Abides K rules permits) (hpermits : permits p)
    (hstep : Step rules p q) : Kept K rules q := by
  cases hstep with
  | start _ r hadmits =>
    refine ⟨?_, ?_, ?_, h.pageSize_eq⟩
    · rintro t (_ | ⟨_, ht⟩)
      · exact hadmits
      · exact h.admitted t ht
    · rintro t (_ | ⟨_, ht⟩)
      · exact .start r h.pageSize_eq
      · exact h.follows t ht
    · have hslots : heldBy p.cache
          (⟨r, .start r.view p.cache.geometry.pageShift r.offset r.buffer⟩ :: p.tasks)
          = heldBy p.cache p.tasks := by
        funext shard
        rw [heldBy, List.flatMap_cons, Cache.slotsOf, Call.slot?_start, Option.toList_none,
          slotsAt_nil]
        rfl
      exact hslots ▸ h.keeps
  | touch cache before after t =>
    have hleave := habides.exhausted _ h hpermits t (by simp)
    exact h.of_hosts (Contract.geometry_touch t.call cache).2 (h.hosts.touch hleave)
  | receive cache before after t slot answer hphase hanswer =>
    have haccepts : ∀ slot, t.call.phase = .fetch slot → K.Accepts t.call answer := by
      intro slot hphase
      exact habides.accepts _ _ slot answer (h.admitted t (by simp)) (h.follows t (by simp)) hphase
        hanswer
    exact h.of_hosts rfl (h.hosts.receive haccepts)

/-- The invariant holds in every pool that a new cache comes to. -/
theorem Reaches.kept {g : Geometry} {seed : UInt64}
    (h : Reaches rules permits (.ofGeometry g seed) p)
    (habides : Abides K rules permits) (hsize : 1 <<< g.pageShift = K.pageSize) :
    Kept K rules p := by
  induction h with
  | start =>
    refine ⟨by simp, by simp, ?_, hsize⟩
    exact Cache.keeps_ofGeometry g seed
  | step hreaches hstep _ ih => exact ih.step habides hreaches.permitted hstep

/-- A call whose page is not resident misses it and is handed a slot unless all slots of the page's
bucket are held, whatever the other calls are about. -/
theorem Reaches.exists_fetch {first : Cache} {held : Fin Geometry.bucketCount → List Slot}
    (before after : List Task)
    (h : Reaches rules permits first ⟨cache, before ++ t :: after⟩)
    (hkeeps : cache.Keeps (fun _ _ => False) held) (hphase : t.call.phase = .lookup)
    (hsize : t.call.pageSize = 1 <<< cache.geometry.pageShift)
    (hheld : (held (cache.shardOf t.call.key)).length < cache.geometry.pagesPerBucket)
    (hpermits : ∀ cache c, permits ⟨cache, before ++ ⟨t.request, c⟩ :: after⟩) :
    ∃ cache' slot, Reaches rules permits first
        ⟨cache', before ++ ⟨t.request, { t.call with phase := .fetch slot }⟩ :: after⟩ ∧
      cache'.geometry = cache.geometry ∧ cache'.shardOf = cache.shardOf ∧
      cache'.Keeps (fun _ _ => False) fun shard =>
        slotsAt (cache.shardOf t.call.key) [slot] shard ++ held shard := by
  obtain ⟨r, c⟩ := t
  dsimp only at hphase hsize hheld ⊢
  -- No bytes at all are good, so the lookup is no hit.
  obtain ⟨hmiss, slot, hslot⟩ := hkeeps.misses (fun _ hgood => hgood) hheld hsize
  have hlooked := h.step (.touch cache before after ⟨r, c⟩) (hpermits ..)
  rw [Call.touch_of_miss hphase hmiss] at hlooked
  have hgrant := Call.touch_of_grant (c := { c with phase := .acquire }) rfl hslot
  have hacquired := hlooked.step (.touch _ before after ⟨r, { c with phase := .acquire }⟩)
    (hpermits ..)
  rw [hgrant.1] at hacquired
  have hkept := (hkeeps.read c.key c.intra c.want).acquire c.key
  rw [hslot] at hkept
  exact ⟨_, slot, hacquired, rfl, rfl, hkept⟩

/-- A call whose source fails gives its slot back and stops, whatever the other calls are about. -/
theorem Reaches.exists_stopped {first : Cache} {good : PageKey → Bytes → Prop}
    {held : Fin Geometry.bucketCount → List Slot} {slot : Slot} (error : IoError) (written : Bytes)
    (before after : List Task)
    (h : Reaches rules permits first ⟨cache, before ++ t :: after⟩)
    (hphase : t.call.phase = .fetch slot)
    (hanswer : rules.answers t.call ⟨.failed error, written⟩)
    (hkeeps : cache.Keeps good fun shard =>
      slotsAt (cache.shardOf t.call.key) [slot] shard ++ held shard)
    (hpermits : ∀ cache c, permits ⟨cache, before ++ ⟨t.request, c⟩ :: after⟩) :
    ∃ cache' c, Reaches rules permits first ⟨cache', before ++ ⟨t.request, c⟩ :: after⟩ ∧
      c.phase = .finished (.stopped ⟨t.call.destination.copied, .io error⟩) ∧
      cache'.geometry = cache.geometry ∧ cache'.shardOf = cache.shardOf ∧
      cache'.Keeps good held := by
  obtain ⟨r, c⟩ := t
  dsimp only at hphase hanswer hkeeps ⊢
  obtain ⟨d, hd, hrelease, hkey, hcopied⟩ :
      ∃ d, (c.receive ⟨.failed error, written⟩).1 = d ∧ d.phase = .release slot (.io error) ∧
        d.key = c.key ∧ d.destination.copied = c.destination.copied := by
    obtain ⟨ahead, scratch, heq⟩ := Call.exists_receive_eq hphase ⟨.failed error, written⟩
    exact ⟨_, heq, rfl, rfl, rfl⟩
  have hfailed := h.step (.receive cache before after ⟨r, c⟩ slot _ hphase hanswer) (hpermits ..)
  rw [hd] at hfailed
  have hended := hfailed.step (.touch cache before after ⟨r, d⟩) (hpermits ..)
  obtain ⟨hstopped, hreleased⟩ := Call.touch_of_release cache hrelease
  rw [hstopped, hreleased, hkey] at hended
  refine ⟨_, _, hended, ?_, rfl, rfl, hkeeps.release⟩
  rw [Call.stopFor, hcopied]
  rfl

end Pool

end ReadThrough
