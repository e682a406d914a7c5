import Mathlib.Algebra.Order.BigOperators.Group.Finset
import ReadThrough.Proofs.Bookkeeping
import ReadThrough.Proofs.Exhaustion

/-!
# What the counters tell

`Pool.History` is a run of a pool with all the pools it went through and the number of installs that
found their page bound. The account that it keeps at every moment (`Standing.Tally`) becomes an
equation between counters and outcomes when no call is under way, and no counter ever runs backwards
or ahead of the one that bounds it, so that rows of different moments can be added up
(`Pool.counters_account_for_calls`).

All counters are bounded by the number of lookups. As long as that is a number of 64 bits, each of
them is one at any moment (`Pool.Audited.fit`), and so are the sums of rows.
-/

namespace ReadThrough

open Finset

namespace Pool

/-! ## Runs with a count of lost races -/

/-- A step of a pool and the number of installs in it that find their page bound already. -/
inductive Counted (rules : Rules) : Pool → Nat → Pool → Prop
  | start (p : Pool) (r : Request) : rules.admits r →
    Counted rules p 0 { p with
      tasks := ⟨r, .start r.view p.cache.geometry.pageShift r.offset r.buffer⟩ :: p.tasks }
  | touch (cache : Cache) (before after : List Task) (t : Task) :
    Counted rules ⟨cache, before ++ t :: after⟩
      (t.call.rebinds (cache.bucket (cache.shardOf t.call.key)))
      ⟨(t.call.touch cache).2, before ++ { t with call := (t.call.touch cache).1.1 } :: after⟩
  | receive (cache : Cache) (before after : List Task) (t : Task) (slot : Slot)
    (answer : Transfer) : t.call.phase = .fetch slot → rules.answers t.call answer →
    Counted rules ⟨cache, before ++ t :: after⟩ 0
      ⟨cache, before ++ { t with call := (t.call.receive answer).1 } :: after⟩

/-- A run of a pool: where it stands, the pools that it went through, the latest one first, and the
number of installs that found their page bound already. -/
inductive History (rules : Rules) (cache : Cache) : Pool → List Pool → Nat → Prop
  | start : History rules cache ⟨cache, []⟩ [] 0
  | step {p q : Pool} {past : List Pool} {lost n : Nat} : History rules cache p past lost →
    Counted rules p n q → History rules cache q (p :: past) (lost + n)

variable {rules : Rules} {cache cache' : Cache} {p q : Pool} {before after : List Task} {t : Task}
  {lost n : Nat}

/-- The count stands beside the steps of a pool and changes none of them. -/
theorem exists_counted_iff : (∃ n, Counted rules p n q) ↔ Step rules p q := by
  constructor
  · rintro ⟨n, hcounted⟩
    cases hcounted with
    | start _ r hadmits => exact .start p r hadmits
    | touch cache before after t => exact .touch cache before after t
    | receive cache before after t slot answer hphase hanswer =>
      exact .receive cache before after t slot answer hphase hanswer
  · intro hstep
    cases hstep with
    | start _ r hadmits => exact ⟨_, .start p r hadmits⟩
    | touch cache before after t => exact ⟨_, .touch cache before after t⟩
    | receive cache before after t slot answer hphase hanswer =>
      exact ⟨_, .receive cache before after t slot answer hphase hanswer⟩

/-- Every pool that a cache comes to has a history. -/
theorem exists_history_iff : (∃ past lost, History rules cache p past lost) ↔
    Reaches rules (fun _ => True) cache p := by
  constructor
  · rintro ⟨past, lost, hhistory⟩
    induction hhistory with
    | start => exact .start trivial
    | step _ hcounted ih => exact ih.step (exists_counted_iff.1 ⟨_, hcounted⟩) trivial
  · intro hreaches
    induction hreaches with
    | start => exact ⟨[], 0, .start⟩
    | step _ hstep _ ih =>
      obtain ⟨past, lost, hhistory⟩ := ih
      obtain ⟨n, hcounted⟩ := exists_counted_iff.2 hstep
      exact ⟨_, _, hhistory.step hcounted⟩

/-! ## The account of a pool -/

/-- How the calls stand. -/
def standings (p : Pool) : List Standing := p.tasks.map (·.call.standing)

theorem standings_mk (cache : Cache) (before after : List Task) (t : Task) :
    (Pool.mk cache (before ++ t :: after)).standings = before.map (·.call.standing)
      ++ t.call.standing :: after.map (·.call.standing) := by
  rw [standings, List.map_append, List.map_cons]

/-- What every run of a pool keeps: all slots are in place, the account is right, and the counters
of every bucket are balanced. -/
structure Audited (g : Geometry) (p : Pool) (lost : Nat) : Prop where
  kept : Kept (.anyBytes g.pageSize True) .returning p
  givesBack : ∀ t ∈ p.tasks, t.call.GivesBack
  tally : Standing.Tally p.cache.counters p.standings lost
  hits_le : ∀ shard, (p.cache.bucket shard).counters.hits ≤ (p.cache.bucket shard).counters.lookups
  balanced : ∀ shard, ∃ lost, (p.cache.bucket shard).Balanced lost

theorem abides_returning (pageSize : Nat) :
    Abides (.anyBytes pageSize True) .returning fun _ => True :=
  ⟨fun _ _ _ _ _ hfollows _ hanswer => accepts_of_returning hfollows hanswer,
    fun _ _ _ _ _ _ _ _ => trivial⟩

theorem audited_start (g : Geometry) (seed : UInt64) : Audited g ⟨.ofGeometry g seed, []⟩ 0 where
  kept := (Reaches.start trivial : Reaches .returning (fun _ => True) (.ofGeometry g seed) _).kept
    (abides_returning g.pageSize) rfl
  givesBack t ht := absurd ht List.not_mem_nil
  tally := by
    have hcounters : (Pool.mk (.ofGeometry g seed) []).cache.counters = {} :=
      Cache.counters_ofGeometry_eq g seed
    rw [hcounters]
    exact ⟨rfl, rfl, rfl⟩
  hits_le shard := by
    rw [Cache.bucket_ofGeometry]
    exact Nat.le_refl 0
  balanced shard := by
    rw [Cache.bucket_ofGeometry]
    exact ⟨0, Bucket.balanced_ofCapacity Lru.valid_empty Lru.entries_empty ..⟩

/-- A step keeps the account, lets no counter run backwards, and looks for one page at most. -/
theorem Audited.step {g : Geometry} (h : Audited g p lost)
    (hcounted : Counted .returning p n q) : Audited g q (lost + n) ∧
      (∀ shard, (p.cache.bucket shard).counters.AtMost (q.cache.bucket shard).counters) ∧
      q.cache.counters.lookups ≤ p.cache.counters.lookups + 1 := by
  have hkept : Kept (.anyBytes g.pageSize True) .returning q :=
    h.kept.step (abides_returning g.pageSize) trivial (exists_counted_iff.1 ⟨n, hcounted⟩)
  cases hcounted with
  | start _ r hadmits =>
    refine ⟨⟨hkept, ?_, ?_, h.hits_le, h.balanced⟩, fun _ => .refl _, Nat.le_succ _⟩
    · exact List.forall_mem_cons.2
        ⟨Call.givesBack_of_slot?_eq_none (Call.slot?_start ..), h.givesBack⟩
    · rw [standings, List.map_cons, Call.standing_start]
      exact h.tally.clear
  | touch cache before after t =>
    have hvalid (shard : Fin Geometry.bucketCount) := (h.kept.keeps.bucket shard).owned.valid
    have hgives := h.givesBack
    rw [List.forall_mem_append, List.forall_mem_cons] at hgives
    obtain ⟨gain, hcounters, hbooks⟩ :=
      Call.books_touchIn hgives.2.1 (hvalid (cache.shardOf t.call.key))
    rw [← Call.touch_fst] at hbooks
    have hbuckets (shard : Fin Geometry.bucketCount) :
        ((t.call.touch cache).2.bucket shard).counters = if cache.shardOf t.call.key = shard
          then (cache.bucket shard).counters + gain else (cache.bucket shard).counters := by
      rw [Call.bucket_touch]
      split
      · rename_i hhome
        subst hhome
        exact hcounters
      · rfl
    refine ⟨⟨hkept, ?_, ?_, fun shard => ?_, fun shard => ?_⟩, fun shard => ?_, ?_⟩
    · rw [List.forall_mem_append, List.forall_mem_cons]
      refine ⟨hgives.1, ?_, hgives.2.2⟩
      rw [Call.touch_fst]
      exact hgives.2.1.touchIn _
    · have htally := h.tally
      rw [standings_mk] at htally ⊢
      dsimp only at htally ⊢
      rw [Cache.counters_eq_add_gain _ hbuckets]
      exact htally.replace hbooks
    · have hle := h.hits_le shard
      dsimp only at hle ⊢
      rw [hbuckets]
      split
      · exact Nat.add_le_add hle hbooks.hits_le
      · exact hle
    · obtain ⟨lost, hbalanced⟩ := h.balanced shard
      dsimp only at hbalanced ⊢
      rw [Call.bucket_touch]
      split
      · exact Call.exists_balanced_touchIn t.call (hvalid shard) hbalanced
      · exact ⟨lost, hbalanced⟩
    · dsimp only
      rw [hbuckets]
      split
      · exact Counters.atMost_add ..
      · exact .refl _
    · dsimp only
      rw [Cache.counters_eq_add_gain _ hbuckets]
      exact Nat.add_le_add_left hbooks.lookups_le _
  | receive cache before after t slot answer hphase hanswer =>
    have hreturned := (hkept.follows { t with call := (t.call.receive answer).1 }
      (by simp)).phase_ne_abandoned
    obtain ⟨hstanding, hgivesBack⟩ := Call.standing_receive hphase answer hreturned
    have hgives := h.givesBack
    rw [List.forall_mem_append, List.forall_mem_cons] at hgives
    refine ⟨⟨hkept, ?_, ?_, h.hits_le, h.balanced⟩, fun _ => .refl _, Nat.le_succ _⟩
    · rw [List.forall_mem_append, List.forall_mem_cons]
      exact ⟨hgives.1, hgivesBack, hgives.2.2⟩
    · have htally := h.tally
      rw [standings_mk] at htally ⊢
      rw [hstanding]
      exact htally

variable {g : Geometry} {seed : UInt64} {past : List Pool}

/-- At every moment of a run the account is right, and no counter of a bucket has ever run
backwards. -/
theorem History.audited (h : History .returning (.ofGeometry g seed) p past lost) :
    Audited g p lost ∧ (∀ q ∈ past, ∃ lost, Audited g q lost) ∧
      (p :: past).Pairwise fun later earlier => ∀ shard,
        (earlier.cache.bucket shard).counters.AtMost (later.cache.bucket shard).counters := by
  induction h with
  | start => exact ⟨audited_start g seed, by simp, List.pairwise_singleton _ _⟩
  | step _ hcounted ih =>
    obtain ⟨haudited, hpast, hordered⟩ := ih
    obtain ⟨hnext, hgrows, -⟩ := haudited.step hcounted
    refine ⟨hnext, List.forall_mem_cons.2 ⟨⟨_, haudited⟩, hpast⟩,
      List.pairwise_cons.2 ⟨?_, hordered⟩⟩
    have hbefore := (List.pairwise_cons.1 hordered).1
    exact List.forall_mem_cons.2
      ⟨hgrows, fun earlier hearlier shard => (hbefore earlier hearlier shard).trans (hgrows shard)⟩

/-- No bucket has put back more slots than it has taken from its free stack. -/
theorem Audited.frees_le (h : Audited g p lost) (shard : Fin Geometry.bucketCount) :
    (p.cache.bucket shard).counters.frees ≤ (p.cache.bucket shard).counters.allocations := by
  obtain ⟨lost, hslots, -⟩ := h.balanced shard
  have hlength := (h.kept.keeps.bucket shard).owned.length_eq
  omega

/-- No counter of a bucket is above that of the cache. -/
theorem atMost_counters (cache : Cache) (shard : Fin Geometry.bucketCount) :
    (cache.bucket shard).counters.AtMost cache.counters := by
  refine Counters.atMost_of_readings fun f hzero hadd => ?_
  rw [cache.counters_eq_sum f hzero hadd]
  exact single_le_sum_of_canonicallyOrdered (f := fun shard => f (cache.bucket shard).counters)
    (mem_univ shard)

/-- As long as the lookups are a number of 64 bits, so is everything that is counted. -/
theorem Audited.fit (h : Audited g p lost)
    (hbound : p.cache.counters.lookups < Geometry.sizeLimit) : p.cache.counters.Fit := by
  obtain ⟨hlookups, hslots, -⟩ := h.tally
  have hfrees : p.cache.counters.frees ≤ p.cache.counters.allocations := by
    rw [Cache.frees_eq_sum, Cache.allocations_eq_sum]
    exact sum_le_sum fun shard _ => h.frees_le shard
  constructor <;> omega

/-- A run looks for no more pages than it takes steps. -/
theorem History.lookups_le {config : Config} {cache : Cache}
    (hcache : Cache.ofConfig config seed = .ok cache)
    (h : History .returning cache p past lost) :
    p.cache.counters.lookups ≤ past.length := by
  obtain ⟨g, -, rfl⟩ := Cache.eq_of_ofConfig_eq_ok hcache
  induction h with
  | start => exact Nat.le_of_eq (congrArg Counters.lookups (Cache.counters_ofGeometry_eq g seed))
  | step hbefore hcounted ih =>
    obtain ⟨-, -, hone⟩ := hbefore.audited.1.step hcounted
    exact hone.trans (Nat.succ_le_succ ih)

theorem count_refused (p : Pool) :
    p.standings.count .refused = p.tasks.countP (·.call.outcome.refused) := by
  rw [standings, List.count, List.countP_map]
  exact List.countP_congr fun t _ => by simp [Call.outcome_refused]

theorem count_failed (p : Pool) :
    p.standings.count .failed = p.tasks.countP (·.call.outcome.failed) := by
  rw [standings, List.count, List.countP_map]
  exact List.countP_congr fun t _ => by simp [Call.outcome_failed]

/-- When no call is under way none waits for a slot or holds one. -/
theorem count_of_ended (hended : ∀ t ∈ p.tasks, t.call.active = false) :
    p.standings.count .waiting = 0 ∧ p.standings.count .holding = 0 := by
  constructor <;> refine List.count_eq_zero.2 fun hmem => ?_ <;>
    obtain ⟨t, ht, hstanding⟩ := List.mem_map.1 hmem <;>
    have hsettled := Call.standing_of_active_eq_false (hended t ht) <;>
    simp [hstanding] at hsettled

/-- The slots in use are those of resident pages when no call is under way. -/
theorem Audited.slotsInUse_eq (h : Audited g p lost)
    (hended : ∀ t ∈ p.tasks, t.call.active = false) :
    p.cache.counters.slotsInUse = p.cache.residentPages := by
  have hheld (shard : Fin Geometry.bucketCount) : heldBy p.cache p.tasks shard = [] := by
    refine List.eq_nil_iff_forall_not_mem.2 fun slot hslot => ?_
    obtain ⟨i, t, ht, -, hsome⟩ := mem_heldBy.1 hslot
    have hactive := Call.active_of_slot?_eq_some hsome
    rw [hended t (List.mem_of_getElem? ht)] at hactive
    exact absurd hactive (by simp)
  have hsum : p.cache.counters.allocations
      = p.cache.counters.frees + p.cache.residentPages := by
    rw [Cache.allocations_eq_sum, Cache.frees_eq_sum, Cache.residentPages_eq_sum, ← sum_add_distrib]
    refine sum_congr rfl fun shard _ => ?_
    obtain ⟨lost, hslots, -⟩ := h.balanced shard
    have hlength := (h.kept.keeps.bucket shard).owned.length_eq
    rw [hheld, List.length_nil] at hlength
    omega
  rw [Counters.slotsInUse, hsum, Nat.add_sub_cancel_left]

/-- In every interleaving of calls whose sources return, the counters account for the calls: when
none is under way, every miss has taken a slot or ended its call for want of one, every slot taken
was published or ended its call because of the source, and every slot put back was one of the latter
or belonged to a page fetched twice. No counter ever shrinks, and sums of rows that were taken at
different moments have no more hits than lookups and no more slots put back than taken.

With fewer than `2 ^ 64` lookups, 64 bits can hold every counter of every bucket at every moment, so
no counter runs over. Adding up rows of different moments in words gives their exact sum then, and
neither the misses nor the slots in use of that sum run under zero. -/
theorem counters_account_for_calls {config : Config} {cache : Cache}
    (hcache : Cache.ofConfig config seed = .ok cache)
    (hhistory : History .returning cache p past lost) :
    ((∀ t ∈ p.tasks, t.call.active = false) →
      let counters := p.cache.counters
      let refused := p.tasks.countP (·.call.outcome.refused)
      let failed := p.tasks.countP (·.call.outcome.failed)
      counters.misses = counters.allocations + counters.evictions + refused ∧
      counters.allocations + counters.evictions = counters.inserts + failed ∧
      counters.frees = failed + lost ∧
      counters.slotsInUse = p.cache.residentPages) ∧
    ((p :: past).Pairwise fun later earlier => ∀ shard,
      (earlier.cache.bucket shard).counters.AtMost (later.cache.bucket shard).counters) ∧
    (∀ q ∈ p :: past, ∀ shard,
      (q.cache.bucket shard).counters.hits ≤ (q.cache.bucket shard).counters.lookups ∧
      (q.cache.bucket shard).counters.frees ≤ (q.cache.bucket shard).counters.allocations ∧
      (p.cache.counters.lookups < Geometry.sizeLimit → (q.cache.bucket shard).counters.Fit)) ∧
    ∀ moment : Fin Geometry.bucketCount → Pool, (∀ shard, moment shard ∈ p :: past) →
      let rows := List.ofFn fun shard => ((moment shard).cache.bucket shard).counters
      let stats := Counters.sum rows
      stats.hits ≤ stats.lookups ∧ stats.frees ≤ stats.allocations ∧
      (p.cache.counters.lookups < Geometry.sizeLimit → Counters.sum? rows = some stats ∧
        stats.misses? = some stats.misses ∧ stats.slotsInUse? = some stats.slotsInUse) := by
  obtain ⟨g, hg, rfl⟩ := Cache.eq_of_ofConfig_eq_ok hcache
  obtain ⟨haudited, hpast, hordered⟩ := hhistory.audited
  have hall : ∀ q ∈ p :: past, ∃ lost, Audited g q lost :=
    List.forall_mem_cons.2 ⟨⟨lost, haudited⟩, hpast⟩
  -- the latest rows bound those of any moment
  have hlatest : ∀ q ∈ p :: past, ∀ shard,
      (q.cache.bucket shard).counters.AtMost (p.cache.bucket shard).counters :=
    List.forall_mem_cons.2 ⟨fun _ => .refl _, (List.pairwise_cons.1 hordered).1⟩
  have hhits (q : Pool) (hq : q ∈ p :: past) (shard : Fin Geometry.bucketCount) :
      (q.cache.bucket shard).counters.hits ≤ (q.cache.bucket shard).counters.lookups := by
    obtain ⟨lost, haudited⟩ := hall q hq
    exact haudited.hits_le shard
  have hfrees (q : Pool) (hq : q ∈ p :: past) (shard : Fin Geometry.bucketCount) :
      (q.cache.bucket shard).counters.frees ≤ (q.cache.bucket shard).counters.allocations := by
    obtain ⟨lost, haudited⟩ := hall q hq
    exact haudited.frees_le shard
  refine ⟨fun hended => ?_, hordered, fun q hq shard => ⟨hhits q hq shard, hfrees q hq shard,
    fun hbound => ?_⟩, fun moment hmoment => ?_⟩
  · intro counters refused failed
    obtain ⟨hlookups, hslots, hfrees⟩ := haudited.tally
    obtain ⟨hwaiting, hholding⟩ := count_of_ended hended
    rw [count_refused, hwaiting] at hlookups
    rw [count_failed, hholding] at hslots
    rw [count_failed] at hfrees
    have hmisses : p.cache.counters.misses = p.cache.counters.allocations
        + p.cache.counters.evictions + p.tasks.countP (·.call.outcome.refused) := by
      rw [Counters.misses]
      omega
    exact ⟨hmisses, hslots, hfrees, haudited.slotsInUse_eq hended⟩
  · exact (haudited.fit hbound).of_atMost
      ((hlatest q hq shard).trans (atMost_counters p.cache shard))
  · intro rows stats
    have hstats (f : Counters → Nat) (hzero : f {} = 0) (hadd : ∀ a b, f (a + b) = f a + f b) :
        f stats = ∑ shard, f ((moment shard).cache.bucket shard).counters := by
      rw [Counters.sum_eq f hzero hadd, List.map_ofFn, List.sum_ofFn]
      rfl
    have hstatsHits : stats.hits ≤ stats.lookups := by
      rw [hstats (·.hits) rfl fun _ _ => rfl, hstats (·.lookups) rfl fun _ _ => rfl]
      exact sum_le_sum fun shard _ => hhits _ (hmoment shard) shard
    have hstatsFrees : stats.frees ≤ stats.allocations := by
      rw [hstats (·.frees) rfl fun _ _ => rfl, hstats (·.allocations) rfl fun _ _ => rfl]
      exact sum_le_sum fun shard _ => hfrees _ (hmoment shard) shard
    refine ⟨hstatsHits, hstatsFrees, fun hbound => ⟨?_, Counters.misses?_of_le hstatsHits,
      Counters.slotsInUse?_of_le hstatsFrees⟩⟩
    have hbelow : stats.AtMost p.cache.counters := by
      refine Counters.atMost_of_readings fun f hzero hadd => ?_
      rw [hstats f hzero hadd, p.cache.counters_eq_sum f hzero hadd]
      exact sum_le_sum fun shard _ => (hlatest _ (hmoment shard) shard).reading_le hadd
    rw [Counters.sum?_eq]
    exact if_pos ((haudited.fit hbound).of_atMost hbelow)

/-- A run of the smallest cache with one call, whose source fails. The row of the bucket of
its page is taken at the end, and the others before it starts. -/
theorem counters_account_for_calls_of_failed_call :
    ∃ cache p past, Cache.ofConfig ⟨1, 1⟩ 7 = .ok cache ∧ History .returning cache p past 0 ∧
      p.tasks.countP (·.call.outcome.failed) = 1 ∧ p.cache.counters.frees = 1 ∧
      p.cache.counters.misses = p.cache.counters.allocations + p.cache.counters.evictions ∧
      p.cache.counters.lookups < Geometry.sizeLimit ∧
      let moment := fun shard => if shard = cache.shardOf ⟨0, 2⟩ then p else ⟨cache, []⟩
      ∃ stats, Counters.sum? (List.ofFn fun shard => ((moment shard).cache.bucket shard).counters)
          = some stats ∧
        stats.misses? = some stats.misses ∧ stats.slotsInUse? = some stats.slotsInUse := by
  have hcache : Cache.ofConfig ⟨1, 1⟩ 7 = .ok (.ofGeometry ⟨0, 64⟩ 7) := rfl
  have hkeeps : (Cache.ofGeometry ⟨0, 64⟩ 7).Keeps (fun _ _ => False) fun _ => [] :=
    Cache.keeps_ofGeometry ⟨0, 64⟩ 7
  have hgeometry : (Cache.ofGeometry ⟨0, 64⟩ 7).geometry = ⟨0, 64⟩ := rfl
  generalize Cache.ofGeometry ⟨0, 64⟩ 7 = cache at hcache hkeeps hgeometry
  have hpages : 1 ≤ cache.geometry.pagesPerBucket := by
    rw [hgeometry]
    exact Nat.le_refl 1
  have hshift : cache.geometry.pageShift = 0 := by rw [hgeometry]
  let r : Request := ⟨⟨0, 5⟩, 2, [0, 0]⟩
  let c : Call := .start r.view 0 r.offset r.buffer
  obtain ⟨hmiss, slot, hslot⟩ := hkeeps.misses (c := c) (fun _ hgood => hgood) hpages
    (by rw [hshift]; rfl)
  obtain ⟨hcall, -⟩ := Call.touch_of_grant (c := { c with phase := .acquire }) rfl hslot
  have hadmits : Rules.returning.admits r := trivial
  have hstarted : History .returning cache _ _ _ := History.start.step (.start _ r hadmits)
  rw [hshift] at hstarted
  have hlooked := hstarted.step (.touch cache [] [] ⟨r, c⟩)
  rw [Call.touch_of_miss rfl hmiss] at hlooked
  have hfetching := hlooked.step (.touch _ [] [] ⟨r, { c with phase := .acquire }⟩)
  rw [hcall] at hfetching
  have hanswer : Rules.returning.answers { c with phase := .fetch slot }
      ⟨.failed ⟨.other, none⟩, []⟩ := ⟨by simp, by simp⟩
  have hfailed := hfetching.step (.receive _ [] [] ⟨r, { c with phase := .fetch slot }⟩ slot
    ⟨.failed ⟨.other, none⟩, []⟩ rfl hanswer)
  have hreleased := hfailed.step (.touch _ [] [] ⟨r, _⟩)
  obtain ⟨hclosed, -, -, hrows⟩ := counters_account_for_calls hcache hreleased
  obtain ⟨hmisses, -, hfrees, -⟩ := hclosed fun t ht => by
    obtain rfl := List.mem_singleton.1 ht
    rfl
  have hbound := Nat.lt_of_le_of_lt (hreleased.lookups_le hcache)
    (by decide : 5 < Geometry.sizeLimit)
  obtain ⟨-, -, hwords⟩ := hrows
    (fun shard => if shard = cache.shardOf ⟨0, 2⟩ then _ else ⟨cache, []⟩) fun shard => by
      dsimp only
      split
      · exact List.mem_cons_self
      · simp
  exact ⟨cache, _, _, hcache, hreleased, rfl, hfrees, hmisses, hbound, _, hwords hbound⟩

end Pool

end ReadThrough
