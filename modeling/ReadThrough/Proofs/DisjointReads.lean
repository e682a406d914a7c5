import Mathlib.Logic.Function.Basic
import ReadThrough.Proofs.Steps

/-!
# Reads in disjoint buckets

`Interleaving` lets any number of calls take their steps in any order. If no two of them have pages
ahead in one bucket, each call and each bucket comes to what it comes to when the call is alone
(`Interleaving.run_alone`), and so reads in disjoint buckets commute
(`Errand.disjoint_reads_commute`).
-/

namespace ReadThrough

/-! ## Steps in any order -/

/-- Calls on one cache. -/
structure Interleaving (ι : Type) where
  calls : ι → Call
  cache : Cache

namespace Interleaving

variable {ι : Type} [DecidableEq ι] (answers : ι → Nat → Bytes → Transfer)

/-- One of the calls takes its next step. -/
def step (s : Interleaving ι) (i : ι) : Interleaving ι where
  calls := Function.update s.calls i ((s.calls i).next (answers i) s.cache).1
  cache := ((s.calls i).next (answers i) s.cache).2

/-- The calls take steps in the given order. -/
def run (turns : List ι) (s : Interleaving ι) : Interleaving ι := turns.foldl (step answers) s

/-- No two calls have pages ahead in one bucket. -/
def Apart (s : Interleaving ι) : Prop :=
  ∀ i j, i ≠ j → ((s.calls i).shards s.cache).Disjoint ((s.calls j).shards s.cache)

variable {s : Interleaving ι}

theorem calls_step_self (s : Interleaving ι) (i : ι) :
    (s.step answers i).calls i = ((s.calls i).next (answers i) s.cache).1 :=
  Function.update_self ..

theorem calls_step_of_ne (s : Interleaving ι) {i j : ι} (h : j ≠ i) :
    (s.step answers i).calls j = s.calls j :=
  Function.update_of_ne h ..

theorem ready_step (h : ∀ i, (s.calls i).Ready) (i j : ι) : ((s.step answers i).calls j).Ready := by
  by_cases hj : j = i
  · subst hj
    rw [calls_step_self]
    exact (h j).next (answers j) s.cache
  · rw [calls_step_of_ne answers s hj]
    exact h j

theorem shards_step_subset (h : ∀ i, (s.calls i).Ready) (i j : ι) :
    ((s.step answers i).calls j).shards (s.step answers i).cache ⊆ (s.calls j).shards s.cache := by
  by_cases hj : j = i
  · subst hj
    rw [calls_step_self]
    exact (h j).shards_next_subset (answers j) s.cache
  · have hseed : (s.step answers i).cache.seed = s.cache.seed := Call.seed_next ..
    rw [calls_step_of_ne answers s hj, Call.shards, Cache.shardOf_eq_of_seed_eq hseed]
    exact List.Subset.refl _

/-- Among calls that are apart each call comes to what it comes to alone, and so does each bucket
that no other call has pages ahead in. -/
theorem run_alone (hready : ∀ i, (s.calls i).Ready) (hapart : s.Apart) (turns : List ι) :
    let last := s.run answers turns
    let alone i := (s.calls i).stepsFor (answers i) (turns.count i) s.cache
    last.cache.geometry = s.cache.geometry ∧ last.cache.seed = s.cache.seed ∧
      (∀ i, last.calls i = (alone i).1) ∧
      ∀ i shard, (∀ j, j ≠ i → shard ∉ (s.calls j).shards s.cache) →
        last.cache.bucket shard = (alone i).2.bucket shard := by
  induction turns generalizing s with
  | nil => exact ⟨rfl, rfl, fun _ => rfl, fun _ _ _ => rfl⟩
  | cons k turns ih =>
    have hsubset := shards_step_subset answers hready k
    obtain ⟨hgeometry, hseed, hcalls, hbuckets⟩ := ih (ready_step answers hready k)
      fun i j hij _ hi hj => hapart i j hij (hsubset i hi) (hsubset j hj)
    have hgeometry' : (s.step answers k).cache.geometry = s.cache.geometry :=
      Call.geometry_next ..
    have hseed' : (s.step answers k).cache.seed = s.cache.seed := Call.seed_next ..
    -- Alone, too, the call whose turn it is takes this step first; no other call sees it.
    have hself : ((s.step answers k).calls k).stepsFor (answers k) (turns.count k)
          (s.step answers k).cache
        = (s.calls k).stepsFor (answers k) ((k :: turns).count k) s.cache := by
      rw [List.count_cons_self, Call.stepsFor, calls_step_self]
      rfl
    have hother {i : ι} (hi : i ≠ k) : (s.step answers k).calls i = s.calls i ∧
        (k :: turns).count i = turns.count i :=
      ⟨calls_step_of_ne answers s hi, List.count_cons_of_ne (Ne.symm hi)⟩
    have hframe {shard : Fin Geometry.bucketCount} (hshard : shard ∉ (s.calls k).shards s.cache) :
        (s.step answers k).cache.bucket shard = s.cache.bucket shard :=
      (hready k).bucket_next (answers k) hshard
    have hunseen {i : ι} (hi : i ≠ k) := (hready i).stepsFor_congr (answers i) hseed'
      (fun shard hshard => hframe (hapart i k hi hshard)) (turns.count i)
    refine ⟨hgeometry.trans hgeometry', hseed.trans hseed', fun i => ?_, fun i shard hshard => ?_⟩
    · refine (hcalls i).trans ?_
      dsimp only
      by_cases hi : i = k
      · subst hi
        rw [hself]
      · rw [(hother hi).1, (hother hi).2]
        exact (hunseen hi).1
    · refine (hbuckets i shard fun j hj hmem => hshard j hj (hsubset j hmem)).trans ?_
      dsimp only
      by_cases hi : i = k
      · subst hi
        rw [hself]
      · rw [(hother hi).1, (hother hi).2]
        exact (hunseen hi).2 shard (hframe (hshard k (Ne.symm hi)))

end Interleaving

/-! ## Reads in disjoint buckets -/

namespace Errand

/-- The buckets of the pages of a read. -/
def shards (e : Errand) (cache : Cache) : List (Fin Geometry.bucketCount) :=
  (e.request.pages cache.geometry.pageSize).map cache.shardOf

variable {a b e : Errand} {cache cache' : Cache}

theorem shards_started (e : Errand) (cache : Cache) :
    (e.started cache).shards cache = e.shards cache :=
  congrArg (List.map cache.shardOf) (e.keysAhead_started cache).1

/-- A read changes no bucket but those of its pages. -/
theorem bucket_run {shard : Fin Geometry.bucketCount} (hshard : shard ∉ e.shards cache) :
    (e.run cache).2.bucket shard = cache.bucket shard := by
  rw [run_eq_stepsFor (e.active_stepsFor cache Nat.le.refl)]
  rw [← e.shards_started cache] at hshard
  exact (e.ready_started cache).bucket_stepsFor e.answer _ hshard

/-- A read that finds the buckets of its pages as they were ends as it did, and makes the same of
each bucket that is as it was. -/
theorem run_congr (hgeometry : cache'.geometry = cache.geometry) (hseed : cache'.seed = cache.seed)
    (hshards : ∀ shard ∈ e.shards cache, cache'.bucket shard = cache.bucket shard) :
    (e.run cache').1 = (e.run cache).1 ∧
      ∀ shard, cache'.bucket shard = cache.bucket shard →
        (e.run cache').2.bucket shard = (e.run cache).2.bucket shard := by
  have hstarted : e.started cache' = e.started cache := by
    rw [started, started, hgeometry]
  rw [← e.shards_started cache] at hshards
  have hsame := (e.ready_started cache).stepsFor_congr e.answer hseed hshards
    (e.started cache).stepBound
  rw [run_eq_stepsFor (e.active_stepsFor cache Nat.le.refl),
    run_eq_stepsFor (e.active_stepsFor cache' Nat.le.refl), stepsFor, stepsFor, hstarted]
  exact ⟨congrArg Call.result hsame.1, hsame.2⟩

/-- After a read in other buckets a read ends as it does without, and every bucket has what the one
read or the other makes of it. -/
theorem run_run (hapart : (a.shards cache).Disjoint (b.shards cache)) :
    (b.run (a.run cache).2).1 = (b.run cache).1 ∧
      ∀ shard, (b.run (a.run cache).2).2.bucket shard = if shard ∈ a.shards cache
        then (a.run cache).2.bucket shard else (b.run cache).2.bucket shard := by
  have hcongr := run_congr (e := b) (a.geometry_run cache) (a.seed_run cache)
    fun shard hb => bucket_run fun ha => hapart ha hb
  refine ⟨hcongr.1, fun shard => ?_⟩
  split
  · rename_i ha
    have hb : shard ∉ b.shards (a.run cache).2 := by
      rw [shards, a.geometry_run, Cache.shardOf_eq_of_seed_eq (a.seed_run cache)]
      exact hapart ha
    exact bucket_run hb
  · rename_i ha
    exact hcongr.2 shard (bucket_run ha)

/-- Two reads before their first steps. -/
def abreast (a b : Errand) (cache : Cache) : Interleaving Bool where
  calls second := (if second then b else a).started cache
  cache := cache

/-- What two reads come to that take their steps in the given order: `false` for a step of the
first. -/
def interleave (a b : Errand) (turns : List Bool) (cache : Cache) : Interleaving Bool :=
  (a.abreast b cache).run (fun second => (if second then b else a).answer) turns

/-- The two calls come to what they come to alone, and each bucket is left to one of them. -/
theorem interleave_alone (hapart : (a.shards cache).Disjoint (b.shards cache))
    (turns : List Bool) :
    let last := a.interleave b turns cache
    let ofA := a.stepsFor cache (turns.count false)
    let ofB := b.stepsFor cache (turns.count true)
    last.cache.geometry = cache.geometry ∧ last.cache.seed = cache.seed ∧
      last.calls false = ofA.1 ∧ last.calls true = ofB.1 ∧
      ∀ shard, last.cache.bucket shard = if shard ∈ a.shards cache
        then ofA.2.bucket shard else ofB.2.bucket shard := by
  intro last ofA ofB
  have hready (second : Bool) : ((a.abreast b cache).calls second).Ready := ready_started _ _
  have hshards (second : Bool) :
      ((a.abreast b cache).calls second).shards (a.abreast b cache).cache
        = (if second then b else a).shards cache := shards_started _ _
  have hpair : (a.abreast b cache).Apart := by
    intro i j hij shard hi hj
    rw [hshards] at hi hj
    cases i <;> cases j
    · exact hij rfl
    · exact hapart hi hj
    · exact hapart hj hi
    · exact hij rfl
  obtain ⟨hgeometry, hseed, hcalls, hbuckets⟩ :=
    Interleaving.run_alone (fun second => (if second then b else a).answer) hready hpair turns
  refine ⟨hgeometry, hseed, hcalls false, hcalls true, fun shard => ?_⟩
  split
  · rename_i ha
    refine hbuckets false shard fun j hj => ?_
    rw [hshards, Bool.eq_true_of_not_eq_false hj]
    exact hapart ha
  · rename_i ha
    refine hbuckets true shard fun j hj => ?_
    rw [hshards, Bool.eq_false_of_not_eq_true hj]
    exact ha

/-- Two reads whose pages lie in disjoint buckets end the same and make the same of the cache, its
counters with it, in either order and with their steps in any order. Each leaves all other buckets
as they are. -/
theorem disjoint_reads_commute (cache : Cache) (a b : Errand)
    (hapart : (a.shards cache).Disjoint (b.shards cache)) :
    let ofA := a.run cache
    let ofB := b.run cache
    let both := b.run ofA.2
    both.1 = ofB.1 ∧ a.run ofB.2 = (ofA.1, both.2) ∧
      (∀ shard, shard ∉ a.shards cache → ofA.2.bucket shard = cache.bucket shard) ∧
      (∀ shard, shard ∉ b.shards cache → ofB.2.bucket shard = cache.bucket shard) ∧
      ∀ turns : List Bool,
        let last := a.interleave b turns cache
        (∀ shard, last.cache.bucket shard = if shard ∈ a.shards cache
          then (a.stepsFor cache (turns.count false)).2.bucket shard
          else (b.stepsFor cache (turns.count true)).2.bucket shard) ∧
        ((a.started cache).stepBound ≤ turns.count false → (last.calls false).active = false) ∧
        ((b.started cache).stepBound ≤ turns.count true → (last.calls true).active = false) ∧
        ((last.calls false).active = false → (last.calls false).result = ofA.1) ∧
        ((last.calls true).active = false → (last.calls true).result = ofB.1) ∧
        ((last.calls false).active = false → (last.calls true).active = false →
          last.cache = both.2 ∧ last.cache.counters = both.2.counters) := by
  intro ofA ofB both
  obtain ⟨hboth, hbothBuckets⟩ := run_run hapart
  obtain ⟨hswapped, hswappedBuckets⟩ := run_run hapart.symm
  have hgeometry {x y : Errand} : (y.run (x.run cache).2).2.geometry = cache.geometry :=
    (y.geometry_run _).trans (x.geometry_run cache)
  have hseed {x y : Errand} : (y.run (x.run cache).2).2.seed = cache.seed :=
    (y.seed_run _).trans (x.seed_run cache)
  have horder : (a.run ofB.2).2 = both.2 := by
    refine Cache.ext_bucket (hgeometry.trans hgeometry.symm) (hseed.trans hseed.symm)
      fun shard => ?_
    rw [hbothBuckets, hswappedBuckets]
    by_cases ha : shard ∈ a.shards cache
    · rw [if_pos ha, if_neg (hapart ha)]
    · rw [if_neg ha, bucket_run ha]
      split
      · rfl
      · rename_i hb
        rw [bucket_run hb]
  refine ⟨hboth, Prod.ext hswapped horder, fun _ => bucket_run, fun _ => bucket_run,
    fun turns => ?_⟩
  intro last
  obtain ⟨hgeometry', hseed', hcallA, hcallB, hbuckets⟩ := interleave_alone hapart turns
  refine ⟨hbuckets, fun hturns => ?_, fun hturns => ?_, fun hended => ?_, fun hended => ?_,
    fun hendedA hendedB => ?_⟩
  · rw [hcallA]
    exact a.active_stepsFor cache hturns
  · rw [hcallB]
    exact b.active_stepsFor cache hturns
  · rw [hcallA] at hended ⊢
    rw [show ofA = _ from run_eq_stepsFor hended]
  · rw [hcallB] at hended ⊢
    rw [show ofB = _ from run_eq_stepsFor hended]
  · rw [hcallA] at hendedA
    rw [hcallB] at hendedB
    have hcache : last.cache = both.2 := by
      refine Cache.ext_bucket (hgeometry'.trans hgeometry.symm) (hseed'.trans hseed.symm)
        fun shard => ?_
      rw [hbuckets, hbothBuckets, run_eq_stepsFor hendedA, run_eq_stepsFor hendedB]
    exact ⟨hcache, congrArg Cache.counters hcache⟩

/-- With pages of two bytes: a read whose source fails at its second page, step by step with a read
of another object. -/
theorem disjoint_reads_commute_of_failing :
    let cache := Cache.ofGeometry ⟨1, 64⟩ 7
    let cut : Errand := ⟨⟨⟨1, 4⟩, 0, [0, 0, 0, 0]⟩, fun offset _ =>
      if offset = 0 then ⟨.count 2, [8, 9]⟩ else ⟨.failed ⟨.other, none⟩, []⟩⟩
    let whole : Errand := ⟨⟨⟨2, 4⟩, 0, [0, 0, 0, 0]⟩, fun _ _ => ⟨.count 2, [6, 7]⟩⟩
    let turns := (List.replicate 16 [false, true]).flatten
    (cut.shards cache).Disjoint (whole.shards cache) ∧
      (cut.interleave whole turns cache).cache = (whole.run (cut.run cache).2).2 ∧
      ((cut.interleave whole turns cache).calls false).result = (cut.run cache).1 := by
  intro cache cut whole turns
  have hshards : ∀ shard ∈ cut.shards cache, shard ∉ whole.shards cache := by decide +kernel
  have hapart : (cut.shards cache).Disjoint (whole.shards cache) := fun _ hcut => hshards _ hcut
  obtain ⟨-, -, -, -, hturns⟩ := disjoint_reads_commute cache cut whole hapart
  obtain ⟨-, hcut, hwhole, hresult, -, hcache⟩ := hturns turns
  have hendedCut := hcut (by decide)
  have hendedWhole := hwhole (by decide)
  exact ⟨hapart, (hcache hendedCut hendedWhole).1, hresult hendedCut⟩

end Errand

end ReadThrough
