import Mathlib.Data.List.Nodup
import ReadThrough.Proofs.Pool

/-!
# When slots run out

A slot is in flight while it is neither free nor bound. In every pool whose sources return, the
slots in flight are those that calls hold, each of them one call and each call at most one
(`Pool.Accounted`). So a bucket has no slot to hand out exactly when calls hold all of its slots,
and a call can find that only if more calls are under way than a bucket has slots.
-/

namespace ReadThrough

/-! ## Slots in flight -/

namespace Bucket

variable {ι : Type} [EvictionPolicy ι PageKey Slot] [LawfulPolicy ι] {b : Bucket ι}
  {held : List Slot} {slot : Slot}

/-- The slot is off the free stack and no page is bound to it. -/
def InFlight (b : Bucket ι) (slot : Slot) : Prop :=
  slot < b.capacity ∧ slot ∉ b.free ∧ slot ∉ b.boundSlots

/-- The slots in flight are those that are held. -/
theorem Owned.inFlight_iff (h : b.Owned held) : b.InFlight slot ↔ slot ∈ held := by
  refine ⟨?_, h.of_mem_held⟩
  rintro ⟨hlt, hfree, hbound⟩
  have hcount := h.count slot
  rw [List.count_eq_zero.2 hfree, List.count_eq_zero.2 hbound, List.count_range, if_pos hlt]
    at hcount
  exact List.count_pos_iff.1 (by omega)

end Bucket

/-! ## Who holds them -/

namespace Cache

variable {cache : Cache} {c : Call} {shard : Fin Geometry.bucketCount} {slot : Slot}

theorem mem_slotsOf :
    slot ∈ cache.slotsOf c shard ↔ cache.shardOf c.key = shard ∧ c.slot? = some slot := by
  rw [slotsOf, slotsAt]
  split
  · rename_i hshard
    simp [hshard]
  · rename_i hshard
    simp [hshard]

/-- A call under way holds at most one slot of a bucket, any other call none. -/
theorem length_slotsOf_le (cache : Cache) (c : Call) (shard : Fin Geometry.bucketCount) :
    (cache.slotsOf c shard).length ≤ c.active.toNat := by
  rw [slotsOf, slotsAt]
  split
  · cases hslot : c.slot? with
    | none => exact Nat.zero_le _
    | some slot =>
      rw [Call.active_of_slot?_eq_some hslot]
      exact Nat.le_refl 1
  · exact Nat.zero_le _

end Cache

namespace Pool

/-- The number of calls under way. -/
def active (p : Pool) : Nat := p.tasks.countP (·.call.active)

/-- The call at place `i` holds a slot of a bucket. -/
def Holds (p : Pool) (i : Nat) (shard : Fin Geometry.bucketCount) (slot : Slot) : Prop :=
  ∃ t, p.tasks[i]? = some t ∧ p.cache.shardOf t.call.key = shard ∧ t.call.slot? = some slot

theorem length_heldBy_le (cache : Cache) (tasks : List Task) (shard : Fin Geometry.bucketCount) :
    (heldBy cache tasks shard).length ≤ tasks.countP (·.call.active) := by
  induction tasks with
  | nil => exact Nat.le_refl 0
  | cons t tasks ih =>
    have hone := cache.length_slotsOf_le t.call shard
    have hcons : heldBy cache (t :: tasks) shard
        = cache.slotsOf t.call shard ++ heldBy cache tasks shard := rfl
    rw [hcons, List.length_append, List.countP_cons]
    cases hactive : t.call.active <;> rw [hactive] at hone <;>
      simp only [Bool.toNat_false, Bool.toNat_true, Bool.false_eq_true, if_false, if_true] at hone ⊢
    · omega
    · omega

theorem mem_heldBy {p : Pool} {shard : Fin Geometry.bucketCount} {slot : Slot} :
    slot ∈ heldBy p.cache p.tasks shard ↔ ∃ i, p.Holds i shard slot := by
  simp only [heldBy, List.mem_flatMap, Cache.mem_slotsOf, Holds]
  constructor
  · rintro ⟨t, ht, hslot⟩
    obtain ⟨i, hi⟩ := List.mem_iff_getElem?.1 ht
    exact ⟨i, t, hi, hslot⟩
  · rintro ⟨i, t, hi, hslot⟩
    exact ⟨t, List.mem_of_getElem? hi, hslot⟩

/-- No two calls hold the same slot if the slots held are all different. -/
theorem holds_unique {p : Pool} {shard : Fin Geometry.bucketCount} {slot : Slot}
    (hnodup : (heldBy p.cache p.tasks shard).Nodup) {i j : Nat} (hi : p.Holds i shard slot)
    (hj : p.Holds j shard slot) : i = j := by
  have hdisjoint := (List.nodup_flatMap.1 hnodup).2
  -- Of two places the later one cannot hold what the earlier one holds.
  have hordered {i j : Nat} (hi : p.Holds i shard slot) (hj : p.Holds j shard slot) : ¬ i < j := by
    intro hlt
    obtain ⟨t, ht, hslot⟩ := hi
    obtain ⟨u, hu, hslot'⟩ := hj
    obtain ⟨hi, rfl⟩ := List.getElem?_eq_some_iff.1 ht
    obtain ⟨hj, rfl⟩ := List.getElem?_eq_some_iff.1 hu
    have hapart := List.pairwise_iff_getElem.1 hdisjoint i j hi hj hlt
    exact hapart (Cache.mem_slotsOf.2 hslot) (Cache.mem_slotsOf.2 hslot')
  have hij := hordered hi hj
  have hji := hordered hj hi
  omega

/-! ## The account of slots in flight -/

/-- The slots in flight are those that calls under way hold, and none can be had from a bucket
exactly when all of its slots are in flight. -/
structure Accounted (p : Pool) : Prop where
  /-- A slot in flight is held by one call. -/
  holder : ∀ (shard : Fin Geometry.bucketCount) (slot : Slot),
    (p.cache.bucket shard).InFlight slot ↔ ∃! i, p.Holds i shard slot
  /-- A call that holds a slot is under way and holds no other in the whole cache. -/
  single : ∀ i shard slot, p.Holds i shard slot →
    (∃ t, p.tasks[i]? = some t ∧ t.call.active = true) ∧
      ∀ shard' slot', p.Holds i shard' slot' → shard' = shard ∧ slot' = slot
  /-- No slot is handed out when and only when all are in flight. -/
  exhausted : ∀ shard : Fin Geometry.bucketCount, (p.cache.bucket shard).acquire.1.slot? = none ↔
    ∀ slot < p.cache.geometry.pagesPerBucket, (p.cache.bucket shard).InFlight slot

theorem Kept.accounted {K : Contract} {rules : Rules} {p : Pool} (h : Kept K rules p) :
    p.Accounted := by
  have howned (shard : Fin Geometry.bucketCount) := (h.keeps.bucket shard).owned
  refine ⟨?_, ?_, ?_⟩
  · intro shard slot
    rw [(howned shard).inFlight_iff, mem_heldBy]
    constructor
    · rintro ⟨i, hi⟩
      exact ⟨i, hi, fun j hj => holds_unique (howned shard).nodup_held hj hi⟩
    · exact ExistsUnique.exists
  · rintro i shard slot ⟨t, ht, rfl, hslot⟩
    refine ⟨⟨t, ht, Call.active_of_slot?_eq_some hslot⟩, ?_⟩
    rintro shard' slot' ⟨u, hu, rfl, hslot'⟩
    obtain rfl : t = u := Option.some.inj (ht.symm.trans hu)
    exact ⟨rfl, Option.some.inj (hslot'.symm.trans hslot)⟩
  · intro shard
    rw [(howned shard).acquire_eq_none_iff, (h.keeps.shape shard).1]
    simp only [(howned shard).inFlight_iff]

/-! ## Too many calls -/

/-- A call that finds all slots of its bucket held is one of more calls than the bucket has
slots. -/
theorem Kept.pagesPerBucket_lt_active {K : Contract} {rules : Rules} {p : Pool}
    (h : Kept K rules p) {t : Task} (ht : t ∈ p.tasks) (hphase : t.call.phase = .acquire)
    (hnone : (p.cache.acquire t.call.key).1.slot? = none) :
    p.cache.geometry.pagesPerBucket < p.active := by
  obtain ⟨cache, tasks⟩ := p
  obtain ⟨before, after, rfl⟩ := List.append_of_mem ht
  have hslot : t.call.slot? = none := by rw [Call.slot?, hphase]
  have hactive : t.call.active = true := by rw [Call.active, hphase]
  have hkeeps := (Contract.keeps_iff_of_slot?_eq_none hslot).1 h.hosts.keeps
  have hlength :=
    (hkeeps.bucket (cache.shardOf t.call.key)).owned.length_of_acquire_eq_none hnone
  have hle := length_heldBy_le cache (before ++ after) (cache.shardOf t.call.key)
  rw [(hkeeps.shape _).1] at hlength
  simp only [active, List.countP_append, List.countP_cons, hactive, if_true] at hle ⊢
  omega

end Pool

/-- All bytes are good, and reads may stop for any cause, except for want of a slot unless that is
to be expected. -/
def Contract.anyBytes (pageSize : Nat) (expected : Prop) : Contract where
  pageSize := pageSize
  good _ _ := True
  stops _ _ cause := cause = .noFreePages → expected
  stops_unnamed _ _ _ h := absurd h (by simp)

/-- Calls of any kind whose sources return, with an error or with a count that is not above the
length of the buffer. -/
def Rules.returning : Rules where
  admits _ := True
  answers c t := t.reply ≠ .abandoned ∧ ∀ n, t.reply = .count n → n ≤ c.frame.length

namespace Pool

theorem accepts_of_returning {pageSize : Nat} {expected : Prop} {r : Request} {c : Call}
    {answer : Transfer} (hfollows : (Contract.anyBytes pageSize expected).Follows r c)
    (hanswer : Rules.returning.answers c answer) :
    (Contract.anyBytes pageSize expected).Accepts c answer := by
  obtain ⟨hreturns, hcount⟩ := hanswer
  unfold Contract.Accepts
  split
  · exact fun h => absurd h (by simp)
  · rename_i hreply
    exact absurd hreply hreturns
  · rename_i n hreply
    have hle := hcount n hreply
    rw [hfollows.sound.length_frame] at hle
    refine ⟨hle, ?_⟩
    split
    · exact fun h => absurd h (by simp)
    · trivial

/-- In a pool in which never more calls are under way than a bucket has slots, no call ends for want
of a slot. -/
theorem Reaches.outcome_ne_noFreePages {g : Geometry} {seed : UInt64} {p : Pool}
    (h : Reaches .returning (fun q => q.active ≤ q.cache.geometry.pagesPerBucket)
      (.ofGeometry g seed) p) {t : Task} (ht : t ∈ p.tasks) (copied : Nat) :
    t.call.outcome ≠ .stopped ⟨copied, .noFreePages⟩ := by
  have habides : Abides (.anyBytes g.pageSize False) .returning
      fun q => q.active ≤ q.cache.geometry.pagesPerBucket := by
    refine ⟨fun r c slot answer _ hfollows _ hanswer => accepts_of_returning hfollows hanswer, ?_⟩
    intro q hkept hle t ht hphase hnone
    have hlt := hkept.pagesPerBucket_lt_active ht hphase hnone
    omega
  have hfollows := (h.kept habides rfl).follows t ht
  intro houtcome
  have hserves := (hfollows.of_outcome_stopped houtcome).2
  unfold Contract.Serves at hserves
  split at hserves
  · exact absurd hserves.2 (by simp)
  · exact hserves.stops_at.2 rfl

/-- What every permitted pool satisfies is permitted as well. -/
theorem Reaches.mono {rules : Rules} {permits permits' : Pool → Prop} {cache : Cache} {p : Pool}
    (h : Reaches rules permits cache p)
    (himp : ∀ q : Pool, q.cache.geometry = cache.geometry → permits q → permits' q) :
    Reaches rules permits' cache p := by
  induction h with
  | start hpermits => exact .start (himp _ rfl hpermits)
  | step hreaches hstep hpermits ih =>
    exact ih.step hstep (himp _ (hreaches.step hstep hpermits).geometry_eq hpermits)

/-- In every interleaving of calls the slots in flight are those of the calls; no call ends for want
of a slot unless there were more calls at once than a bucket has slots, so calls one at a time never
do. -/
theorem noFreePages_only_if_overcommitted {config : Config} {seed : UInt64} {cache : Cache}
    (hcache : Cache.ofConfig config seed = .ok cache) :
    (∀ p, Reaches .returning (fun _ => True) cache p → p.Accounted) ∧
    (∀ p, Reaches .returning (fun q => q.active ≤ q.cache.geometry.pagesPerBucket) cache p →
      ∀ t ∈ p.tasks, ∀ copied, t.call.outcome ≠ .stopped ⟨copied, .noFreePages⟩) ∧
    1 ≤ cache.geometry.pagesPerBucket ∧
    ∀ p, Reaches .returning (fun q => q.active ≤ 1) cache p →
      ∀ t ∈ p.tasks, ∀ copied, t.call.outcome ≠ .stopped ⟨copied, .noFreePages⟩ := by
  obtain ⟨g, hg, rfl⟩ := Cache.eq_of_ofConfig_eq_ok hcache
  have hpages : 1 ≤ g.pagesPerBucket := (Config.pagesPerBucket_of_geometry_eq_ok hg).1
  refine ⟨?_, ?_, hpages, ?_⟩
  · intro p hreaches
    have habides : Abides (.anyBytes g.pageSize True) .returning fun _ => True :=
      ⟨fun r c slot answer _ hfollows _ hanswer => accepts_of_returning hfollows hanswer,
        fun _ _ _ _ _ _ _ _ => trivial⟩
    exact (hreaches.kept habides rfl).accounted
  · intro p hreaches t ht copied
    exact hreaches.outcome_ne_noFreePages ht copied
  · intro p hreaches t ht copied
    have hfew : Reaches .returning (fun q => q.active ≤ q.cache.geometry.pagesPerBucket)
        (.ofGeometry g seed) p := by
      apply hreaches.mono
      intro q hgeometry hle
      rw [hgeometry]
      exact Nat.le_trans hle hpages
    exact hfew.outcome_ne_noFreePages ht copied

/-- Calls one at a time on buckets of one slot. The first call takes the slot of its bucket, so that
there is none to be had, and gives it back when its source has failed; the next call takes the same
slot. -/
theorem noFreePages_only_if_overcommitted_of_one_page :
    ∃ cache p q shard first second error, Cache.ofConfig ⟨1, 1⟩ 7 = .ok cache ∧
      cache.geometry.pagesPerBucket = 1 ∧
      Reaches .returning (fun r => r.active ≤ 1) cache p ∧ p.Holds 0 shard 0 ∧
      (p.cache.bucket shard).acquire.1.slot? = none ∧
      Reaches .returning (fun r => r.active ≤ 1) cache q ∧ q.tasks = [second, first] ∧
      first.call.outcome = .stopped ⟨0, .io error⟩ ∧ q.Holds 0 shard 0 ∧
      ∀ t ∈ q.tasks, ∀ copied, t.call.outcome ≠ .stopped ⟨copied, .noFreePages⟩ := by
  have hcache : Cache.ofConfig ⟨1, 1⟩ 7 = .ok (.ofGeometry ⟨0, 64⟩ 7) := rfl
  have hone (cache : Cache) (t : Task) : active ⟨cache, [t]⟩ ≤ 1 := List.countP_le_length
  have hstart : Reaches .returning (fun r => r.active ≤ 1) (.ofGeometry ⟨0, 64⟩ 7)
      ⟨.ofGeometry ⟨0, 64⟩ 7,
        [] ++ ⟨⟨⟨0, 5⟩, 2, [0]⟩, ⟨⟨0, 5⟩, 0, 2, 3, ⟨[], [0]⟩, [], .lookup⟩⟩ :: []⟩ :=
    (Reaches.start (Nat.zero_le 1)).step (.start _ ⟨⟨0, 5⟩, 2, [0]⟩ trivial) (Nat.le_refl 1)
  obtain ⟨cache, slot, hfetching, hgeometry, hshard, hkeeps⟩ := hstart.exists_fetch [] []
    (Cache.keeps_ofGeometry ⟨0, 64⟩ 7) rfl rfl (Nat.le_refl 1) fun _ _ => hone ..
  dsimp only at hfetching hgeometry hkeeps
  -- The source fails, and the call gives its slot back.
  obtain ⟨cache', first, hended, hphase, hgeometry', hshard', hkeeps'⟩ :=
    hfetching.exists_stopped ⟨.other, none⟩ [] [] [] rfl ⟨by simp, by simp⟩
      (by rw [hshard]; exact hkeeps) fun _ _ => hone ..
  have hnext (cache : Cache) (t : Task) : active ⟨cache, [t, ⟨⟨⟨0, 5⟩, 2, [0]⟩, first⟩]⟩ ≤ 1 := by
    have hquiet : first.active = false := by rw [Call.active, hphase]
    have ht := hone cache t
    simp only [active, List.countP_cons, List.countP_nil, hquiet] at ht ⊢
    exact ht
  have hsecond : Reaches .returning (fun r => r.active ≤ 1) (.ofGeometry ⟨0, 64⟩ 7)
      ⟨cache', [] ++ ⟨⟨⟨0, 5⟩, 2, [0]⟩, ⟨⟨0, 5⟩, 0, 2, 3, ⟨[], [0]⟩, [], .lookup⟩⟩ ::
        [⟨⟨⟨0, 5⟩, 2, [0]⟩, first⟩]⟩ := by
    have hstep := hended.step (.start _ ⟨⟨0, 5⟩, 2, [0]⟩ trivial)
    dsimp only at hstep
    rw [hgeometry', hgeometry] at hstep
    exact hstep (hnext ..)
  obtain ⟨cache'', slot', hfetching', hgeometry'', hshard'', hkeeps''⟩ := hsecond.exists_fetch [] _
    hkeeps' rfl (by rw [hgeometry', hgeometry]; rfl)
    (by rw [hgeometry', hgeometry]; exact Nat.le_refl 1) fun _ _ => hnext ..
  dsimp only at hfetching' hkeeps''
  rw [hgeometry', hgeometry] at hgeometry''
  rw [hshard', hshard] at hshard'' hkeeps''
  -- A bucket has one slot only, so both calls were handed the same.
  have hsame {cache : Cache} {home : Fin Geometry.bucketCount} {slot : Slot}
      (hgeometry : cache.geometry = ⟨0, 64⟩)
      (h : cache.Keeps (fun _ _ => False) fun shard => slotsAt home [slot] shard ++ []) :
      slot = 0 := by
    have hheld : slot ∈ slotsAt home [slot] home ++ [] := by simp
    have hlt := ((h.bucket home).owned.of_mem_held hheld).1
    rw [(h.shape home).1, hgeometry] at hlt
    exact Nat.lt_one_iff.1 hlt
  obtain rfl := hsame hgeometry hkeeps
  obtain rfl := hsame hgeometry'' hkeeps''
  obtain ⟨haccounted, -, -, hnone⟩ := noFreePages_only_if_overcommitted hcache
  refine ⟨_, _, _, _, _, _, ⟨.other, none⟩, hcache, rfl, hfetching, ⟨_, rfl, rfl, rfl⟩, ?_,
    hfetching', rfl, by rw [Call.outcome, hphase]; rfl, ⟨_, rfl, ?_, rfl⟩, hnone _ hfetching'⟩
  · have haccount := haccounted _ (hfetching.mono fun _ _ _ => trivial)
    refine (haccount.exhausted _).2 fun slot hlt => ?_
    rw [hgeometry] at hlt
    obtain rfl : slot = 0 := Nat.lt_one_iff.1 hlt
    have hheld (home : Fin Geometry.bucketCount) : 0 ∈ slotsAt home [0] home ++ [] := by simp
    rw [hshard]
    exact (hkeeps.bucket _).owned.inFlight_iff.2 (hheld _)
  · rw [hshard'', ← hshard]

end Pool

end ReadThrough
