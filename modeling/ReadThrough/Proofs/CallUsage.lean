import ReadThrough.Proofs.Sessions
import ReadThrough.Proofs.SlotPartition

/-!
# Reads as operations on a cache

What a call does on its cache at a step is no more than one operation, by which a slot comes to the
call or leaves it, whatever others hold (`CacheUsage.Exceeds.touch`). The slot that it installs or
releases is held then (`CacheUsage.Bears.touch`), so a cache on which reads were made, one after the
other, is a cache in use (`CacheUsage.Reaches.runAll`), also where a source broke off and the slot
for its page is held for good.
-/

namespace ReadThrough

/-! ## Slots held besides -/

/-- A slot of one bucket, and none of the others. -/
def slotOf {n : Nat} (home : Fin n) (slot? : Option Slot) (shard : Fin n) : List Slot :=
  if home = shard then slot?.toList else []

@[simp] theorem slotOf_none {n : Nat} (home shard : Fin n) : slotOf home none shard = [] :=
  ite_self _

namespace CacheUsage

/-- The cache is that of the other usage, and the slots held are those that are held there and the
extra ones. -/
structure Exceeds (u v : CacheUsage) (extra : Fin Geometry.bucketCount → List Slot) : Prop where
  cache_eq : u.cache = v.cache
  held : ∀ shard, (u.held shard).Perm (extra shard ++ v.held shard)

namespace Exceeds

variable {u v v' : CacheUsage} {extra : Fin Geometry.bucketCount → List Slot}

/-- Who holds more can do the same. -/
theorem step (h : u.Exceeds v extra) (hstep : Step v v') :
    ∃ u', Step u u' ∧ u'.Exceeds v' extra := by
  obtain ⟨hcache, hheld⟩ := h
  have hmem {shard slot} (hslot : slot ∈ v.held shard) : slot ∈ u.held shard :=
    (hheld shard).mem_iff.2 (List.mem_append_right _ hslot)
  have herase {shard slot} (hslot : slot ∈ v.held shard) :
      ((u.held shard).erase slot).Perm (extra shard ++ (v.held shard).erase slot) := by
    have hfront := (hheld shard).trans ((List.perm_cons_erase hslot).append_left (extra shard))
    have hrest := (hfront.trans List.perm_middle).erase slot
    rwa [List.erase_cons_head] at hrest
  cases hstep with
  | read key offset count =>
    exact ⟨_, .read u key offset count, by rw [hcache], hheld⟩
  | acquire key =>
    refine ⟨_, .acquire u key, by rw [hcache], fun shard => ?_⟩
    rw [hcache]
    dsimp only
    split
    · exact ((hheld shard).append_left _).trans (List.perm_append_comm_assoc ..)
    · exact hheld shard
  | install key slot data hslot =>
    refine ⟨_, .install u key slot data (hcache ▸ hmem hslot), by rw [hcache], fun shard => ?_⟩
    rw [hcache]
    dsimp only
    split
    · rename_i hshard
      exact herase (hshard ▸ hslot)
    · exact hheld shard
  | release key slot hslot =>
    refine ⟨_, .release u key slot (hcache ▸ hmem hslot), by rw [hcache], fun shard => ?_⟩
    rw [hcache]
    dsimp only
    split
    · rename_i hshard
      exact herase (hshard ▸ hslot)
    · exact hheld shard

/-- Without the one slot more, what is held is what was held besides. -/
theorem erase {home : Fin Geometry.bucketCount} {slot : Slot}
    (h : u.Exceeds v (slotOf home (some slot))) :
    slot ∈ u.held home ∧ ∀ shard,
      (if home = shard then (u.held shard).erase slot else u.held shard).Perm (v.held shard) := by
  have hheld := h.held
  constructor
  · refine (hheld home).mem_iff.2 (List.mem_append_left _ ?_)
    rw [slotOf, if_pos rfl]
    exact List.mem_cons_self
  · intro shard
    have hshard := hheld shard
    unfold slotOf at hshard
    split
    · rename_i hhome
      rw [if_pos hhome] at hshard
      have hrest := hshard.erase slot
      rwa [Option.toList_some, List.singleton_append, List.erase_cons_head] at hrest
    · rename_i hother
      rwa [if_neg hother] at hshard

/-- A step of a call is one operation, by which a slot comes to the call or leaves it. -/
theorem touch {c : Call} (hactive : c.active = true) (hfetch : ∀ slot, c.phase ≠ .fetch slot)
    (h : u.Exceeds v (slotOf (v.cache.shardOf c.key) c.slot?)) :
    ∃ u', Step u u' ∧ u'.Exceeds { v with cache := (c.touch v.cache).2 }
      (slotOf ((c.touch v.cache).2.shardOf (c.touch v.cache).1.1.key)
        (c.touch v.cache).1.1.slot?) := by
  have hcache := h.cache_eq
  cases hphase : c.phase with
  | lookup =>
    have hslot : c.slot? = none := by rw [Call.slot?, hphase]
    obtain ⟨hnone, hafter⟩ := Call.touch_of_lookup v.cache hphase
    have hheld := h.held
    rw [hslot] at hheld
    rw [hnone, hafter]
    refine ⟨_, .read u c.key c.intra c.want, by rw [hcache], fun shard => ?_⟩
    have hshard := hheld shard
    rw [slotOf_none] at hshard ⊢
    exact hshard
  | acquire =>
    have hslot : c.slot? = none := by rw [Call.slot?, hphase]
    obtain ⟨hgranted, hkey, hafter⟩ := Call.touch_of_acquire v.cache hphase
    have hheld := h.held
    rw [hslot] at hheld
    rw [hgranted, hkey, hafter]
    refine ⟨_, .acquire u c.key, by rw [hcache], fun shard => ?_⟩
    have hshard := hheld shard
    rw [slotOf_none, List.nil_append] at hshard
    rw [slotOf, hcache]
    show (if v.cache.shardOf c.key = shard then _ else _ : List Slot).Perm
      ((if v.cache.shardOf c.key = shard then _ else _) ++ _)
    split
    · exact hshard.append_left _
    · exact hshard
  | publish slot n =>
    have hslot : c.slot? = some slot := by rw [Call.slot?, hphase]
    obtain ⟨hcall, hafter⟩ := Call.touch_of_publish v.cache hphase
    rw [hslot] at h
    obtain ⟨hmem, hrest⟩ := h.erase
    rw [hcall, hafter, Call.slot?_deliver]
    rw [← hcache] at hmem hrest
    refine ⟨_, .install u c.key slot (c.frame.take n) hmem, by rw [hcache], fun shard => ?_⟩
    rw [slotOf_none]
    exact hrest shard
  | release slot cause =>
    have hslot : c.slot? = some slot := by rw [Call.slot?, hphase]
    obtain ⟨hcall, hafter⟩ := Call.touch_of_release v.cache hphase
    rw [hslot] at h
    obtain ⟨hmem, hrest⟩ := h.erase
    have hnone : (c.stopFor cause).slot? = none := rfl
    rw [hcall, hafter, hnone]
    rw [← hcache] at hmem hrest
    refine ⟨_, .release u c.key slot hmem, by rw [hcache], fun shard => ?_⟩
    rw [slotOf_none]
    exact hrest shard
  | fetch slot => exact absurd hphase (hfetch slot)
  | finished outcome =>
    rw [Call.active, hphase] at hactive
    exact absurd hactive (by simp)

end Exceeds

/-! ## The slot of a call -/

/-- The slot that the call holds is held in the bucket of its page. -/
def Bears (u : CacheUsage) (c : Call) : Prop :=
  ∀ slot, c.slot? = some slot → slot ∈ u.held (u.cache.shardOf c.key)

variable {u v : CacheUsage} {c : Call}

theorem bears_of_slot?_eq_none (h : c.slot? = none) : u.Bears c := fun slot hslot =>
  absurd (h.symm.trans hslot) (by simp)

theorem Exceeds.bears (h : u.Exceeds v (slotOf (v.cache.shardOf c.key) c.slot?)) : u.Bears c := by
  intro slot hslot
  rw [hslot] at h
  rw [h.cache_eq]
  exact h.erase.1

/-- What is held besides the slot of a call. -/
theorem Bears.exceeds (h : u.Bears c) :
    ∃ v, v.cache = u.cache ∧ u.Exceeds v (slotOf (v.cache.shardOf c.key) c.slot?) := by
  cases hslot : c.slot? with
  | none =>
    refine ⟨u, rfl, rfl, fun shard => ?_⟩
    rw [slotOf_none]
    exact List.Perm.refl _
  | some slot =>
    refine ⟨{ u with held := fun shard =>
      if u.cache.shardOf c.key = shard then (u.held shard).erase slot else u.held shard },
      rfl, rfl, fun shard => ?_⟩
    rw [slotOf]
    dsimp only
    split
    · rename_i hhome
      exact List.perm_cons_erase (hhome ▸ h slot hslot)
    · exact List.Perm.refl _

/-- A step of a call is one operation, or it is the last one of a call that had ended. -/
theorem Bears.touch (h : u.Bears c) :
    ∃ v, (v = u ∨ Step u v) ∧ v.cache = (c.touch u.cache).2 ∧ v.Bears (c.touch u.cache).1.1 := by
  by_cases hidle : c.active = false ∨ ∃ slot, c.phase = .fetch slot
  · refine ⟨u, .inl rfl, ?_⟩
    have hsame : c.touch u.cache = ((c, none), u.cache) := by
      unfold Call.touch
      rcases hidle with hended | ⟨slot, hphase⟩
      · obtain ⟨outcome, hphase⟩ := Call.exists_phase_of_active_eq_false hended
        rw [hphase]
      · rw [hphase]
    rw [hsame]
    exact ⟨rfl, h⟩
  · obtain ⟨hactive, hfetch⟩ := not_or.1 hidle
    obtain ⟨v, hcache, hexceeds⟩ := h.exceeds
    rw [← hcache]
    obtain ⟨w, hstep, hexceeds'⟩ :=
      hexceeds.touch (by simpa using hactive) (not_exists.1 hfetch)
    exact ⟨w, .inr hstep, hexceeds'.cache_eq, hexceeds'.bears⟩

/-- With the answer of its source a call keeps its slot or loses it from sight. -/
theorem Bears.receive (h : u.Bears c) (t : Transfer) : u.Bears (c.receive t).1 := by
  by_cases hfetch : ∃ slot, c.phase = .fetch slot
  · obtain ⟨slot, hphase⟩ := hfetch
    have hheld := h slot (by rw [Call.slot?, hphase])
    obtain ⟨hkey, hslot⟩ := Call.receive_keeps hphase t
    intro other hother
    rw [hkey]
    by_cases hgoes : (c.receive t).1.phase = .finished .abandoned
    · rw [Call.slot?, hgoes] at hother
      exact absurd hother (by simp)
    · rw [hslot hgoes] at hother
      obtain rfl := Option.some.inj hother
      exact hheld
  · rw [c.receive_of_not_fetch (not_exists.1 hfetch)]
    exact h

variable {start : Cache}

theorem Reaches.runFor (answer : Nat → Bytes → Transfer) (limit : Nat) (h : Reaches start u)
    (hbears : u.Bears c) : ∃ v, Reaches start v ∧
      v.cache = (c.runFor .alone (fun offset buffer => pure (answer offset buffer)) limit
        u.cache).2 := by
  induction limit generalizing u c with
  | zero => exact ⟨u, h, rfl⟩
  | succ limit ih =>
    cases hactive : c.active with
    | false =>
      obtain ⟨outcome, hphase⟩ := Call.exists_phase_of_active_eq_false hactive
      rw [Call.runFor_finished _ _ hphase]
      exact ⟨u, h, rfl⟩
    | true =>
      by_cases hfetch : ∃ slot, c.phase = .fetch slot
      · obtain ⟨slot, hphase⟩ := hfetch
        rw [Call.runFor_receive answer limit u.cache hphase]
        exact ih h (hbears.receive _)
      · rw [Call.runFor_touch _ limit u.cache hactive (not_exists.1 hfetch)]
        obtain ⟨v, hstep, hcache, hbears'⟩ := hbears.touch
        rw [← hcache]
        refine ih ?_ hbears'
        rcases hstep with rfl | hstep
        · exact h
        · exact h.step hstep

/-- However a cache was used, it is one in use after more reads of it. -/
theorem Reaches.runAll (session : List Errand) (h : Reaches start u) :
    ∃ v, Reaches start v ∧ v.cache = Errand.runAll session u.cache := by
  induction session generalizing u with
  | nil => exact ⟨u, h, rfl⟩
  | cons e session ih =>
    obtain ⟨v, hv, hcache⟩ := h.runFor e.answer (e.started u.cache).stepBound
      (bears_of_slot?_eq_none (Call.slot?_start ..))
    have hrun : v.cache = (e.run u.cache).2 := hcache
    obtain ⟨w, hw, hcache'⟩ := ih hv
    refine ⟨w, hw, ?_⟩
    rw [hcache', hrun, Errand.runAll, Errand.runAll, List.foldl_cons]

end CacheUsage

end ReadThrough
