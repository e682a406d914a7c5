import Mathlib.Data.Finset.Card
import Mathlib.Data.List.Dedup
import ReadThrough.Proofs.Sessions

/-!
# Reuse distance

In a session in which every page is delivered, the order of a bucket is told by the pages that were
accessed: it is the list of the different ones, the most recently accessed one first, as far as the
bucket has slots for them (`Replays.last_eq`). So whether an access is a hit depends on how many
other pages of the same bucket were accessed since the last access to the same page
(`hits_iff_reuse_distance`).
-/

namespace ReadThrough

/-! ## Recently accessed things -/

section Recent

variable {α : Type} [DecidableEq α]

/-- The last access comes last in the list of different things. -/
theorem dedup_concat (l : List α) (a : α) :
    (l ++ [a]).dedup = l.dedup.filter (· ≠ a) ++ [a] := by
  induction l with
  | nil => simp
  | cons b l ih =>
    rw [List.cons_append]
    by_cases hmem : b ∈ l
    · rw [List.dedup_cons_of_mem (List.mem_append_left _ hmem), List.dedup_cons_of_mem hmem, ih]
    · rw [List.dedup_cons_of_notMem hmem]
      by_cases hba : b = a
      · subst hba
        rw [List.dedup_cons_of_mem (by simp), ih, List.filter_cons_of_neg (by simp)]
      · rw [List.dedup_cons_of_notMem (by simp [hmem, hba]), ih,
          List.filter_cons_of_pos (by simpa using hba), List.cons_append]

/-- The things accessed, the most recently accessed one first, each once and up to `n` of them. -/
def recent (n : Nat) (accesses : List α) : List α := accesses.dedup.reverse.take n

@[simp] theorem recent_nil (n : Nat) : recent n ([] : List α) = [] := List.take_nil

/-- Of things that are all different one more than needed may be cut off before one is taken out. -/
theorem take_filter_ne_take {l : List α} (h : l.Nodup) (a : α) (n : Nat) :
    ((l.take (n + 1)).filter (· ≠ a)).take n = (l.filter (· ≠ a)).take n := by
  induction l generalizing n with
  | nil => rfl
  | cons b l ih =>
    obtain ⟨hb, hl⟩ := List.nodup_cons.1 h
    rw [List.take_succ_cons]
    by_cases hba : b = a
    · subst hba
      have hkeep {l' : List α} (hsub : l' ⊆ l) : l'.filter (· ≠ b) = l' :=
        List.filter_eq_self.2 fun c hc => decide_eq_true fun heq => hb (heq ▸ hsub hc)
      rw [List.filter_cons_of_neg (by simp), List.filter_cons_of_neg (by simp),
        hkeep (List.take_subset n l), hkeep (List.Subset.refl l), List.take_take, Nat.min_self]
    · rw [List.filter_cons_of_pos (by simpa using hba),
        List.filter_cons_of_pos (by simpa using hba)]
      cases n with
      | zero => rfl
      | succ n => rw [List.take_succ_cons, List.take_succ_cons, ih hl]

/-- An access puts a thing in front of the others and pushes the last one out if there are too
many. -/
theorem recent_concat (n : Nat) (accesses : List α) (a : α) :
    recent n (accesses ++ [a]) = (a :: (recent n accesses).filter (· ≠ a)).take n := by
  have hnodup : accesses.dedup.reverse.Nodup := List.nodup_reverse.2 (List.nodup_dedup _)
  rw [recent, recent, dedup_concat, List.reverse_append, ← List.filter_reverse]
  cases n with
  | zero => rfl
  | succ n =>
    rw [List.reverse_singleton, List.singleton_append, List.take_succ_cons, List.take_succ_cons,
      take_filter_ne_take hnodup]

example : recent 2 ([1, 2, 3] ++ [1]) = [1, 3] := by decide

/-- A thing is among the `n` most recently accessed ones if it was accessed and fewer than `n`
others were since. -/
theorem mem_recent_iff {n : Nat} {earlier since : List α} {a : α} (h : a ∉ since) :
    a ∈ recent n (earlier ++ a :: since) ↔ since.toFinset.card < n := by
  obtain ⟨before, hsplit⟩ :
      ∃ before, (earlier ++ a :: since).dedup = before ++ a :: since.dedup := by
    obtain ⟨before, hbefore⟩ := List.suffix_union_right earlier (a :: since).dedup
    rw [List.dedup_append, ← hbefore, List.dedup_cons_of_notMem h]
    exact ⟨before, rfl⟩
  -- It stands behind the others, so it is kept if these leave room for it.
  have hnot : a ∉ since.dedup.reverse.take n :=
    fun hmem => h (by simpa using List.mem_of_mem_take hmem)
  rw [recent, hsplit, List.reverse_append, List.reverse_cons, List.append_assoc,
    List.singleton_append, List.card_toFinset, List.take_append, List.mem_append,
    or_iff_right hnot, List.length_reverse]
  cases hroom : n - since.dedup.length with
  | zero =>
    rw [List.take_zero]
    exact iff_of_false List.not_mem_nil (by omega)
  | succ m =>
    rw [List.take_succ_cons]
    exact iff_of_true List.mem_cons_self (by omega)

omit [DecidableEq α] in
/-- A thing that was accessed was accessed for a last time. -/
theorem exists_last_access {accesses : List α} {a : α} (h : a ∈ accesses) :
    ∃ earlier since, accesses = earlier ++ a :: since ∧ a ∉ since := by
  obtain ⟨since, earlier, hsplit, hnot⟩ := List.eq_append_cons_of_mem (List.mem_reverse.2 h)
  refine ⟨earlier.reverse, since.reverse, ?_, by simpa using hnot⟩
  rw [← accesses.reverse_reverse, hsplit]
  simp

/-- Counting only accesses that satisfy `p`, as the thing itself does, it is among the recently
accessed ones if, since some access to it, there was none to it and to few enough others. -/
theorem mem_recent_filter_iff {n : Nat} {accesses : List α} {a : α} {p : α → Bool} (ha : p a) :
    a ∈ recent n (accesses.filter p) ↔ ∃ earlier since, accesses = earlier ++ a :: since ∧
      a ∉ since ∧ (since.filter p).toFinset.card < n := by
  have hfilter (earlier since : List α) :
      (earlier ++ a :: since).filter p = earlier.filter p ++ a :: since.filter p := by
    rw [List.filter_append, List.filter_cons_of_pos ha]
  have hnot_filter {since : List α} (h : a ∉ since) : a ∉ since.filter p :=
    fun hmem => h (List.mem_filter.1 hmem).1
  constructor
  · intro hmem
    have haccessed : a ∈ accesses.filter p := by simpa using List.mem_of_mem_take hmem
    obtain ⟨earlier, since, hsplit, hnot⟩ := exists_last_access (List.mem_filter.1 haccessed).1
    rw [hsplit, hfilter, mem_recent_iff (hnot_filter hnot)] at hmem
    exact ⟨earlier, since, hsplit, hnot, hmem⟩
  · rintro ⟨earlier, since, rfl, hnot, hlt⟩
    rw [hfilter]
    exact (mem_recent_iff (hnot_filter hnot)).2 hlt

end Recent

/-! ## Orders and hits by the history of accesses -/

section History

variable {home : PageKey → Fin Geometry.bucketCount} {capacity : Nat}
  {orders last : Fin Geometry.bucketCount → List PageKey} {visits : List Visit}

/-- When every page is delivered, orders that tell the most recent accesses of the past go on to
tell the most recent ones. -/
theorem Replays.last_eq (h : Replays home capacity orders visits last)
    (hdelivered : ∀ v ∈ visits, v.delivered = true) (past : List PageKey)
    (horders : ∀ shard, orders shard = recent capacity (past.filter (home · = shard)))
    (shard : Fin Geometry.bucketCount) :
    last shard
      = recent capacity ((past ++ visits.map (·.key)).filter (home · = shard)) := by
  induction h generalizing past with
  | nil => rw [List.map_nil, List.append_nil, horders]
  | @cons v visits orders last _ _ ih =>
    obtain ⟨hfirst, hrest⟩ := List.forall_mem_cons.1 hdelivered
    rw [List.map_cons, List.append_cons]
    apply ih hrest (past ++ [v.key])
    intro shard
    rw [Visit.leaveAll, List.filter_append, horders shard]
    split
    · rename_i hhome
      rw [Visit.leave_of_delivered hfirst, List.filter_singleton, decide_eq_true hhome]
      exact (recent_concat capacity _ v.key).symm
    · rename_i hhome
      rw [List.filter_singleton, decide_eq_false hhome]
      simp

/-- When every page is delivered on a cache that starts without pages, a visit is a hit if its page
is among the most recently accessed ones of its bucket. -/
theorem Replays.hit_iff_mem_recent {before after : List Visit} {v : Visit}
    (h : Replays home capacity (fun _ => []) (before ++ v :: after) last)
    (hdelivered : ∀ v ∈ before, v.delivered = true) :
    v.result = .hit ↔
      v.key ∈ recent capacity ((before.map (·.key)).filter (home · = home v.key)) := by
  obtain ⟨mid, hbefore, hhit⟩ := h.exists_before
  rw [hhit, hbefore.last_eq hdelivered [] fun _ => (recent_nil _).symm, List.nil_append]

end History

/-- A session on a new cache in which every page is fetched that is missing accesses the pages of
its reads in order. An access to a page is a hit exactly if the page was accessed before, and since
then fewer other pages of its bucket than the bucket has slots. In the end the order of each bucket
is that of the most recent accesses to its pages, and the counters have counted the accesses and the
hits. -/
theorem hits_iff_reuse_distance {config : Config} {seed : UInt64} {cache : Cache}
    (hcache : Cache.ofConfig config seed = .ok cache) (session : List Errand)
    (hdelivered : ∀ v ∈ Errand.visitsAll session cache, v.delivered = true) :
    let visits := Errand.visitsAll session cache
    let accesses := session.flatMap (·.request.pages cache.geometry.pageSize)
    let last := Errand.runAll session cache
    visits.map (·.key) = accesses ∧
    (∀ before v after, visits = before ++ v :: after →
      (v.result = .hit ↔ ∃ earlier since, before.map (·.key) = earlier ++ v.key :: since ∧
        v.key ∉ since ∧ (since.filter (cache.shardOf · = cache.shardOf v.key)).toFinset.card
          < cache.geometry.pagesPerBucket)) ∧
    (∀ shard, last.order shard = recent cache.geometry.pagesPerBucket
      (accesses.filter (cache.shardOf · = shard))) ∧
    last.counters.lookups = accesses.length ∧
    last.counters.hits = visits.countP (·.result = .hit) := by
  intro visits accesses last
  obtain ⟨g, hg, rfl⟩ := Cache.eq_of_ofConfig_eq_ok hcache
  have hpages : 1 ≤ g.pagesPerBucket := (Config.pagesPerBucket_of_geometry_eq_ok hg).1
  have hidle := Cache.idle_ofGeometry g seed
  have hkeys : visits.map (·.key) = accesses :=
    Errand.keys_visitsAll session hidle hpages hdelivered
  obtain ⟨hreplays, hlookups, hhits⟩ := Errand.replays_runAll g seed session hpages
    fun v hv => Visit.ne_abandoned_of_delivered (hdelivered v hv)
  refine ⟨hkeys, ?_, ?_, ?_, hhits⟩
  · intro before v after hsplit
    have hsplit : Errand.visitsAll session (.ofGeometry g seed) = before ++ v :: after := hsplit
    rw [hsplit] at hreplays hdelivered
    rw [hreplays.hit_iff_mem_recent fun u hu => hdelivered u (List.mem_append_left _ hu)]
    exact mem_recent_filter_iff (decide_eq_true rfl)
  · intro shard
    rw [← hkeys]
    exact hreplays.last_eq hdelivered [] (fun _ => (recent_nil _).symm) shard
  · rw [← hkeys, List.length_map]
    exact hlookups

/-- Of two reads within one page the second one finds it. -/
theorem hits_iff_reuse_distance_of_page_read_twice :
    ∃ cache v w, Cache.ofConfig ⟨2, 1⟩ 7 = .ok cache ∧
      Errand.visitsAll (Backing.errands (fun _ => .cut) [(5, 0, [0]), (5, 1, [0])]) cache = [v, w] ∧
      v.result ≠ .hit ∧ w.result = .hit := by
  have hcache : Cache.ofConfig ⟨2, 1⟩ 7 = .ok (.ofGeometry ⟨1, 64⟩ 7) := rfl
  obtain ⟨hfates, -⟩ := Backing.visitsAll_errands (fun _ => .cut) [(5, 0, [0]), (5, 1, [0])]
    (Cache.keeps_ofGeometry ⟨1, 64⟩ 7) (Nat.le_refl 1)
  obtain ⟨v, rest, hvisits, hv, hrest⟩ := List.map_eq_cons_iff.1 hfates
  obtain ⟨w, rest, rfl, hw, hnil⟩ := List.map_eq_cons_iff.1 hrest
  obtain rfl := List.map_eq_nil_iff.1 hnil
  obtain ⟨hkey, hfirst⟩ := Prod.mk.inj hv
  obtain ⟨hkey', hsecond⟩ := Prod.mk.inj hw
  have hdelivered : ∀ u ∈ [v, w], u.delivered = true := by simp [hfirst, hsecond]
  obtain ⟨-, hhit, -⟩ := hits_iff_reuse_distance hcache
    (Backing.errands (fun _ => .cut) [(5, 0, [0]), (5, 1, [0])]) (by rw [hvisits]; exact hdelivered)
  refine ⟨_, v, w, hcache, hvisits, ?_, ?_⟩
  · intro hresult
    obtain ⟨earlier, since, hsplit, -⟩ := (hhit [] v [w] hvisits).1 hresult
    exact absurd hsplit (by simp)
  · rw [hhit [v] w [] hvisits]
    refine ⟨[], [], ?_, by simp, Nat.zero_lt_one⟩
    rw [List.map_singleton, hkey, hkey']
    rfl

end ReadThrough
