import Mathlib.Data.List.Forall2
import ReadThrough.Proofs.Sessions
import ReadThrough.Proofs.Tour

/-!
# Stack inclusion

Two caches that differ in the number of their pages only, and that serve the same reads of the same
fixed sources, visit the same pages and get the same of them. What a visit does to the order of a
bucket keeps the order in the smaller cache a prefix of that in the larger (`Visit.leave_prefix`),
also when the page cannot be fetched, and the smaller cache gives up its last page for nothing while
the larger one still has a free slot. So a hit in the smaller cache is one in the larger cache too,
and when the sources take notes of what they are asked for (`Backing.recordAll`), those of the
larger cache note some of the reads that those of the smaller one do, and no others
(`larger_cache_includes_smaller`): more pages never make more misses.
-/

namespace ReadThrough

theorem take_prefix_take {α : Type} {l l' : List α} (h : l <+: l') {n m : Nat} (hle : n ≤ m) :
    l.take n <+: l'.take m :=
  (h.take n).trans (List.take_prefix_take_left hle)

/-- If `q` holds of the partner of everything that `p` holds of, it holds of no fewer. -/
theorem countP_le_of_forall₂ {α β : Type} {p : α → Bool} {q : β → Bool} {l : List α} {l' : List β}
    (h : List.Forall₂ (fun a b => p a → q b) l l') : l.countP p ≤ l'.countP q := by
  induction h with
  | nil => exact Nat.le_refl 0
  | @cons a b l l' hab _ ih =>
    rw [List.countP_cons, List.countP_cons]
    cases ha : p a with
    | false =>
      simp only [Bool.false_eq_true, if_false]
      omega
    | true =>
      rw [hab ha]
      simp only [if_true]
      omega

/-- If what `g` gives of anything is what `f` gives of its partner, `g` gives a part of what `f`
gives. -/
theorem filterMap_sublist_of_forall₂ {α β γ : Type} {f : α → Option γ} {g : β → Option γ}
    {l : List α} {l' : List β} (h : List.Forall₂ (fun a b => g b = none ∨ g b = f a) l l') :
    (l'.filterMap g).Sublist (l.filterMap f) := by
  induction h with
  | nil => exact List.Sublist.refl _
  | @cons a b l l' hab _ ih =>
    rw [List.filterMap_cons, List.filterMap_cons]
    rcases hab with hnone | hsame
    · rw [hnone]
      cases f a with
      | none => exact ih
      | some c => exact ih.cons c
    · rw [hsame]
      cases f a with
      | none => exact ih
      | some c => exact ih.cons_cons c

/-! ## Two buckets -/

/-- A visit with the same fate keeps the order of a bucket with fewer slots a prefix of that of a
bucket with more slots. -/
theorem Visit.leave_prefix {v w : Visit} (hkey : v.key = w.key)
    (hdelivered : v.delivered = w.delivered) {n m : Nat} (hle : n ≤ m)
    {order order' : List PageKey} (h : order <+: order') :
    v.leave n order <+: w.leave m order' := by
  cases hw : w.delivered with
  | true =>
    rw [leave_of_delivered (hdelivered.trans hw), leave_of_delivered hw, hkey]
    have hfiltered : order.filter (· ≠ w.key) <+: order'.filter (· ≠ w.key) := h.filter _
    exact take_prefix_take ((List.prefix_cons_inj w.key).2 hfiltered) hle
  | false =>
    rw [leave_of_not_delivered (hdelivered.trans hw), leave_of_not_delivered hw]
    exact take_prefix_take h (Nat.sub_le_sub_right hle 1)

/-- Visits with the same fates keep all orders prefixes, and each of them that is a hit where there
are fewer slots is one where there are more. -/
theorem Replays.inclusion {home : PageKey → Fin Geometry.bucketCount} {n m : Nat} (hle : n ≤ m)
    {orders orders' last last' : Fin Geometry.bucketCount → List PageKey}
    {visits visits' : List Visit} (h : Replays home n orders visits last)
    (h' : Replays home m orders' visits' last')
    (hsame : visits.map (fun v => (v.key, v.delivered))
      = visits'.map fun v => (v.key, v.delivered))
    (hpre : ∀ shard, orders shard <+: orders' shard) :
    (∀ shard, last shard <+: last' shard) ∧
      List.Forall₂ (fun v w => v.key = w.key ∧ (v.result = .hit → w.result = .hit))
        visits visits' := by
  induction h generalizing orders' visits' with
  | nil =>
    obtain rfl : visits' = [] := by simpa using hsame.symm
    cases h'
    exact ⟨hpre, .nil⟩
  | @cons v visits orders last hhit _ ih =>
    cases h' with
    | nil => exact absurd hsame (by simp)
    | @cons w visits' _ _ hhit' hrest' =>
      rw [List.map_cons, List.map_cons, List.cons_eq_cons] at hsame
      obtain ⟨hfate, hsame⟩ := hsame
      obtain ⟨hkey, hdelivered⟩ : v.key = w.key ∧ v.delivered = w.delivered := Prod.mk.inj hfate
      obtain ⟨hlast, hvisits⟩ := ih hrest' hsame (by
        intro shard
        rw [Visit.leaveAll, Visit.leaveAll, hkey]
        split
        · exact Visit.leave_prefix hkey hdelivered hle (hpre shard)
        · exact hpre shard)
      refine ⟨hlast, .cons ⟨hkey, ?_⟩ hvisits⟩
      rw [hhit, hhit', hkey]
      exact fun hmem => (hpre (home w.key)).subset hmem

/-! ## Sessions with notes -/

namespace Backing

variable (objects : UInt32 → Backing)

/-- Reads of objects, one after the other, by readers whose sources take notes. -/
def recordAll (reads : List (UInt32 × Int × Bytes)) (s : Recorded) : Recorded :=
  reads.foldl (fun s (object, offset, buffer) =>
    (((objects object).recordedReader object).readAt offset buffer s).2) s

/-- The notes are the reads of the sources that the log of the session has, and taking them makes no
difference to the cache. -/
theorem recordAll_eq (reads : List (UInt32 × Int × Bytes)) (s : Recorded) :
    (recordAll objects reads s).cache = Errand.runAll (errands objects reads) s.cache ∧
      (recordAll objects reads s).asks
        = s.asks ++ asksOf (Errand.deedsAll (errands objects reads) s.cache) := by
  induction reads generalizing s with
  | nil => exact ⟨rfl, (List.append_nil _).symm⟩
  | cons r reads ih =>
    obtain ⟨object, offset, buffer⟩ := r
    let e := errand objects object offset buffer
    let source := (objects object).source.recorded
    have hquiet : Recorded.place.Quiet source e.answer := ⟨fun _ _ _ => rfl, fun _ _ _ => rfl⟩
    have hlogs : Logs Recorded.place source (·.asks) := ⟨fun _ _ => rfl, fun _ _ _ => rfl⟩
    obtain ⟨-, hcache, hdeeds⟩ := Errand.readAt_of_quiet hquiet s
    have hasks := hlogs.readAt_eq e.request s
    rw [hdeeds] at hasks
    obtain ⟨hrest, hnotes⟩ := ih (((objects object).recordedReader object).readAt offset buffer s).2
    have hnext : (((objects object).recordedReader object).readAt offset buffer s).2.cache
        = (e.run s.cache).2 := hcache
    have hfirst : (((objects object).recordedReader object).readAt offset buffer s).2.asks
        = s.asks ++ asksOf (e.deeds s.cache) := hasks
    rw [hnext] at hrest hnotes
    rw [hfirst, List.append_assoc, ← asksOf_append] at hnotes
    exact ⟨hrest, hnotes⟩

end Backing

/-! ## Two caches -/

/-- What reads of fixed sources do to a new cache; the sources are asked for all pages that are no
hits, and for no others. -/
theorem Backing.replays_errands (g : Geometry) (seed : UInt64) (objects : UInt32 → Backing)
    (reads : List (UInt32 × Int × Bytes)) (hpages : 1 ≤ g.pagesPerBucket) :
    let session := Backing.errands objects reads
    let cache := Cache.ofGeometry g seed
    let visits := Errand.visitsAll session cache
    let last := Errand.runAll session cache
    visits.map (fun v => (v.key, v.delivered))
        = session.flatMap (Backing.itineraryOf objects g.pageSize) ∧
      asksOf (Errand.deedsAll session cache) = visits.filterMap (fun v =>
        if v.result = .hit then none else some (v.key.page.toNat * g.pageSize, g.pageSize)) ∧
      Replays cache.shardOf g.pagesPerBucket (fun _ => []) visits last.order ∧
      last.counters.lookups = visits.length ∧
      last.counters.hits = visits.countP (·.result = .hit) := by
  intro session cache visits last
  obtain ⟨hfates, hresults⟩ := Backing.visitsAll_errands objects reads
    (Cache.keeps_ofGeometry g seed) hpages
  have hkept : ∀ v ∈ visits, v.result ≠ .abandoned := fun v hv => (hresults v hv).2
  refine ⟨hfates, ?_, Errand.replays_runAll g seed session hpages hkept⟩
  rw [Errand.asks_deedsAll session (Cache.idle_ofGeometry g seed) hpages hkept]
  refine List.filterMap_congr fun v hv => ?_
  -- no slot is refused
  have hslot := (hresults v hv).1
  unfold Visit.ask?
  cases hresult : v.result with
  | refused => exact absurd hresult hslot
  | _ => rfl

/-- A page is read, then one of its bucket that cannot be fetched, then the first one again. Where a
bucket has one slot only, the failed fetch has cost the page its place, and the source is asked for
it once more. -/
theorem Backing.asks_recordAll_of_failed_page (n : Nat) (hn : 1 ≤ n) :
    (recordAll (fun _ => .cut) [(5, 0, [0]), (59, 2, [0]), (5, 0, [0])]
        { cache := .ofGeometry ⟨1, n * 64⟩ 7 }).asks
      = [(0, 2), (2, 2)] ++ if 1 < n then [] else [(0, 2)] := by
  have hpages : (⟨1, n * 64⟩ : Geometry).pagesPerBucket = n := Nat.mul_div_cancel n (by decide)
  obtain ⟨hfates, hasks, hreplays, -⟩ := replays_errands ⟨1, n * 64⟩ 7 (fun _ => .cut)
    [(5, 0, [0]), (59, 2, [0]), (5, 0, [0])] (hpages.symm ▸ hn)
  obtain ⟨-, hnotes⟩ := recordAll_eq (fun _ => .cut) [(5, 0, [0]), (59, 2, [0]), (5, 0, [0])]
    { cache := .ofGeometry ⟨1, n * 64⟩ 7 }
  rw [hnotes.trans (List.nil_append _), hasks]
  rw [hpages] at hreplays
  have hhome : (Cache.ofGeometry ⟨1, n * 64⟩ 7).shardOf ⟨59, 1⟩
      = (Cache.ofGeometry ⟨1, n * 64⟩ 7).shardOf ⟨5, 0⟩ := by
    show (Cache.ofGeometry ⟨1, 64⟩ 7).shardOf ⟨59, 1⟩ = (Cache.ofGeometry ⟨1, 64⟩ 7).shardOf ⟨5, 0⟩
    decide +kernel
  generalize (Cache.ofGeometry ⟨1, n * 64⟩ 7).shardOf = home at hhome hreplays
  generalize Errand.visitsAll _ _ = visits at hfates hreplays ⊢
  have hsize : (⟨1, n * 64⟩ : Geometry).pageSize = 2 := rfl
  have hitineraries : (errands (fun _ => .cut) [(5, 0, [0]), (59, 2, [0]), (5, 0, [0])]).flatMap
      (itineraryOf (fun _ => .cut) 2) = [(⟨5, 0⟩, true), (⟨59, 1⟩, false), (⟨5, 0⟩, true)] := rfl
  rw [hsize, hitineraries] at hfates
  -- Which of the three visits are hits is told by the order of their bucket before each of them.
  obtain ⟨u, _, rfl, hu, hfates⟩ := List.map_eq_cons_iff.1 hfates
  obtain ⟨v, _, rfl, hv, hfates⟩ := List.map_eq_cons_iff.1 hfates
  obtain ⟨w, _, rfl, hw, hfates⟩ := List.map_eq_cons_iff.1 hfates
  obtain rfl := List.map_eq_nil_iff.1 hfates
  obtain ⟨hukey, hudelivered⟩ := Prod.mk.inj hu
  obtain ⟨hvkey, hvdelivered⟩ := Prod.mk.inj hv
  obtain ⟨hwkey, -⟩ := Prod.mk.inj hw
  obtain _ | ⟨hufound, hreplays⟩ := hreplays
  obtain _ | ⟨hvfound, hreplays⟩ := hreplays
  obtain ⟨hwfound, -⟩ := hreplays.of_singleton
  have hfirst : u.leaveAll home n (fun _ => []) (home ⟨5, 0⟩) = [⟨5, 0⟩] := by
    rw [Visit.leaveAll, hukey, if_pos rfl, Visit.leave_of_delivered hudelivered, hukey]
    exact List.take_of_length_le hn
  have hsecond : v.leaveAll home n (u.leaveAll home n fun _ => []) (home ⟨5, 0⟩)
      = [⟨5, 0⟩].take (n - 1) := by
    rw [Visit.leaveAll, hvkey, if_pos hhome, Visit.leave_of_not_delivered hvdelivered, hfirst]
  have hu : u.result ≠ .hit := by simp [hufound]
  have hv : v.result ≠ .hit := by simp [hvfound, hvkey, hhome, hfirst]
  have hw : w.result = .hit ↔ 1 < n := by
    rw [hwfound, hwkey, hsecond, List.mem_take_iff_getElem, ← Nat.sub_pos_iff_lt]
    simp
  by_cases hslots : 1 < n <;>
    simp [hu, hv, hw, hukey, hvkey, hwkey, hsize, hslots]

/-- Of two new caches with the same seed and page size that serve the same reads of the same fixed
sources, whatever these fail to give, the one with no fewer pages never does worse: the order of
each bucket of the smaller cache is a prefix of that of the larger one, the two visit the same
pages, and a hit in the smaller cache is one in the larger cache. So the lookups are equal, and the
larger cache has no fewer hits. When the sources take notes of what they are asked for, which makes
no difference to the caches, the reads that are noted for the larger cache are some of those that
are noted for the smaller one. -/
theorem larger_cache_includes_smaller {config config' : Config} {seed : UInt64}
    {small large : Cache} (hsmall : Cache.ofConfig config seed = .ok small)
    (hlarge : Cache.ofConfig config' seed = .ok large)
    (hshift : small.geometry.pageShift = large.geometry.pageShift)
    (hcount : small.geometry.pageCount ≤ large.geometry.pageCount)
    (objects : UInt32 → Backing) (reads : List (UInt32 × Int × Bytes)) :
    let session := Backing.errands objects reads
    let visits := Errand.visitsAll session small
    let visits' := Errand.visitsAll session large
    let last := Errand.runAll session small
    let last' := Errand.runAll session large
    let noted := Backing.recordAll objects reads { cache := small }
    let noted' := Backing.recordAll objects reads { cache := large }
    (∀ shard, last.order shard <+: last'.order shard) ∧
      List.Forall₂ (fun v w => v.key = w.key ∧ (v.result = .hit → w.result = .hit))
        visits visits' ∧
      last.counters.lookups = last'.counters.lookups ∧
      last.counters.hits ≤ last'.counters.hits ∧
      (noted.cache = last ∧ noted'.cache = last') ∧
      noted'.asks.Sublist noted.asks ∧ noted'.asks.length ≤ noted.asks.length := by
  intro session visits visits' last last' noted noted'
  obtain ⟨g, hg, rfl⟩ := Cache.eq_of_ofConfig_eq_ok hsmall
  obtain ⟨g', hg', rfl⟩ := Cache.eq_of_ofConfig_eq_ok hlarge
  have hpages : 1 ≤ g.pagesPerBucket := (Config.pagesPerBucket_of_geometry_eq_ok hg).1
  have hpages' : 1 ≤ g'.pagesPerBucket := (Config.pagesPerBucket_of_geometry_eq_ok hg').1
  have hsize : g.pageSize = g'.pageSize := congrArg (1 <<< ·) hshift
  have hle : g.pagesPerBucket ≤ g'.pagesPerBucket := Nat.div_le_div_right hcount
  obtain ⟨hfates, hasks, hreplays, hlookups, hhits⟩ :=
    Backing.replays_errands g seed objects reads hpages
  obtain ⟨hfates', hasks', hreplays', hlookups', hhits'⟩ :=
    Backing.replays_errands g' seed objects reads hpages'
  have hsame : visits.map (fun v => (v.key, v.delivered))
      = visits'.map fun v => (v.key, v.delivered) := by
    rw [hsize] at hfates
    exact hfates.trans hfates'.symm
  obtain ⟨hpre, hvisits⟩ := hreplays.inclusion hle hreplays' hsame fun _ => List.prefix_rfl
  have hlength : visits.length = visits'.length := hvisits.length_eq
  obtain ⟨hcache, hnotes⟩ := Backing.recordAll_eq objects reads { cache := .ofGeometry g seed }
  obtain ⟨hcache', hnotes'⟩ := Backing.recordAll_eq objects reads { cache := .ofGeometry g' seed }
  have hsublist : noted'.asks.Sublist noted.asks := by
    rw [hsize] at hasks
    rw [(hnotes.trans (List.nil_append _)).trans hasks,
      (hnotes'.trans (List.nil_append _)).trans hasks']
    refine filterMap_sublist_of_forall₂ (hvisits.imp fun v w h => ?_)
    by_cases hhit : w.result = .hit
    · exact .inl (if_pos hhit)
    · rw [if_neg hhit, if_neg fun hv => hhit (h.2 hv), h.1]
      exact .inr rfl
  refine ⟨hpre, hvisits, ?_, ?_, ⟨hcache, hcache'⟩, hsublist, hsublist.length_le⟩
  · exact hlookups.trans (hlength.trans hlookups'.symm)
  · rw [hhits, hhits']
    apply countP_le_of_forall₂
    exact hvisits.imp fun v w h hv => decide_eq_true (h.2 (of_decide_eq_true hv))

/-- One slot in each bucket, or two, and a page whose place is at stake when another one cannot be
fetched: the source of the smaller cache is asked three times, that of the larger one twice. -/
theorem larger_cache_includes_smaller_at_failed_page :
    ∃ small large, Cache.ofConfig ⟨2, 1⟩ 7 = .ok small ∧ Cache.ofConfig ⟨2, 65⟩ 7 = .ok large ∧
      small.geometry.pagesPerBucket = 1 ∧ large.geometry.pagesPerBucket = 2 ∧
      let objects : UInt32 → Backing := fun _ => .cut
      let reads : List (UInt32 × Int × Bytes) := [(5, 0, [0]), (59, 2, [0]), (5, 0, [0])]
      let session := Backing.errands objects reads
      let noted := Backing.recordAll objects reads { cache := small }
      let noted' := Backing.recordAll objects reads { cache := large }
      (∀ shard, (Errand.runAll session small).order shard
        <+: (Errand.runAll session large).order shard) ∧
      noted'.asks.Sublist noted.asks ∧ noted.asks = [(0, 2), (2, 2), (0, 2)] ∧
      noted'.asks = [(0, 2), (2, 2)] := by
  have hsmall : Cache.ofConfig ⟨2, 1⟩ 7 = .ok (.ofGeometry ⟨1, 64⟩ 7) := rfl
  have hlarge : Cache.ofConfig ⟨2, 65⟩ 7 = .ok (.ofGeometry ⟨1, 128⟩ 7) := rfl
  obtain ⟨hpre, -, -, -, -, hsublist, -⟩ := larger_cache_includes_smaller hsmall hlarge rfl
    (by decide) (fun _ => .cut) [(5, 0, [0]), (59, 2, [0]), (5, 0, [0])]
  exact ⟨_, _, hsmall, hlarge, rfl, rfl, hpre, hsublist,
    Backing.asks_recordAll_of_failed_page 1 (Nat.le_refl 1),
    Backing.asks_recordAll_of_failed_page 2 (Nat.le_succ 1)⟩

end ReadThrough
