import Mathlib.Logic.Relation
import ReadThrough.Proofs.CheckedSteps

/-!
# Untenable answers

A `Course` is a call on a cache that others use between its steps, in any way that a cache can be
used, and a read is such a course to its end (`Course.readAt`). At any point of it the cache is one
in use on which the call holds its slot besides what the others hold (`Course.accounted`). So the
buckets are in order wherever the call takes a step, and no step leaves the bounds of words and
bytes but the one that takes an untenable answer, as long as the counters are words. With that one
the call breaks off, and its slot stays held (`read_breaks_off_at_untenable_answers`).
-/

namespace ReadThrough

namespace CacheUsage

theorem Step.shardOf_eq {u v : CacheUsage} (h : Step u v) (key : PageKey) :
    v.cache.shardOf key = u.cache.shardOf key := by
  cases h <;> rfl

namespace Reaches

variable {g : Geometry} {seed : UInt64} {u : CacheUsage}

/-- The pages of all buckets keep their size. -/
theorem shaped (h : Reaches (.ofGeometry g seed) u) : u.cache.Shaped g.pageShift := by
  refine ⟨congrArg Geometry.pageShift h.geometry_eq, fun shard => ?_⟩
  have hshape := (h.ofShard shard).sameShape.2
  rw [Cache.bucket_ofGeometry] at hshape
  exact hshape

theorem fits (h : Reaches (.ofGeometry g seed) u) (hg : g.Accepted)
    (shard : Fin Geometry.bucketCount) : (u.cache.bucket shard).Fits g (u.held shard) := by
  obtain ⟨⟨howned, -⟩, hcapacity⟩ := h.sound shard
  exact ⟨hg, h.shaped.bucket_eq shard, hcapacity, howned⟩

end Reaches

end CacheUsage

/-! ## Calls among others -/

/-- What a call for a request may have done and have come to on a cache that others use between its
steps, and the cache with the slots that they hold. -/
inductive Course (r : Request) (u : CacheUsage) : List Deed → Call → CacheUsage → Prop
  | start : Course r u [] (.start r.view u.cache.geometry.pageShift r.offset r.buffer) u
  | touch {deeds : List Deed} {c : Call} {v : CacheUsage} : Course r u deeds c v →
    c.active = true → (∀ slot, c.phase ≠ .fetch slot) →
    Course r u (deeds ++ c.deeds v.cache) (c.touch v.cache).1.1
      { v with cache := (c.touch v.cache).2 }
  | receive {deeds : List Deed} {c : Call} {v : CacheUsage} {slot : Slot} (t : Transfer) :
    Course r u deeds c v → c.phase = .fetch slot →
    Course r u (deeds ++ [.asked c.pageStart c.frame.length t]) (c.receive t).1 v
  | others {deeds : List Deed} {c : Call} {v w : CacheUsage} : Course r u deeds c v →
    CacheUsage.Step v w → Course r u deeds c w

/-- The slot that a call holds, or that it held when it was abandoned. -/
def Call.Grasps (c : Call) (slot? : Option Slot) : Prop :=
  if c.phase = .finished .abandoned then slot?.isSome = true else slot? = c.slot?

theorem Call.Grasps.of_active {c : Call} {slot? : Option Slot} (h : c.Grasps slot?)
    (hactive : c.active = true) : slot? = c.slot? := by
  unfold Grasps at h
  rwa [if_neg] at h
  intro habandoned
  rw [active, habandoned] at hactive
  exact absurd hactive (by simp)

/-- A step on the cache does not make a call break off. -/
theorem Journey.phase_touch_ne_abandoned {r : Request} {pageShift : Nat} {deeds : List Deed}
    {c : Call} (h : Journey r pageShift deeds c) {cache : Cache} (hshape : cache.Shaped pageShift)
    (hactive : c.active = true) (hfetch : ∀ slot, c.phase ≠ .fetch slot) :
    (c.touch cache).1.1.phase ≠ .finished .abandoned := by
  rw [← h.tracks.pageShift_eq] at hshape
  intro habandoned
  obtain ⟨deed, hdeed, huntenable⟩ :=
    (Call.advance_touch h.tracks.sound hshape hactive hfetch).abandoned_iff.1 habandoned
  unfold Call.deeds at hdeed
  split at hdeed <;> simp_all

namespace Course

variable {r : Request} {u v : CacheUsage} {deeds : List Deed} {c : Call} {g : Geometry}
  {seed : UInt64}

/-- At any point of a course the call is on a journey, and the cache is one in use on which the call
holds a slot besides those of the others. -/
theorem accounted (h : Course r u deeds c v) (hreach : CacheUsage.Reaches (.ofGeometry g seed) u) :
    Journey r g.pageShift deeds c ∧ ∃ slot? w, c.Grasps slot? ∧
      CacheUsage.Reaches (.ofGeometry g seed) w ∧
      w.Exceeds v (slotOf (v.cache.shardOf c.key) slot?) := by
  induction h with
  | start =>
    refine ⟨?_, none, u, ?_, hreach, rfl, fun shard => ?_⟩
    · rw [hreach.shaped.geometry_eq]
      exact .start
    · rw [Call.Grasps, if_neg (Call.phase_start_ne_abandoned _ _ _ _), Call.slot?_start]
    · rw [slotOf_none]
      exact List.Perm.refl _
  | @touch deeds c v _ hactive hfetch ih =>
    obtain ⟨hjourney, slot?, w, hgrasps, hw, hexceeds⟩ := ih
    have hshape : v.cache.Shaped g.pageShift := hexceeds.cache_eq ▸ hw.shaped
    have hslot := hgrasps.of_active hactive
    rw [hslot] at hexceeds
    obtain ⟨w', hw', hexceeds'⟩ := hexceeds.touch hactive hfetch
    refine ⟨hjourney.touch hshape hactive hfetch, _, w', ?_, hw.step hw', hexceeds'⟩
    rw [Call.Grasps, if_neg (hjourney.phase_touch_ne_abandoned hshape hactive hfetch)]
  | @receive deeds c v slot t _ hphase ih =>
    obtain ⟨hjourney, slot?, w, hgrasps, hw, hexceeds⟩ := ih
    have hslot := hgrasps.of_active (by rw [Call.active, hphase])
    rw [Call.slot?, hphase] at hslot
    obtain ⟨hkey, hkept⟩ := Call.receive_keeps hphase t
    refine ⟨hjourney.receive hphase t, slot?, w, ?_, hw, hkey ▸ hexceeds⟩
    unfold Call.Grasps
    split
    · rw [hslot]
      rfl
    · rename_i hgoes
      rw [hslot, hkept hgoes]
  | @others deeds c v _ _ hstep ih =>
    obtain ⟨hjourney, slot?, w, hgrasps, hw, hexceeds⟩ := ih
    obtain ⟨w', hw', hexceeds'⟩ := hexceeds.step hstep
    refine ⟨hjourney, slot?, w', hgrasps, hw.step hw', ?_⟩
    rw [hstep.shardOf_eq]
    exact hexceeds'

/-- However often others use the cache, the course goes on. -/
theorem others_star {w : CacheUsage} (h : Course r u deeds c v)
    (hsteps : Relation.ReflTransGen CacheUsage.Step v w) : Course r u deeds c w := by
  induction hsteps with
  | refl => exact h
  | tail _ hstep ih => exact ih.others hstep

/-- A read at a place is a course to its end, if its source uses the cache as others may. -/
theorem readAt {σ : Type} {p : Place σ} {source : Source (StateM σ)}
    (hsource : ∀ offset buffer s v, v.cache = p.get s → ∃ w,
      Relation.ReflTransGen CacheUsage.Step v w ∧ w.cache = p.get (source offset buffer s).2)
    (hreach : CacheUsage.Reaches (.ofGeometry g seed) u) {s : σ} (hcache : u.cache = p.get s) :
    let ended := (p.reader r.view source).readAt r.offset r.buffer s
    ∃ last v, Course r u (r.deeds p source s) last v ∧ last.active = false ∧
      ended.1 = last.result ∧ v.cache = p.get ended.2 := by
  have hstarted : Course r u []
      (.start r.view (p.get s).geometry.pageShift r.offset r.buffer) u := hcache ▸ .start
  obtain ⟨⟨v, hcourse, hafter⟩, hended⟩ := Call.runFor_keeps_deeds p source
    (fun deeds c s => ∃ v, Course r u deeds c v ∧ v.cache = p.get s)
    (fun deeds c s ⟨v, h, _⟩ => (h.accounted hreach).1.offset_lt)
    (fun deeds c s ⟨v, h, hv⟩ hactive hfetch =>
      ⟨_, hv ▸ h.touch hactive hfetch, (p.get_set _ _).symm⟩)
    (fun deeds c s slot ⟨v, h, hv⟩ hphase => by
      obtain ⟨w, hsteps, hw⟩ := hsource c.pageStart c.frame s v hv
      exact ⟨w, (h.receive _ hphase).others_star hsteps, hw⟩)
    (Call.rank_start_le ..) ⟨u, hstarted, hcache⟩
  rw [p.readAt_reader]
  exact ⟨_, v, hcourse, hended, rfl, hafter⟩

end Course

/-! ## Published pages -/

namespace Call

variable {r : Request} {pageShift : Nat} {c c' : Call}

theorem Advance.page_le {deeds : List Deed} (h : c.Advance deeds c') : c.page ≤ c'.page := by
  have hdeliver (bytes : Bytes) : c.page ≤ (c.deliver bytes).page := by
    obtain ⟨phase, heq⟩ := c.deliver_eq bytes
    rw [heq, page_eq, page_eq]
    exact Nat.div_le_div_right (Nat.le_add_right ..)
  cases h with
  | found bytes _ _ => exact hdeliver bytes
  | missed _ => exact Nat.le.refl
  | granted slot _ => exact Nat.le.refl
  | refused _ => exact Nat.le.refl
  | answered slot bytes t _ _ =>
    obtain ⟨ahead, scratch, heq⟩ := c.setFrame_eq bytes
    rw [heq]
    exact Nat.le.refl
  | published slot n bytes _ _ => exact hdeliver bytes
  | released slot cause _ => exact Nat.le.refl

/-- A call that goes on when it has what it wants of a page is at a later page. -/
theorem Tracks.page_lt_deliver (h : c.Tracks r pageShift) (hpage : c.AtPage) {bytes : Bytes}
    (hbytes : bytes.length = c.want) (hleft : (c.deliver bytes).offset < (c.deliver bytes).stop) :
    c.page < (c.deliver bytes).page := by
  have hwant := want_pos hpage.1
  have haligned := (h.deliver hpage hbytes).aligned hleft
  have hsplit := Nat.div_add_mod (c.offset + c.want) c.pageSize
  have hstart := c.pageStart_add_intra
  obtain ⟨phase, heq⟩ := c.deliver_eq bytes
  rw [heq] at haligned ⊢
  have hmod : (c.offset + c.want) % c.pageSize = 0 := by
    refine haligned.resolve_left ?_
    rw [Destination.copied_deliver]
    omega
  refine Nat.lt_of_lt_of_eq ?_ (page_eq _).symm
  show c.page < (c.offset + c.want) / c.pageSize
  refine Nat.lt_of_mul_lt_mul_right (a := c.pageSize) ?_
  rw [← c.pageStart_eq, Nat.mul_comm]
  omega

end Call

/-- The pages that a call has published are before the page at hand. -/
theorem Journey.page_lt_of_published {r : Request} {pageShift : Nat} {deeds : List Deed} {c : Call}
    (h : Journey r pageShift deeds c) (hleft : c.offset < c.stop) {key : PageKey}
    (hkey : .published key ∈ deeds) : key.page.toNat < c.page := by
  induction h with
  | start => exact absurd hkey List.not_mem_nil
  | @step deeds more c c' hbefore hstep ih =>
    have hpage := hbefore.tracks.atPage hstep.active
    rcases List.mem_append.1 hkey with hearlier | hnow
    · exact Nat.lt_of_lt_of_le (ih hpage.1 hearlier) hstep.page_le
    · cases hstep with
      | published slot n bytes _ hbytes =>
        obtain rfl : key = c.key := by simpa using hnow
        rw [Call.toNat_page_key hpage.2]
        exact hbefore.tracks.page_lt_deliver hpage hbytes hleft
      | _ => simp at hnow

/-- An abandoned call has not published the page at hand. -/
theorem Journey.not_published_of_abandoned {r : Request} {pageShift : Nat} {deeds : List Deed}
    {c : Call} (h : Journey r pageShift deeds c) (habandoned : c.phase = .finished .abandoned) :
    .published c.key ∉ deeds := by
  have hstage := h.tracks.stage
  rw [Call.Stage, habandoned] at hstage
  obtain ⟨hleft, hnumber⟩ := hstage
  intro hkey
  have hlt := h.page_lt_of_published hleft hkey
  rw [Call.toNat_page_key hnumber] at hlt
  exact Nat.lt_irrefl _ hlt

/-! ## What breaks off a read -/

theorem Transfer.untenable_iff {t : Transfer} {length : Nat} : t.untenable length = true ↔
    t.reply = .abandoned ∨ ∃ n, t.reply = .count n ∧ length < n := by
  unfold untenable
  cases t.reply <;> simp

/-- A call asks its source for whole pages. -/
theorem Journey.length_of_asked {r : Request} {pageShift : Nat} {deeds : List Deed} {c : Call}
    (h : Journey r pageShift deeds c) {offset length : Nat} {answer : Transfer}
    (hasked : .asked offset length answer ∈ deeds) : length = 1 <<< pageShift := by
  induction h with
  | start => exact absurd hasked List.not_mem_nil
  | step hbefore hstep ih =>
    rcases List.mem_append.1 hasked with hearlier | hnow
    · exact ih hearlier
    · cases hstep with
      | answered slot bytes t _ _ =>
        obtain ⟨-, rfl, -⟩ : _ ∧ length = _ ∧ _ := by simpa using hnow
        exact hbefore.tracks.pageSize_eq
      | _ => simp at hnow

/-- A read is abandoned if and only if one of the answers that it got is untenable. -/
theorem Journey.abandoned_iff_reply {r : Request} {pageShift : Nat} {deeds : List Deed} {c : Call}
    (h : Journey r pageShift deeds c) : c.phase = .finished .abandoned ↔
      ∃ offset answer, .asked offset (1 <<< pageShift) answer ∈ deeds ∧
        (answer.reply = .abandoned ∨ ∃ n, answer.reply = .count n ∧ 1 <<< pageShift < n) := by
  rw [h.abandoned_iff]
  constructor
  · rintro ⟨deed, hdeed, huntenable⟩
    cases deed with
    | asked offset length answer =>
      obtain rfl := h.length_of_asked hdeed
      exact ⟨offset, answer, hdeed, Transfer.untenable_iff.1 huntenable⟩
    | looked key resident => exact absurd huntenable (by simp)
    | published key => exact absurd huntenable (by simp)
  · rintro ⟨offset, answer, hdeed, hreply⟩
    exact ⟨_, hdeed, Transfer.untenable_iff.2 hreply⟩

/-- Whatever a cache was used for and whatever others use it for between the steps of a read, no
step of the read leaves the bounds of words and bytes as long as 64 bits can hold the counters that
it leaves in the bucket of its page, except that nothing can be made of an answer which claims more
than a page or was broken off itself. So the read is abandoned if and only if it got such an answer.
Wherever it stands, every slot of every bucket is in one place when the one that the read holds is
counted besides those of the others. An abandoned read has left one slot held in the bucket of the
page where it broke off, which it has not published. -/
theorem read_breaks_off_at_untenable_answers {config : Config} {seed : UInt64} {cache : Cache}
    (hcache : Cache.ofConfig config seed = .ok cache) {u : CacheUsage}
    (hreach : CacheUsage.Reaches cache u) {r : Request} (hsize : r.view.size < Reader.offsetLimit) :
    let pageShift := cache.geometry.pageShift
    let pageSize := cache.geometry.pageSize
    Call.start? r pageShift = some (.start r.view pageShift r.offset r.buffer) ∧
    ∀ {deeds c v}, Course r u deeds c v →
      (c.active = true → (v.cache.bucket (v.cache.shardOf c.key)).counters.Fit →
        c.touch? r.reach v.cache
          = if ((c.touch v.cache).2.bucket (v.cache.shardOf c.key)).counters.Fit
            then some ((c.touch v.cache).1.1, (c.touch v.cache).2) else none) ∧
      (∀ slot t, c.phase = .fetch slot →
        c.receive? r.reach t = if t.untenable pageSize then none else some (c.receive t).1) ∧
      (c.phase = .finished .abandoned ↔ ∃ offset answer, .asked offset pageSize answer ∈ deeds ∧
        (answer.reply = .abandoned ∨ ∃ n, answer.reply = .count n ∧ pageSize < n)) ∧
      ∃ slot? w, CacheUsage.Reaches cache w ∧ w.cache = v.cache ∧
        (∀ shard, (w.held shard).Perm
          ((if v.cache.shardOf c.key = shard then slot?.toList else []) ++ v.held shard)) ∧
        (∀ shard, (w.ofShard shard).Partitioned cache.geometry.pagesPerBucket) ∧
        if c.phase = .finished .abandoned
        then slot?.isSome = true ∧ .published c.key ∉ deeds
        else slot? = c.slot? := by
  intro pageShift pageSize
  obtain ⟨g, hg, rfl⟩ := Cache.eq_of_ofConfig_eq_ok hcache
  have haccepted := Config.accepted_of_geometry_eq_ok hg
  refine ⟨Call.start?_eq hsize haccepted.pageShift_le, fun {deeds c v} hcourse => ?_⟩
  obtain ⟨hjourney, slot?, w, hgrasps, hw, hexceeds⟩ := hcourse.accounted hreach
  have htracks := hjourney.tracks
  refine ⟨fun hactive hcounts => ?_, fun slot t hphase => ?_, hjourney.abandoned_iff_reply, slot?,
    w, hw, hexceeds.cache_eq, hexceeds.held, fun shard => ?_, ?_⟩
  · have hfits := hjourney.fits haccepted.pageShift_le hsize hactive
    have hheld (slot : Slot) (hslot : c.slot? = some slot) :
        slot ∈ w.held (w.cache.shardOf c.key) := by
      rw [hgrasps.of_active hactive, hslot, ← hexceeds.cache_eq] at hexceeds
      exact hexceeds.erase.1
    rw [← hexceeds.cache_eq] at hcounts ⊢
    have htouched := hfits.touch?_eq htracks (htracks.pageShift_eq.symm ▸ hw.shaped)
      (hw.fits haccepted _) hcounts hheld
    rwa [Cache.counted?, (Contract.geometry_touch c w.cache).2] at htouched
  · have hactive : c.active = true := by rw [Call.active, hphase]
    have hfits := hjourney.fits haccepted.pageShift_le hsize hactive
    have hpage : c.pageSize = pageSize := htracks.pageSize_eq
    rw [← hpage]
    exact hfits.receive?_eq htracks hphase t
  · obtain ⟨hsound, hcapacity⟩ := hw.sound shard
    rw [Cache.ofGeometry, ← hcapacity]
    exact hsound.partitioned
  · rw [Call.Grasps] at hgrasps
    split
    · rename_i habandoned
      rw [if_pos habandoned] at hgrasps
      exact ⟨hgrasps, hjourney.not_published_of_abandoned habandoned⟩
    · rename_i hgoes
      rwa [if_neg hgoes] at hgrasps

/-- A call whose page is missing comes to fetch it if there is a slot for it. -/
theorem Course.exists_fetch {r : Request} {u v : CacheUsage} {deeds : List Deed} {c : Call}
    (h : Course r u deeds c v) (hphase : c.phase = .lookup)
    (hmiss : (v.cache.read c.key c.intra c.want).1 = .miss) {slot : Slot}
    (hslot : ((v.cache.read c.key c.intra c.want).2.acquire c.key).1.slot? = some slot) :
    ∃ deeds c v, Course r u deeds c v ∧ c.phase = .fetch slot := by
  have hlooked := h.touch (by rw [Call.active, hphase]) (by simp [hphase])
  rw [Call.touch_of_miss hphase hmiss] at hlooked
  have hgranted := hlooked.touch rfl (by simp)
  obtain ⟨hcall, -⟩ := Call.touch_of_grant (c := { c with phase := .acquire }) rfl hslot
  exact ⟨_, _, _, hgranted, congrArg Call.phase hcall⟩

/-- A call that misses its page counts one lookup more. -/
theorem Call.counters_touch_of_miss {c : Call} {cache : Cache} (hphase : c.phase = .lookup)
    (hmiss : (cache.read c.key c.intra c.want).1 = .miss) :
    ((c.touch cache).2.bucket (cache.shardOf c.key)).counters
      = (cache.bucket (cache.shardOf c.key)).counters.record (.lookup false) := by
  have hfound : ((cache.bucket (cache.shardOf c.key)).read c.key c.intra c.want).1 = .miss := hmiss
  have hcounters := (cache.bucket (cache.shardOf c.key)).counters_read_eq c.key c.intra c.want
  rw [hfound] at hcounters
  have hbucket := cache.bucket_onBucket_self c.key (·.read c.key c.intra c.want)
  rw [touch_of_miss hphase hmiss]
  exact (congrArg Bucket.counters hbucket).trans hcounters

/-- A source that claims three bytes for a page of two, after a first step that counts a lookup. -/
theorem read_breaks_off_at_untenable_answers_of_overclaim :
    let cache : Cache := .ofGeometry ⟨1, 64⟩ 7
    let r : Request := ⟨⟨1, 4⟩, 0, [0, 0, 5]⟩
    let first : Call := .start r.view 1 r.offset r.buffer
    Cache.ofConfig ⟨2, 1⟩ 7 = .ok cache ∧ r.view.size < Reader.offsetLimit ∧
      first.touch? r.reach cache = some ((first.touch cache).1.1, (first.touch cache).2) ∧
      ∃ deeds c v, Course r { cache } deeds c v ∧ c.phase = .finished .abandoned ∧
        (∃ offset answer, .asked offset 2 answer ∈ deeds ∧
          (answer.reply = .abandoned ∨ ∃ n, answer.reply = .count n ∧ 2 < n)) ∧
        .published c.key ∉ deeds ∧
        ∃ slot w, CacheUsage.Reaches cache w ∧ w.cache = v.cache ∧
          (w.held (v.cache.shardOf c.key)).Perm (slot :: v.held (v.cache.shardOf c.key)) := by
  intro cache r first
  have hcache : Cache.ofConfig ⟨2, 1⟩ 7 = .ok cache := rfl
  have hsize : r.view.size < Reader.offsetLimit := by decide
  have hempty : cache.Keeps (fun _ _ => False) fun _ => [] := Cache.keeps_ofGeometry ⟨1, 64⟩ 7
  have hlookup : (Call.start ⟨1, 4⟩ 1 0 [0, 0, 5]).phase = .lookup := rfl
  obtain ⟨hmiss, slot, hslot⟩ :=
    hempty.misses (fun _ h => h) (by decide) (Call.Tracks.start r 1).pageSize_eq
  obtain ⟨-, hstates⟩ := read_breaks_off_at_untenable_answers hcache .start hsize
  have hbefore (key : PageKey) : (cache.bucket (cache.shardOf key)).counters = {} := by
    rw [Cache.bucket_ofGeometry]
    rfl
  have hafter := Call.counters_touch_of_miss (c := first) hlookup hmiss
  rw [hbefore] at hafter
  have hactive : first.active = true := by rw [Call.active, hlookup]
  have htouched := (hstates .start).1 hactive (hbefore _ ▸ Counters.fit_zero)
  rw [if_pos (hafter ▸ (by decide))] at htouched
  obtain ⟨deeds, c, v, hfetch, hphase⟩ :=
    (Course.start (r := r) (u := { cache })).exists_fetch hlookup hmiss hslot
  have hpage : c.pageSize = 2 := (hfetch.accounted .start).1.tracks.pageSize_eq
  have hcourse := hfetch.receive ⟨.count 3, []⟩ hphase
  have habandoned : (c.receive ⟨.count 3, []⟩).1.phase = .finished .abandoned := by
    rw [Call.receive_eq hphase]
    refine (c.afterReply_eq_abandoned_iff slot ⟨.count 3, []⟩).2 ?_
    rw [hpage]
    rfl
  obtain ⟨-, -, hreply, slot?, w, hw, hcache', hheld, -, hlost⟩ := hstates hcourse
  rw [if_pos habandoned] at hlost
  obtain ⟨hsome, hunpublished⟩ := hlost
  obtain ⟨lost, rfl⟩ := Option.isSome_iff_exists.1 hsome
  refine ⟨hcache, hsize, htouched, _, _, _, hcourse, habandoned, hreply.1 habandoned, hunpublished,
    lost, w, hw, hcache', ?_⟩
  have hhome := hheld (v.cache.shardOf (c.receive ⟨.count 3, []⟩).1.key)
  rwa [if_pos rfl] at hhome

end ReadThrough
