import ReadThrough.Proofs.Towers

/-!
# Reads from candid sources

A source is candid that fails at any read it likes and otherwise tells the truth (`Place.Candid`).
When a read from such a source ends, on a cache that holds pages of the contents (`Place.Mirrors`),
it has delivered the front of what is there, and exactly as much of it as it says
(`Candid.readAt_slice`), whichever of its pages were resident and whichever of its fetches failed.
What the source does to the state meanwhile, and which slots others hold, is left open.
-/

namespace ReadThrough

namespace Place

/-! ## Caches and sources -/

variable {σ : Type} (p : Place σ) (contents : UInt32 → Content) (first : Cache)

/-- The cache at a place is a given one in shape and routing, each slot is in one place, and what is
resident are pages of the contents. -/
structure Mirrors (held : Fin Geometry.bucketCount → List Slot) (s : σ) : Prop where
  geometry_eq : (p.get s).geometry = first.geometry
  shardOf_eq : (p.get s).shardOf = first.shardOf
  keeps : (p.get s).Keeps (Contract.exact contents first.geometry.pageSize).good held

/-- Each read of a source fails or gives all that the content of an object has there. It may do
anything to the state that leaves the cache a mirror in which the same slots are held. -/
def Candid (object : UInt32) (source : Source (StateM σ)) : Prop :=
  ∀ held s, p.Mirrors contents first held s → ∀ offset buffer,
    let read := source offset buffer s
    let found := (contents object).slice offset buffer.length
    p.Mirrors contents first held read.2 ∧
      ((∃ error, read.1.reply = .failed error) ∨
        read.1.reply = .count found.length ∧ read.1.written.take found.length = found)

/-! ## Calls under way -/

/-- A call under way on the cache at a place, where others hold slots too. -/
structure Underway (r : Request) (held : Fin Geometry.bucketCount → List Slot) (c : Call) (s : σ) :
    Prop where
  geometry_eq : (p.get s).geometry = first.geometry
  shardOf_eq : (p.get s).shardOf = first.shardOf
  hosts : (Contract.exact contents first.geometry.pageSize).Hosts r held c (p.get s)

variable {p contents first} {r : Request} {held : Fin Geometry.bucketCount → List Slot} {c : Call}
  {s : σ} {view : View} {source : Source (StateM σ)}

/-- Whatever calls on truthful sources have done on a new cache, it mirrors the contents. -/
theorem mirrors_of_reaches {g : Geometry} {seed : UInt64} {q : Pool}
    (hreaches : Pool.Reaches (.truthful contents) (fun _ => True) (.ofGeometry g seed) q)
    (hcache : p.get s = q.cache) :
    p.Mirrors contents (.ofGeometry g seed) (Pool.heldBy q.cache q.tasks) s := by
  have hshard : q.cache.shardOf = (Cache.ofGeometry g seed).shardOf := by
    clear hcache
    induction hreaches with
    | start => rfl
    | step _ hstep _ ih =>
      cases hstep with
      | start => exact ih
      | touch cache before after t => exact (Contract.geometry_touch t.call cache).2.trans ih
      | receive => exact ih
  have hkept := hreaches.kept (Pool.abides_truthful contents g.pageSize) rfl
  exact ⟨hcache ▸ hreaches.geometry_eq, hcache ▸ hshard, hcache ▸ hkept.keeps⟩

/-- The slots held while a call is under way are its own and those of the others. -/
theorem Underway.mirrors (h : p.Underway contents first r held c s) :
    p.Mirrors contents first (fun shard => (p.get s).slotsOf c shard ++ held shard) s :=
  ⟨h.geometry_eq, h.shardOf_eq, h.hosts.keeps⟩

theorem Mirrors.underway (h : p.Mirrors contents first held s) (r : Request) :
    p.Underway contents first r held (.start r.view (p.get s).geometry.pageShift r.offset r.buffer)
      s := by
  have hshift : 1 <<< (p.get s).geometry.pageShift = first.geometry.pageSize := by
    rw [h.geometry_eq]
    rfl
  refine ⟨h.geometry_eq, h.shardOf_eq, .start r hshift, ?_, hshift⟩
  exact (Contract.keeps_iff_of_slot?_eq_none (Call.slot?_start ..)).2 h.keeps

theorem Underway.touch (h : p.Underway contents first r held c s) :
    p.Underway contents first r held (c.touch (p.get s)).1.1
      (p.set (c.touch (p.get s)).2 s) := by
  obtain ⟨hgeometry, hshard⟩ := Contract.geometry_touch c (p.get s)
  constructor <;> rw [p.get_set]
  · exact hgeometry.trans h.geometry_eq
  · exact hshard.trans h.shardOf_eq
  · exact h.hosts.touch fun _ _ => trivial

theorem Underway.receive (h : p.Underway contents first r held c s)
    (hcandid : p.Candid contents first r.view.object source)
    (hsize : r.view.size ≤ (contents r.view.object).size) {slot : Slot}
    (hphase : c.phase = .fetch slot) :
    p.Underway contents first r held (c.receive (source c.pageStart c.frame s).1).1
      (source c.pageStart c.frame s).2 := by
  obtain ⟨hmirrors, hanswer⟩ := hcandid _ s h.mirrors c.pageStart c.frame
  have hfollows := h.hosts.follows
  rw [← hfollows.view_eq, hfollows.sound.length_frame, Content.length_slice] at hanswer
  have hanswers : (Rules.truthful contents).answers c (source c.pageStart c.frame s).1 := by
    refine hanswer.imp_right fun ⟨hreply, hwritten⟩ => ⟨_, hreply, rfl, hwritten.trans ?_⟩
    rw [Content.slice, Content.slice, Nat.min_assoc, Nat.min_self]
  have haccepts := (Pool.abides_truthful contents first.geometry.pageSize).accepts r c slot _ hsize
    hfollows hphase hanswers
  refine ⟨hmirrors.geometry_eq, hmirrors.shardOf_eq, Contract.Hosts.receive ?_ fun _ _ => haccepts⟩
  -- The source has left the slot of the call where it was.
  refine ⟨hfollows, ?_, ?_⟩
  · have hshard := hmirrors.shardOf_eq.trans h.shardOf_eq.symm
    rw [Cache.slotsOf, hshard]
    exact hmirrors.keeps
  · rw [hmirrors.geometry_eq]
    rfl

/-! ## Reads -/

/-- However often its source fails, a read leaves a mirror and has delivered what it says. -/
theorem Candid.readAt (hcandid : p.Candid contents first view.object source)
    (hsize : view.size ≤ (contents view.object).size) (h : p.Mirrors contents first held s)
    (offset : Int) (buffer : Bytes) :
    let read := (p.reader view source).readAt offset buffer s
    p.Mirrors contents first held read.2 ∧ ∃ bytes cause,
      (Contract.exact contents first.geometry.pageSize).Serves ⟨view, offset, buffer⟩ bytes cause ∧
        read.1.outcome = .ofDelivery bytes.length cause ∧
        read.1.buffer.take bytes.length = bytes := by
  obtain ⟨hended, hinactive⟩ := Call.runFor_keeps p source
    (p.Underway contents first ⟨view, offset, buffer⟩ held)
    (fun c s h => h.hosts.follows.offset_lt)
    (fun c s h _ _ => h.touch)
    (fun c s slot h hphase => h.receive hcandid hsize hphase)
    (Call.rank_start_le ..) (h.underway ⟨view, offset, buffer⟩)
  intro read
  rw [show read = _ from p.readAt_reader view source offset buffer s]
  have hkeeps := (Contract.keeps_iff_of_slot?_eq_none
    (Call.slot?_of_active_eq_false hinactive)).1 hended.hosts.keeps
  obtain ⟨cause, hserves, houtcome⟩ := hended.hosts.follows.exists_cause hinactive
  refine ⟨⟨hended.geometry_eq, hended.shardOf_eq, hkeeps⟩, _, cause, hserves, ?_, ?_⟩
  · rw [houtcome, List.length_reverse, Destination.copied]
  · rw [List.length_reverse]
    exact Destination.take_copied_contents _

/-- The front of what is there is delivered, all of it unless the read stops; and a read stops only
where there is more. -/
theorem Candid.readAt_slice (hcandid : p.Candid contents first view.object source)
    (hsize : view.size ≤ (contents view.object).size) (h : p.Mirrors contents first held s)
    (offset : Nat) (buffer : Bytes) :
    let read := (p.reader view source).readAt offset buffer s
    p.Mirrors contents first held read.2 ∧ ∃ count cause,
      read.1.outcome = .ofDelivery count cause ∧
        read.1.buffer.take count = (contents view.object).slice offset count ∧
        (cause = none → count = min buffer.length (view.size - offset)) ∧
        (cause ≠ none → count < min buffer.length (view.size - offset)) := by
  obtain ⟨hmirrors, bytes, cause, hserves, houtcome, hbytes⟩ :=
    hcandid.readAt hsize h offset buffer
  have hpositive := first.geometry.pageSize_pos
  have hslice := Pool.serves_content hserves hpositive hsize
  refine ⟨hmirrors, bytes.length, cause, houtcome, hbytes.trans hslice, ?_, ?_⟩
  · intro hnone
    have hall := (hserves.length_le hpositive).2 hnone
    dsimp only at hall
    omega
  · intro hsome
    obtain ⟨cause, rfl⟩ := Option.ne_none_iff_exists'.1 hsome
    rw [Contract.Serves, if_neg (by dsimp only; omega)] at hserves
    have hbefore := hserves.stops_at.1
    dsimp only [Int.toNat_natCast] at hbefore
    omega

/-- The source at the bottom of a tower asks no cache for anything. -/
theorem candid_bottom {n : Nat} (i : Fin n) (content : Content) (faults : Nat → Option Fault)
    (first : Cache) (object : UInt32) :
    (Rack.place i).Candid (fun _ => content) first object (Tower.bottom content faults) := by
  intro held s h offset buffer
  refine ⟨⟨h.geometry_eq, h.shardOf_eq, h.keeps⟩, ?_⟩
  cases hfault : faults s.asked with
  | none =>
    have hread : (Tower.bottom content faults offset buffer s).1
        = ⟨.count (content.slice offset buffer.length).length,
          content.slice offset buffer.length⟩ := by simp only [Tower.bottom, hfault]
    rw [hread]
    exact .inr ⟨rfl, List.take_length⟩
  | some fault =>
    have hread : (Tower.bottom content faults offset buffer s).1
        = ⟨.failed fault.error, fault.written⟩ := by simp only [Tower.bottom, hfault]
    rw [hread]
    exact .inl ⟨fault.error, rfl⟩

end Place

end ReadThrough
