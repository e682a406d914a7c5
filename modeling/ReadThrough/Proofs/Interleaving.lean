import ReadThrough.Proofs.Pool

/-!
# Reads that interleave

Each object has one content, and every answer of a source that is not a failure tells the truth
about it. Then the contract of all calls is that pages hold the content's bytes (`Contract.exact`),
a walk delivers a piece of the content (`Walk.eq_slice`), and so does every call, whatever the other
calls on its cache do between its steps (`reads_deliver_content`).
-/

namespace ReadThrough

/-! ## Pieces of a content -/

namespace Content

variable {c : Content} {offset count : Nat}

theorem slice_eq (h : offset + count ≤ c.size) :
    c.slice offset count = (List.range' offset count).map c.byteAt := by
  rw [slice, Nat.min_eq_left (by omega)]

@[simp] theorem slice_zero (c : Content) (offset : Nat) : c.slice offset 0 = [] := by
  rw [slice, Nat.zero_min]
  rfl

/-- Two pieces in a row are one, also where the content ends within the second. -/
theorem slice_append {a b : Nat} (h : offset + a ≤ c.size) :
    c.slice offset a ++ c.slice (offset + a) b = c.slice offset (a + b) := by
  have hall : min (a + b) (c.size - offset) = a + min b (c.size - (offset + a)) := by omega
  rw [slice_eq h, slice, slice, ← List.map_append, hall, List.range'_append_1]

/-- A window of a piece is a piece. -/
theorem window_slice {start a : Nat} (hpiece : offset + count ≤ a)
    (hsize : start + offset + count ≤ c.size) :
    Bytes.window (c.slice start a) offset count = c.slice (start + offset) count := by
  rw [Bytes.window_eq (by rw [length_slice]; omega), slice_eq hsize, slice, ← List.map_drop,
    ← List.map_take, List.drop_range', List.take_range'_of_length_ge (by omega), Nat.mul_one]

end Content

/-! ## Pages that hold the content -/

/-- If what is wanted of every good page is a piece of some content, so is what a walk delivers. -/
theorem Contract.Walk.eq_slice_of_pages {K : Contract} {c : Content} {view : View}
    {stop offset : Nat} {bytes : Bytes} {cause : Option StopCause}
    (h : K.Walk view stop offset bytes cause) (hpositive : 0 < K.pageSize)
    (hpages : ∀ number page, K.good ⟨view.object, number⟩ page → ∀ intra count,
      intra + count ≤ K.pageSize → number.toNat * K.pageSize + intra + count ≤ stop →
      number.toNat * K.pageSize + intra + count ≤ c.size ∧
        Bytes.window page intra count = c.slice (number.toNat * K.pageSize + intra) count) :
    (bytes ≠ [] → offset + bytes.length ≤ c.size) ∧ bytes = c.slice offset bytes.length := by
  induction h with
  | done _ => simp
  | halt _ _ => simp
  | @page offset page rest cause hoffset hnumber hgood hwalk ih =>
    obtain ⟨hend, hrest⟩ := ih
    obtain ⟨-, hstop, hwithin⟩ := want_le hpositive hoffset
    -- The page starts at a multiple of the page size, and what is wanted of it lies within it.
    have hid : (offset / K.pageSize).toUInt32.toNat = offset / K.pageSize :=
      Call.toNat_toUInt32 hnumber
    have hposition : offset / K.pageSize * K.pageSize + offset % K.pageSize = offset := by
      rw [Nat.mul_comm]
      exact Nat.div_add_mod ..
    obtain ⟨hsize, hwindow⟩ := hpages _ page hgood _ _ hwithin (by rw [hid, hposition]; exact hstop)
    rw [hid, hposition] at hsize hwindow
    generalize K.want offset stop = count at hend hrest hsize hwindow ⊢
    have hall : offset + count + rest.length ≤ c.size := by
      cases rest with
      | nil => exact hsize
      | cons b rest => exact hend (by simp)
    rw [List.length_append, Bytes.length_window, ← Nat.add_assoc]
    refine ⟨fun _ => hall, ?_⟩
    calc
      Bytes.window page (offset % K.pageSize) count ++ rest
        = c.slice offset count ++ c.slice (offset + count) rest.length := by rw [hwindow, ← hrest]
      _ = c.slice offset (count + rest.length) := Content.slice_append (by omega)

/-- Pages hold the bytes of their object's content, and a read may stop for any cause. -/
def Contract.exact (contents : UInt32 → Content) (pageSize : Nat) : Contract where
  pageSize := pageSize
  good key page := page = (contents key.object).slice (key.page.toNat * pageSize) pageSize
  stops _ _ _ := True
  stops_unnamed _ _ _ := trivial

/-- Views that lie within the content of their object, read from sources that fail or give as much
of the page as the content has. What a failing source leaves in the buffer, or any source past the
bytes that it reports, is left open. -/
def Rules.truthful (contents : UInt32 → Content) : Rules where
  admits r := r.view.size ≤ (contents r.view.object).size
  answers c t := (∃ error, t.reply = .failed error) ∨
    ∃ n, t.reply = .count n ∧ n = min c.pageSize ((contents c.view.object).size - c.pageStart) ∧
      t.written.take n = (contents c.view.object).slice c.pageStart n

variable {contents : UInt32 → Content} {pageSize : Nat}

/-- What a walk over pages of the content delivers is the piece of the content from where it
starts. -/
theorem Contract.Walk.eq_slice {view : View} {stop offset : Nat} {bytes : Bytes}
    {cause : Option StopCause} (h : (exact contents pageSize).Walk view stop offset bytes cause)
    (hpositive : 0 < pageSize) (hstop : stop ≤ (contents view.object).size) :
    bytes = (contents view.object).slice offset bytes.length := by
  refine (h.eq_slice_of_pages hpositive ?_).2
  intro number page hgood intra count hwithin hend
  have hpage : page = (contents view.object).slice (number.toNat * pageSize) pageSize := hgood
  have hsize : number.toNat * pageSize + intra + count ≤ (contents view.object).size :=
    Nat.le_trans hend hstop
  rw [hpage]
  exact ⟨hsize, Content.window_slice hwithin hsize⟩

namespace Pool

theorem abides_truthful (contents : UInt32 → Content) (pageSize : Nat) :
    Abides (.exact contents pageSize) (.truthful contents) fun _ => True := by
  refine ⟨?_, fun _ _ _ _ _ _ _ => trivial⟩
  intro r c slot answer hadmits hfollows hphase hanswer
  obtain ⟨error, hreply⟩ | ⟨n, hreply, hn, hwritten⟩ := hanswer
  · unfold Contract.Accepts
    rw [hreply]
    trivial
  · have hprogress := hfollows.progress
    rw [Contract.Progress, hphase] at hprogress
    have hle : n ≤ c.pageSize := hn ▸ Nat.min_le_left _ _
    unfold Contract.Accepts
    rw [hreply]
    refine ⟨hle, ?_⟩
    split
    · trivial
    · -- The buffer starts with the written bytes, and these are what the page has.
      have hlength : n ≤ answer.written.length := by
        have hcut := congrArg List.length hwritten
        rw [List.length_take, Content.length_slice] at hcut
        omega
      rw [Bytes.take_overlay (by rw [hfollows.sound.length_frame]; exact hle) hlength, hwritten]
      have hkey : c.key.page.toNat * pageSize = c.pageStart := by
        rw [Call.toNat_page_key hprogress.2.1, c.pageStart_eq, hfollows.pageSize_eq]
        rfl
      show (contents c.view.object).slice c.pageStart n
        = (contents c.view.object).slice (c.key.page.toNat * pageSize) pageSize
      have hpage : c.pageSize = pageSize := hfollows.pageSize_eq
      rw [hkey, Content.slice, Content.slice, hn, hpage, Nat.min_assoc, Nat.min_self]

/-- What a call that follows its request over pages of the content has delivered. -/
theorem serves_content {r : Request} {bytes : Bytes} {cause : Option StopCause}
    (h : (Contract.exact contents pageSize).Serves r bytes cause) (hpositive : 0 < pageSize)
    (hsize : r.view.size ≤ (contents r.view.object).size) :
    bytes = (contents r.view.object).slice r.offset.toNat bytes.length := by
  unfold Contract.Serves at h
  split at h
  · obtain ⟨rfl, rfl⟩ := h
    simp
  · exact h.eq_slice hpositive (by omega)

/-- However calls on a cache interleave, a call that is done has delivered all of its range within
its view, and one that has stopped the front of it, both with the bytes of the object's content. -/
theorem reads_deliver_content {config : Config} {seed : UInt64} {cache : Cache}
    (contents : UInt32 → Content) (hcache : Cache.ofConfig config seed = .ok cache) {p : Pool}
    (hreaches : Reaches (.truthful contents) (fun _ => True) cache p) {t : Task}
    (ht : t ∈ p.tasks) :
    (∀ n, t.call.outcome = .done n →
      (n : Int) = min (t.request.buffer.length : Int)
        (max (t.request.view.size - t.request.offset) 0) ∧
      t.call.destination.contents.take n
        = (contents t.request.view.object).slice t.request.offset.toNat n) ∧
    (∀ e, t.call.outcome = .stopped e →
      (e.copied : Int) ≤ min (t.request.buffer.length : Int)
        (max (t.request.view.size - t.request.offset) 0) ∧
      t.call.destination.contents.take e.copied
        = (contents t.request.view.object).slice t.request.offset.toNat e.copied) ∧
    t.call.phase ≠ .finished .abandoned ∧
    t.call.destination.contents.length = t.request.buffer.length := by
  obtain ⟨g, -, rfl⟩ := Cache.eq_of_ofConfig_eq_ok hcache
  have hkept := hreaches.kept (abides_truthful contents g.pageSize) rfl
  have hfollows := hkept.follows t ht
  have hadmits : t.request.view.size ≤ (contents t.request.view.object).size :=
    hkept.admitted t ht
  have hpositive := g.pageSize_pos
  refine ⟨?_, ?_, hfollows.phase_ne_abandoned, hfollows.length_eq⟩
  · intro n houtcome
    obtain ⟨rfl, hserves⟩ := hfollows.of_outcome_done houtcome
    have hall := (hserves.length_le hpositive).2 rfl
    have hslice := serves_content hserves hpositive hadmits
    rw [List.length_reverse] at hall hslice
    rw [Destination.take_copied_contents]
    exact ⟨hall, hslice⟩
  · intro e houtcome
    obtain ⟨hcopied, hserves⟩ := hfollows.of_outcome_stopped houtcome
    have hle := (hserves.length_le hpositive).1
    have hslice := serves_content hserves hpositive hadmits
    rw [List.length_reverse] at hle hslice
    rw [hcopied, Destination.take_copied_contents]
    exact ⟨hle, hslice⟩

section SharedPage

attribute [local simp] Call.receive Call.setFrame Call.deliver Call.visit Call.outcome Call.finish
  Call.key Call.frame Call.wholePage Call.want Call.intra Call.pageStart Call.page Call.pageSize
  Destination.stage Destination.deliver Destination.copied Bytes.zeros Bytes.overlay

/-- Two calls on a new cache with pages of two bytes. Both miss the first page and acquire a slot
for it before the source has answered either; then both fetch and publish it, and each is done with
its own bytes of it. -/
theorem reads_deliver_content_of_fetched_page :
    ∃ cache q p a b slot slot', Cache.ofConfig ⟨2, 65⟩ 7 = .ok cache ∧
      Reaches (.truthful fun _ => .ofBytes [1, 2, 3]) (fun _ => True) cache q ∧
      q.tasks.map (fun t => (t.call.key, t.call.phase))
        = [(⟨0, 0⟩, .fetch slot'), (⟨0, 0⟩, .fetch slot)] ∧ slot' ≠ slot ∧
      Reaches (.truthful fun _ => .ofBytes [1, 2, 3]) (fun _ => True) cache p ∧
      p.tasks = [b, a] ∧
      a.call.outcome = .done 1 ∧ a.call.destination.contents.take 1 = [2] ∧
      b.call.outcome = .done 2 ∧ b.call.destination.contents.take 2 = [1, 2] := by
  have hcache : Cache.ofConfig ⟨2, 65⟩ 7 = .ok (.ofGeometry ⟨1, 128⟩ 7) := rfl
  have hstart : Reaches (.truthful fun _ => .ofBytes [1, 2, 3]) (fun _ => True)
      (.ofGeometry ⟨1, 128⟩ 7) ⟨.ofGeometry ⟨1, 128⟩ 7,
        [⟨⟨⟨0, 3⟩, 0, [0, 0]⟩, ⟨⟨0, 3⟩, 1, 0, 2, ⟨[], [0, 0]⟩, [], .lookup⟩⟩] ++
        ⟨⟨⟨0, 3⟩, 1, [0]⟩, ⟨⟨0, 3⟩, 1, 1, 2, ⟨[], [0]⟩, [], .lookup⟩⟩ :: []⟩ :=
    ((Reaches.start trivial).step (.start _ ⟨⟨0, 3⟩, 1, [0]⟩ (Nat.le_refl 3)) trivial).step
      (.start _ ⟨⟨0, 3⟩, 0, [0, 0]⟩ (Nat.le_refl 3)) trivial
  obtain ⟨cache, slot, hfirst, hgeometry, hshard, hkeeps⟩ := hstart.exists_fetch [_] []
    (Cache.keeps_ofGeometry ⟨1, 128⟩ 7) rfl rfl (Nat.zero_lt_succ 1) fun _ _ => trivial
  have hheld (home : Fin Geometry.bucketCount) : (slotsAt home [slot] home ++ []).length < 2 := by
    rw [slotsAt_self]
    exact Nat.lt_succ_self 1
  obtain ⟨cache', slot', hboth, -, -, hkeeps'⟩ := hfirst.exists_fetch [] [_] hkeeps rfl
    (by rw [hgeometry]; rfl) (by rw [hgeometry, hshard]; exact hheld _) fun _ _ => trivial
  have hne : slot' ≠ slot := by
    rw [hshard] at hkeeps'
    have hslots (home : Fin Geometry.bucketCount)
        (hnodup : (slotsAt home [slot'] home ++ (slotsAt home [slot] home ++ [])).Nodup) :
        slot' ≠ slot := by
      simpa using hnodup
    exact hslots (Cache.shardOf (.ofGeometry ⟨1, 128⟩ 7) ⟨0, 0⟩) (hkeeps'.bucket _).owned.nodup_held
  -- The source answers both calls, and then both publish the page.
  have hanswer (c : Call) (hview : c.view = ⟨0, 3⟩) (hstart : c.pageStart = 0)
      (hsize : c.pageSize = 2) :
      (Rules.truthful fun _ => .ofBytes [1, 2, 3]).answers c ⟨.count 2, [1, 2]⟩ := by
    refine .inr ⟨2, rfl, ?_, ?_⟩
    · rw [hstart, hsize]
      rfl
    · rw [hstart]
      rfl
  have hgot := hboth.step (.receive cache' [_] [] _ slot _ rfl
    (hanswer _ rfl (by simp) rfl)) trivial
  have hgot' := hgot.step (.receive cache' [] [_] _ slot' _ rfl
    (hanswer _ rfl (by simp) rfl)) trivial
  have hdone := (hgot'.step (.touch cache' [_] [] _) trivial).step (.touch _ [] [_] _) trivial
  have hpart (cache : Cache) : (((⟨⟨0, 3⟩, 1, 1, 2, ⟨[], [0]⟩, [], .fetch slot⟩ : Call).receive
      ⟨.count 2, [1, 2]⟩).1.touch cache).1.1.outcome = .done 1 := by
    have hreceived : ((⟨⟨0, 3⟩, 1, 1, 2, ⟨[], [0]⟩, [], .fetch slot⟩ : Call).receive
        ⟨.count 2, [1, 2]⟩).1 = ⟨⟨0, 3⟩, 1, 1, 2, ⟨[], [0]⟩, [1, 2], .publish slot 2⟩ := by
      simp
    rw [hreceived, (Call.touch_of_publish cache rfl).1]
    simp
  have hwhole (cache : Cache) : (((⟨⟨0, 3⟩, 1, 0, 2, ⟨[], [0, 0]⟩, [], .fetch slot'⟩ : Call).receive
      ⟨.count 2, [1, 2]⟩).1.touch cache).1.1.outcome = .done 2 := by
    have hreceived : ((⟨⟨0, 3⟩, 1, 0, 2, ⟨[], [0, 0]⟩, [], .fetch slot'⟩ : Call).receive
        ⟨.count 2, [1, 2]⟩).1 = ⟨⟨0, 3⟩, 1, 0, 2, ⟨[], [1, 2]⟩, [], .publish slot' 2⟩ := by
      simp
    rw [hreceived, (Call.touch_of_publish cache rfl).1]
    simp
  refine ⟨_, _, _, _, _, slot, slot', hcache, hboth, ?_, hne, hdone, rfl, hpart _, ?_, hwhole _, ?_⟩
  · simp
  · exact ((reads_deliver_content _ hcache hdone (by simp)).1 1 (hpart _)).2
  · exact ((reads_deliver_content _ hcache hdone (by simp)).1 2 (hwhole _)).2

end SharedPage

end Pool

end ReadThrough
