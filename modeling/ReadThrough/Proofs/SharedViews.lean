import ReadThrough.Proofs.Interleaving
import ReadThrough.Proofs.Sessions

/-!
# Views of different sizes

One object may be read through views of different sizes, smaller and larger than its content, from
sources that give the content's bytes and no more (`Content.Honest`). A short page is accepted by
the size of the view that fetches it, but it is published for all views, filled up with zeros. So a
view that is larger than the content is stopped at the page in which the content ends, unless a view
that is no larger than the content has fetched that page: then it is served the zeros
(`done_of_resident_cut_page`). `views_deliver_content` tells all that is certain: no view is served
anything but the content with its last page filled up (`Content.padded`), and as long as that page
was not fetched through a view that the content is enough for, nothing but the content.
-/

namespace ReadThrough

/-! ## Contents and their sources -/

namespace Content

variable (c : Content) (pageSize : Nat)

/-- The content with its last page filled up with zeros. -/
def padded : Content where
  size := roundUp c.size pageSize
  byteAt k := if k < c.size then c.byteAt k else 0

/-- The source gives the bytes of the content. What it leaves in the buffer after the bytes that it
reports is left open. -/
def Honest (answer : Nat → Bytes → Transfer) : Prop :=
  ∀ offset buffer, ∃ residue, answer offset buffer
    = ⟨.count (c.slice offset buffer.length).length, c.slice offset buffer.length ++ residue⟩

/-- Why a read of a view stops at a position: the page there has no number, or the content ends
before the page does. -/
def stopCause (view : View) (position : Nat) : StopCause :=
  let page := position / pageSize
  if Call.pageLimit ≤ page then .offsetOutOfRange position view.size
  else .noProgress (page * pageSize) pageSize (c.size - page * pageSize)

theorem honest_source : c.Honest (c.source (m := Id)) := by
  intro offset buffer
  refine ⟨[], ?_⟩
  rw [List.append_nil]
  rfl

variable {c pageSize} {offset count : Nat}

/-- Up to the end of the content the padded content is the same. -/
theorem slice_padded_of_le (hpositive : 0 < pageSize) (h : count ≤ c.size - offset) :
    (c.padded pageSize).slice offset count = c.slice offset count := by
  have hle : c.size ≤ (c.padded pageSize).size := le_roundUp hpositive
  rw [slice, slice, Nat.min_eq_left h, Nat.min_eq_left (by omega)]
  apply List.map_congr_left
  intro k hk
  rw [List.mem_range'_1] at hk
  exact if_pos (by omega)

/-- From there on it is zeros. -/
theorem slice_padded_of_ge (h : c.size ≤ offset)
    (hend : offset + count ≤ (c.padded pageSize).size) :
    (c.padded pageSize).slice offset count = Bytes.zeros count := by
  rw [slice_eq hend, Bytes.zeros, List.eq_replicate_iff]
  refine ⟨by simp, ?_⟩
  intro b hb
  obtain ⟨k, hk, rfl⟩ := List.mem_map.1 hb
  rw [List.mem_range'_1] at hk
  exact if_neg (by omega)

theorem add_le_page_end (page : Nat) (h : offset + count ≤ pageSize) :
    page * pageSize + offset + count ≤ (page + 1) * pageSize := by
  rw [Nat.succ_mul]
  omega

/-- A page that the content reaches lies within the padded content. -/
theorem page_end_le_size_padded {page : Nat} (hpositive : 0 < pageSize)
    (h : page * pageSize < c.size) : (page + 1) * pageSize ≤ (c.padded pageSize).size := by
  obtain ⟨k, hk⟩ := dvd_roundUp c.size pageSize
  have hle : c.size ≤ roundUp c.size pageSize := le_roundUp hpositive
  have hlt : page < k := by
    rw [hk, Nat.mul_comm pageSize k] at hle
    exact Nat.lt_of_mul_lt_mul_right (Nat.lt_of_lt_of_le h hle)
  show (page + 1) * pageSize ≤ roundUp c.size pageSize
  rw [hk, Nat.mul_comm pageSize k]
  exact Nat.mul_le_mul_right pageSize hlt

/-- A window of a page is a piece of the padded content. -/
theorem window_slice_eq_padded {start : Nat} (hpositive : 0 < pageSize)
    (hwithin : offset + count ≤ pageSize)
    (hend : start + offset + count ≤ (c.padded pageSize).size) :
    Bytes.window (c.slice start pageSize) offset count
      = (c.padded pageSize).slice (start + offset) count := by
  by_cases hsize : start + offset + count ≤ c.size
  · rw [window_slice hwithin hsize, slice_padded_of_le hpositive (by omega)]
  · -- The content ends within the window: its bytes come first and zeros fill up the rest.
    obtain ⟨found, hfound⟩ : ∃ found, found = c.size - (start + offset) := ⟨_, rfl⟩
    have hpiece : ((c.slice start pageSize).drop offset).take count
        = c.slice (start + offset) found := by
      rw [slice, slice, ← List.map_drop, ← List.map_take, List.drop_range', Nat.mul_one,
        List.take_range'_of_length_le (by omega)]
      congr 2
      omega
    have hlength : (c.slice (start + offset) found).length = found := by
      rw [length_slice]
      omega
    rw [Bytes.window, hpiece, hlength]
    calc
      c.slice (start + offset) found ++ Bytes.zeros (count - found)
        = (c.padded pageSize).slice (start + offset) found
          ++ (c.padded pageSize).slice (start + offset + found) (count - found) := by
        rw [slice_padded_of_le hpositive (by omega), slice_padded_of_ge (by omega) (by omega)]
      _ = (c.padded pageSize).slice (start + offset) (found + (count - found)) :=
        slice_append (by omega)
      _ = (c.padded pageSize).slice (start + offset) count := by
        rw [Nat.add_sub_cancel' (by omega)]

end Content

/-! ## The contract of honest sources -/

/-- Pages hold what the content has of them, at least a byte, and only certain objects have pages in
which the content ends. Reads stop for lack of content only. -/
def Contract.honest (contents : UInt32 → Content) (pageSize : Nat) (cut : UInt32 → Prop) :
    Contract where
  pageSize := pageSize
  good key page :=
    page = (contents key.object).slice (key.page.toNat * pageSize) pageSize ∧
      key.page.toNat * pageSize < (contents key.object).size ∧
      ((contents key.object).size < (key.page.toNat + 1) * pageSize → cut key.object)
  stops view offset cause :=
    cause = (contents view.object).stopCause pageSize view offset ∧
      (offset / pageSize < Call.pageLimit → (contents view.object).size < view.size)
  stops_unnamed _ _ h := ⟨(if_pos h).symm, fun hlt => absurd h (Nat.not_le.2 hlt)⟩

section Honest

variable {contents : UInt32 → Content} {pageSize : Nat} {cut : UInt32 → Prop}

/-- The answers of an honest source are within the contract, if those objects may have cut pages
that views are read of which their contents are enough for. -/
theorem Contract.accepts_honest {r : Request} {answer : Nat → Bytes → Transfer}
    (hhonest : (contents r.view.object).Honest answer)
    (hcut : r.view.size ≤ (contents r.view.object).size → cut r.view.object) {c : Call}
    {slot : Slot} (h : (honest contents pageSize cut).Follows r c)
    (hphase : c.phase = .fetch slot) :
    (honest contents pageSize cut).Accepts c (answer c.pageStart c.frame) := by
  obtain ⟨hoffset, hlimit, -⟩ := h.pending (by rw [Call.active, hphase])
  have hstop := h.sound.stop_le
  have hsize : c.pageSize = pageSize := h.pageSize_eq
  have hnumber : c.page = c.offset / pageSize := by rw [c.page_eq, hsize]
  have hstart : c.pageStart = c.page * pageSize := by rw [c.pageStart_eq, hsize]
  have hkey : c.key.page.toNat = c.page := Call.toNat_page_key hlimit
  have hposition := c.pageStart_add_intra
  obtain ⟨residue, hanswer⟩ := hhonest c.pageStart c.frame
  rw [hanswer, h.sound.length_frame, hsize, ← h.view_eq, Content.length_slice]
  rw [← h.view_eq] at hcut
  refine ⟨by rw [hsize]; exact Nat.min_le_left .., ?_⟩
  rw [hsize]
  split
  · -- A count that is too short for the view says that the content ends within the page.
    rename_i hshort
    refine ⟨?_, fun _ => by omega⟩
    rw [Content.stopCause, ← hnumber, if_neg (Nat.not_le.2 hlimit), ← hstart]
    congr 1
    omega
  · -- The position at hand is within the view, so an accepted page has at least a byte.
    rename_i hfull
    have hwritten : (c.frame.overlay ((contents c.view.object).slice c.pageStart pageSize
        ++ residue)).take (min pageSize ((contents c.view.object).size - c.pageStart))
        = (contents c.view.object).slice c.pageStart pageSize := by
      rw [Bytes.take_overlay (by rw [h.sound.length_frame, hsize]; exact Nat.min_le_left ..)
        (by rw [List.length_append, Content.length_slice]; omega),
        List.take_left' (Content.length_slice ..)]
    have hpositive := c.pageSize_pos
    have hobject : c.key.object = c.view.object := rfl
    have hsucc : (c.page + 1) * pageSize = c.pageStart + pageSize := by rw [Nat.succ_mul, hstart]
    rw [hwritten]
    unfold honest
    dsimp only
    rw [hobject, hkey, hsucc, ← hstart]
    exact ⟨rfl, by omega, fun hends => hcut (by omega)⟩

/-- A read from an honest source delivers what the contract serves, and leaves a cache that keeps
good pages. -/
theorem Errand.run_honest {e : Errand} {cache : Cache}
    (hhonest : (contents e.request.view.object).Honest e.answer)
    (hcut : e.request.view.size ≤ (contents e.request.view.object).size →
      cut e.request.view.object)
    (hkeeps : cache.Keeps (Contract.honest contents cache.geometry.pageSize cut).good fun _ => [])
    (hpages : 1 ≤ cache.geometry.pagesPerBucket) :
    let K := Contract.honest contents cache.geometry.pageSize cut
    (∃ bytes why, K.Serves e.request bytes why ∧
      (e.run cache).1.outcome = .ofDelivery bytes.length why ∧
      (e.run cache).1.buffer.take bytes.length = bytes) ∧
    (e.run cache).2.Keeps K.good (fun _ => []) ∧ (e.run cache).2.geometry = cache.geometry := by
  obtain ⟨⟨bytes, why, hserves, houtcome, hbytes, -⟩, hkept, hgeometry⟩ :=
    Contract.readAt_serves (K := .honest contents cache.geometry.pageSize cut) e.answer
      (fun _ _ => Contract.accepts_honest hhonest hcut) hkeeps rfl hpages
  exact ⟨⟨bytes, why, hserves, houtcome, hbytes⟩, hkept, hgeometry⟩

theorem Errand.keeps_runAll_honest (session : List Errand) {cache : Cache}
    (hhonest : ∀ e ∈ session, (contents e.request.view.object).Honest e.answer)
    (hcut : ∀ e ∈ session, e.request.view.size ≤ (contents e.request.view.object).size →
      cut e.request.view.object)
    (hkeeps : cache.Keeps (Contract.honest contents cache.geometry.pageSize cut).good fun _ => [])
    (hpages : 1 ≤ cache.geometry.pagesPerBucket) :
    (Errand.runAll session cache).Keeps (Contract.honest contents cache.geometry.pageSize cut).good
      (fun _ => []) ∧ (Errand.runAll session cache).geometry = cache.geometry := by
  induction session generalizing cache with
  | nil => exact ⟨hkeeps, rfl⟩
  | cons e session ih =>
    obtain ⟨hfirst, hrest⟩ := List.forall_mem_cons.1 hhonest
    obtain ⟨hfirst', hrest'⟩ := List.forall_mem_cons.1 hcut
    obtain ⟨-, hkept, hgeometry⟩ := Errand.run_honest hfirst hfirst' hkeeps hpages
    rw [← hgeometry] at hkept hpages ⊢
    exact ih hrest hrest' hkept hpages

end Honest

/-! ## What views are served -/

/-- A read delivers bytes of the content only, and stops if its range goes beyond the content;
`cause` tells why it stops at a position. -/
structure ServedFrom (c : Content) (r : Request) (cause : Nat → StopCause) (result : ReadResult) :
    Prop where
  delivered : ∀ n why, result.outcome = .ofDelivery n why → 0 < n →
    r.offset.toNat + n ≤ c.size ∧ result.buffer.take n = c.slice r.offset.toNat n
  stops : 0 ≤ r.offset → r.offset.toNat < r.stop → c.size < r.stop →
    ∃ n, r.offset.toNat + n < r.stop ∧
      result.outcome = .stopped ⟨n, cause (r.offset.toNat + n)⟩

/-- A read from a position of its view that does not stop delivers all of its range. -/
theorem Contract.Serves.length_eq {K : Contract} {r : Request} {bytes : Bytes}
    (h : K.Serves r bytes none) (hpositive : 0 < K.pageSize) (hnonneg : 0 ≤ r.offset) :
    bytes.length = r.stop - r.offset.toNat := by
  have hall := (h.length_le hpositive).2 rfl
  rw [Request.stop]
  omega

theorem Outcome.ofDelivery_inj {n m : Nat} {why why' : Option StopCause}
    (h : ofDelivery n why = ofDelivery m why') : n = m ∧ why = why' := by
  cases why <;> cases why' <;> simp_all [ofDelivery]

/-- A request is served from a content of which all that is wanted of good pages is a piece. -/
theorem Contract.Serves.servedFrom {K : Contract} {c : Content} {r : Request} {bytes : Bytes}
    {why : Option StopCause} {cause : Nat → StopCause} {result : ReadResult}
    (h : K.Serves r bytes why) (hpositive : 0 < K.pageSize)
    (hpages : ∀ number page, K.good ⟨r.view.object, number⟩ page → ∀ intra count,
      intra + count ≤ K.pageSize → number.toNat * K.pageSize + intra + count ≤ r.stop →
      number.toNat * K.pageSize + intra + count ≤ c.size ∧
        Bytes.window page intra count = c.slice (number.toNat * K.pageSize + intra) count)
    (hstops : ∀ position cause', K.stops r.view position cause' → cause' = cause position)
    (houtcome : result.outcome = .ofDelivery bytes.length why)
    (hbytes : result.buffer.take bytes.length = bytes) : ServedFrom c r cause result := by
  unfold Serves at h
  split at h
  · rename_i hnegative
    obtain ⟨rfl, rfl⟩ := h
    refine ⟨?_, fun hnonneg => absurd hnegative (Int.not_lt.2 hnonneg)⟩
    intro n why hended hn
    obtain ⟨rfl, -⟩ := Outcome.ofDelivery_inj (houtcome.symm.trans hended)
    exact absurd hn (Nat.lt_irrefl 0)
  · have hwalk : K.Walk r.view r.stop r.offset.toNat bytes why := h
    obtain ⟨hend, hslice⟩ := hwalk.eq_slice_of_pages hpositive hpages
    constructor
    · intro n why' hended hn
      obtain ⟨rfl, -⟩ := Outcome.ofDelivery_inj (houtcome.symm.trans hended)
      exact ⟨hend (List.ne_nil_of_length_pos hn), by rw [hbytes]; exact hslice⟩
    · intro _ hstart hbeyond
      cases why with
      | none =>
        -- A read that is done has gone to the end of its range.
        have hlength := (hwalk.length_le hpositive).2 rfl
        have hle := hend (List.ne_nil_of_length_pos (by omega))
        omega
      | some cause' =>
        obtain ⟨hlt, hcause⟩ := hwalk.stops_at
        refine ⟨bytes.length, hlt, ?_⟩
        rw [houtcome, ← hstops _ _ hcause]
        rfl

/-! ## Cut pages -/

section Cut

variable {cache : Cache} {good good' : PageKey → Bytes → Prop}
  {held : Fin Geometry.bucketCount → List Slot}

/-- Resident pages are good. -/
theorem Cache.Keeps.exists_good (h : cache.Keeps good held) {shard : Fin Geometry.bucketCount}
    {key : PageKey} (hmem : key ∈ cache.order shard) : ∃ page, good key page := by
  obtain ⟨slot, hslot⟩ := Bucket.mem_order.1 hmem
  exact ⟨_, (h.bucket shard).stored key slot hslot⟩

/-- A cache keeps pages that are good in another sense if its resident pages are. -/
theorem Cache.Keeps.of_order (h : cache.Keeps good held)
    (hgood : ∀ shard, ∀ key ∈ cache.order shard, ∀ page, good key page → good' key page) :
    cache.Keeps good' held := by
  refine ⟨fun shard => ⟨(h.bucket shard).owned, ?_⟩, h.shape⟩
  intro key slot hmem
  exact hgood shard key (Bucket.mem_order.2 ⟨slot, hmem⟩) _ ((h.bucket shard).stored key slot hmem)

/-- A page of the object is resident in which its content ends. -/
def Cache.HasCutPage (cache : Cache) (object : UInt32) (c : Content) : Prop :=
  ∃ shard, ∃ key ∈ cache.order shard,
    key.object = object ∧ c.size < (key.page.toNat + 1) * cache.geometry.pageSize

variable {contents : UInt32 → Content}

theorem Cache.HasCutPage.cut {cut : UInt32 → Prop} {object : UInt32}
    (hkeeps : cache.Keeps (Contract.honest contents cache.geometry.pageSize cut).good held)
    (h : cache.HasCutPage object (contents object)) : cut object := by
  obtain ⟨shard, key, hmem, rfl, hends⟩ := h
  obtain ⟨page, -, -, hcut⟩ := hkeeps.exists_good hmem
  exact hcut hends

variable {e : Errand} (hhonest : (contents e.request.view.object).Honest e.answer)
  (hkeeps : cache.Keeps (Contract.honest contents cache.geometry.pageSize fun _ => True).good
    fun _ => [])
  (hpages : 1 ≤ cache.geometry.pagesPerBucket)

include hhonest hkeeps hpages

/-- A read is served from the content with its last page filled up. -/
theorem Errand.servedFrom_padded :
    ServedFrom ((contents e.request.view.object).padded cache.geometry.pageSize) e.request
      ((contents e.request.view.object).stopCause cache.geometry.pageSize e.request.view)
      (e.run cache).1 := by
  have hpositive := cache.geometry.pageSize_pos
  obtain ⟨⟨bytes, why, hserves, houtcome, hbytes⟩, -⟩ :=
    Errand.run_honest hhonest (fun _ => trivial) hkeeps hpages
  refine hserves.servedFrom hpositive ?_ (fun _ _ hstops => hstops.1) houtcome hbytes
  rintro number page ⟨rfl, hstart, -⟩ intra count hwithin -
  have hend := Nat.le_trans (Content.add_le_page_end number.toNat hwithin)
    (Content.page_end_le_size_padded hpositive hstart)
  exact ⟨hend, Content.window_slice_eq_padded hpositive hwithin hend⟩

/-- A read is served from the content itself if that is enough for the view or is not cut. -/
theorem Errand.servedFrom_content
    (h : e.request.view.size ≤ (contents e.request.view.object).size ∨
      ¬ cache.HasCutPage e.request.view.object (contents e.request.view.object)) :
    ServedFrom (contents e.request.view.object) e.request
      ((contents e.request.view.object).stopCause cache.geometry.pageSize e.request.view)
      (e.run cache).1 := by
  have hpositive := cache.geometry.pageSize_pos
  -- Of its object the read may find or leave a cut page only if the content is enough for the view.
  have hkept : cache.Keeps (Contract.honest contents cache.geometry.pageSize fun object =>
      object = e.request.view.object →
        e.request.view.size ≤ (contents e.request.view.object).size).good fun _ => [] := by
    apply hkeeps.of_order
    rintro shard key hmem page ⟨hpage, hstart, -⟩
    refine ⟨hpage, hstart, ?_⟩
    intro hends hobject
    rw [hobject] at hends
    exact h.resolve_right fun hnot => hnot ⟨shard, key, hmem, hobject, hends⟩
  obtain ⟨⟨bytes, why, hserves, houtcome, hbytes⟩, -⟩ :=
    Errand.run_honest hhonest (fun hle _ => hle) hkept hpages
  refine hserves.servedFrom hpositive ?_ (fun _ _ hstops => hstops.1) houtcome hbytes
  rintro number page ⟨rfl, -, hends⟩ intra count hwithin hstop
  have hend : number.toNat * cache.geometry.pageSize + intra + count
      ≤ (contents e.request.view.object).size := by
    by_cases hwhole : (number.toNat + 1) * cache.geometry.pageSize
        ≤ (contents e.request.view.object).size
    · exact Nat.le_trans (Content.add_le_page_end number.toNat hwithin) hwhole
    · have henough := hends (Nat.lt_of_not_le hwhole) rfl
      exact Nat.le_trans hstop (Nat.le_trans (Nat.min_le_right ..) henough)
  exact ⟨hend, Content.window_slice hwithin hend⟩

/-- A read through a view that the content is enough for is done, if its pages have numbers. -/
theorem Errand.done_of_enough
    (henough : e.request.view.size ≤ (contents e.request.view.object).size)
    (hnonneg : 0 ≤ e.request.offset)
    (hnamed : e.request.stop ≤ Call.pageLimit * cache.geometry.pageSize) :
    (e.run cache).1.outcome = .done (e.request.stop - e.request.offset.toNat) := by
  have hpositive := cache.geometry.pageSize_pos
  obtain ⟨⟨bytes, why, hserves, houtcome, -⟩, -⟩ :=
    Errand.run_honest hhonest (fun _ => trivial) hkeeps hpages
  cases why with
  | none => rw [houtcome, hserves.length_eq hpositive hnonneg, Outcome.ofDelivery]
  | some cause =>
    unfold Contract.Serves at hserves
    rw [if_neg (Int.not_lt.2 hnonneg)] at hserves
    obtain ⟨hlt, -, hlarge⟩ := hserves.stops_at
    have hnumber : (e.request.offset.toNat + bytes.length) / cache.geometry.pageSize
        < Call.pageLimit :=
      (Nat.div_lt_iff_lt_mul hpositive).2 (Nat.lt_of_lt_of_le hlt hnamed)
    exact absurd henough (Nat.not_le.2 (hlarge hnumber))

end Cut

/-! ## Reads within one page -/

/-- The range of a read is not empty and lies within one page, which has a number. -/
structure Request.Within (r : Request) (pageSize page : Nat) : Prop where
  nonneg : 0 ≤ r.offset
  start_lt : r.offset.toNat < r.stop
  start_ge : page * pageSize ≤ r.offset.toNat
  stop_le : r.stop ≤ (page + 1) * pageSize
  named : page < Call.pageLimit

section Within

variable {e : Errand} {cache : Cache} {page : Nat}

/-- Such a read starts by looking for its page, from which it wants all of its range. -/
theorem Request.Within.started (h : e.request.Within cache.geometry.pageSize page) :
    (e.started cache).active = true ∧ (e.started cache).view = e.request.view ∧
      (e.started cache).page = page ∧ (e.started cache).pageSize = cache.geometry.pageSize ∧
      (e.started cache).stop ≤ (e.started cache).offset + (e.started cache).want := by
  obtain ⟨hnonneg, hstart, hge, hle, hnamed⟩ := h
  obtain ⟨c, hc⟩ : ∃ c : Call, c = {
    view := e.request.view
    pageShift := cache.geometry.pageShift
    offset := e.request.offset.toNat
    stop := e.request.stop
    destination := { ahead := e.request.buffer } } := ⟨_, rfl⟩
  have hsize : c.pageSize = cache.geometry.pageSize := by rw [hc]; rfl
  have hoffset : c.offset = e.request.offset.toNat := by rw [hc]
  have hstop : c.stop = e.request.stop := by rw [hc]
  have hpage : c.page = page := by
    rw [c.page_eq, hsize, hoffset]
    exact Nat.div_eq_of_lt_le hge (by omega)
  have hvisit : c.visit = { c with phase := .lookup } := by
    rw [Call.visit, if_neg (by omega), if_neg (by omega)]
  have hstarted : e.started cache = c.visit := by
    rw [hc]
    exact if_neg (Int.not_lt.2 hnonneg)
  have hwant : c.stop ≤ c.offset + c.want := by
    have hposition := c.pageStart_add_intra
    have hpageStart := c.pageStart_eq
    rw [hpage, hsize] at hpageStart
    rw [Nat.succ_mul] at hle
    rw [Call.want, hsize]
    omega
  rw [hstarted, hvisit]
  exact ⟨rfl, by rw [hc], hpage, hsize, hwant⟩

variable {contents : UInt32 → Content}
  (hhonest : (contents e.request.view.object).Honest e.answer)
  (hkeeps : cache.Keeps (Contract.honest contents cache.geometry.pageSize fun _ => True).good
    fun _ => [])
  (hpages : 1 ≤ cache.geometry.pagesPerBucket)
  (hwithin : e.request.Within cache.geometry.pageSize page)

include hhonest hkeeps hpages hwithin

/-- A read within one page visits this page only, and is done, with the page resident, if it finds
the page or the content is enough for the view. -/
theorem Errand.done_of_within
    (h : ⟨e.request.view.object, page.toUInt32⟩
        ∈ cache.order (cache.shardOf ⟨e.request.view.object, page.toUInt32⟩) ∨
      e.request.view.size ≤ (contents e.request.view.object).size) :
    (e.run cache).1.outcome = .done (e.request.stop - e.request.offset.toNat) ∧
      ⟨e.request.view.object, page.toUInt32⟩ ∈ (e.run cache).2.order
        ((e.run cache).2.shardOf ⟨e.request.view.object, page.toUInt32⟩) := by
  obtain ⟨hactive, hview, hpage, hsize, hlast⟩ := hwithin.started
  have hadmits : (Contract.honest contents cache.geometry.pageSize fun _ => True).Admits False
      e.request e.answer :=
    fun c slot hfollows hphase =>
      .inl (Contract.accepts_honest hhonest (fun _ => trivial) hfollows hphase)
  obtain ⟨⟨last, hturns, houtcome⟩, -⟩ := Errand.exists_turns hadmits hkeeps rfl hpages
  obtain ⟨v, hvisits, hkey, hresult⟩ := hturns.of_last_page hactive hlast
  have hgoes := hturns.goesThrough hkeeps.idle hpages
    fun w hw habandoned => (hturns.result_ne w hw).2 habandoned
  rw [hvisits] at hgoes
  rw [Call.key, hview, hpage] at hkey
  rw [← hkey] at h ⊢
  -- The visit is a hit if the page is resident, and cannot fail if the content is enough.
  obtain ⟨hhit, hleft⟩ := hgoes.replays.of_singleton
  obtain ⟨hdelivered, n, hdone⟩ : v.delivered = true ∧ ∃ n, last.outcome = .done n := by
    refine hresult.resolve_right ?_
    rintro ⟨hnot, cause, -, hlarge⟩
    obtain hresident | henough := h
    · rw [Visit.delivered, hhit.2 hresident] at hnot
      exact absurd hnot (by decide)
    · have hnumber : (e.started cache).offset / cache.geometry.pageSize < Call.pageLimit := by
        have hnamed := hwithin.named
        rwa [← hpage, Call.page_eq, hsize] at hnamed
      have hlarge := hlarge hnumber
      rw [hview] at hlarge
      omega
  constructor
  · obtain ⟨⟨bytes, why, hserves, hended, -⟩, -⟩ :=
      Errand.run_honest hhonest (fun _ => trivial) hkeeps hpages
    rw [houtcome, hdone] at hended
    have hend : Outcome.ofDelivery n none = .ofDelivery bytes.length why := hended
    obtain ⟨rfl, rfl⟩ := Outcome.ofDelivery_inj hend
    rw [houtcome, hdone, hserves.length_eq cache.geometry.pageSize_pos hwithin.nonneg]
  · rw [hgoes.shardOf_eq, hleft]
    exact Visit.key_mem_leaveAll _ hdelivered hpages _

end Within

/-- A read through a view that the content is enough for, and then one through a larger view of the
same page: the second one is done, with zeros for what the content has not got. -/
theorem done_of_resident_cut_page (contents : UInt32 → Content) {cache : Cache}
    {first second : Errand} {page : Nat}
    (hsame : second.request.view.object = first.request.view.object)
    (hhonest : ∀ q ∈ [first, second], (contents q.request.view.object).Honest q.answer)
    (hkeeps : cache.Keeps (Contract.honest contents cache.geometry.pageSize fun _ => True).good
      fun _ => [])
    (hpages : 1 ≤ cache.geometry.pagesPerBucket)
    (hwithin : first.request.Within cache.geometry.pageSize page)
    (hwithin' : second.request.Within cache.geometry.pageSize page)
    (henough : first.request.view.size ≤ (contents first.request.view.object).size) :
    let result := (second.run (first.run cache).2).1
    let count := second.request.stop - second.request.offset.toNat
    result.outcome = .done count ∧
      result.buffer.take count
        = ((contents second.request.view.object).padded cache.geometry.pageSize).slice
          second.request.offset.toNat count := by
  intro result count
  obtain ⟨hfirst, hsecond⟩ : (contents first.request.view.object).Honest first.answer ∧
      (contents second.request.view.object).Honest second.answer := by simpa using hhonest
  obtain ⟨-, hresident⟩ := Errand.done_of_within hfirst hkeeps hpages hwithin (.inr henough)
  obtain ⟨-, hkept, hgeometry⟩ := Errand.run_honest hfirst (fun _ => trivial) hkeeps hpages
  rw [← hgeometry] at hkept hpages hwithin' ⊢
  rw [← hsame] at hresident
  obtain ⟨hdone, -⟩ := Errand.done_of_within hsecond hkept hpages hwithin' (.inl hresident)
  have hstart := hwithin'.start_lt
  exact ⟨hdone, ((Errand.servedFrom_padded hsecond hkept hpages).delivered count none hdone
    (Nat.sub_pos_of_lt hstart)).2⟩

/-- With pages of four bytes and a content of three: after a read of all of it through a view of
three bytes, a read through a view of four bytes is done with four. -/
theorem zero_delivered_past_end_of_content :
    ∃ cache, Cache.ofConfig ⟨4, 1⟩ 7 = .ok cache ∧
      let c := Content.ofBytes [1, 2, 3]
      let first : Errand := ⟨⟨⟨1, 3⟩, 0, [0, 0, 0]⟩, c.source (m := Id)⟩
      let second : Errand := ⟨⟨⟨1, 4⟩, 0, [0, 0, 0, 0]⟩, c.source (m := Id)⟩
      let result := (second.run (first.run cache).2).1
      c.size = 3 ∧ result.outcome = .done 4 ∧ result.buffer.take 4 = [1, 2, 3, 0] := by
  refine ⟨.ofGeometry ⟨2, 64⟩ 7, rfl, ?_⟩
  intro c first second result
  have hbytes : (c.padded 4).slice 0 4 = [1, 2, 3, 0] := by decide
  have hsize : c.size = 3 := rfl
  have hfirst : first.request = ⟨⟨1, 3⟩, 0, [0, 0, 0]⟩ := rfl
  have hsecond : second.request = ⟨⟨1, 4⟩, 0, [0, 0, 0, 0]⟩ := rfl
  have hhonest : ∀ q ∈ [first, second], c.Honest q.answer := by
    intro q hq
    obtain rfl | rfl := List.mem_pair.1 hq <;> exact c.honest_source
  have hwithin : first.request.Within 4 0 := by
    constructor <;> decide
  have hwithin' : second.request.Within 4 0 := by
    constructor <;> decide
  clear_value c first second
  obtain ⟨hdone, hdelivered⟩ := done_of_resident_cut_page (fun _ => c)
    (by rw [hfirst, hsecond]) hhonest (Cache.keeps_ofGeometry ⟨2, 64⟩ 7) (Nat.le_refl 1) hwithin
    hwithin' (by rw [hfirst, hsize])
  rw [hsecond] at hdone hdelivered
  exact ⟨hsize, hdone, hdelivered.trans hbytes⟩

/-! ## Sessions -/

/-- After any reads of honest sources through views of any sizes, a read of a view is served from
the content with its last page filled up with zeros. It is served from the content itself, and stops
where that ends, if the content is enough for the view or the page in which it ends is not resident.
That page has got into the cache, if at all, through a view that the content is enough for, and such
a view is served all of a range whose pages have numbers. -/
theorem views_deliver_content {config : Config} {seed : UInt64} {cache : Cache}
    (hcache : Cache.ofConfig config seed = .ok cache) (contents : UInt32 → Content)
    (session : List Errand) (e : Errand)
    (hhonest : ∀ q ∈ e :: session, (contents q.request.view.object).Honest q.answer) :
    let served := Errand.runAll session cache
    let result := (e.run served).1
    let view := e.request.view
    let c := contents view.object
    let pageSize := cache.geometry.pageSize
    ServedFrom (c.padded pageSize) e.request (c.stopCause pageSize view) result ∧
    (view.size ≤ c.size ∨ ¬ served.HasCutPage view.object c →
      ServedFrom c e.request (c.stopCause pageSize view) result) ∧
    (served.HasCutPage view.object c →
      ∃ q ∈ session, q.request.view.object = view.object ∧ q.request.view.size ≤ c.size) ∧
    (view.size ≤ c.size → 0 ≤ e.request.offset → e.request.stop ≤ Call.pageLimit * pageSize →
      result.outcome = .done (e.request.stop - e.request.offset.toNat)) := by
  intro served result view c pageSize
  obtain ⟨g, hg, rfl⟩ := Cache.eq_of_ofConfig_eq_ok hcache
  obtain ⟨hfirst, hsession⟩ := List.forall_mem_cons.1 hhonest
  have hpages : 1 ≤ g.pagesPerBucket := (Config.pagesPerBucket_of_geometry_eq_ok hg).1
  have hpositive := g.pageSize_pos
  have hkept (cut : UInt32 → Prop) (hcut : ∀ q ∈ session,
      q.request.view.size ≤ (contents q.request.view.object).size → cut q.request.view.object) :
      served.Keeps (Contract.honest contents g.pageSize cut).good (fun _ => []) ∧
        served.geometry = g :=
    Errand.keeps_runAll_honest session hsession hcut (Cache.keeps_ofGeometry g seed) hpages
  obtain ⟨hpadded, hgeometry⟩ := hkept (fun _ => True) fun _ _ _ => trivial
  obtain ⟨hshort, -⟩ := hkept (fun object => ∃ q ∈ session, q.request.view.object = object ∧
    q.request.view.size ≤ (contents object).size) fun q hq hle => ⟨q, hq, rfl, hle⟩
  have hsize : pageSize = served.geometry.pageSize := congrArg Geometry.pageSize hgeometry.symm
  rw [← hgeometry] at hpadded hshort hpages
  rw [hsize]
  exact ⟨Errand.servedFrom_padded hfirst hpadded hpages,
    Errand.servedFrom_content hfirst hpadded hpages, fun hends => hends.cut hshort,
    Errand.done_of_enough hfirst hpadded hpages⟩

/-- With pages of four bytes and a content of three, a view of four bytes is stopped at the byte
that is not there, also after it was read from the start. -/
theorem views_deliver_content_of_larger_view :
    ∃ cache, Cache.ofConfig ⟨4, 1⟩ 7 = .ok cache ∧
      let c := Content.ofBytes [1, 2, 3]
      let whole : Errand := ⟨⟨⟨1, 4⟩, 0, [0, 0, 0, 0]⟩, c.source (m := Id)⟩
      let last : Errand := ⟨⟨⟨1, 4⟩, 3, [0]⟩, c.source (m := Id)⟩
      (last.run (whole.run cache).2).1.outcome = .stopped ⟨0, .noProgress 0 4 3⟩ := by
  have hcache : Cache.ofConfig ⟨4, 1⟩ 7 = .ok (.ofGeometry ⟨2, 64⟩ 7) := rfl
  refine ⟨_, hcache, ?_⟩
  intro c whole last
  have hsize : c.size = 3 := rfl
  have hwhole : whole.request = ⟨⟨1, 4⟩, 0, [0, 0, 0, 0]⟩ := rfl
  have hlast : last.request = ⟨⟨1, 4⟩, 3, [0]⟩ := rfl
  have hhonest : ∀ q ∈ [last, whole], c.Honest q.answer := by
    intro q hq
    obtain rfl | rfl := List.mem_pair.1 hq <;> exact c.honest_source
  clear_value c whole last
  obtain ⟨-, hcontent, hcut, -⟩ :=
    views_deliver_content hcache (fun _ => c) [whole] last hhonest
  have hnot : ¬ (Errand.runAll [whole] (.ofGeometry ⟨2, 64⟩ 7)).HasCutPage
      last.request.view.object c := by
    intro hends
    obtain ⟨q, hq, -, hle⟩ := hcut hends
    rw [List.mem_singleton.1 hq, hwhole, hsize] at hle
    exact absurd hle (by decide)
  have hserved := hcontent (.inr hnot)
  rw [hlast] at hserved
  obtain ⟨n, hn, houtcome⟩ := hserved.stops (by decide) (by decide) (by rw [hsize]; decide)
  obtain rfl : n = 0 := by
    have hn : 3 + n < 4 := hn
    omega
  have hcause : c.stopCause 4 ⟨1, 4⟩ 3 = .noProgress 0 4 3 := by
    rw [Content.stopCause, hsize]
    rfl
  rw [← hcause]
  exact houtcome

end ReadThrough
