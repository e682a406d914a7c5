import ReadThrough.Proofs.PageMap
import ReadThrough.Proofs.Places

/-!
# What calls do

A call looks for pages, asks its source for them and publishes them: these are its `Deed`s, and
`Call.deedsFor` is the log of those that it does in so many steps. All that is said of the pages
that calls look for and of the reads of their sources is read off this log: the pages that were
looked for (`visitsOf`), the reads of the source (`asksOf`), and what came of each page
(`Visit.ofDeeds`).

The log has the reads that the source is really asked for: a source that keeps a log of its own has
these in it (`Logs.runFor_eq`). A source that leaves the cache alone and answers by itself makes a
call do at any place what it does when it runs alone (`Place.Quiet.runFor_eq`), so that what is
known of the log of calls that run alone is known of the reads that such a source notes.
-/

namespace ReadThrough

/-- The bytes of a resident page; zeros follow up to the page size. -/
def Cache.page? (c : Cache) (key : PageKey) : Option Bytes :=
  (c.bucket (c.shardOf key)).page? key

/-! ## Deeds -/

/-- What a call does to the world. -/
inductive Deed where
  /-- It looked for a page, which was resident or not. -/
  | looked (key : PageKey) (resident : Bool)
  /-- It asked its source for so many bytes and got an answer. -/
  | asked (offset length : Nat) (answer : Transfer)
  /-- It published a page. -/
  | published (key : PageKey)

/-- The source broke off, or claims more bytes than it was asked for. -/
def Transfer.untenable (t : Transfer) (length : Nat) : Bool :=
  match t.reply with
  | .failed _ => false
  | .abandoned => true
  | .count n => decide (length < n)

/-- The source was asked and its answer is untenable. -/
def Deed.untenable : Deed → Bool
  | asked _ length answer => answer.untenable length
  | looked .. => false
  | published _ => false

@[simp] theorem Deed.untenable_looked (key : PageKey) (resident : Bool) :
    (looked key resident).untenable = false := rfl

@[simp] theorem Deed.untenable_asked (offset length : Nat) (answer : Transfer) :
    (asked offset length answer).untenable = answer.untenable length := rfl

@[simp] theorem Deed.untenable_published (key : PageKey) : (published key).untenable = false := rfl

/-- The page that was looked for and whether it was resident. -/
def Deed.visit? : Deed → Option (PageKey × Bool)
  | looked key resident => some (key, resident)
  | asked .. => none
  | published _ => none

/-- Position and length of the read of the source. -/
def Deed.ask? : Deed → Option (Nat × Nat)
  | asked offset length _ => some (offset, length)
  | looked .. => none
  | published _ => none

/-- The pages that were looked for, in order. -/
def visitsOf (deeds : List Deed) : List (PageKey × Bool) := deeds.filterMap Deed.visit?

/-- The reads of the source, in order. -/
def asksOf (deeds : List Deed) : List (Nat × Nat) := deeds.filterMap Deed.ask?

theorem visitsOf_append (deeds more : List Deed) :
    visitsOf (deeds ++ more) = visitsOf deeds ++ visitsOf more := List.filterMap_append

theorem asksOf_append (deeds more : List Deed) :
    asksOf (deeds ++ more) = asksOf deeds ++ asksOf more := List.filterMap_append

/-! ## What came of a page -/

/-- What came of a visit to a page. -/
inductive Visit.Result where
  /-- The page was resident. -/
  | hit
  /-- The page was missing, and it was fetched and published. -/
  | fetched
  /-- The source failed or ended early. -/
  | failed
  /-- The source broke off or claimed more than it was asked for. -/
  | abandoned
  /-- There was no slot for the page. -/
  | refused
  deriving DecidableEq

/-- A page that a call visited. -/
structure Visit where
  key : PageKey
  result : Visit.Result
  deriving DecidableEq

/-- Whether the call got what it wanted from the page. -/
def Visit.delivered (v : Visit) : Bool := v.result == .hit || v.result == .fetched

theorem Visit.ne_abandoned_of_delivered {v : Visit} (h : v.delivered = true) :
    v.result ≠ .abandoned := by
  intro habandoned
  rw [delivered, habandoned] at h
  exact absurd h (by simp)

/-- The read of the source for the page, if it was asked for the page. -/
def Visit.ask? (pageSize : Nat) (v : Visit) : Option (Nat × Nat) :=
  match v.result with
  | .hit => none
  | .refused => none
  | _ => some (v.key.page.toNat * pageSize, pageSize)

/-- What came of each page that a log tells of. A page that was missed was asked for unless there
was no slot for it, and it was published if the answer was good for it. -/
def Visit.ofDeeds : List Deed → List Visit
  | .looked key true :: deeds => ⟨key, .hit⟩ :: ofDeeds deeds
  | .looked key false :: .asked _ _ _ :: .published _ :: deeds => ⟨key, .fetched⟩ :: ofDeeds deeds
  | .looked key false :: .asked _ length answer :: deeds =>
    ⟨key, if answer.untenable length then .abandoned else .failed⟩ :: ofDeeds deeds
  | .looked key false :: deeds => ⟨key, .refused⟩ :: ofDeeds deeds
  | _ :: deeds => ofDeeds deeds
  | [] => []

/-- What is done at a page of which the given came. -/
inductive Visit.Told (pageSize : Nat) : Visit → List Deed → Prop
  | hit (key : PageKey) : Told pageSize ⟨key, .hit⟩ [.looked key true]
  | fetched (key : PageKey) (answer : Transfer) : Told pageSize ⟨key, .fetched⟩
    [.looked key false, .asked (key.page.toNat * pageSize) pageSize answer, .published key]
  | failed (key : PageKey) (answer : Transfer) : answer.untenable pageSize = false →
    Told pageSize ⟨key, .failed⟩
      [.looked key false, .asked (key.page.toNat * pageSize) pageSize answer]
  | abandoned (key : PageKey) (answer : Transfer) : answer.untenable pageSize = true →
    Told pageSize ⟨key, .abandoned⟩
      [.looked key false, .asked (key.page.toNat * pageSize) pageSize answer]
  | refused (key : PageKey) : Told pageSize ⟨key, .refused⟩ [.looked key false]

namespace Visit.Told

variable {pageSize : Nat} {v : Visit} {deeds more : List Deed}

/-- The log tells what came of the page, if nothing was done after a page that was not delivered. -/
theorem ofDeeds_append (h : v.Told pageSize deeds) (hmore : v.delivered = false → more = []) :
    ofDeeds (deeds ++ more) = v :: ofDeeds more := by
  cases h with
  | hit key => rfl
  | fetched key answer => rfl
  | failed key answer htenable =>
    rw [hmore rfl, List.append_nil, ofDeeds, htenable]
    · rfl
    · simp
  | abandoned key answer huntenable =>
    rw [hmore rfl, List.append_nil, ofDeeds, huntenable]
    · rfl
    · simp
  | refused key =>
    rw [hmore rfl]
    rfl

theorem asksOf_eq (h : v.Told pageSize deeds) : asksOf deeds = (v.ask? pageSize).toList := by
  cases h <;> rfl

end Visit.Told

/-! ## The log of a call -/

namespace Call

/-- Nothing but an untenable answer makes a call give up without a report. -/
theorem afterReply_eq_abandoned_iff (c : Call) (slot : Slot) (t : Transfer) :
    c.afterReply slot t.reply = .finished .abandoned ↔ t.untenable c.pageSize = true := by
  unfold afterReply Transfer.untenable
  cases t.reply with
  | failed error => simp
  | abandoned => simp
  | count n =>
    dsimp only
    rw [decide_eq_true_iff]
    split
    · simp_all
    · split <;> simp_all

/-- What a step on the cache does to the world. -/
def deeds (c : Call) (cache : Cache) : List Deed :=
  match c.phase with
  | .lookup => [.looked c.key (cache.page? c.key).isSome]
  | .publish .. => [.published c.key]
  | _ => []

section Lookups

variable {c : Call} {cache : Cache} (hphase : c.phase = .lookup)

include hphase

theorem deeds_of_hit {bytes : Bytes} (hhit : (cache.read c.key c.intra c.want).1 = .hit bytes) :
    c.deeds cache = [.looked c.key true] := by
  have hfound : ((cache.bucket (cache.shardOf c.key)).read c.key c.intra c.want).1 = _ := hhit
  rw [Bucket.read_fst] at hfound
  rw [deeds, hphase]
  dsimp only
  cases hpage : cache.page? c.key with
  | none =>
    rw [Cache.page?] at hpage
    rw [hpage] at hfound
    exact absurd hfound (by simp)
  | some page => rfl

theorem deeds_of_miss (hmiss : (cache.read c.key c.intra c.want).1 = .miss) :
    c.deeds cache = [.looked c.key false] := by
  have hfound : ((cache.bucket (cache.shardOf c.key)).read c.key c.intra c.want).1 = _ := hmiss
  rw [Bucket.read_fst] at hfound
  rw [deeds, hphase]
  dsimp only
  cases hpage : cache.page? c.key with
  | none => rfl
  | some page =>
    rw [Cache.page?] at hpage
    rw [hpage] at hfound
    dsimp only at hfound
    split at hfound <;> exact absurd hfound (by simp)

end Lookups

/-- Steps on the cache ask nothing of the source. -/
theorem asksOf_deeds (c : Call) (cache : Cache) : asksOf (c.deeds cache) = [] := by
  unfold deeds
  split <;> rfl

end Call

/-- A cache that is the whole state. -/
def Place.whole : Place Cache where
  get cache := cache
  set cache _ := cache
  get_set _ _ := rfl
  set_get _ := rfl
  set_set _ _ _ := rfl

section Runs

variable {σ : Type} (p : Place σ) (source : Source (StateM σ))

/-- What a call at a place does in so many steps. -/
def Call.deedsFor : (limit : Nat) → Call → σ → List Deed
  | 0, _, _ => []
  | limit + 1, c, s =>
    match c.phase with
    | .finished _ => []
    | .fetch _ =>
      let answered := source c.pageStart c.frame s
      .asked c.pageStart c.frame.length answered.1
        :: deedsFor limit (c.receive answered.1).1 answered.2
    | _ => c.deeds (p.get s)
        ++ deedsFor limit (c.touch (p.get s)).1.1 (p.set (c.touch (p.get s)).2 s)

/-- What a read at a place does to the world. -/
def Request.deeds (r : Request) (s : σ) : List Deed :=
  let started := Call.start r.view (p.get s).geometry.pageShift r.offset r.buffer
  started.deedsFor p source started.stepBound s

namespace Call

variable {p source} {c : Call} {s : σ}

theorem deedsFor_of_active_eq_false (h : c.active = false) (limit : Nat) :
    c.deedsFor p source limit s = [] := by
  obtain ⟨outcome, hphase⟩ := exists_phase_of_active_eq_false h
  cases limit with
  | zero => rfl
  | succ limit => simp only [deedsFor, hphase]

theorem deedsFor_touch (hactive : c.active = true) (hfetch : ∀ slot, c.phase ≠ .fetch slot)
    (limit : Nat) : c.deedsFor p source (limit + 1) s = c.deeds (p.get s)
      ++ (c.touch (p.get s)).1.1.deedsFor p source limit (p.set (c.touch (p.get s)).2 s) := by
  cases hphase : c.phase with
  | finished outcome =>
    rw [active, hphase] at hactive
    exact absurd hactive (by simp)
  | fetch slot => exact absurd hphase (hfetch slot)
  | _ => simp only [deedsFor, hphase]

theorem deedsFor_receive {slot : Slot} (hphase : c.phase = .fetch slot) (limit : Nat) :
    c.deedsFor p source (limit + 1) s
      = .asked c.pageStart c.frame.length (source c.pageStart c.frame s).1
        :: (c.receive (source c.pageStart c.frame s).1).1.deedsFor p source limit
          (source c.pageStart c.frame s).2 := by
  simp only [deedsFor, hphase]

variable (p source) in
/-- What every step keeps, of what was done, of the call and of the state, holds once the call has
finished. -/
theorem runFor_keeps_deeds (keeps : List Deed → Call → σ → Prop)
    (hoffset : ∀ deeds c s, keeps deeds c s → c.active = true → c.offset < c.stop)
    (htouch : ∀ deeds c s, keeps deeds c s → c.active = true → (∀ slot, c.phase ≠ .fetch slot) →
      keeps (deeds ++ c.deeds (p.get s)) (c.touch (p.get s)).1.1
        (p.set (c.touch (p.get s)).2 s))
    (hreceive : ∀ deeds c s slot, keeps deeds c s → c.phase = .fetch slot →
      keeps (deeds ++ [.asked c.pageStart c.frame.length (source c.pageStart c.frame s).1])
        (c.receive (source c.pageStart c.frame s).1).1 (source c.pageStart c.frame s).2)
    {deeds : List Deed} {limit : Nat} (hrank : c.rank ≤ limit) (h : keeps deeds c s) :
    let ended := c.runFor p.host source limit s
    keeps (deeds ++ c.deedsFor p source limit s) ended.1 ended.2 ∧ ended.1.active = false := by
  induction limit generalizing deeds c s with
  | zero =>
    rw [deedsFor, List.append_nil]
    exact ⟨h, active_eq_false_of_rank_eq_zero (hoffset deeds c s h) (Nat.le_zero.1 hrank)⟩
  | succ limit ih =>
    cases hactive : c.active with
    | false =>
      obtain ⟨outcome, hphase⟩ := exists_phase_of_active_eq_false hactive
      rw [runFor_finished _ _ hphase, deedsFor_of_active_eq_false hactive, List.append_nil]
      exact ⟨h, hactive⟩
    | true =>
      have hlt := hoffset deeds c s h hactive
      by_cases hfetch : ∃ slot, c.phase = .fetch slot
      · obtain ⟨slot, hphase⟩ := hfetch
        rw [runFor_receive_at p source limit s hphase, deedsFor_receive hphase,
          List.append_cons]
        have hfewer := rank_receive_lt hlt hphase (source c.pageStart c.frame s).1
        exact ih (by omega) (hreceive deeds c s slot h hphase)
      · have hfetch := not_exists.1 hfetch
        rw [runFor_touch_at p source limit s hactive hfetch, deedsFor_touch hactive hfetch,
          ← List.append_assoc]
        have hfewer := rank_touch_lt hlt hactive hfetch (p.get s)
        exact ih (by omega) (htouch deeds c s h hactive hfetch)

end Call

/-- A call has ended, or it waits for its source, or it steps on the cache. -/
theorem Call.step_cases (c : Call) : c.active = false ∨ (∃ slot, c.phase = .fetch slot) ∨
    (c.active = true ∧ ∀ slot, c.phase ≠ .fetch slot) := by
  cases hactive : c.active with
  | false => exact .inl rfl
  | true =>
    by_cases hfetch : ∃ slot, c.phase = .fetch slot
    · exact .inr (.inl hfetch)
    · exact .inr (.inr ⟨rfl, not_exists.1 hfetch⟩)

/-! ## Logs of sources -/

/-- A log of the reads of a source, kept by the source itself in the state next to the cache. -/
structure Logs (p : Place σ) (source : Source (StateM σ)) (log : σ → List (Nat × Nat)) : Prop where
  set : ∀ cache s, log (p.set cache s) = log s
  source : ∀ offset buffer s, log (source offset buffer s).2 = log s ++ [(offset, buffer.length)]

/-- A source that keeps a log has the reads of the call in it. -/
theorem Logs.runFor_eq {p : Place σ} {source : Source (StateM σ)} {log : σ → List (Nat × Nat)}
    (h : Logs p source log) (limit : Nat) (c : Call) (s : σ) :
    log (c.runFor p.host source limit s).2 = log s ++ asksOf (c.deedsFor p source limit s) := by
  induction limit generalizing c s with
  | zero => exact (List.append_nil _).symm
  | succ limit ih =>
    obtain hended | ⟨slot, hphase⟩ | ⟨hactive, hfetch⟩ := c.step_cases
    · obtain ⟨outcome, hphase⟩ := Call.exists_phase_of_active_eq_false hended
      rw [Call.runFor_finished _ _ hphase, Call.deedsFor_of_active_eq_false hended]
      exact (List.append_nil _).symm
    · rw [Call.runFor_receive_at p source limit s hphase, Call.deedsFor_receive hphase, ih,
        h.source, List.append_assoc]
      rfl
    · rw [Call.runFor_touch_at p source limit s hactive hfetch, Call.deedsFor_touch hactive hfetch,
        ih, h.set, asksOf_append, Call.asksOf_deeds, List.nil_append]

/-- So it has those of a read. -/
theorem Logs.readAt_eq {p : Place σ} {source : Source (StateM σ)} {log : σ → List (Nat × Nat)}
    (h : Logs p source log) (r : Request) (s : σ) :
    log ((p.reader r.view source).readAt r.offset r.buffer s).2
      = log s ++ asksOf (r.deeds p source s) := by
  rw [p.readAt_reader]
  exact h.runFor_eq ..

/-! ## Sources that leave the cache alone -/

/-- The source leaves the cache alone and answers by itself. -/
structure Place.Quiet (p : Place σ) (source : Source (StateM σ))
    (answer : Nat → Bytes → Transfer) : Prop where
  fst_eq : ∀ offset buffer s, (source offset buffer s).1 = answer offset buffer
  get_eq : ∀ offset buffer s, p.get (source offset buffer s).2 = p.get s

/-- A call with such a source does what it does when it runs alone. -/
theorem Place.Quiet.runFor_eq {p : Place σ} {source : Source (StateM σ)}
    {answer : Nat → Bytes → Transfer} (h : p.Quiet source answer) (limit : Nat) (c : Call) (s : σ) :
    let ended := c.runFor p.host source limit s
    let alone := c.runFor .alone (fun offset buffer => pure (answer offset buffer)) limit (p.get s)
    ended.1 = alone.1 ∧ p.get ended.2 = alone.2 ∧
      c.deedsFor p source limit s
        = c.deedsFor .whole (fun offset buffer => pure (answer offset buffer)) limit
          (p.get s) := by
  induction limit generalizing c s with
  | zero => exact ⟨rfl, rfl, rfl⟩
  | succ limit ih =>
    obtain hended | ⟨slot, hphase⟩ | ⟨hactive, hfetch⟩ := c.step_cases
    · obtain ⟨outcome, hphase⟩ := Call.exists_phase_of_active_eq_false hended
      rw [Call.runFor_finished _ _ hphase, Call.runFor_finished _ _ hphase,
        Call.deedsFor_of_active_eq_false hended, Call.deedsFor_of_active_eq_false hended]
      exact ⟨rfl, rfl, rfl⟩
    · have hrest := ih (c.receive (answer c.pageStart c.frame)).1 (source c.pageStart c.frame s).2
      rw [h.get_eq] at hrest
      rw [Call.runFor_receive_at p source limit s hphase, Call.runFor_receive answer limit _ hphase,
        Call.deedsFor_receive hphase, Call.deedsFor_receive hphase, h.fst_eq]
      exact ⟨hrest.1, hrest.2.1, congrArg (_ :: ·) hrest.2.2⟩
    · have hrest := ih (c.touch (p.get s)).1.1 (p.set (c.touch (p.get s)).2 s)
      rw [p.get_set] at hrest
      rw [Call.runFor_touch_at p source limit s hactive hfetch,
        Call.runFor_touch _ limit _ hactive hfetch, Call.deedsFor_touch hactive hfetch,
        Call.deedsFor_touch hactive hfetch]
      exact ⟨hrest.1, hrest.2.1, congrArg (_ ++ ·) hrest.2.2⟩

end Runs

end ReadThrough
