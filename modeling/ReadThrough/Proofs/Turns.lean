import ReadThrough.Proofs.Deeds

/-!
# Page by page

A call that runs alone visits one page after the other. `Turn` is all that happens at one page: the
page is found, or it is missed, gets a slot and is fetched, and is then published or given up.
`Turns` follows turns one upon the other until the call has ended, and `Contract.Hosts.turns` says
that this is what a run does, with the visits that its log tells of, so that what holds of a turn
can be carried over a run by induction on `Turns`.
-/

namespace ReadThrough

namespace Call

/-! ## Single steps -/

section Steps

variable (answer : Nat → Bytes → Transfer)

/-- The call after its source, which leaves the cache alone, has answered. -/
def answered (c : Call) : Call := (c.receive (answer c.pageStart c.frame)).1

/-- One step of a call that runs alone. -/
def next (c : Call) (cache : Cache) : Call × Cache :=
  match c.phase with
  | .fetch _ => (c.answered answer, cache)
  | _ => ((c.touch cache).1.1, (c.touch cache).2)

variable {answer} {c : Call}

/-- A run goes on from its first step. -/
theorem runFor_succ (limit : Nat) (cache : Cache) :
    c.runFor .alone (fun offset buffer => pure (answer offset buffer)) (limit + 1) cache
      = (c.next answer cache).1.runFor .alone (fun offset buffer => pure (answer offset buffer))
          limit (c.next answer cache).2 := by
  cases hphase : c.phase with
  | finished outcome =>
    have hnext : c.next answer cache = (c, cache) := by
      simp only [next, touch, hphase]
    rw [runFor_finished _ _ hphase, hnext, runFor_finished _ _ hphase]
  | fetch slot =>
    rw [runFor_receive answer limit cache hphase, next, hphase]
    rfl
  | _ =>
    rw [runFor_touch _ limit cache (by rw [active, hphase]) (by simp [hphase]), next, hphase]

variable (answer) in
/-- So many steps do the given deeds and lead from one call and cache to the other. -/
def Leads (steps : Nat) (c : Call) (cache : Cache) (deeds : List Deed) (c' : Call)
    (cache' : Cache) : Prop :=
  let source : Source (StateM Cache) := fun offset buffer => pure (answer offset buffer)
  ∀ limit, c.runFor .alone source (limit + steps) cache = c'.runFor .alone source limit cache' ∧
    c.deedsFor .whole source (limit + steps) cache
      = deeds ++ c'.deedsFor .whole source limit cache'

theorem Leads.trans {steps steps' : Nat} {c' c'' : Call} {cache cache' cache'' : Cache}
    {deeds deeds' : List Deed} (h : Leads answer steps c cache deeds c' cache')
    (h' : Leads answer steps' c' cache' deeds' c'' cache'') :
    Leads answer (steps' + steps) c cache (deeds ++ deeds') c'' cache'' := by
  intro limit
  obtain ⟨hrun, hdeeds⟩ := h (limit + steps')
  obtain ⟨hrun', hdeeds'⟩ := h' limit
  rw [← Nat.add_assoc, hrun, hrun', hdeeds, hdeeds', List.append_assoc]
  exact ⟨rfl, rfl⟩

variable (answer) in
/-- One step on the cache. -/
theorem leads_touch (hactive : c.active = true) (hfetch : ∀ slot, c.phase ≠ .fetch slot)
    (cache : Cache) :
    Leads answer 1 c cache (c.deeds cache) (c.touch cache).1.1 (c.touch cache).2 :=
  fun limit => ⟨runFor_touch _ limit cache hactive hfetch, deedsFor_touch hactive hfetch limit⟩

variable (answer) in
/-- One answer of the source. -/
theorem leads_answered {slot : Slot} (hphase : c.phase = .fetch slot) (cache : Cache) :
    Leads answer 1 c cache
      [.asked c.pageStart c.frame.length (answer c.pageStart c.frame)] (c.answered answer) cache :=
  fun limit => ⟨runFor_receive answer limit cache hphase, deedsFor_receive hphase limit⟩

/-- Moving on, a call is done, or it stops at a page without a number, or it looks for a page. -/
theorem visit_cases (c : Call) :
    (c.stop ≤ c.offset ∧ c.visit = c.finish (.done c.destination.copied)) ∨
    (c.offset < c.stop ∧ pageLimit ≤ c.page ∧
      c.visit = c.stopFor (.offsetOutOfRange c.offset c.view.size)) ∨
    (c.offset < c.stop ∧ c.page < pageLimit ∧ c.visit = { c with phase := .lookup }) := by
  unfold visit
  split
  · exact .inl ⟨‹_›, rfl⟩
  · rename_i hstop
    split
    · exact .inr (.inl ⟨Nat.lt_of_not_le hstop, ‹_›, rfl⟩)
    · exact .inr (.inr ⟨Nat.lt_of_not_le hstop, Nat.lt_of_not_le ‹_›, rfl⟩)

/-- Moving on changes nothing but the phase. -/
theorem visit_eq (c : Call) : ∃ phase, c.visit = { c with phase } := by
  obtain ⟨-, heq⟩ | ⟨-, -, heq⟩ | ⟨-, -, heq⟩ := c.visit_cases <;> rw [heq] <;> exact ⟨_, rfl⟩

theorem deliver_eq (c : Call) (bytes : Bytes) : ∃ phase, c.deliver bytes = { c with
    destination := c.destination.deliver bytes
    offset := c.offset + c.want
    phase } :=
  visit_eq _

theorem phase_visit (c : Call) (h : c.visit.active = true) : c.visit.phase = .lookup := by
  obtain ⟨-, heq⟩ | ⟨-, -, heq⟩ | ⟨-, -, heq⟩ := c.visit_cases
  · rw [heq] at h
    exact absurd h (by simp [finish, active])
  · rw [heq] at h
    exact absurd h (by simp [stopFor, finish, active])
  · rw [heq]

theorem phase_start (view : View) (pageShift : Nat) (offset : Int) (buffer : Bytes)
    (h : (start view pageShift offset buffer).active = true) :
    (start view pageShift offset buffer).phase = .lookup := by
  unfold start at h ⊢
  dsimp only at h ⊢
  split
  · rename_i hnegative
    rw [if_pos hnegative] at h
    exact absurd h (by simp [stopFor, finish, active])
  · rename_i hnegative
    rw [if_neg hnegative] at h
    exact phase_visit _ h

/-- When its source has answered, a call publishes its page, gives its slot back, or is
abandoned. -/
theorem answered_cases (answer : Nat → Bytes → Transfer) {c : Call} {slot : Slot}
    (hphase : c.phase = .fetch slot) :
    (∃ n, (c.answered answer).phase = .publish slot n) ∨
    (∃ cause, (c.answered answer).phase = .release slot cause) ∨
    (c.answered answer).phase = .finished .abandoned := by
  unfold answered receive
  rw [hphase]
  dsimp only
  split
  · exact .inr (.inl ⟨_, rfl⟩)
  · exact .inr (.inr rfl)
  · split
    · exact .inr (.inr rfl)
    · split
      · exact .inr (.inl ⟨_, rfl⟩)
      · exact .inl ⟨_, rfl⟩

/-- The answer of its source changes nothing about a call but its phase and its buffers ahead. -/
theorem answered_eq (answer : Nat → Bytes → Transfer) (c : Call) {slot : Slot}
    (hphase : c.phase = .fetch slot) :
    ∃ ahead scratch, c.answered answer = { c with
      destination := ⟨c.destination.behind, ahead⟩
      scratch
      phase := (c.answered answer).phase } := by
  obtain ⟨ahead, scratch, heq⟩ :=
    c.setFrame_eq (c.frame.overlay (answer c.pageStart c.frame).written)
  refine ⟨ahead, scratch, ?_⟩
  unfold answered receive
  rw [hphase]
  dsimp only
  rw [heq]
  split
  · rfl
  · rfl
  · split
    · rfl
    · split <;> rfl

/-- Nothing but an untenable answer makes a call give up without a report. -/
theorem phase_answered_eq_abandoned_iff (answer : Nat → Bytes → Transfer) {c : Call} {slot : Slot}
    (hphase : c.phase = .fetch slot) : (c.answered answer).phase = .finished .abandoned ↔
      (answer c.pageStart c.frame).untenable c.pageSize = true := by
  rw [answered, receive_eq hphase]
  exact c.afterReply_eq_abandoned_iff slot _

/-- The page at hand and what is wanted of it stay the same. -/
theorem place_answered (answer : Nat → Bytes → Transfer) (c : Call) {slot : Slot}
    (hphase : c.phase = .fetch slot) :
    (c.answered answer).view = c.view ∧ (c.answered answer).key = c.key ∧
      (c.answered answer).offset = c.offset ∧ (c.answered answer).stop = c.stop := by
  obtain ⟨ahead, scratch, heq⟩ := c.answered_eq answer hphase
  rw [heq]
  exact ⟨rfl, rfl, rfl, rfl⟩

end Steps

end Call

/-! ## Turns -/

section Turns

variable (K : Contract) (lossy : Prop) (answer : Nat → Bytes → Transfer)

/-- What happens at one page between a call's being about to look for it and its having left it,
where a delivered page is good and a page that is not delivered is a cause to stop. Calls are
abandoned only if the sources are `lossy`. -/
inductive Turn (c : Call) (cache : Cache) : Visit → Call → Cache → Prop
  | hit {page bytes : Bytes} : (cache.read c.key c.intra c.want).1 = .hit bytes →
    K.good c.key page →
    Turn c cache ⟨c.key, .hit⟩ (c.deliver bytes) (cache.read c.key c.intra c.want).2
  | fetched {slot : Slot} {n : Nat} {page : Bytes} {received : Call} :
    (cache.read c.key c.intra c.want).1 = .miss →
    ((cache.read c.key c.intra c.want).2.acquire c.key).1.slot? = some slot →
    ({ c with phase := .fetch slot } : Call).answered answer = received →
    received.phase = .publish slot n → K.good c.key page →
    Turn c cache ⟨c.key, .fetched⟩
      (received.deliver ((received.frame.drop received.intra).take received.want))
      (((cache.read c.key c.intra c.want).2.acquire c.key).2.install c.key slot
        (received.frame.take n)).2
  | failed {slot : Slot} {cause : StopCause} {received : Call} :
    (cache.read c.key c.intra c.want).1 = .miss →
    ((cache.read c.key c.intra c.want).2.acquire c.key).1.slot? = some slot →
    ({ c with phase := .fetch slot } : Call).answered answer = received →
    received.phase = .release slot cause → K.stops c.view c.offset cause →
    Turn c cache ⟨c.key, .failed⟩ (received.stopFor cause)
      (((cache.read c.key c.intra c.want).2.acquire c.key).2.release c.key slot)
  | abandoned {slot : Slot} {received : Call} : lossy →
    (cache.read c.key c.intra c.want).1 = .miss →
    ((cache.read c.key c.intra c.want).2.acquire c.key).1.slot? = some slot →
    ({ c with phase := .fetch slot } : Call).answered answer = received →
    received.phase = .finished .abandoned →
    Turn c cache ⟨c.key, .abandoned⟩ received
      ((cache.read c.key c.intra c.want).2.acquire c.key).2

/-- Turn upon turn, until the call has ended. -/
inductive Turns : Call → Cache → List Visit → Call → Cache → Prop
  | ended {c : Call} {cache : Cache} : c.active = false → Turns c cache [] c cache
  | turn {c next last : Call} {cache cache' cache'' : Cache} {v : Visit} {visits : List Visit} :
    c.active = true → c.pageSize = K.pageSize → c.offset < c.stop → c.page < Call.pageLimit →
    Turn K lossy answer c cache v next cache' →
    Turns next cache' visits last cache'' → Turns c cache (v :: visits) last cache''

variable {K lossy answer} {c next : Call} {cache cache' : Cache} {v : Visit}

/-- A turn is about the page at hand. -/
theorem Turn.key_eq (h : Turn K lossy answer c cache v next cache') : v.key = c.key := by
  cases h <;> rfl

/-- Leaving a page with what was wanted of it, a call moves on by as much. -/
theorem Turn.exists_visit (h : Turn K lossy answer c cache v next cache')
    (hdelivered : v.delivered = true) :
    ∃ moved : Call, next = moved.visit ∧ moved.view = c.view ∧ moved.pageSize = c.pageSize ∧
      moved.offset = c.offset + c.want ∧ moved.stop = c.stop := by
  cases h with
  | hit _ _ => exact ⟨_, rfl, rfl, rfl, rfl, rfl⟩
  | fetched _ _ hreceived _ _ =>
    obtain ⟨ahead, scratch, heq⟩ := Call.answered_eq answer { c with phase := _ } rfl
    rw [hreceived] at heq
    rw [heq]
    exact ⟨_, rfl, rfl, rfl, rfl, rfl⟩
  | failed => exact absurd hdelivered (by simp [Visit.delivered])
  | abandoned => exact absurd hdelivered (by simp [Visit.delivered])

/-- A call that did not get what it wanted from a page has ended. -/
theorem Turn.active_eq_false (h : Turn K lossy answer c cache v next cache')
    (hdelivered : v.delivered = false) : next.active = false := by
  cases h with
  | hit => exact absurd hdelivered (by simp [Visit.delivered])
  | fetched => exact absurd hdelivered (by simp [Visit.delivered])
  | failed => rfl
  | abandoned _ _ _ _ hphase => rw [Call.active, hphase]

/-- A page that was delivered is good, and one that was not is a cause to stop. -/
theorem Turn.good_or_stops (h : Turn K False answer c cache v next cache') :
    (v.delivered = true ∧ ∃ page, K.good c.key page) ∨
      (v.delivered = false ∧ ∃ cause, K.stops c.view c.offset cause) := by
  cases h with
  | hit _ hgood => exact .inl ⟨rfl, _, hgood⟩
  | fetched _ _ _ _ hgood => exact .inl ⟨rfl, _, hgood⟩
  | failed _ _ _ _ hstops => exact .inr ⟨rfl, _, hstops⟩
  | abandoned hlossy => exact hlossy.elim

/-- Alone a call is never refused a slot, and it is abandoned by lossy sources only. -/
theorem Turns.result_ne {last : Call} {visits : List Visit}
    (h : Turns K lossy answer c cache visits last cache') :
    ∀ v ∈ visits, v.result ≠ .refused ∧ (v.result = .abandoned → lossy) := by
  induction h with
  | ended _ => simp
  | turn _ _ _ _ hturn _ ih =>
    refine List.forall_mem_cons.2 ⟨?_, ih⟩
    cases hturn with
    | abandoned hlossy => exact ⟨by simp, fun _ => hlossy⟩
    | _ => simp

/-- A call that has ended takes no more turns. -/
theorem Turns.visits_of_active_eq_false {last : Call} {visits : List Visit}
    (h : Turns K lossy answer c cache visits last cache') (hended : c.active = false) :
    visits = [] := by
  cases h with
  | ended _ => rfl
  | turn hactive => exact absurd (hactive.symm.trans hended) (by simp)

/-- A call whose range ends in the page at hand visits no other page: it is done if it gets the
page, and otherwise there is a cause to stop. -/
theorem Turns.of_last_page {last : Call} {visits : List Visit}
    (h : Turns K False answer c cache visits last cache') (hactive : c.active = true)
    (hlast : c.stop ≤ c.offset + c.want) :
    ∃ v, visits = [v] ∧ v.key = c.key ∧
      (v.delivered = true ∧ (∃ n, last.outcome = .done n) ∨
        v.delivered = false ∧ ∃ cause, K.stops c.view c.offset cause) := by
  cases h with
  | ended hended => exact absurd (hactive.symm.trans hended) (by simp)
  | @turn _ next _ _ _ _ v visits _ _ _ _ hturn hturns =>
    obtain ⟨hdelivered, -⟩ | ⟨hdelivered, hstops⟩ := hturn.good_or_stops
    · obtain ⟨moved, rfl, -, -, hoffset, hstop⟩ := hturn.exists_visit hdelivered
      have hdone : moved.visit = moved.finish (.done moved.destination.copied) :=
        if_pos (by rw [hoffset, hstop]; exact hlast)
      rw [hdone] at hturns
      cases hturns with
      | ended _ => exact ⟨v, rfl, hturn.key_eq, .inl ⟨hdelivered, _, rfl⟩⟩
      | turn hactive' => exact absurd hactive' (by simp [Call.active, Call.finish])
    · obtain rfl := hturns.visits_of_active_eq_false (hturn.active_eq_false hdelivered)
      exact ⟨v, rfl, hturn.key_eq, .inr ⟨hdelivered, hstops⟩⟩

/-! ## Runs are turns -/

namespace Contract

variable {r : Request}

variable (K lossy) in
/-- While it serves the request, the source answers within the contract or, if it is lossy, in a way
that nothing can be made of. -/
def Admits (r : Request) (answer : Nat → Bytes → Transfer) : Prop :=
  ∀ c slot, K.Follows r c → c.phase = .fetch slot →
    K.Accepts c (answer c.pageStart c.frame) ∨
      lossy ∧ (c.answered answer).phase = .finished .abandoned

/-- A call asks for the page at hand, whole. -/
theorem Follows.asks (h : K.Follows r c) (hactive : c.active = true) :
    c.pageStart = c.key.page.toNat * K.pageSize ∧ c.frame.length = K.pageSize := by
  obtain ⟨-, hnumber, -⟩ := h.pending hactive
  rw [c.pageStart_eq, Call.toNat_page_key hnumber, h.sound.length_frame, h.pageSize_eq]
  exact ⟨rfl, rfl⟩

/-- A call that runs alone and misses its page gets a slot for it. -/
theorem Hosts.leads_fetch (answer : Nat → Bytes → Transfer) (h : K.Hosts r (fun _ => []) c cache)
    (hpages : 1 ≤ cache.geometry.pagesPerBucket) (hphase : c.phase = .lookup)
    (hmiss : (cache.read c.key c.intra c.want).1 = .miss) :
    ∃ slot, ((cache.read c.key c.intra c.want).2.acquire c.key).1.slot? = some slot ∧
      Call.Leads answer 2 c cache [.looked c.key false] { c with phase := .fetch slot }
        ((cache.read c.key c.intra c.want).2.acquire c.key).2 ∧
      K.Hosts r (fun _ => []) { c with phase := .fetch slot }
        ((cache.read c.key c.intra c.want).2.acquire c.key).2 := by
  have hmissed := h.lookup hphase
  rw [Call.touch_of_miss hphase hmiss] at hmissed
  have hkeeps := (keeps_iff_of_slot?_eq_none rfl).1 hmissed.keeps
  obtain ⟨slot, hslot⟩ := Option.ne_none_iff_exists'.1 (hkeeps.slot?_acquire_ne_none c.key hpages)
  have hgranted := hmissed.acquire rfl fun hnone => absurd (hslot.symm.trans hnone) (by simp)
  obtain ⟨hcall, hcache⟩ := Call.touch_of_grant (c := { c with phase := .acquire }) rfl hslot
  rw [hcall, hcache] at hgranted
  have hlook := Call.leads_touch answer (c := c) (by rw [Call.active, hphase]) (by simp [hphase])
    cache
  have hacquire := Call.leads_touch answer (c := { c with phase := .acquire }) rfl (by simp)
    (cache.read c.key c.intra c.want).2
  rw [Call.deeds_of_miss hphase hmiss, Call.touch_of_miss hphase hmiss] at hlook
  rw [hcall, hcache] at hacquire
  exact ⟨slot, hslot, hlook.trans hacquire, hgranted⟩

section Answered

variable {slot : Slot} (hadmits : K.Admits lossy r answer)

include hadmits

/-- Unless it abandons the call, the answer of the source keeps to the contract. -/
theorem Hosts.answered (h : K.Hosts r (fun _ => []) c cache) (hphase : c.phase = .fetch slot)
    (hne : (c.answered answer).phase ≠ .finished .abandoned) :
    K.Hosts r (fun _ => []) (c.answered answer) cache :=
  h.receive fun _ _ => (hadmits c slot h.follows hphase).resolve_right fun hlost => hne hlost.2

/-- A call whose page was fetched publishes it and moves on. -/
theorem Hosts.leads_publish (h : K.Hosts r (fun _ => []) c cache) (hphase : c.phase = .fetch slot)
    {n : Nat} (hreceived : (c.answered answer).phase = .publish slot n) :
    let received := c.answered answer
    let next := received.deliver ((received.frame.drop received.intra).take received.want)
    let cache' := (cache.install c.key slot (received.frame.take n)).2
    ∃ page, K.good c.key page ∧
      Call.Leads answer 2 c cache
        [.asked c.pageStart c.frame.length (answer c.pageStart c.frame), .published c.key]
        next cache' ∧
      K.Hosts r (fun _ => []) next cache' ∧ next.rank ≤ 4 * (c.stop - c.offset) - 4 := by
  intro received next cache'
  have hanswered : K.Hosts r (fun _ => []) received cache :=
    h.answered hadmits hphase (by rw [hreceived]; simp)
  have hprogress := hanswered.follows.progress
  rw [Progress, hreceived] at hprogress
  obtain ⟨hpending, -, -, hgood⟩ := hprogress
  have hpublished := hanswered.publish hreceived
  obtain ⟨hcall, hcache⟩ := Call.touch_of_publish cache hreceived
  obtain ⟨-, hkey, hoffset, hstop⟩ := c.place_answered answer hphase
  have hfetch := Call.leads_answered answer hphase cache
  have hpublish := Call.leads_touch answer (c := received) (by rw [Call.active, hreceived])
    (by simp [received, hreceived]) cache
  have hdeeds : received.deeds cache = [.published received.key] := by
    rw [Call.deeds, hreceived]
  rw [hdeeds, hcall, hcache, hkey] at hpublish
  rw [hcall, hcache, hkey] at hpublished
  rw [hkey] at hgood
  have hle :=
    Call.rank_deliver_le hpending.1 ((received.frame.drop received.intra).take received.want)
  rw [hoffset, hstop] at hle
  exact ⟨_, hgood, hfetch.trans hpublish, hpublished, hle⟩

/-- A call whose source failed or ended early gives its slot back and stops. -/
theorem Hosts.leads_release (h : K.Hosts r (fun _ => []) c cache) (hphase : c.phase = .fetch slot)
    {cause : StopCause} (hreceived : (c.answered answer).phase = .release slot cause) :
    K.stops c.view c.offset cause ∧
      Call.Leads answer 2 c cache
        [.asked c.pageStart c.frame.length (answer c.pageStart c.frame)]
        ((c.answered answer).stopFor cause) (cache.release c.key slot) := by
  have hanswered : K.Hosts r (fun _ => []) (c.answered answer) cache :=
    h.answered hadmits hphase (by rw [hreceived]; simp)
  have hprogress := hanswered.follows.progress
  rw [Progress, hreceived] at hprogress
  obtain ⟨-, hstops⟩ := hprogress
  obtain ⟨hcall, hcache⟩ := Call.touch_of_release cache hreceived
  obtain ⟨hview, hkey, hoffset, -⟩ := c.place_answered answer hphase
  rw [hview, hoffset] at hstops
  have hfetch := Call.leads_answered answer hphase cache
  have hrelease := Call.leads_touch answer (c := c.answered answer)
    (by rw [Call.active, hreceived]) (by simp [hreceived]) cache
  have hdeeds : (c.answered answer).deeds cache = [] := by rw [Call.deeds, hreceived]
  rw [hdeeds, hcall, hcache, hkey] at hrelease
  exact ⟨hstops, hfetch.trans hrelease⟩

/-- Only a lossy source makes a call end with its slot in hand. -/
theorem Hosts.lossy_of_abandoned (h : K.Hosts r (fun _ => []) c cache)
    (hphase : c.phase = .fetch slot)
    (hreceived : (c.answered answer).phase = .finished .abandoned) : lossy := by
  obtain haccepted | ⟨hlossy, -⟩ := hadmits c slot h.follows hphase
  · exact absurd hreceived (h.receive fun _ _ => haccepted).follows.phase_ne_abandoned
  · exact hlossy

end Answered

/-- A call that runs alone and is about to look for a page takes a turn there, in no more steps than
it has left, and then it has ended or is about to look for the next page. What it does there tells
what came of the page. -/
theorem Hosts.exists_turn (hadmits : K.Admits lossy r answer)
    (h : K.Hosts r (fun _ => []) c cache) (hpages : 1 ≤ cache.geometry.pagesPerBucket)
    (hphase : c.phase = .lookup) :
    ∃ steps v deeds next cache', Turn K lossy answer c cache v next cache' ∧
      v.Told K.pageSize deeds ∧ Call.Leads answer (steps + 1) c cache deeds next cache' ∧
      steps < c.rank ∧
      (next.active = true →
        K.Hosts r (fun _ => []) next cache' ∧ next.phase = .lookup ∧
          cache'.geometry = cache.geometry ∧ next.rank + steps < c.rank) := by
  have hoffset : c.offset < c.stop := h.follows.offset_lt (by rw [Call.active, hphase])
  have hrank : c.rank = 4 * (c.stop - c.offset) := by rw [Call.rank, hphase]
  have hkeeps := (keeps_iff_of_slot?_eq_none (by rw [Call.slot?, hphase])).1 h.keeps
  have hsize : 1 <<< cache.geometry.pageShift = c.pageSize :=
    h.pageSize_eq.trans h.follows.pageSize_eq.symm
  obtain hmiss | ⟨hpast, -⟩ | ⟨page, hgood, hhit⟩ := hkeeps.read_cases c.key c.intra c.want
  · obtain ⟨slot, hslot, hleads, hhosts⟩ := h.leads_fetch answer hpages hphase hmiss
    obtain ⟨hstart, hlength⟩ := hhosts.follows.asks rfl
    have huntenable := Call.phase_answered_eq_abandoned_iff answer
      (c := { c with phase := .fetch slot }) rfl
    rw [hhosts.follows.pageSize_eq, hstart] at huntenable
    obtain ⟨n, hreceived⟩ | ⟨cause, hreceived⟩ | hreceived :=
      Call.answered_cases answer (c := { c with phase := .fetch slot }) rfl
    · obtain ⟨page, hgood, hpublish, hnext, hle⟩ := hhosts.leads_publish hadmits rfl hreceived
      rw [hstart, hlength] at hpublish
      refine ⟨3, _, _, _, _, .fetched hmiss hslot rfl hreceived hgood, .fetched ..,
        hleads.trans hpublish, by omega, fun hactive => ⟨hnext, Call.phase_visit _ hactive, ?_, ?_⟩⟩
      · simp only [Cache.install, Cache.acquire, Cache.read, Cache.geometry_onBucket]
      · have hle' : _ ≤ 4 * (c.stop - c.offset) - 4 := hle
        omega
    · obtain ⟨hstops, hrelease⟩ := hhosts.leads_release hadmits rfl hreceived
      rw [hstart, hlength] at hrelease
      have htenable : _ = false := Bool.eq_false_iff.2 fun htrue => absurd
        (hreceived.symm.trans (huntenable.2 htrue)) (by simp)
      exact ⟨3, _, _, _, _, .failed hmiss hslot rfl hreceived hstops, .failed _ _ htenable,
        hleads.trans hrelease, by omega,
        fun hactive => absurd hactive (by simp [Call.stopFor, Call.finish, Call.active])⟩
    · have habandon := Call.leads_answered answer (c := { c with phase := .fetch slot }) rfl
        ((cache.read c.key c.intra c.want).2.acquire c.key).2
      have hlossy := hhosts.lossy_of_abandoned hadmits rfl hreceived
      rw [hstart, hlength] at habandon
      exact ⟨2, _, _, _, _, .abandoned hlossy hmiss hslot rfl hreceived,
        .abandoned _ _ (huntenable.1 hreceived), hleads.trans habandon, by omega,
        fun hactive => absurd hactive (by rw [Call.active, hreceived]; simp)⟩
  · -- The next byte of a call lies within the page at hand.
    have hintra := c.intra_lt
    omega
  · have hnext := h.lookup hphase
    have hle := Call.rank_deliver_le hoffset
      (Bytes.window page c.intra (min c.want (1 <<< cache.geometry.pageShift - c.intra)))
    have hlook := Call.leads_touch answer (c := c) (by rw [Call.active, hphase])
      (by simp [hphase]) cache
    rw [Call.touch_of_hit hphase hhit] at hnext hlook
    rw [Call.deeds_of_hit hphase hhit] at hlook
    refine ⟨0, _, _, _, _, .hit hhit hgood, .hit _, hlook, by omega, ?_⟩
    intro hactive
    exact ⟨hnext, Call.phase_visit _ hactive, rfl, by omega⟩

/-- What a call does that runs alone, for as many steps as it may have left, is turn upon turn, with
the visits that its log tells of; its source was asked for the pages of those visits that ask. -/
theorem Hosts.turns (hadmits : K.Admits lossy r answer)
    {limit : Nat} (hrank : c.rank ≤ limit) (h : K.Hosts r (fun _ => []) c cache)
    (hpages : 1 ≤ cache.geometry.pagesPerBucket)
    (hbetween : c.active = true → c.phase = .lookup) :
    let source : Source (StateM Cache) := fun offset buffer => pure (answer offset buffer)
    let ended := c.runFor .alone source limit cache
    let deeds := c.deedsFor .whole source limit cache
    Turns K lossy answer c cache (Visit.ofDeeds deeds) ended.1 ended.2 ∧
      asksOf deeds = (Visit.ofDeeds deeds).filterMap (·.ask? K.pageSize) := by
  intro source
  have hended {c : Call} {cache : Cache} (limit : Nat) (hactive : c.active = false) :
      let ended := c.runFor .alone source limit cache
      let deeds := c.deedsFor .whole source limit cache
      Turns K lossy answer c cache (Visit.ofDeeds deeds) ended.1 ended.2 ∧
        asksOf deeds = (Visit.ofDeeds deeds).filterMap (·.ask? K.pageSize) := by
    obtain ⟨outcome, hphase⟩ := Call.exists_phase_of_active_eq_false hactive
    rw [Call.runFor_finished _ _ hphase, Call.deedsFor_of_active_eq_false hactive]
    exact ⟨.ended hactive, rfl⟩
  induction limit using Nat.strongRecOn generalizing c cache with
  | ind limit ih =>
    cases hactive : c.active with
    | false => exact hended limit hactive
    | true =>
      obtain ⟨hoffset, hnumber, -⟩ := h.follows.pending hactive
      obtain ⟨steps, v, deeds, next, cache', hturn, htold, hleads, hsteps, hnext⟩ :=
        h.exists_turn hadmits hpages (hbetween hactive)
      -- The turn fits into the limit, and what is left of that is enough for the other turns.
      obtain ⟨rest, rfl⟩ : ∃ rest, limit = rest + (steps + 1) := ⟨limit - (steps + 1), by omega⟩
      obtain ⟨hrun, hdeeds⟩ := hleads rest
      have hturns : let ended := next.runFor .alone source rest cache'
          let deeds := next.deedsFor .whole source rest cache'
          Turns K lossy answer next cache' (Visit.ofDeeds deeds) ended.1 ended.2 ∧
            asksOf deeds = (Visit.ofDeeds deeds).filterMap (·.ask? K.pageSize) := by
        cases hactive' : next.active with
        | false => exact hended rest hactive'
        | true =>
          obtain ⟨hhosts, hlookup, hgeometry, hrank'⟩ := hnext hactive'
          exact ih rest (by omega) (by omega) hhosts (by rw [hgeometry]; exact hpages)
            fun _ => hlookup
      have hvisits : Visit.ofDeeds (deeds ++ next.deedsFor .whole source rest cache')
          = v :: Visit.ofDeeds (next.deedsFor .whole source rest cache') :=
        htold.ofDeeds_append fun hlost =>
          Call.deedsFor_of_active_eq_false (hturn.active_eq_false hlost) rest
      dsimp only
      rw [hrun, hdeeds, hvisits, asksOf_append, htold.asksOf_eq, hturns.2]
      refine ⟨.turn hactive h.follows.pageSize_eq hoffset hnumber hturn hturns.1, ?_⟩
      rw [List.filterMap_cons]
      cases v.ask? K.pageSize <;> rfl

end Contract

end Turns

end ReadThrough
