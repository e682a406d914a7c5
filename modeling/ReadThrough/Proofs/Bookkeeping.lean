import ReadThrough.Proofs.Counters
import ReadThrough.Proofs.Steps

/-!
# Calls in the books

What each step of a call adds to the counters of its bucket is what it makes of the call: a lookup
is a hit or a call that waits for a slot, a slot handed out is one that the call holds, and so on.
`Call.standing` is how a call stands with its bucket, and `Standing.Books` the equations between the
counters and the standings before and after a step (`Call.books_touchIn`). They add up to
`Standing.Tally`, which is about any number of calls (`Tally.replace`).
-/

namespace ReadThrough

/-! ## Buckets -/

namespace Bucket

variable {ι : Type} [EvictionPolicy ι PageKey Slot]

/-- What a lookup counts depends on what it found. -/
theorem counters_read_eq (b : Bucket ι) (key : PageKey) (offset count : Nat) :
    (b.read key offset count).2.counters = match (b.read key offset count).1 with
      | .hit _ => b.counters.record (.lookup true)
      | .miss => b.counters.record (.lookup false)
      | .pastPage => b.counters := by
  unfold read
  split
  · rfl
  · split <;> rfl

/-- What is counted when a slot is wanted depends on where it came from. -/
theorem counters_acquire_eq (b : Bucket ι) :
    b.acquire.2.counters = match b.acquire.1 with
      | .free _ => b.counters.record .allocation
      | .reclaimed .. => b.counters.record .eviction
      | .exhausted => b.counters := by
  unfold acquire
  split
  · rfl
  · split <;> rfl

/-- An install of a page that is bound already counts a slot put back as well. -/
theorem counters_install_eq {b : CacheBucket} (hvalid : LawfulPolicy.Valid b.index) (key : PageKey)
    (slot : Slot) (data : Bytes) :
    (b.install key slot data).2.counters
      = if key ∈ b.order then (b.counters.record .free).record .insert
        else b.counters.record .insert := by
  obtain ⟨index, -, -, ⟨hunbound, heq⟩ | ⟨former, hbound, heq⟩⟩ :=
    b.install_cases hvalid key slot data
  · rw [heq, if_neg fun hmem => (mem_order.1 hmem).elim hunbound]
    rfl
  · rw [heq, if_pos (mem_order.2 ⟨former, hbound⟩)]
    rfl

end Bucket

/-! ## Calls in the books -/

/-- The source failed or ended early. -/
def StopCause.ofSource : StopCause → Bool
  | .io _ => true
  | .noProgress .. => true
  | _ => false

/-- The call ended for want of a slot. -/
def Outcome.refused : Outcome → Bool
  | .stopped ⟨_, .noFreePages⟩ => true
  | _ => false

/-- The call ended because its source failed or ended early. -/
def Outcome.failed : Outcome → Bool
  | .stopped ⟨_, cause⟩ => cause.ofSource
  | _ => false

theorem Outcome.failed_of_refused {outcome : Outcome} (h : outcome.refused = true) :
    outcome.failed = false := by
  unfold refused at h
  split at h
  · rfl
  · exact absurd h (by simp)

/-- How a call stands with the bucket of its page. -/
inductive Standing where
  /-- The call has nothing to settle. -/
  | clear
  /-- The call has missed its page and has no slot for it yet. -/
  | waiting
  /-- The call holds a slot. -/
  | holding
  /-- The call has ended for want of a slot. -/
  | refused
  /-- The call has ended because of its source, and has given its slot back. -/
  | failed
  deriving DecidableEq

/-- What a step adds to the counters of a bucket is what it makes of a call, where `lost` installs
found their page bound already. -/
structure Standing.Books (before after : Standing) (gain : Counters) (lost : Nat) : Prop where
  lookups : gain.lookups + [before].count .refused + [before].count .waiting
    = gain.hits + gain.allocations + gain.evictions + [after].count .refused
      + [after].count .waiting
  slots : gain.allocations + gain.evictions + [before].count .failed + [before].count .holding
    = gain.inserts + [after].count .failed + [after].count .holding
  frees : gain.frees + [before].count .failed = [after].count .failed + lost
  hits_le : gain.hits ≤ gain.lookups
  lookups_le : gain.lookups ≤ 1

namespace Standing

theorem Books.unchanged (standing : Standing) : standing.Books standing {} 0 := by
  constructor <;> cases standing <;> decide

/-- What counters say about calls that stand in the given ways, where `lost` installs found their
page bound already. -/
structure Tally (counters : Counters) (standings : List Standing) (lost : Nat) : Prop where
  lookups : counters.lookups = counters.hits + counters.allocations + counters.evictions
    + standings.count refused + standings.count waiting
  slots : counters.allocations + counters.evictions
    = counters.inserts + standings.count failed + standings.count holding
  frees : counters.frees = standings.count failed + lost

variable {counters gain : Counters} {before after : List Standing} {old new : Standing}
  {lost n : Nat}

theorem count_mid (before after : List Standing) (old standing : Standing) :
    (before ++ old :: after).count standing
      = before.count standing + after.count standing + [old].count standing := by
  simp only [List.count_append, List.count_cons, List.count_nil]
  omega

/-- A call that has nothing to settle does not matter. -/
theorem Tally.clear {standings : List Standing} (h : Tally counters standings lost) :
    Tally counters (.clear :: standings) lost := by
  obtain ⟨hlookups, hslots, hfrees⟩ := h
  constructor
  · rwa [List.count_cons_of_ne (by decide), List.count_cons_of_ne (by decide)]
  · rwa [List.count_cons_of_ne (by decide), List.count_cons_of_ne (by decide)]
  · rwa [List.count_cons_of_ne (by decide)]

/-- The account goes on when a step is in the books. -/
theorem Tally.replace (h : Tally counters (before ++ old :: after) lost)
    (hbooks : old.Books new gain n) :
    Tally (counters + gain) (before ++ new :: after) (lost + n) := by
  obtain ⟨hlookups, hslots, hfrees⟩ := h
  obtain ⟨hlookups', hslots', hfrees', -⟩ := hbooks
  simp only [count_mid] at hlookups hslots hfrees
  constructor <;> simp only [Counters.add_eq, count_mid] <;> omega

end Standing

namespace Call

def standing (c : Call) : Standing :=
  match c.phase with
  | .lookup => .clear
  | .acquire => .waiting
  | .fetch _ => .holding
  | .publish .. => .holding
  | .release .. => .holding
  | .finished outcome =>
    if outcome.refused then .refused else if outcome.failed then .failed else .clear

/-- The number of installs in the next step that find their page bound already. -/
def rebinds (c : Call) (b : CacheBucket) : Nat :=
  match c.phase with
  | .publish .. => if c.key ∈ b.order then 1 else 0
  | _ => 0

/-- A call gives its slot back only because of its source. -/
def GivesBack (c : Call) : Prop :=
  ∀ slot cause, c.phase = .release slot cause → cause.ofSource = true

variable {c : Call} {b : CacheBucket}

/-- A call that has ended neither waits for a slot nor holds one. -/
theorem standing_of_active_eq_false (h : c.active = false) :
    c.standing ≠ .waiting ∧ c.standing ≠ .holding := by
  obtain ⟨outcome, hphase⟩ := exists_phase_of_active_eq_false h
  rw [standing, hphase]
  dsimp only
  split
  · simp
  · split <;> simp

theorem outcome_refused (c : Call) : c.outcome.refused = (c.standing == .refused) := by
  unfold outcome standing
  cases c.phase with
  | finished outcome =>
    cases hrefused : outcome.refused <;> cases hfailed : outcome.failed <;>
      simp [hrefused, hfailed]
  | _ => rfl

theorem outcome_failed (c : Call) : c.outcome.failed = (c.standing == .failed) := by
  unfold outcome standing
  cases c.phase with
  | finished outcome =>
    cases hrefused : outcome.refused with
    | true =>
      simp [hrefused, Outcome.failed_of_refused hrefused]
    | false => cases hfailed : outcome.failed <;> simp [hrefused, hfailed]
  | _ => rfl

theorem standing_visit (c : Call) : c.visit.standing = .clear := by
  obtain ⟨-, heq⟩ | ⟨-, -, heq⟩ | ⟨-, -, heq⟩ := c.visit_cases <;> rw [heq] <;> rfl

theorem standing_start (view : View) (pageShift : Nat) (offset : Int) (buffer : Bytes) :
    (start view pageShift offset buffer).standing = .clear := by
  unfold start
  dsimp only
  split
  · rfl
  · exact standing_visit _

/-- A call that stops because of its source has failed. -/
theorem standing_stopFor {cause : StopCause} (h : cause.ofSource = true) (c : Call) :
    (c.stopFor cause).standing = .failed := by
  cases cause with
  | io error => rfl
  | noProgress offset expected read => rfl
  | noFreePages => exact absurd h (by decide)
  | offsetOutOfRange offset size => exact absurd h (by simp [StopCause.ofSource])

/-- What a step on the cache adds to the counters of its bucket is what it makes of the call. -/
theorem books_touchIn (hgives : c.GivesBack) (hvalid : LawfulPolicy.Valid b.index) :
    ∃ gain, (c.touchIn b).2.counters = b.counters + gain ∧
      c.standing.Books (c.touchIn b).1.standing gain (c.rebinds b) := by
  unfold touchIn rebinds
  cases hphase : c.phase with
  | lookup =>
    have hstanding : c.standing = .clear := by rw [standing, hphase]
    have hcounters := b.counters_read_eq c.key c.intra c.want
    rw [hstanding]
    rcases hpair : b.read c.key c.intra c.want with ⟨bytes | _ | _, b'⟩ <;>
      rw [hpair] at hcounters
    · refine ⟨_, hcounters.trans (b.counters.record_eq_add _), ?_⟩
      have hmoved : (c.deliver bytes).standing = .clear := standing_visit _
      rw [hmoved]
      show Standing.Books .clear .clear _ 0
      constructor <;> decide
    · refine ⟨_, hcounters.trans (b.counters.record_eq_add _), ?_⟩
      show Standing.Books .clear .waiting _ 0
      constructor <;> decide
    · refine ⟨{}, hcounters, ?_⟩
      show Standing.Books .clear .clear _ 0
      constructor <;> decide
  | acquire =>
    have hstanding : c.standing = .waiting := by rw [standing, hphase]
    have hcounters := b.counters_acquire_eq
    rw [hstanding]
    rcases hpair : b.acquire with ⟨slot | ⟨slot, victim⟩ | _, b'⟩ <;> rw [hpair] at hcounters
    · refine ⟨_, hcounters.trans (b.counters.record_eq_add _), ?_⟩
      show Standing.Books .waiting .holding _ 0
      constructor <;> decide
    · refine ⟨_, hcounters.trans (b.counters.record_eq_add _), ?_⟩
      show Standing.Books .waiting .holding _ 0
      constructor <;> decide
    · refine ⟨{}, hcounters, ?_⟩
      show Standing.Books .waiting .refused _ 0
      constructor <;> decide
  | publish slot n =>
    have hstanding : c.standing = .holding := by rw [standing, hphase]
    have hmoved : (c.deliver ((c.frame.drop c.intra).take c.want)).standing = .clear :=
      standing_visit _
    have hcounters := Bucket.counters_install_eq hvalid c.key slot (c.frame.take n)
    rw [hstanding, hmoved]
    dsimp only
    split at hcounters
    · rename_i hbound
      rw [Counters.record_eq_add, b.counters.record_eq_add, Counters.add_assoc] at hcounters
      refine ⟨_, hcounters, ?_⟩
      rw [if_pos hbound]
      constructor <;> decide
    · rename_i hunbound
      refine ⟨_, hcounters.trans (b.counters.record_eq_add _), ?_⟩
      rw [if_neg hunbound]
      constructor <;> decide
  | release slot cause =>
    have hstanding : c.standing = .holding := by rw [standing, hphase]
    rw [hstanding, standing_stopFor (hgives slot cause hphase)]
    refine ⟨_, b.counters.record_eq_add .free, ?_⟩
    show Standing.Books .holding .failed _ 0
    constructor <;> decide
  | fetch slot => exact ⟨{}, rfl, .unchanged c.standing⟩
  | finished outcome => exact ⟨{}, rfl, .unchanged c.standing⟩

theorem givesBack_of_slot?_eq_none (h : c.slot? = none) : c.GivesBack := by
  intro slot cause hphase
  rw [slot?, hphase] at h
  exact absurd h (by simp)

/-- After a step on the cache no call is about to give a slot back that was not before. -/
theorem GivesBack.touchIn (h : c.GivesBack) (b : CacheBucket) : (c.touchIn b).1.GivesBack := by
  unfold Call.touchIn
  cases hphase : c.phase with
  | lookup =>
    dsimp only
    split
    · exact givesBack_of_slot?_eq_none (slot?_deliver ..)
    · exact givesBack_of_slot?_eq_none rfl
    · exact givesBack_of_slot?_eq_none rfl
  | acquire =>
    dsimp only
    split
    · exact fun slot cause hrelease => absurd hrelease (by simp)
    · exact givesBack_of_slot?_eq_none rfl
  | publish slot n => exact givesBack_of_slot?_eq_none (slot?_deliver ..)
  | release slot cause => exact givesBack_of_slot?_eq_none rfl
  | fetch slot => exact h
  | finished outcome => exact h

/-- The answer of a source moves no slot unless the call is abandoned, and makes a call give its
slot back only if the source failed or ended early. -/
theorem standing_receive {slot : Slot} (hphase : c.phase = .fetch slot) (t : Transfer)
    (hreturned : (c.receive t).1.phase ≠ .finished .abandoned) :
    (c.receive t).1.standing = c.standing ∧ (c.receive t).1.GivesBack := by
  have hstanding : c.standing = .holding := by rw [standing, hphase]
  have hsource {next : Call} {cause : StopCause} (hnext : next.phase = .release slot cause)
      (hcause : cause.ofSource = true) : next.standing = .holding ∧ next.GivesBack := by
    refine ⟨by rw [standing, hnext], fun slot' cause' hrelease => ?_⟩
    rw [hnext] at hrelease
    obtain ⟨-, rfl⟩ := Phase.release.inj hrelease
    exact hcause
  rw [receive_eq hphase] at hreturned ⊢
  rw [hstanding]
  cases hreply : t.reply with
  | failed error => exact hsource rfl rfl
  | abandoned =>
    rw [hreply] at hreturned
    exact absurd rfl hreturned
  | count n =>
    rw [hreply] at hreturned
    unfold afterReply at hreturned ⊢
    dsimp only at hreturned ⊢
    by_cases habove : c.pageSize < n
    · rw [if_pos habove] at hreturned
      exact absurd rfl hreturned
    · rw [if_neg habove]
      split
      · exact hsource rfl rfl
      · exact ⟨rfl, fun slot cause hrelease => absurd hrelease (by simp)⟩

/-- What a step on the cache makes of a bucket keeps the bucket's counters balanced. -/
theorem exists_balanced_touchIn {lost : Nat} (c : Call) (hvalid : LawfulPolicy.Valid b.index)
    (h : b.Balanced lost) : ∃ lost, (c.touchIn b).2.Balanced lost := by
  unfold touchIn
  cases hphase : c.phase with
  | lookup =>
    have hread := h.read hvalid c.key c.intra c.want
    rcases hpair : b.read c.key c.intra c.want with ⟨bytes | _ | _, b'⟩ <;> rw [hpair] at hread <;>
      exact ⟨lost, hread⟩
  | acquire =>
    have hacquire := h.acquire hvalid
    dsimp only
    split <;> exact ⟨lost, hacquire⟩
  | publish slot n => exact ⟨_, h.install hvalid ..⟩
  | release slot cause => exact ⟨lost, h.release slot⟩
  | fetch slot => exact ⟨lost, h⟩
  | finished outcome => exact ⟨lost, h⟩

end Call

/-! ## Caches -/

namespace Cache

/-- What is added to the counters of one bucket is added to those of the cache. -/
theorem counters_eq_add_gain {c c' : Cache} (home : Fin Geometry.bucketCount) {gain : Counters}
    (hbuckets : ∀ shard, (c'.bucket shard).counters
      = if home = shard then (c.bucket shard).counters + gain else (c.bucket shard).counters) :
    c'.counters = c.counters + gain := by
  refine Counters.eq_of_readings fun f hzero hadd => ?_
  rw [hadd]
  refine c.counters_eq_add f hzero hadd home fun shard => ?_
  rw [hbuckets]
  split
  · exact hadd ..
  · rfl

theorem counters_ofGeometry_eq (g : Geometry) (seed : UInt64) :
    (ofGeometry g seed).counters = {} := by
  refine Counters.eq_of_readings fun f hzero hadd => ?_
  rw [counters_eq_sum _ f hzero hadd, hzero]
  refine Finset.sum_eq_zero fun shard _ => ?_
  rw [bucket_ofGeometry]
  exact hzero

end Cache

end ReadThrough
