import ReadThrough.Call

/-!
# What reads may deliver

A `Contract` says which bytes are good for a page and for which causes a read may stop where.
`Contract.Walk` describes, with no cache in it, what a read from a position may then deliver: the
wanted bytes of one good page after the other, up to the end of the range or a cause to stop.
`Contract.Serves` is the same of a whole request. The contract is left open, so that what is proved
of calls under any contract can be read as a statement about contents, about sources or about slots.
-/

namespace ReadThrough

/-- How a read ends that has delivered so many bytes and then stopped, or did not. -/
def Outcome.ofDelivery (count : Nat) : Option StopCause → Outcome
  | none => .done count
  | some cause => .stopped ⟨count, cause⟩

/-- A read of a view into a buffer. -/
structure Request where
  view : View
  offset : Int
  buffer : Bytes
  deriving DecidableEq

/-- What pages hold and why reads stop. -/
structure Contract where
  pageSize : Nat
  /-- The bytes that may be published for a page. -/
  good : PageKey → Bytes → Prop
  /-- Why a read of a view may stop at a position. -/
  stops : View → Nat → StopCause → Prop
  /-- A page without a number stops a read. -/
  stops_unnamed : ∀ view offset, Call.pageLimit ≤ offset / pageSize →
    stops view offset (.offsetOutOfRange offset view.size)

namespace Contract

variable (K : Contract)

/-- The number of bytes that a read up to `stop` wants from the page at `offset`. -/
def want (offset stop : Nat) : Nat := min (stop - offset) (K.pageSize - offset % K.pageSize)

/-- What a read of a view up to `stop` may deliver from `offset` on, and why it stops early. -/
inductive Walk (view : View) (stop : Nat) : Nat → Bytes → Option StopCause → Prop
  | done {offset : Nat} : stop ≤ offset → Walk view stop offset [] none
  | halt {offset : Nat} {cause : StopCause} : offset < stop → K.stops view offset cause →
    Walk view stop offset [] (some cause)
  | page {offset : Nat} {page rest : Bytes} {cause : Option StopCause} : offset < stop →
    offset / K.pageSize < Call.pageLimit →
    K.good ⟨view.object, (offset / K.pageSize).toUInt32⟩ page →
    Walk view stop (offset + K.want offset stop) rest cause →
    Walk view stop offset
      (Bytes.window page (offset % K.pageSize) (K.want offset stop) ++ rest) cause

/-- What a request may be served with. -/
def Serves (r : Request) (bytes : Bytes) (cause : Option StopCause) : Prop :=
  if r.offset < 0 then bytes = [] ∧ cause = some (.offsetOutOfRange r.offset r.view.size)
  else K.Walk r.view (min (r.offset.toNat + r.buffer.length) r.view.size) r.offset.toNat bytes cause

/-! ## How much is delivered -/

variable {K} {r : Request}

theorem want_le (hpositive : 0 < K.pageSize) {offset stop : Nat} (h : offset < stop) :
    0 < K.want offset stop ∧ offset + K.want offset stop ≤ stop ∧
      offset % K.pageSize + K.want offset stop ≤ K.pageSize := by
  have hmod := Nat.mod_lt offset hpositive
  rw [want]
  omega

/-- A walk delivers no more than its range, and all of it unless it stops early. -/
theorem Walk.length_le {view : View} {stop offset : Nat} {bytes : Bytes}
    {cause : Option StopCause} (h : K.Walk view stop offset bytes cause)
    (hpositive : 0 < K.pageSize) :
    bytes.length ≤ stop - offset ∧ (cause = none → bytes.length = stop - offset) := by
  induction h with
  | done hdone =>
    refine ⟨Nat.zero_le _, ?_⟩
    intro _
    rw [List.length_nil]
    omega
  | halt _ _ => exact ⟨Nat.zero_le _, fun hnone => absurd hnone (by simp)⟩
  | page hoffset _ _ _ ih =>
    obtain ⟨hle, hall⟩ := ih
    have hwant := want_le hpositive hoffset
    rw [List.length_append, Bytes.length_window]
    refine ⟨by omega, ?_⟩
    intro hnone
    have hlength := hall hnone
    omega

/-- What serves a request is no more than what it asks for and its view has, and all of that unless
it stops early. -/
theorem Serves.length_le {bytes : Bytes} {cause : Option StopCause} (h : K.Serves r bytes cause)
    (hpositive : 0 < K.pageSize) :
    (bytes.length : Int) ≤ min (r.buffer.length : Int) (max (r.view.size - r.offset) 0) ∧
      (cause = none →
        (bytes.length : Int) = min (r.buffer.length : Int) (max (r.view.size - r.offset) 0)) := by
  unfold Serves at h
  split at h
  · obtain ⟨rfl, rfl⟩ := h
    refine ⟨?_, fun hnone => absurd hnone (by simp)⟩
    rw [List.length_nil]
    omega
  · obtain ⟨hle, hall⟩ := h.length_le hpositive
    refine ⟨by omega, ?_⟩
    intro hnone
    have hlength := hall hnone
    omega

/-- A walk that stops does so before the end of its range, for a cause to stop there. -/
theorem Walk.stops_at {view : View} {stop offset : Nat} {bytes : Bytes} {cause : StopCause}
    (h : K.Walk view stop offset bytes (some cause)) :
    offset + bytes.length < stop ∧ K.stops view (offset + bytes.length) cause := by
  generalize hresult : some cause = result at h
  induction h with
  | done => exact absurd hresult (by simp)
  | halt hoffset hstops =>
    obtain rfl := Option.some.inj hresult
    exact ⟨hoffset, hstops⟩
  | page _ _ _ _ ih =>
    rw [List.length_append, Bytes.length_window, ← Nat.add_assoc]
    exact ih hresult

end Contract

end ReadThrough
