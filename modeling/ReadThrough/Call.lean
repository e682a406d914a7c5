import ReadThrough.Cache
import ReadThrough.Destination
import ReadThrough.Source

/-!
# Reads in progress

A `Call` is one cached read at a point where others may act before it goes on. It visits the pages
of its range in increasing order. At each page it looks the page up in its bucket; on a miss it
acquires a slot, lets the source fetch the whole page with no bucket involved, and publishes the
page from the slot or releases the slot and stops. `Call.touch` is every step that needs the cache
and `Call.receive` the step that takes the answer of the source; `Call.runFor` alternates them until
the call has finished. A page that is wanted whole is fetched straight into the destination, a part
of a page by way of a scratch buffer of one page that the call keeps.
-/

namespace ReadThrough

/-- The first `size` bytes of an object. -/
structure View where
  object : UInt32
  size : Nat
  deriving DecidableEq

/-- How a call ended. -/
inductive Outcome where
  /-- All that was asked for and is within the view was delivered. -/
  | done (count : Nat)
  /-- The call stopped early. -/
  | stopped (error : ReadError)
  /-- The source claimed more bytes than it was asked for, or was abandoned itself. The slot that
  the call held is lost. -/
  | abandoned
  deriving DecidableEq

/-- What a call does next. -/
inductive Phase where
  /-- Look for the page in its bucket. -/
  | lookup
  /-- Get a slot for the missing page. -/
  | acquire
  /-- Fetch the page that will go into the slot. -/
  | fetch (slot : Slot)
  /-- Publish the first `count` bytes of the fetched page. -/
  | publish (slot : Slot) (count : Nat)
  /-- Give the slot back and stop. -/
  | release (slot : Slot) (cause : StopCause)
  /-- Nothing. -/
  | finished (outcome : Outcome)
  deriving DecidableEq

/-- A read of a view that is under way. -/
structure Call where
  view : View
  pageShift : Nat
  /-- The position of the next byte to deliver. -/
  offset : Nat
  /-- The position where the range ends. -/
  stop : Nat
  destination : Destination
  /-- The buffer for pages wanted in part, empty until the first of them is fetched. -/
  scratch : Bytes := []
  phase : Phase := .lookup

namespace Call

/-! ## The page at hand -/

/-- Page numbers stay below this bound. -/
def pageLimit : Nat := 1 <<< 32

/-- The bytes of one page. -/
def pageSize (c : Call) : Nat := 1 <<< c.pageShift

/-- The number of the page at hand. -/
def page (c : Call) : Nat := c.offset >>> c.pageShift

/-- The position where the page at hand starts. -/
def pageStart (c : Call) : Nat := c.page <<< c.pageShift

/-- The place of the next byte within its page. -/
def intra (c : Call) : Nat := c.offset - c.pageStart

/-- The number of bytes wanted from the page at hand. -/
def want (c : Call) : Nat := min (c.stop - c.offset) (c.pageSize - c.intra)

/-- Whether all of the page at hand is wanted. -/
def wholePage (c : Call) : Bool := c.want == c.pageSize

/-- The key of the page at hand. -/
def key (c : Call) : PageKey := ⟨c.view.object, c.page.toUInt32⟩

/-- The buffer of one page that the page at hand is fetched into. -/
def frame (c : Call) : Bytes :=
  if c.wholePage then c.destination.ahead.take c.pageSize
  else if c.scratch.isEmpty then Bytes.zeros c.pageSize
  else c.scratch

/-- The call after its fetch buffer came to hold the given bytes. -/
def setFrame (c : Call) (bytes : Bytes) : Call :=
  if c.wholePage then { c with destination := c.destination.stage bytes }
  else { c with scratch := bytes }

/-! ## Moving on -/

/-- The call with the phase it ends in. -/
def finish (c : Call) (outcome : Outcome) : Call := { c with phase := .finished outcome }

/-- The call stopped for the given cause with what it has delivered so far. -/
def stopFor (c : Call) (cause : StopCause) : Call :=
  c.finish (.stopped ⟨c.destination.copied, cause⟩)

/-- The call about to visit the page at its position, or finished if its range ends there or the
page cannot be named. -/
def visit (c : Call) : Call :=
  if c.stop ≤ c.offset then c.finish (.done c.destination.copied)
  else if pageLimit ≤ c.page then c.stopFor (.offsetOutOfRange c.offset c.view.size)
  else { c with phase := .lookup }

/-- Delivers the bytes wanted from the page at hand and moves on. -/
def deliver (c : Call) (bytes : Bytes) : Call :=
  visit { c with destination := c.destination.deliver bytes, offset := c.offset + c.want }

/-- The call that reads into `buffer` from the given position of a view. -/
def start (view : View) (pageShift : Nat) (offset : Int) (buffer : Bytes) : Call :=
  let c : Call := {
    view, pageShift
    offset := offset.toNat
    stop := min (offset.toNat + buffer.length) view.size
    destination := { ahead := buffer } }
  if offset < 0 then c.stopFor (.offsetOutOfRange offset view.size) else c.visit

/-! ## Steps -/

/-- The step that a call takes on the cache, with what there is to tell about it. A call that waits
for its source or has finished takes none. -/
def touch (c : Call) (cache : Cache) : (Call × Option Notice) × Cache :=
  match c.phase with
  | .lookup =>
    match cache.read c.key c.intra c.want with
    | (.hit bytes, cache) => ((c.deliver bytes, none), cache)
    | (.miss, cache) => (({ c with phase := .acquire }, none), cache)
    | (.pastPage, cache) => ((c.finish .abandoned, none), cache)
  | .acquire =>
    let (grant, cache) := cache.acquire c.key
    let c := match grant.slot? with
      | some slot => { c with phase := .fetch slot }
      | none => c.stopFor .noFreePages
    ((c, Notice.ofGrant cache.geometry.pagesPerBucket grant), cache)
  | .publish slot count =>
    let (former, cache) := cache.install c.key slot (c.frame.take count)
    ((c.deliver ((c.frame.drop c.intra).take c.want), Notice.ofInstall c.key former), cache)
  | .release slot cause => ((c.stopFor cause, none), cache.release c.key slot)
  | .fetch _ => ((c, none), cache)
  | .finished _ => ((c, none), cache)

/-- The step that a call takes when its source has answered. A short count is accepted if it reaches
the end of the view; a count above the page size is a claim that nothing can be made of. -/
def receive (c : Call) (transfer : Transfer) : Call × Option Notice :=
  match c.phase with
  | .fetch slot =>
    let c := c.setFrame (c.frame.overlay transfer.written)
    match transfer.reply with
    | .failed error => ({ c with phase := .release slot (.io error) }, none)
    | .abandoned => (c.finish .abandoned, none)
    | .count n =>
      if c.pageSize < n then (c.finish .abandoned, none)
      else if n < c.pageSize ∧ c.pageStart + n < c.view.size then
        ({ c with phase := .release slot (.noProgress c.pageStart c.pageSize n) },
          some (.sourceEnded c.view.object c.pageStart n c.view.size))
      else ({ c with phase := .publish slot n }, none)
  | _ => (c, none)

/-! ## Running -/

/-- Where a call runs: a cache that others may use between its steps, and someone to tell notices
to. -/
structure Host (m : Type → Type) where
  /-- Performs one step on the cache. -/
  onCache : {α : Type} → (Cache → α × Cache) → m α
  notify : Notice → m Unit

variable {m : Type → Type} [Monad m]

/-- Tells a notice if there is one. -/
@[inline] def Host.tell (host : Host m) : Option Notice → m Unit
  | some notice => host.notify notice
  | none => pure ()

/-- Takes up to `limit` steps of a call. -/
@[specialize] def runFor (host : Host m) (source : Source m) : (limit : Nat) → Call → m Call
  | 0, c => pure c
  | limit + 1, c =>
    match c.phase with
    | .finished _ => pure c
    | .fetch _ => do
      let transfer ← source c.pageStart c.frame
      let (c, notice) := c.receive transfer
      host.tell notice
      runFor host source limit c
    | _ => do
      let (c, notice) ← host.onCache c.touch
      host.tell notice
      runFor host source limit c

/-- A call that has finished takes no more steps. -/
theorem runFor_finished (host : Host m) (source : Source m) {c : Call} {outcome : Outcome}
    (h : c.phase = .finished outcome) (limit : Nat) : c.runFor host source limit = pure c := by
  cases limit with
  | zero => rfl
  | succ limit =>
    unfold runFor
    simp only [h]

/-- The number of steps within which a call finishes: no more than four at each page, and every
visited page delivers a byte or ends the call. -/
def stepBound (c : Call) : Nat := 4 * (c.stop - c.offset)

/-- Runs a call until it has finished. -/
@[inline] def run (host : Host m) (source : Source m) (c : Call) : m Call :=
  c.runFor host source c.stepBound

/-- How the call ended; a call under way has not. -/
def outcome (c : Call) : Outcome :=
  match c.phase with
  | .finished outcome => outcome
  | _ => .abandoned

end Call

end ReadThrough
