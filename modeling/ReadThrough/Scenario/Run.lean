import ReadThrough.Scenario.World

/-!
# Performing scripts

`perform` does one step and reports on it. Reading a source may perform further steps, which read
sources again, so `readSourceOf` is given a bound on how deep this may go. Every fetch on the way
down holds a slot, so in a script that reads its sources through caches the slots run out long
before `depthLimit` is reached.
-/

namespace ReadThrough.Scenario

variable {n : Nat}

/-- The byte that buffers are filled with before a read. -/
def blankByte : UInt8 := 0xee

/-- A buffer of the given length before a read. -/
def blank (length : Nat) : Bytes := List.replicate length blankByte

/-! ## Readers -/

/-- How a call acts on a cache of a world. -/
def hostOf (cache : Fin n) : Call.Host (Session n) where
  onCache act := modifyGet (·.onCache cache act)
  notify notice := modify fun w => { w with notices := notice :: w.notices }

/-- A reader of a world, when sources are read by `readSource`. -/
def readerOf (readSource : SourceId → Source (Session n)) (a : Attachment n) :
    Reader (Session n) where
  view := a.view
  host := hostOf a.cache
  backing := readSource a.source

/-- What a report of a source that wrote to `buffer` is worth: its bytes, its error, or nothing if
it claims more than the buffer holds. -/
def received (reply : Reply) (buffer : Bytes) : Option (Except IoError Bytes) :=
  match reply with
  | .count count => if buffer.length < count then none else some (.ok (buffer.take count))
  | .failed error => some (.error error)
  | .abandoned => none

/-- The same as the answer of a step. -/
def answerOf (reply : Reply) (buffer : Bytes) : Answer :=
  match received reply buffer with
  | some result => .readSource result
  | none => .abandoned

/-- The answer of a read through a reader. -/
def Answer.ofResult (result : ReadResult) : Answer :=
  match result.outcome with
  | .done count => .read (.ok (result.buffer.take count))
  | .stopped error => .read (.error (error, result.buffer.take error.copied))
  | .abandoned => .abandoned

/-- Moves a cursor on a reader, as long as no read is abandoned. -/
def moveCursor (reader : Reader (Session n)) :
    Cursor → List Move → Session n (Option (List (MoveAnswer × Nat)))
  | _, [] => pure (some [])
  | cursor, .seek wish :: rest => do
    let (result, cursor) := cursor.seek reader.view wish
    let answers ← moveCursor reader cursor rest
    pure (answers.map ((.seek result, cursor.position) :: ·))
  | cursor, .read length :: rest => do
    let (transfer, cursor) ← cursor.read reader (blank length)
    match received transfer.reply transfer.written with
    | none => pure none
    | some result =>
      let answers ← moveCursor reader cursor rest
      pure (answers.map ((.read result, cursor.position) :: ·))

/-! ## Steps -/

/-- The bytes that a plan calls for, if its reader exists. -/
def supplyOf (w : World n) : Backing → Option (Supply n)
  | .content content => some (.content content)
  | .file file => some (.file file)
  | .reader name => (w.reader? name).map .reader

/-- Puts a reader on a source as planned. -/
def wrapSource (cache : Fin n) (name : String) (view : View) (plan : SourcePlan n) :
    Session n Answer :=
  modifyGet fun w =>
    let ⟨backing, hooks, failures, maxRead?, excess⟩ := plan
    match supplyOf w backing with
    | none => (.abandoned, w)
    | some supply =>
      let source : Recorder n := {
        name, supply, maxRead?, excess
        hooks := hooks.map (·, 0)
        failures := failures.map (·, 0) }
      (.wrapped view (w.cache cache).geometry.pageSize, w.attach name view cache source)

/-- The answer of one step, when sources are read by `readSource`. -/
def answerStep (readSource : SourceId → Source (Session n)) (step : Step n) :
    Session n Answer := do
  let w ← get
  let withReader (name : String) (act : Attachment n → Session n Answer) : Session n Answer :=
    match w.reader? name with
    | some a => act a
    | none => pure .abandoned
  match step with
  | .wrap cache name object size plan => wrapSource cache name ⟨object, size.toNat⟩ plan
  | .read name offset length => withReader name fun a => do
    pure (.ofResult (← (readerOf readSource a).readAt offset (blank length)))
  | .readSource name offset length => withReader name fun a => do
    let transfer ← (readerOf readSource a).source offset (blank length)
    pure (answerOf transfer.reply transfer.written)
  | .readBacking name offset length => withReader name fun a => do
    let transfer ← readSource a.source offset (blank length)
    pure (answerOf transfer.reply ((blank length).overlay transfer.written))
  | .cursor name moves => withReader name fun a => do
    match ← moveCursor (readerOf readSource a) {} moves with
    | some answers => pure (.cursor answers)
    | none => pure .abandoned
  | .shards cache object pages =>
    pure (.shards (pages.map fun page => (w.cache cache).shardOf ⟨object, page⟩))
  | .inspect cache => pure (.inspect (w.cache cache))

/-- Performs one step and reports on it, when sources are read by `readSource`. -/
def performWith (readSource : SourceId → Source (Session n)) (step : Step n) :
    Session n Report := do
  let outer ← get
  set { outer with reads := [], nested := [] }
  let answer ← answerStep readSource step
  let inner ← get
  set { inner with reads := outer.reads, nested := outer.nested }
  pure ⟨answer, inner.status, inner.reads.reverse, inner.nested.reverse⟩

/-- Performs the steps of a hook and keeps their reports with the step at hand. -/
def runHook (readSource : SourceId → Source (Session n)) : Hook n → Session n Unit
  | .mk _ _ steps => steps.forM fun step => do
    let report ← performWith readSource step
    modify fun w => { w with nested := report :: w.nested }

/-- Reads the bytes behind a source, when sources are read by `readSource`. -/
def readSupply (readSource : SourceId → Source (Session n)) : Supply n → Source (Session n)
  | .content content => content.source
  | .file file => file.source
  | .reader a => (readerOf readSource a).source

/-- Reads a source as its plan says, with up to `depth` sources being read at once. -/
def readSourceOf : (depth : Nat) → SourceId → Source (Session n)
  | 0, _ => fun _ _ => pure ⟨.abandoned, []⟩
  | depth + 1, id => fun offset buffer => do
    let some source := (← get).sources[id]? | return ⟨.abandoned, []⟩
    modify fun w => { w with reads := ⟨source.name, offset, buffer.length⟩ :: w.reads }
    let hook ← takeHook id offset
    if let some hook@(.mk _ false _) := hook then runHook (readSourceOf depth) hook
    let transfer ← match ← takeFailure id offset with
      | some failure => pure ⟨.failed failure.error, []⟩
      | none =>
        let window := match source.maxRead? with
          | some limit => buffer.take limit
          | none => buffer
        let transfer ← readSupply (readSourceOf depth) source.supply offset window
        match transfer.reply with
        | .count count => pure { transfer with reply := .count (count + source.excess) }
        | .abandoned => return transfer
        | .failed _ => pure transfer
    if let some hook@(.mk _ true _) := hook then runHook (readSourceOf depth) hook
    return transfer

/-- The number of sources that may be read at once, each by the one before it. -/
def depthLimit : Nat := 1 <<< 16

/-- Performs one step and reports on it. -/
def perform (step : Step n) : Session n Report := performWith (readSourceOf depthLimit) step

/-- Performs one step and gives its report with the notices told meanwhile. -/
def performTop (step : Step n) : Session n (Report × List Notice) := do
  modify fun w => { w with notices := [] }
  let report ← perform step
  pure (report, (← get).notices.reverse)

/-- Performs a script on the given caches. -/
def run (caches : Vector Cache n) (script : List (Step n)) : List (Report × List Notice) :=
  (script.mapM performTop { caches }).1

end ReadThrough.Scenario
