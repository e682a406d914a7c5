/-!
# Errors

Three layers of failure. An `IoError` comes from a backing source. A `StopCause` says why a cached
read stopped; a failed source is one of the causes. A `ReadError` adds how many bytes had been
delivered by then, and those bytes are valid. Since a cached view can itself be a source, causes
convert back: a source's own error comes out of `StopCause.toIoError` unchanged.
-/

namespace ReadThrough

/-! ## Errors of sources -/

/-- The kinds of error that a source reports. -/
inductive IoErrorKind where
  | notFound
  | permissionDenied
  | connectionRefused
  | connectionReset
  | brokenPipe
  | alreadyExists
  | wouldBlock
  | isADirectory
  | invalidInput
  | invalidData
  | timedOut
  | writeZero
  | interrupted
  | unsupported
  | unexpectedEof
  | outOfMemory
  | other
  deriving DecidableEq

/-- The kind in words, shown for an error that has no message of its own. -/
def IoErrorKind.description : IoErrorKind → String
  | notFound => "entity not found"
  | permissionDenied => "permission denied"
  | connectionRefused => "connection refused"
  | connectionReset => "connection reset"
  | brokenPipe => "broken pipe"
  | alreadyExists => "entity already exists"
  | wouldBlock => "operation would block"
  | isADirectory => "is a directory"
  | invalidInput => "invalid input parameter"
  | invalidData => "invalid data"
  | timedOut => "timed out"
  | writeZero => "write zero"
  | interrupted => "operation interrupted"
  | unsupported => "unsupported"
  | unexpectedEof => "unexpected end of file"
  | outOfMemory => "out of memory"
  | other => "other error"

/-- A failure of a source: its kind and, if it has one, its own message. -/
structure IoError where
  kind : IoErrorKind
  message : Option String := none
  deriving DecidableEq

/-- The text shown for the error. -/
def IoError.text (error : IoError) : String :=
  error.message.getD error.kind.description

/-! ## Why a read stops -/

/-- Why a cached read could not go on. -/
inductive StopCause where
  /-- The position is negative, or its page has no number in the key. -/
  | offsetOutOfRange (offset size : Int)
  /-- Every slot of the bucket is held by a fetch under way. -/
  | noFreePages
  /-- The source ended within the page at `offset` and before the size of the view. -/
  | noProgress (offset expected read : Nat)
  /-- The source failed. -/
  | io (error : IoError)
  deriving DecidableEq

namespace StopCause

/-- The text shown for the cause. -/
def text : StopCause → String
  | offsetOutOfRange offset size => s!"offset out of range: {offset}/{size}"
  | noFreePages => "there are no free pages left in the cache"
  | noProgress offset expected read =>
    s!"backing source made no progress at offset {offset}: read {read} of {expected} bytes"
  | io error =>
    let reason := error.text
    s!"backing source error: {reason}"

/-- The source's error behind the cause, if the source failed. -/
def ioError? : StopCause → Option IoError
  | io error => some error
  | _ => none

/-- The cause as the error of a source: the source's own error as it is, any other cause by its
text under the kind that fits it. -/
def toIoError : StopCause → IoError
  | io error => error
  | cause@(offsetOutOfRange ..) => ⟨.invalidInput, some cause.text⟩
  | cause@noFreePages => ⟨.outOfMemory, some cause.text⟩
  | cause@(noProgress ..) => ⟨.other, some cause.text⟩

end StopCause

/-- A read that stopped after delivering its first `copied` bytes. -/
structure ReadError where
  copied : Nat
  cause : StopCause
  deriving DecidableEq

/-- The text shown for the failed read. -/
def ReadError.text (error : ReadError) : String :=
  let cause := error.cause.text
  let copied := error.copied
  s!"{cause} (after {copied} bytes)"

end ReadThrough
