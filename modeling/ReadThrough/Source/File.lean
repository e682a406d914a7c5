import ReadThrough.Source

/-!
# File sources

A platform answers an attempt to read at a position with fewer bytes than asked for as it likes, or
with an interruption that only asks to try again. A `File` is such a platform that does not
interrupt for ever, and `File.fill` tries until the buffer is full, the platform has no more bytes,
or it fails: so a short count of `File.source` means the end of the file. `File.ofContent` and
`File.directory` are the two files whose platform answers at once.
-/

namespace ReadThrough

/-- How the platform answers one attempt to read. -/
inductive File.Answer where
  /-- The read failed, or it was interrupted before anything happened. -/
  | failed (error : IoError)
  /-- Some of the bytes asked for; none where the file ends. -/
  | data (bytes : Bytes)
  deriving DecidableEq

/-- Whether the answer only asks to try again. -/
def File.Answer.isInterruption : File.Answer → Bool
  | failed error => error.kind = .interrupted
  | data _ => false

/-- A file as its platform answers for it. -/
structure File where
  /-- The answer to the attempt of the given number within one read, for `count` bytes at
  `offset`. -/
  answer : (attempt offset count : Nat) → File.Answer
  /-- From this attempt on there are no interruptions. -/
  calmFrom : Nat
  calm : ∀ attempt offset count, calmFrom ≤ attempt →
    (answer attempt offset count).isInterruption = false

namespace File

/-- Reads `count` bytes at `offset`, from the given attempt on: the bytes that were read and, if the
platform failed, its error. -/
def fill (file : File) (attempt offset count : Nat) : Bytes × Option IoError :=
  if count = 0 then ([], none)
  else
    match h : file.answer attempt offset count with
    | .failed error =>
      if hkind : error.kind = .interrupted then file.fill (attempt + 1) offset count
      else ([], some error)
    | .data bytes =>
      if (bytes.take count).length = 0 then ([], none)
      else
        let got := bytes.take count
        let (rest, error) := file.fill (attempt + 1) (offset + got.length) (count - got.length)
        (got ++ rest, error)
termination_by count + (file.calmFrom - attempt)
decreasing_by
  · have hbefore : ¬ file.calmFrom ≤ attempt := fun hle => by
      have hcalm := file.calm attempt offset count hle
      simp [h, Answer.isInterruption, hkind] at hcalm
    omega
  · omega

/-- The source that reads the file. -/
def source {m : Type → Type} [Monad m] (file : File) : Source m := fun offset buffer =>
  match file.fill 0 offset buffer.length with
  | (written, none) => pure ⟨.count written.length, written⟩
  | (written, some error) => pure ⟨.failed error, written⟩

/-- The platform accepts the ranges whose end is below this bound. -/
def rangeLimit : Nat := 1 <<< 63

/-- How the platform refuses a range, before it looks at what kind of file it is. -/
def invalidRange : IoError := ⟨.invalidInput, some "Invalid argument (os error 22)"⟩

/-- An ordinary file with the given content. -/
def ofContent (content : Content) : File where
  answer _ offset count :=
    if rangeLimit ≤ offset + count then .failed invalidRange
    else .data (content.slice offset count)
  calmFrom := 0
  calm _ offset count _ := by split <;> rfl

/-- A directory, which can be opened but not read. -/
def directory : File where
  answer _ offset count :=
    if rangeLimit ≤ offset + count then .failed invalidRange
    else .failed ⟨.isADirectory, some "Is a directory (os error 21)"⟩
  calmFrom := 0
  calm _ offset count _ := by split <;> rfl

end File

end ReadThrough
