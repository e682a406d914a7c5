import ReadThrough.Proofs.Interleaving
import ReadThrough.Proofs.Words
import ReadThrough.Source.File

/-!
# Reads of files

A platform is true to a content (`File.TrueTo`) if all data that it gives is what the content has
there; how much of it each attempt gives, when it is interrupted and when it fails is left open.
`File.Attempts` is the loop of a read as it runs, with positions in words of 64 bits and without a
bound on its rounds: if it leads anywhere, it ends and no position is too large.

`File.exists_attempts` says that the loop ends and that `File.fill` is what it leads to. So the
source of a file is that of its content, up to the first failure (`file_reads_agree_with_content`).
-/

namespace ReadThrough

theorem Content.slice_length_slice (c : Content) (offset count : Nat) :
    c.slice offset (c.slice offset count).length = c.slice offset count := by
  rw [length_slice, slice, slice, Nat.min_eq_left (Nat.min_le_right _ _)]

namespace File

/-! ## Platforms -/

/-- The error of an answer that is neither data nor an interruption. -/
def Answer.failure? : Answer → Option IoError
  | .failed error => if error.kind = .interrupted then none else some error
  | .data _ => none

/-- All data that the platform gives are bytes of the content from the position asked for on, not
more than asked for, and some unless nothing was asked for or the content has ended. -/
def TrueTo (file : File) (content : Content) : Prop :=
  ∀ attempt offset count bytes, file.answer attempt offset count = .data bytes →
    bytes.length ≤ count ∧ bytes = content.slice offset bytes.length ∧
      (bytes = [] → count = 0 ∨ content.size ≤ offset)

/-! ## The loop -/

/-- The loop of a read of `size` bytes from `offset` on, from the attempt of the given number on and
after `got` was read: the answers it gets, all that was read in the end, and the failure that it
ends with, if any. -/
inductive Attempts (file : File) (offset size : Nat) :
    (attempt : Nat) → (got : Bytes) → List Answer → Bytes → Option IoError → Prop
  | full {attempt : Nat} {got : Bytes} (hfull : size ≤ got.length) :
    Attempts file offset size attempt got [] got none
  | interrupted {attempt position : Nat} {got all : Bytes} {answers : List Answer}
      {error : IoError} {failure : Option IoError} (hroom : got.length < size)
      (hposition : Word.add? offset got.length = some position)
      (hanswer : file.answer attempt position (size - got.length) = .failed error)
      (hkind : error.kind = .interrupted)
      (hrest : Attempts file offset size (attempt + 1) got answers all failure) :
    Attempts file offset size attempt got (.failed error :: answers) all failure
  | failed {attempt position : Nat} {got : Bytes} {error : IoError} (hroom : got.length < size)
      (hposition : Word.add? offset got.length = some position)
      (hanswer : file.answer attempt position (size - got.length) = .failed error)
      (hkind : error.kind ≠ .interrupted) :
    Attempts file offset size attempt got [.failed error] got (some error)
  | ended {attempt position : Nat} {got : Bytes} (hroom : got.length < size)
      (hposition : Word.add? offset got.length = some position)
      (hanswer : file.answer attempt position (size - got.length) = .data []) :
    Attempts file offset size attempt got [.data []] got none
  | filled {attempt position : Nat} {got bytes all : Bytes} {answers : List Answer}
      {failure : Option IoError} (hroom : got.length < size)
      (hposition : Word.add? offset got.length = some position)
      (hanswer : file.answer attempt position (size - got.length) = .data bytes)
      (hsome : bytes ≠ [])
      (hrest : Attempts file offset size (attempt + 1) (got ++ bytes) answers all failure) :
    Attempts file offset size attempt got (.data bytes :: answers) all failure

variable {file : File} {content : Content}

/-- The failure that a loop ends with is the first one among its answers. -/
theorem Attempts.failure_eq {offset size attempt : Nat} {got all : Bytes} {answers : List Answer}
    {failure : Option IoError} (h : file.Attempts offset size attempt got answers all failure) :
    failure = answers.findSome? (·.failure?) := by
  induction h with
  | full _ => rfl
  | interrupted _ _ _ hkind _ ih => simpa [Answer.failure?, hkind] using ih
  | failed _ _ _ hkind => simp [Answer.failure?, hkind]
  | ended _ _ _ => rfl
  | filled _ _ _ _ _ ih => simpa [Answer.failure?] using ih

/-- The platform's answers leave the loop no choice. -/
theorem Attempts.unique {offset size attempt : Nat} {got all all' : Bytes}
    {answers answers' : List Answer} {failure failure' : Option IoError}
    (h : file.Attempts offset size attempt got answers all failure)
    (h' : file.Attempts offset size attempt got answers' all' failure') :
    answers' = answers ∧ all' = all ∧ failure' = failure := by
  induction h generalizing answers' all' failure' with
  | full hfull =>
    cases h' with
    | full => exact ⟨rfl, rfl, rfl⟩
    | _ => omega
  -- both runs ask for the same bytes at the same place, so they got the same answer
  | interrupted hroom hposition hanswer hkind _ ih => cases h' <;> grind
  | failed hroom hposition hanswer hkind => cases h' <;> grind
  | ended hroom hposition hanswer => cases h' <;> grind
  | filled hroom hposition hanswer hsome _ ih => cases h' <;> grind

/-! ## What a read leads to -/

theorem lt_calmFrom_of_interrupted {attempt offset count : Nat} {error : IoError}
    (hanswer : file.answer attempt offset count = .failed error)
    (hkind : error.kind = .interrupted) : attempt < file.calmFrom := by
  refine Nat.lt_of_not_le fun hle => ?_
  have hcalm := file.calm attempt offset count hle
  simp [hanswer, Answer.isInterruption, hkind] at hcalm

namespace TrueTo

variable (htrue : file.TrueTo content)
include htrue

theorem take_eq {attempt offset count : Nat} {bytes : Bytes}
    (hanswer : file.answer attempt offset count = .data bytes) : bytes.take count = bytes :=
  List.take_of_length_le (htrue attempt offset count bytes hanswer).1

/-- Where the platform has no more data, the content has ended. -/
theorem size_le_of_nil {attempt offset count : Nat} {bytes : Bytes} (hroom : ¬count = 0)
    (hanswer : file.answer attempt offset count = .data bytes)
    (hnone : (bytes.take count).length = 0) : bytes = [] ∧ content.size ≤ offset := by
  rw [htrue.take_eq hanswer, List.length_eq_zero_iff] at hnone
  have hend := (htrue attempt offset count bytes hanswer).2.2 hnone
  exact ⟨hnone, hend.resolve_left hroom⟩

/-- Data that are not empty lie within the content. -/
theorem data_within {attempt offset count : Nat} {bytes : Bytes}
    (hanswer : file.answer attempt offset count = .data bytes)
    (hsome : ¬(bytes.take count).length = 0) :
    0 < bytes.length ∧ bytes.length ≤ count ∧ bytes = content.slice offset bytes.length ∧
      offset + bytes.length ≤ content.size := by
  rw [htrue.take_eq hanswer] at hsome
  obtain ⟨hlength, hslice, -⟩ := htrue attempt offset count bytes hanswer
  have hcount := congrArg List.length hslice
  rw [Content.length_slice] at hcount
  exact ⟨Nat.pos_of_ne_zero hsome, hlength, hslice, by omega⟩

/-- What a read leaves is the front of what the content has there, and all of it if the platform
did not fail. -/
theorem fill_fst (attempt offset count : Nat) :
    (file.fill attempt offset count).1.length ≤ count ∧
      (file.fill attempt offset count).1
        = content.slice offset (file.fill attempt offset count).1.length ∧
      ((file.fill attempt offset count).2 = none →
        (file.fill attempt offset count).1 = content.slice offset count) := by
  fun_induction fill file attempt offset count with
  | case1 attempt offset => simp
  | case2 attempt offset count hroom error hanswer hkind ih => exact ih
  | case3 attempt offset count hroom error hanswer hkind => simp
  | case4 attempt offset count hroom bytes hanswer hnone =>
    obtain ⟨-, hend⟩ := htrue.size_le_of_nil hroom hanswer hnone
    have hempty : content.slice offset count = [] := by
      rw [← List.length_eq_zero_iff, Content.length_slice]
      omega
    simp [hempty]
  | case5 attempt offset count hroom bytes hanswer hsome data rest failure hrest ih =>
    obtain ⟨-, hlength, hslice, hend⟩ := htrue.data_within hanswer hsome
    have hdata : data = bytes := htrue.take_eq hanswer
    clear_value data
    subst hdata
    simp only [hrest] at ih
    obtain ⟨hrestlength, hrestslice, hall⟩ := ih
    refine ⟨?_, ?_, fun hnone => ?_⟩
    · rw [List.length_append]
      omega
    · -- the data and what the rest of the loop reads are two pieces in a row
      rw [List.length_append, ← Content.slice_append hend, ← hslice, ← hrestslice]
    · have hwhole := Content.slice_append (b := count - data.length) hend
      rw [Nat.add_sub_cancel' hlength, ← hslice] at hwhole
      rw [← hwhole, ← hall hnone]

/-- The loop ends, and what it leads to is what `fill` computes. -/
theorem exists_attempts (hsize : content.size < Geometry.sizeLimit) (offset size : Nat)
    (attempt position count : Nat) (got : Bytes) (hposition : position = offset + got.length)
    (hword : position < Geometry.sizeLimit) (hcount : size = got.length + count) :
    ∃ answers, Attempts file offset size attempt got answers
      (got ++ (file.fill attempt position count).1) (file.fill attempt position count).2 ∧
      answers.length ≤ count + (file.calmFrom - attempt) + 1 := by
  have hadd {p : Nat} {g : Bytes} (hp : p = offset + g.length) (hlt : p < Geometry.sizeLimit) :
      Word.add? offset g.length = some p := Word.add?_eq_some_iff.2 ⟨hp ▸ hlt, hp.symm⟩
  have hleft {k : Nat} {g : Bytes} (hk : size = g.length + k) : size - g.length = k := by omega
  -- each round makes the count smaller, or it was interrupted and the calm is one attempt closer
  fun_induction fill file attempt position count generalizing got with
  | case1 attempt position =>
    rw [List.append_nil]
    exact ⟨[], .full (by omega), Nat.zero_le _⟩
  | case2 attempt position count hroom error hanswer hkind ih =>
    obtain ⟨answers, hrest, hlength⟩ := ih got hposition hword hcount
    have hbefore := lt_calmFrom_of_interrupted hanswer hkind
    refine ⟨_, .interrupted (by omega) (hadd hposition hword) ((hleft hcount).symm ▸ hanswer)
      hkind hrest, ?_⟩
    rw [List.length_cons]
    omega
  | case3 attempt position count hroom error hanswer hkind =>
    rw [List.append_nil]
    refine ⟨_, .failed (by omega) (hadd hposition hword) ((hleft hcount).symm ▸ hanswer) hkind, ?_⟩
    simp
  | case4 attempt position count hroom bytes hanswer hnone =>
    obtain ⟨rfl, -⟩ := htrue.size_le_of_nil hroom hanswer hnone
    rw [List.append_nil]
    refine ⟨_, .ended (by omega) (hadd hposition hword) ((hleft hcount).symm ▸ hanswer), ?_⟩
    simp
  | case5 attempt position count hroom bytes hanswer hsome data rest failure hrest ih =>
    obtain ⟨hpositive, hlength, -, hend⟩ := htrue.data_within hanswer hsome
    have hdata : data = bytes := htrue.take_eq hanswer
    clear_value data
    subst hdata
    have hnext : position + data.length = offset + (got ++ data).length := by
      rw [List.length_append, hposition, Nat.add_assoc]
    have hnextcount : size = (got ++ data).length + (count - data.length) := by
      rw [List.length_append]
      omega
    -- the data end within the content, so the next position is still a number of 64 bits
    obtain ⟨answers, hattempts, hanswers⟩ := ih (got ++ data) hnext (by omega) hnextcount
    rw [hrest, List.append_assoc] at hattempts
    refine ⟨_, .filled (by omega) (hadd hposition hword) ((hleft hcount).symm ▸ hanswer)
      (List.length_pos_iff.1 hpositive) hattempts, ?_⟩
    rw [List.length_cons]
    omega

end TrueTo

/-- Whatever the platform does short of giving wrong data, a read ends, and no position on the way
is too large for 64 bits. If no attempt failed, it is the read of the content: it leaves the same
bytes, the rest of the buffer stays, and a short count means the end of the file. Otherwise its
result is the first failure. -/
theorem file_reads_agree_with_content {m : Type → Type} [Monad m] (htrue : file.TrueTo content)
    (hsize : content.size < Geometry.sizeLimit) (offset : UInt64) (buffer : Bytes) :
    ∃ answers got failure,
      (∀ answers' got' failure',
        file.Attempts offset.toNat buffer.length 0 [] answers' got' failure' ↔
          answers' = answers ∧ got' = got ∧ failure' = failure) ∧
        answers.length ≤ buffer.length + file.calmFrom + 1 ∧
        failure = answers.findSome? (·.failure?) ∧
        (failure = none →
          (file.source offset.toNat buffer : m Transfer) = content.source offset.toNat buffer ∧
            buffer.overlay got
              = content.slice offset.toNat buffer.length ++ buffer.drop got.length ∧
            (got.length < buffer.length → content.size ≤ offset.toNat + got.length)) ∧
        ∀ error, failure = some error →
          (file.source offset.toNat buffer : m Transfer) = pure ⟨.failed error, got⟩ ∧
            got.length ≤ buffer.length ∧ got = content.slice offset.toNat got.length := by
  obtain ⟨answers, hattempts, hlength⟩ := htrue.exists_attempts hsize offset.toNat buffer.length 0
    offset.toNat buffer.length [] rfl offset.toNat_lt (Nat.zero_add _).symm
  obtain ⟨hfits, hfront, hwhole⟩ := htrue.fill_fst 0 offset.toNat buffer.length
  rw [List.nil_append] at hattempts
  cases hfill : file.fill 0 offset.toNat buffer.length with
  | mk got failure =>
    simp only [hfill] at hattempts hfits hfront hwhole
    refine ⟨answers, got, failure, fun answers' got' failure' => ⟨hattempts.unique, ?_⟩, hlength,
      hattempts.failure_eq, fun hnone => ?_, fun error hsome => ?_⟩
    · rintro ⟨rfl, rfl, rfl⟩
      exact hattempts
    · subst hnone
      have hgot := hwhole rfl
      refine ⟨?_, ?_, fun hshort => ?_⟩
      · rw [source, hfill, Content.source, ← hgot]
      · rw [Bytes.overlay_of_length_le hfits, ← hgot]
      · have hcount := congrArg List.length hgot
        rw [Content.length_slice] at hcount
        omega
    · subst hsome
      refine ⟨?_, hfits, hfront⟩
      rw [source, hfill]

/-- A platform with at most two bytes an attempt that interrupts every other one of the first
four. -/
def halting (content : Content) : File where
  answer attempt offset count :=
    if attempt < 4 ∧ attempt % 2 = 0 then .failed ⟨.interrupted, none⟩
    else .data (content.slice offset (min count 2))
  calmFrom := 4
  calm attempt offset count hle := by
    rw [if_neg (by omega)]
    rfl

theorem halting_trueTo (content : Content) : (halting content).TrueTo content := by
  intro attempt offset count bytes hanswer
  simp only [halting] at hanswer
  split at hanswer
  · cases hanswer
  · cases hanswer
    refine ⟨?_, ?_, fun hnil => ?_⟩
    · rw [Content.length_slice]
      omega
    · rw [Content.slice_length_slice]
    · have hcount := congrArg List.length hnil
      rw [Content.length_slice, List.length_nil] at hcount
      omega

/-- A run with two interruptions and two short counts, and it still is the read of the content. -/
theorem halting_read_agrees :
    let content := Content.ofBytes [1, 2, 3, 4]
    let buffer : Bytes := [9, 9, 9, 9, 9]
    (halting content).TrueTo content ∧ content.size < Geometry.sizeLimit ∧
      (halting content).Attempts 1 5 0 []
        [.failed ⟨.interrupted, none⟩, .data [2, 3], .failed ⟨.interrupted, none⟩, .data [4],
          .data []] [2, 3, 4] none ∧
      ((halting content).source 1 buffer : Id Transfer) = content.source 1 buffer ∧
      buffer.overlay [2, 3, 4] = [2, 3, 4, 9, 9] := by
  intro content buffer
  have htrue := halting_trueTo content
  have hsize : content.size < Geometry.sizeLimit := by decide
  have hrun : (halting content).Attempts 1 5 0 []
      [.failed ⟨.interrupted, none⟩, .data [2, 3], .failed ⟨.interrupted, none⟩, .data [4],
        .data []] [2, 3, 4] none :=
    .interrupted (by decide) rfl rfl rfl <| .filled (by decide) rfl rfl (by decide) <|
      .interrupted (by decide) rfl rfl rfl <| .filled (by decide) rfl rfl (by decide) <|
        .ended (by decide) rfl rfl
  obtain ⟨answers, got, failure, honly, -, -, hagree, -⟩ :=
    file_reads_agree_with_content htrue hsize 1 buffer (m := Id)
  obtain ⟨-, rfl, rfl⟩ := (honly _ _ _).1 hrun
  obtain ⟨hsource, hbuffer, -⟩ := hagree rfl
  exact ⟨htrue, hsize, hrun, hsource, hbuffer⟩

end File

end ReadThrough
