import Mathlib.Data.List.Basic
import ReadThrough.Proofs.Lru

/-!
# Recency lists

The bindings in the order of their last use, as a plain list: this is all that can be seen of an
`Lru`. `RecencyList.step` says what each operation gives and makes of the list, `Lru.step` what it
gives and makes of the hash map and the linked list; one step of either is one step of the other
(`Shows.step`), and so is any sequence of them (`run_eq_recencyList_run`).
-/

namespace ReadThrough

/-! ## Visits that may stop early -/

section Visits

variable {α σ : Type} (visit : σ → α → Bool × σ)

/-- The answers that a visitor would give if it were shown all of a list. -/
def answersOf (state : σ) (l : List α) : List Bool :=
  List.zipWith (fun state a => (visit state a).1)
    (l.scanl (fun state a => (visit state a).2) state) l

/-- The elements up to and including the first to which the visitor answers `false`. -/
def shownOf (state : σ) (l : List α) : List α :=
  l.take ((answersOf visit state l).idxOf false + 1)

theorem answersOf_cons (state : σ) (a : α) (l : List α) :
    answersOf visit state (a :: l) = (visit state a).1 :: answersOf visit (visit state a).2 l := by
  rw [answersOf, List.scanl_cons, List.zipWith_cons_cons]
  rfl

theorem shownOf_cons (state : σ) (a : α) (l : List α) :
    shownOf visit state (a :: l)
      = a :: bif (visit state a).1 then shownOf visit (visit state a).2 l else [] := by
  rw [shownOf, answersOf_cons, List.idxOf_cons]
  cases (visit state a).1 with
  | false => rfl
  | true => rfl

end Visits

/-- The visitor that also writes down what it is shown, the latest element first. -/
def recording {α σ : Type} (visit : σ → α → Bool × σ) (state : σ × List α) (a : α) :
    Bool × σ × List α :=
  ((visit state.1 a).1, (visit state.1 a).2, a :: state.2)

/-- Writing down changes nothing about a visit, and in the end all that was shown is written. -/
theorem visitWhile_recording {α σ : Type} (visit : σ → α → Bool × σ) (state : σ) (seen l : List α) :
    visitWhile (recording visit) (state, seen) l
      = (visitWhile visit state l, (shownOf visit state l).reverse ++ seen) := by
  induction l generalizing state seen with
  | nil => rfl
  | cons a l ih =>
    rw [shownOf_cons]
    rcases hvisit : visit state a with ⟨_ | _, state'⟩
    · simp [visitWhile, recording, hvisit]
    · simp [visitWhile, recording, hvisit, ih]

/-! ## Operations -/

/-- An operation on bindings that are kept in the order of their last use. -/
inductive RecencyOp (κ ν : Type) : Type 1 where
  | insert (key : κ) (value : ν)
  | lookup (key : κ)
  | peek (key : κ)
  | contains (key : κ)
  | delete (key : κ)
  | evict
  | leastRecent
  /-- Shows the bindings, the most recently used one first, to a visitor that may stop early. -/
  | range {σ : Type} (visit : σ → κ × ν → Bool × σ) (state : σ)
  | clear
  | size

/-- What an operation gives. -/
inductive RecencyAnswer (κ ν : Type) where
  | value (found : Option ν)
  | binding (found : Option (κ × ν))
  | flag (holds : Bool)
  | count (n : Nat)
  /-- The bindings that a visitor was shown. -/
  | shown (bindings : List (κ × ν))
  | unit

/-- The answers to operations that are taken one after the other, and the state they lead to. -/
def runSteps {α β σ : Type*} (step : σ → α → β × σ) : (state : σ) → List α → List β × σ
  | state, [] => ([], state)
  | state, a :: rest =>
    let (answer, state) := step state a
    let (answers, state) := runSteps step state rest
    (answer :: answers, state)

/-- If related states give the same answer to an operation and go to related states, then they do
so for any sequence of operations. -/
theorem runSteps_related {α β σ τ : Type*} {step : σ → α → β × σ} {step' : τ → α → β × τ}
    {R : σ → τ → Prop} (hstep : ∀ s t a, R s t →
      (step s a).1 = (step' t a).1 ∧ R (step s a).2 (step' t a).2)
    (ops : List α) {s : σ} {t : τ} (h : R s t) :
    (runSteps step s ops).1 = (runSteps step' t ops).1 ∧
      R (runSteps step s ops).2 (runSteps step' t ops).2 := by
  induction ops generalizing s t with
  | nil => exact ⟨rfl, h⟩
  | cons a ops ih =>
    obtain ⟨hanswer, hnext⟩ := hstep s t a h
    obtain ⟨hanswers, hlast⟩ := ih hnext
    exact ⟨congrArg₂ List.cons hanswer hanswers, hlast⟩

/-! ## The list of bindings -/

namespace RecencyList

variable {κ ν : Type} [DecidableEq κ]

/-- The list in which a key is bound as the most recently used one. -/
def bind (es : List (κ × ν)) (key : κ) (value : ν) : List (κ × ν) :=
  (key, value) :: es.filter (·.1 ≠ key)

/-- The list in which the binding of a key, if there is one, is the most recently used one. -/
def promote (es : List (κ × ν)) (key : κ) : List (κ × ν) :=
  match es.lookup key with
  | some value => bind es key value
  | none => es

/-- What an operation gives and makes of the bindings, the most recently used one first. -/
def step (es : List (κ × ν)) : RecencyOp κ ν → RecencyAnswer κ ν × List (κ × ν)
  | .insert key value => (.value (es.lookup key), bind es key value)
  | .lookup key => (.value (es.lookup key), promote es key)
  | .peek key => (.value (es.lookup key), es)
  | .contains key => (.flag (es.lookup key).isSome, es)
  | .delete key => (.value (es.lookup key), es.filter (·.1 ≠ key))
  | .evict => (.binding es.getLast?, es.dropLast)
  | .leastRecent => (.binding es.getLast?, es)
  | .range visit state => (.shown (shownOf visit state es), es)
  | .clear => (.unit, [])
  | .size => (.count es.length, es)

end RecencyList

/-! ## The hash map and the linked list -/

namespace Lru

variable {κ ν : Type} [DecidableEq κ] [Hashable κ]

/-- What an operation gives and makes of the policy. -/
def step (l : Lru κ ν) : RecencyOp κ ν → RecencyAnswer κ ν × Lru κ ν
  | .insert key value => let (former, l) := l.insert key value; (.value former, l)
  | .lookup key => let (found, l) := l.lookup key; (.value found, l)
  | .peek key => (.value (l.peek? key), l)
  | .contains key => (.flag (l.contains key), l)
  | .delete key => let (former, l) := l.delete key; (.value former, l)
  | .evict => let (victim, l) := l.evict; (.binding victim, l)
  | .leastRecent => (.binding l.leastRecent?, l)
  | .range visit state =>
    (.shown (visitWhile (recording visit) (state, []) l.entries).2.reverse, l)
  | .clear => (.unit, l.clear)
  | .size => (.count l.size, l)

/-- The policy is in good order and holds these bindings, the most recently used one first. -/
def Shows (l : Lru κ ν) (es : List (κ × ν)) : Prop := l.Valid ∧ l.entries = es

variable {l : Lru κ ν} {es : List (κ × ν)}

theorem Valid.delete_fst (hl : l.Valid) (key : κ) : (l.delete key).1 = l.entries.lookup key :=
  Option.ext fun _ => by rw [hl.delete_eq_some_iff, hl.distinctKeys.lookup_eq_some_iff]

theorem Valid.lookup_fst (hl : l.Valid) (key : κ) : (l.lookup key).1 = l.entries.lookup key :=
  Option.ext fun _ => by rw [hl.lookup_eq_some_iff, hl.distinctKeys.lookup_eq_some_iff]

theorem Valid.peek?_eq (hl : l.Valid) (key : κ) : l.peek? key = l.entries.lookup key :=
  Option.ext fun _ => by rw [hl.peek?_eq_some_iff, hl.distinctKeys.lookup_eq_some_iff]

/-- Looking a key up promotes its binding. -/
theorem Valid.entries_lookup (hl : l.Valid) (key : κ) :
    (l.lookup key).2.entries = RecencyList.promote l.entries key := by
  rw [RecencyList.promote]
  split
  · rename_i value hfound
    exact (hl.lookup_of_mem (hl.distinctKeys.lookup_eq_some_iff.1 hfound)).2.2
  · rename_i hmissing
    rw [hl.lookup_of_not_mem]
    intro value hmem
    rw [hl.distinctKeys.lookup_eq_some_iff.2 hmem] at hmissing
    exact absurd hmissing (by simp)

/-- Eviction gives the last binding and leaves the others. -/
theorem Valid.evict_eq (hl : l.Valid) :
    l.evict.1 = l.entries.getLast? ∧ l.evict.2.entries = l.entries.dropLast := by
  rcases List.eq_nil_or_concat l.entries with hnil | ⟨rest, ⟨key, value⟩, hconcat⟩
  · rw [hl.evict_of_nil hnil, hnil]
    exact ⟨rfl, rfl⟩
  · rw [List.concat_eq_append] at hconcat
    obtain ⟨hsome, -, hrest⟩ := hl.evict_of_concat hconcat
    rw [hsome, hrest, hconcat, List.getLast?_concat, List.dropLast_concat]
    exact ⟨rfl, rfl⟩

/-- An operation gives what it gives on the list of bindings, and makes of the policy what it makes
of the list. -/
theorem Shows.step (h : l.Shows es) (op : RecencyOp κ ν) :
    (l.step op).1 = (RecencyList.step es op).1 ∧
      (l.step op).2.Shows (RecencyList.step es op).2 := by
  obtain ⟨hl, rfl⟩ := h
  cases op with
  | insert key value =>
    obtain ⟨hformer, hvalid, hentries⟩ := hl.insert key value
    exact ⟨congrArg _ (hformer.trans (hl.delete_fst key)), hvalid, hentries⟩
  | lookup key =>
    exact ⟨congrArg _ (hl.lookup_fst key), (hl.lookup key).1, hl.entries_lookup key⟩
  | peek key => exact ⟨congrArg _ (hl.peek?_eq key), hl, rfl⟩
  | contains key => exact ⟨congrArg _ (hl.contains_eq key), hl, rfl⟩
  | delete key => exact ⟨congrArg _ (hl.delete_fst key), hl.delete key⟩
  | evict => exact ⟨congrArg _ hl.evict_eq.1, hl.evict.1, hl.evict_eq.2⟩
  | leastRecent => exact ⟨congrArg _ hl.leastRecent?_eq, hl, rfl⟩
  | range visit state =>
    refine ⟨?_, hl, rfl⟩
    show RecencyAnswer.shown _ = RecencyAnswer.shown _
    rw [visitWhile_recording, List.append_nil, List.reverse_reverse]
  | clear => exact ⟨rfl, l.valid_clear⟩
  | size => exact ⟨congrArg _ hl.size_eq, hl, rfl⟩

/-- Whatever operations an `Lru` goes through, each gives what it gives on the list of bindings in
the order of their last use. In the end the entries are that list, no key twice, the map and the
list have as many, and the key of each node leads to the handle of that node. -/
theorem run_eq_recencyList_run (ops : List (RecencyOp κ ν)) :
    let program := runSteps Lru.step Lru.empty ops
    let model := runSteps RecencyList.step [] ops
    program.1 = model.1 ∧ program.2.entries = model.2 ∧ DistinctKeys model.2 ∧
      program.2.handles.size = model.2.length ∧ program.2.order.size = model.2.length ∧
      ∀ h key value, (h, key, value) ∈ program.2.order.entries →
        program.2.handles[key]? = some h := by
  intro program model
  have hempty : (Lru.empty : Lru κ ν).Shows [] := ⟨valid_empty, entries_empty⟩
  obtain ⟨hanswers, hvalid, hentries⟩ :=
    runSteps_related (R := Shows) (fun _ _ op h => h.step op) ops hempty
  have hsize := Indexed.size_handles hvalid
  have hlength := Indexed.order hvalid |>.size_eq
  have hmodel : model.2.length = program.2.order.entries.length := by
    rw [← hentries, Indexed.entries_eq hvalid, List.length_map]
  refine ⟨hanswers, hentries, hentries ▸ hvalid.distinctKeys, ?_, ?_, ?_⟩
  · rw [hmodel]
    exact hsize
  · rw [hmodel]
    exact hlength
  · intro h key value hmem
    exact (Indexed.handles hvalid key h).2 ⟨value, hmem⟩

end Lru

end ReadThrough
