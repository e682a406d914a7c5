import Mathlib.Logic.Basic
import ReadThrough.Counters
import ReadThrough.Proofs.Words

/-!
# Counters, exact and in words

`Counters` are exact totals. They are ordered by `Counters.AtMost`, and readings that add up tell
them apart (`Counters.eq_of_readings`).

A bucket keeps its counters in words of 64 bits. `Counters.record?`, `Counters.add?` and
`Counters.sum?` count in words and have no result once a counter runs over. What they give is the
exact result if that is one of words, and nothing otherwise (`record?_eq`, `add?_eq`, `sum?_eq`).
-/

namespace ReadThrough

attribute [ext] Counters

namespace Counters

/-! ## Order -/

/-- No counter of the one is above that of the other. -/
structure AtMost (a b : Counters) : Prop where
  lookups : a.lookups ≤ b.lookups
  hits : a.hits ≤ b.hits
  inserts : a.inserts ≤ b.inserts
  evictions : a.evictions ≤ b.evictions
  allocations : a.allocations ≤ b.allocations
  frees : a.frees ≤ b.frees

theorem AtMost.refl (a : Counters) : a.AtMost a :=
  ⟨Nat.le_refl _, Nat.le_refl _, Nat.le_refl _, Nat.le_refl _, Nat.le_refl _, Nat.le_refl _⟩

theorem AtMost.trans {a b c : Counters} (h : a.AtMost b) (h' : b.AtMost c) : a.AtMost c :=
  ⟨Nat.le_trans h.lookups h'.lookups, Nat.le_trans h.hits h'.hits,
    Nat.le_trans h.inserts h'.inserts, Nat.le_trans h.evictions h'.evictions,
    Nat.le_trans h.allocations h'.allocations, Nat.le_trans h.frees h'.frees⟩

/-- Adding takes nothing away. -/
theorem atMost_add (a gain : Counters) : a.AtMost (a + gain) := by
  constructor <;> exact Nat.le_add_right ..

theorem add_eq (a b : Counters) : a + b = ⟨a.lookups + b.lookups, a.hits + b.hits,
    a.inserts + b.inserts, a.evictions + b.evictions, a.allocations + b.allocations,
    a.frees + b.frees⟩ := rfl

theorem add_assoc (a b c : Counters) : a + b + c = a + (b + c) := by
  simp [add_eq, Nat.add_assoc]

/-- An event adds the same to all counters that it meets. -/
theorem record_eq_add (c : Counters) (event : Event) :
    c.record event = c + ({} : Counters).record event := by
  cases event <;> simp [record, add_eq]

/-- No event takes anything away. -/
theorem atMost_record (c : Counters) (event : Event) : c.AtMost (c.record event) := by
  rw [record_eq_add]
  exact c.atMost_add _

/-- Nor does adding up. -/
theorem atMost_foldl (all : List Counters) (c : Counters) : c.AtMost (all.foldl (· + ·) c) := by
  induction all generalizing c with
  | nil => exact .refl c
  | cons a all ih => exact (c.atMost_add a).trans (ih _)

/-! ## Readings that add up -/

/-- Counters that no additive reading tells apart are the same. -/
theorem eq_of_readings {a b : Counters}
    (h : ∀ f : Counters → Nat, f {} = 0 → (∀ a b, f (a + b) = f a + f b) → f a = f b) : a = b :=
  Counters.ext (h (·.lookups) rfl fun _ _ => rfl) (h (·.hits) rfl fun _ _ => rfl)
    (h (·.inserts) rfl fun _ _ => rfl) (h (·.evictions) rfl fun _ _ => rfl)
    (h (·.allocations) rfl fun _ _ => rfl) (h (·.frees) rfl fun _ _ => rfl)

/-- Counters are in order if every additive reading of them is. -/
theorem atMost_of_readings {a b : Counters}
    (h : ∀ f : Counters → Nat, f {} = 0 → (∀ a b, f (a + b) = f a + f b) → f a ≤ f b) :
    a.AtMost b :=
  ⟨h (·.lookups) rfl fun _ _ => rfl, h (·.hits) rfl fun _ _ => rfl,
    h (·.inserts) rfl fun _ _ => rfl, h (·.evictions) rfl fun _ _ => rfl,
    h (·.allocations) rfl fun _ _ => rfl, h (·.frees) rfl fun _ _ => rfl⟩

/-- An additive reading keeps the order. -/
theorem AtMost.reading_le {a b : Counters} (h : a.AtMost b) {f : Counters → Nat}
    (hadd : ∀ a b, f (a + b) = f a + f b) : f a ≤ f b := by
  let gain : Counters := ⟨b.lookups - a.lookups, b.hits - a.hits, b.inserts - a.inserts,
    b.evictions - a.evictions, b.allocations - a.allocations, b.frees - a.frees⟩
  have hgain : a + gain = b := Counters.ext (Nat.add_sub_cancel' h.lookups)
    (Nat.add_sub_cancel' h.hits) (Nat.add_sub_cancel' h.inserts) (Nat.add_sub_cancel' h.evictions)
    (Nat.add_sub_cancel' h.allocations) (Nat.add_sub_cancel' h.frees)
  rw [← hgain, hadd]
  exact Nat.le_add_right ..

/-! ## Counters in words -/

/-- 64 bits can hold each of the counters. -/
structure Fit (c : Counters) : Prop where
  lookups : c.lookups < Geometry.sizeLimit
  hits : c.hits < Geometry.sizeLimit
  inserts : c.inserts < Geometry.sizeLimit
  evictions : c.evictions < Geometry.sizeLimit
  allocations : c.allocations < Geometry.sizeLimit
  frees : c.frees < Geometry.sizeLimit

theorem fit_iff {c : Counters} : c.Fit ↔ c.lookups < Geometry.sizeLimit ∧
    c.hits < Geometry.sizeLimit ∧ c.inserts < Geometry.sizeLimit ∧
    c.evictions < Geometry.sizeLimit ∧ c.allocations < Geometry.sizeLimit ∧
    c.frees < Geometry.sizeLimit :=
  ⟨fun ⟨lookups, hits, inserts, evictions, allocations, frees⟩ =>
      ⟨lookups, hits, inserts, evictions, allocations, frees⟩,
    fun ⟨lookups, hits, inserts, evictions, allocations, frees⟩ =>
      ⟨lookups, hits, inserts, evictions, allocations, frees⟩⟩

instance (c : Counters) : Decidable c.Fit := decidable_of_iff _ fit_iff.symm

/-- What is at most as much as fits, fits. -/
theorem Fit.of_atMost {a b : Counters} (h : b.Fit) (hle : a.AtMost b) : a.Fit :=
  ⟨Nat.lt_of_le_of_lt hle.lookups h.lookups, Nat.lt_of_le_of_lt hle.hits h.hits,
    Nat.lt_of_le_of_lt hle.inserts h.inserts, Nat.lt_of_le_of_lt hle.evictions h.evictions,
    Nat.lt_of_le_of_lt hle.allocations h.allocations, Nat.lt_of_le_of_lt hle.frees h.frees⟩

theorem fit_zero : ({} : Counters).Fit := by decide

/-- The counters, if 64 bits can hold each of them. -/
def words? (c : Counters) : Option Counters := if c.Fit then some c else none

/-- The counters after one more event, which adds one to the counters that it meets. -/
def record? (c : Counters) : Event → Option Counters
  | .lookup hit => do
    let lookups ← Word.add? c.lookups 1
    let hits ← if hit then Word.add? c.hits 1 else some c.hits
    return { c with lookups, hits }
  | .insert => do
    let inserts ← Word.add? c.inserts 1
    return { c with inserts }
  | .eviction => do
    let evictions ← Word.add? c.evictions 1
    return { c with evictions }
  | .allocation => do
    let allocations ← Word.add? c.allocations 1
    return { c with allocations }
  | .free => do
    let frees ← Word.add? c.frees 1
    return { c with frees }

/-- The sum of two rows, counter by counter. -/
def add? (a b : Counters) : Option Counters := do
  let lookups ← Word.add? a.lookups b.lookups
  let hits ← Word.add? a.hits b.hits
  let inserts ← Word.add? a.inserts b.inserts
  let evictions ← Word.add? a.evictions b.evictions
  let allocations ← Word.add? a.allocations b.allocations
  let frees ← Word.add? a.frees b.frees
  return { lookups, hits, inserts, evictions, allocations, frees }

/-- The sum of many rows, added up one by one. -/
def sum? (all : List Counters) : Option Counters := all.foldlM add? {}

/-- Lookups that did not find their page. -/
def misses? (c : Counters) : Option Nat := Word.sub? c.lookups c.hits

/-- Slots off the free stacks. -/
def slotsInUse? (c : Counters) : Option Nat := Word.sub? c.allocations c.frees

/-- Counting in words is exact as long as the result is a word. -/
theorem record?_eq {c : Counters} (h : c.Fit) (event : Event) :
    c.record? event = (c.record event).words? := by
  obtain ⟨hlookups, hhits, hinserts, hevictions, hallocations, hfrees⟩ := h
  unfold record? words?
  cases event with
  | lookup hit =>
    cases hit <;>
      simp [record, Word.add?, word?_bind, fit_iff, hhits, hinserts, hevictions, hallocations,
        hfrees, ite_and]
  | _ =>
    simp [record, Word.add?, word?_bind, fit_iff, hlookups, hhits, hinserts, hevictions,
      hallocations, hfrees]

/-- Adding in words is exact as long as the sums are words. -/
theorem add?_eq (a b : Counters) : a.add? b = (a + b).words? := by
  unfold add? words?
  rw [add_eq]
  simp [Word.add?, word?_bind, fit_iff, ite_and]

/-- Adding up in words gives the exact totals if they are words, and otherwise nothing. -/
theorem sum?_eq (all : List Counters) : sum? all = (sum all).words? := by
  have hfold {c : Counters} (h : c.Fit) :
      all.foldlM add? c = (all.foldl (· + ·) c).words? := by
    induction all generalizing c with
    | nil => exact (if_pos h).symm
    | cons a all ih =>
      rw [List.foldlM_cons, List.foldl_cons, add?_eq, words?]
      split
      · rename_i hfits
        exact ih hfits
      · rename_i hover
        exact (if_neg fun hfits => hover (hfits.of_atMost (atMost_foldl ..))).symm
  exact hfold fit_zero

/-- The misses are a word if no more hits than lookups were counted. -/
theorem misses?_of_le {c : Counters} (h : c.hits ≤ c.lookups) : c.misses? = some c.misses :=
  Word.sub?_of_le h

/-- The slots in use are a word if no more were freed than allocated. -/
theorem slotsInUse?_of_le {c : Counters} (h : c.frees ≤ c.allocations) :
    c.slotsInUse? = some c.slotsInUse :=
  Word.sub?_of_le h

end Counters

end ReadThrough
