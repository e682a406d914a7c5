import ReadThrough.Proofs.LinkedList
import ReadThrough.Proofs.RecencyList

/-!
# Linked lists against plain sequences

A `HandleSequence` is a sequence of values under distinct handles with a supply of handles for the
values to come; `HandleSequence.step` is each list operation in terms of plain lists. A `LinkedList`
answers any operations as the sequence does (`run_eq_handleSequence_run`), and whatever can be
looked up in it afterwards, by handle, at the ends or along the links, is what the sequence has.
-/

namespace ReadThrough

/-! ## The supply of handles -/

/-- Which handles are issued next: vacant ones, the one vacated last first, and then new ones. -/
structure HandleSupply where
  vacant : List Handle := []
  /-- The number of handles issued so far. -/
  issued : Nat := 0
deriving Repr, DecidableEq

namespace HandleSupply

/-- The handle that is issued next. -/
def next (s : HandleSupply) : Handle := s.vacant.head?.getD s.issued

/-- The supply once the next handle is issued. -/
def issue (s : HandleSupply) : HandleSupply :=
  match s.vacant with
  | _ :: rest => { s with vacant := rest }
  | [] => { s with issued := s.issued + 1 }

/-- The supply once a handle is vacated. -/
def vacate (s : HandleSupply) (h : Handle) : HandleSupply := { s with vacant := h :: s.vacant }

end HandleSupply

namespace Arena

variable {α : Type}

/-- The handles that the arena issues next. -/
def supply (a : Arena α) : HandleSupply := ⟨a.vacant, a.cells.size⟩

/-- Inserting hands out the next handle of the supply. -/
theorem insert_fst (a : Arena α) (value : α) : (a.insert value).1 = a.supply.next := by
  unfold insert
  split <;> simp_all [supply, HandleSupply.next]

/-- Inserting takes that handle from the supply. -/
theorem supply_insert (a : Arena α) (value : α) :
    (a.insert value).2.supply = a.supply.issue := by
  unfold insert
  split <;> simp_all [supply, HandleSupply.issue]

theorem supply_remove (a : Arena α) (h : Handle) :
    (a.remove h).2.supply = if a.contains h then a.supply.vacate h else a.supply := by
  unfold remove contains
  split <;> simp_all [supply, HandleSupply.vacate]

@[simp] theorem supply_modify (a : Arena α) (h : Handle) (f : α → α) :
    (a.modify h f).supply = a.supply := by
  simp [supply, modify]

/-- Changing the value of a handle that is not live changes nothing. -/
theorem modify_of_not_contains {a : Arena α} {h : Handle} (hh : ¬a.contains h) (f : α → α) :
    a.modify h f = a := by
  have hdead : a.cells[h]?.join = none := by simpa [contains, get?] using hh
  have hcells : a.cells.modify h (Option.map f) = a.cells := by
    refine Array.ext_getElem? fun i => ?_
    rw [Array.getElem?_modify]
    split
    · rename_i hi
      subst hi
      rcases hcell : a.cells[h]? with _ | _ | value <;> simp_all
    · rfl
  rw [modify, hcells]

end Arena

/-! ## Operations -/

/-- An operation on a sequence of values under handles. -/
inductive SequenceOp (α : Type) where
  | pushFront (value : α)
  | pushBack (value : α)
  | popFront
  | popBack
  | remove (h : Handle)
  | moveToFront (h : Handle)
  | moveToBack (h : Handle)
  /-- Gives the value of a handle and puts another in its place. -/
  | replace (h : Handle) (value : α)
  | clear
deriving Repr, DecidableEq

/-- What an operation gives. -/
inductive SequenceAnswer (α : Type) where
  | handle (h : Handle)
  | value (found : Option α)
  | flag (holds : Bool)
  | unit
deriving Repr, DecidableEq

namespace SequenceOp

variable {α : Type}

/-- The handle that an operation is given. -/
def handle? : SequenceOp α → Option Handle
  | .remove h | .moveToFront h | .moveToBack h | .replace h _ => some h
  | .pushFront _ | .pushBack _ | .popFront | .popBack | .clear => none

/-- What an operation gives when its handle is not live. -/
def refusal : SequenceOp α → SequenceAnswer α
  | .moveToFront _ | .moveToBack _ => .flag false
  | _ => .value none

end SequenceOp

/-! ## The sequence -/

/-- A sequence of values under handles. -/
structure HandleSequence (α : Type) where
  /-- The handles and values, front first. -/
  entries : List (Handle × α) := []
  supply : HandleSupply := {}
deriving Repr, DecidableEq

namespace HandleSequence

variable {α : Type}

/-- What an operation gives and makes of the sequence. -/
def step (m : HandleSequence α) : SequenceOp α → SequenceAnswer α × HandleSequence α
  | .pushFront value =>
    (.handle m.supply.next, ⟨(m.supply.next, value) :: m.entries, m.supply.issue⟩)
  | .pushBack value =>
    (.handle m.supply.next, ⟨m.entries ++ [(m.supply.next, value)], m.supply.issue⟩)
  | .popFront =>
    match m.entries.head? with
    | some (h, value) => (.value (some value), ⟨m.entries.tail, m.supply.vacate h⟩)
    | none => (.value none, m)
  | .popBack =>
    match m.entries.getLast? with
    | some (h, value) => (.value (some value), ⟨m.entries.dropLast, m.supply.vacate h⟩)
    | none => (.value none, m)
  | .remove h =>
    match m.entries.lookup h with
    | some value => (.value (some value), ⟨m.entries.filter (·.1 ≠ h), m.supply.vacate h⟩)
    | none => (.value none, m)
  | .moveToFront h =>
    match m.entries.lookup h with
    | some value => (.flag true, { m with entries := (h, value) :: m.entries.filter (·.1 ≠ h) })
    | none => (.flag false, m)
  | .moveToBack h =>
    match m.entries.lookup h with
    | some value => (.flag true, { m with entries := m.entries.filter (·.1 ≠ h) ++ [(h, value)] })
    | none => (.flag false, m)
  | .replace h value =>
    (.value (m.entries.lookup h), { m with entries := LinkedList.assign m.entries h value })
  | .clear => (.unit, {})

/-- The handle whose entry an operation adds, takes out, moves or changes. -/
def concerned (m : HandleSequence α) : SequenceOp α → Option Handle
  | .pushFront _ | .pushBack _ => some m.supply.next
  | .popFront => (m.entries.map (·.1)).head?
  | .popBack => (m.entries.map (·.1)).getLast?
  | .remove h | .moveToFront h | .moveToBack h | .replace h _ => some h
  | .clear => none

/-- The entries under other handles than the given one. -/
def others (es : List (Handle × α)) (h : Option Handle) : List (Handle × α) :=
  es.filter (some ·.1 ≠ h)

/-- An operation on a handle that is not live is refused and changes nothing. -/
theorem step_of_lookup_eq_none {m : HandleSequence α} {h : Handle}
    (hh : m.entries.lookup h = none) {op : SequenceOp α} (hop : op.handle? = some h) :
    m.step op = (op.refusal, m) := by
  cases op with
  | pushFront | pushBack | popFront | popBack | clear => cases hop
  | remove k =>
    obtain rfl : k = h := Option.some.inj hop
    simp [step, SequenceOp.refusal, hh]
  | moveToFront k =>
    obtain rfl : k = h := Option.some.inj hop
    simp [step, SequenceOp.refusal, hh]
  | moveToBack k =>
    obtain rfl : k = h := Option.some.inj hop
    simp [step, SequenceOp.refusal, hh]
  | replace k value =>
    obtain rfl : k = h := Option.some.inj hop
    have hsame : LinkedList.assign m.entries k value = m.entries := by
      refine (List.map_congr_left fun e he => if_neg ?_).trans (List.map_id _)
      rintro rfl
      simpa using List.lookup_eq_none_iff.1 hh e he
    simp [step, SequenceOp.refusal, hh, hsame]

/-- An element in front is not one of the others. -/
theorem others_cons (es : List (Handle × α)) (h : Handle) (value : α) :
    others ((h, value) :: es) (some h) = others es (some h) :=
  List.filter_cons_of_neg (by simp)

/-- An element at the back is not one of the others. -/
theorem others_concat (es : List (Handle × α)) (h : Handle) (value : α) :
    others (es ++ [(h, value)]) (some h) = others es (some h) := by
  simp [others]

/-- Taking the element out leaves the others. -/
theorem others_filter (es : List (Handle × α)) (h : Handle) :
    others (es.filter (·.1 ≠ h)) (some h) = others es (some h) := by
  simp [others, List.filter_filter]

/-- Assigning to the element leaves the others. -/
theorem others_assign (es : List (Handle × α)) (h : Handle) (value : α) :
    others (LinkedList.assign es h value) (some h) = others es (some h) := by
  induction es with
  | nil => rfl
  | cons e es ih =>
    by_cases he : e.1 = h
    · simp_all [others, LinkedList.assign]
    · simp_all [others, LinkedList.assign]

/-- All entries keep their values and their order, but for the one that the operation concerns. -/
theorem others_step (m : HandleSequence α) {op : SequenceOp α} (hop : op ≠ .clear) :
    others (m.step op).2.entries (m.concerned op) = others m.entries (m.concerned op) := by
  cases op with
  | pushFront value => exact others_cons _ _ _
  | pushBack value => exact others_concat _ _ _
  | popFront =>
    rcases hes : m.entries with _ | ⟨⟨h, value⟩, rest⟩
    · simp [step, hes]
    · simp [step, concerned, hes, others_cons]
  | popBack =>
    rcases List.eq_nil_or_concat m.entries with hes | ⟨rest, ⟨h, value⟩, hes⟩
    · simp [step, hes]
    · rw [List.concat_eq_append] at hes
      simp [step, concerned, hes, others_concat]
  | remove h =>
    rcases hlookup : m.entries.lookup h with _ | value
    · simp [step, hlookup]
    · simp only [step, hlookup, concerned, others_filter]
  | moveToFront h =>
    rcases hlookup : m.entries.lookup h with _ | value
    · simp [step, hlookup]
    · simp only [step, hlookup, concerned, others_cons, others_filter]
  | moveToBack h =>
    rcases hlookup : m.entries.lookup h with _ | value
    · simp [step, hlookup]
    · simp only [step, hlookup, concerned, others_concat, others_filter]
  | replace h value => exact others_assign _ _ _
  | clear => exact absurd rfl hop

end HandleSequence

/-! ## The links -/

namespace LinkedList

variable {α : Type}

/-- What an operation gives and makes of the list. -/
def step (l : LinkedList α) : SequenceOp α → SequenceAnswer α × LinkedList α
  | .pushFront value => let (h, l) := l.pushFront value; (.handle h, l)
  | .pushBack value => let (h, l) := l.pushBack value; (.handle h, l)
  | .popFront => let (value, l) := l.popFront; (.value value, l)
  | .popBack => let (value, l) := l.popBack; (.value value, l)
  | .remove h => let (value, l) := l.remove h; (.value value, l)
  | .moveToFront h => let (moved, l) := l.moveToFront h; (.flag moved, l)
  | .moveToBack h => let (moved, l) := l.moveToBack h; (.flag moved, l)
  | .replace h value => (.value (l.get? h), l.set h value)
  | .clear => (.unit, l.clear)

/-! ### Relinking issues and vacates no handle -/

@[simp] theorem supply_unlink (l : LinkedList α) (h : Handle) :
    (l.unlink h).nodes.supply = l.nodes.supply := by
  unfold unlink
  split
  · rfl
  · rename_i node _
    rcases node with ⟨_, _ | p, _ | x⟩ <;> simp

@[simp] theorem supply_linkFront (l : LinkedList α) (h : Handle) :
    (l.linkFront h).nodes.supply = l.nodes.supply := by
  unfold linkFront
  split <;> simp

@[simp] theorem supply_linkBack (l : LinkedList α) (h : Handle) :
    (l.linkBack h).nodes.supply = l.nodes.supply := by
  unfold linkBack
  split <;> simp

theorem supply_remove (l : LinkedList α) (h : Handle) :
    (l.remove h).2.nodes.supply
      = if l.contains h then l.nodes.supply.vacate h else l.nodes.supply := by
  have hlive : (l.unlink h).nodes.contains h = l.contains h :=
    Bool.eq_iff_iff.2 (by rw [← contains, contains_iff, contains_iff, get?_unlink])
  rw [remove, Arena.supply_remove, hlive, supply_unlink]

@[simp] theorem supply_moveToFront (l : LinkedList α) (h : Handle) :
    (l.moveToFront h).2.nodes.supply = l.nodes.supply := by
  unfold moveToFront
  split
  · rfl
  · split <;> simp

@[simp] theorem supply_moveToBack (l : LinkedList α) (h : Handle) :
    (l.moveToBack h).2.nodes.supply = l.nodes.supply := by
  unfold moveToBack
  split
  · rfl
  · split <;> simp

/-! ### Handles that are not live -/

variable {l : LinkedList α} {h : Handle}

/-- Unlinking what is not there does nothing. -/
theorem unlink_of_not_contains (hh : ¬l.contains h) : l.unlink h = l := by
  have hnone : l.nodes.get? h = none := by simpa [contains, Arena.contains] using hh
  simp [unlink, hnone]

/-- Removing what is not there gives nothing and does nothing. -/
theorem remove_of_not_contains (hh : ¬l.contains h) : l.remove h = (none, l) := by
  have hnone : l.nodes.get? h = none := by simpa [contains, Arena.contains] using hh
  simp [remove, unlink_of_not_contains hh, Arena.remove, hnone]

/-- An operation on a handle that is not live is refused and changes nothing. -/
theorem step_of_not_contains (hh : ¬l.contains h) {op : SequenceOp α} (hop : op.handle? = some h) :
    l.step op = (op.refusal, l) := by
  cases op with
  | pushFront | pushBack | popFront | popBack | clear => cases hop
  | remove k =>
    obtain rfl : k = h := Option.some.inj hop
    rw [step, remove_of_not_contains hh]
    rfl
  | moveToFront k =>
    obtain rfl : k = h := Option.some.inj hop
    simp [step, moveToFront, SequenceOp.refusal, hh]
  | moveToBack k =>
    obtain rfl : k = h := Option.some.inj hop
    simp [step, moveToBack, SequenceOp.refusal, hh]
  | replace k value =>
    obtain rfl : k = h := Option.some.inj hop
    have hnone : l.get? k = none := by
      simpa [contains_iff, Option.eq_none_iff_forall_ne_some] using hh
    have hsame : l.set k value = l := by
      rw [set, Arena.modify_of_not_contains hh]
    rw [step, hnone, hsame]
    rfl

/-! ### The list and the sequence -/

/-- The list has the entries of the sequence and issues the handles that the sequence does. -/
def Shows (l : LinkedList α) (m : HandleSequence α) : Prop :=
  l.Represents m.entries ∧ l.nodes.supply = m.supply

variable {m : HandleSequence α}

/-- Pushing at the front hands out the next handle of the supply. -/
theorem Shows.pushFront_fst (hl : l.Shows m) (value : α) :
    (l.pushFront value).1 = m.supply.next := by
  rw [← hl.2]
  exact Arena.insert_fst _ _

/-- So does pushing at the back. -/
theorem Shows.pushBack_fst (hl : l.Shows m) (value : α) : (l.pushBack value).1 = m.supply.next :=
  hl.pushFront_fst value

/-- Removing a live handle takes its entry out and vacates the handle. -/
theorem Shows.remove (hl : l.Shows m) {before after : List (Handle × α)} {value : α}
    (hes : m.entries = before ++ (h, value) :: after) :
    (l.remove h).1 = some value ∧ (l.remove h).2.Shows ⟨before ++ after, m.supply.vacate h⟩ := by
  obtain ⟨hentries, hsupply⟩ := hl
  have hget : l.get? h = some value := (hentries.get?_eq_some_iff h value).2 (by simp [hes])
  have hdistinct := hentries.distinct
  have hrest := hentries.remove h
  rw [hes] at hdistinct hrest
  rw [hdistinct.filter_ne_append] at hrest
  refine ⟨by rw [remove_fst, hget], hrest, ?_⟩
  rw [supply_remove, if_pos (contains_iff.2 ⟨value, hget⟩), hsupply]

/-- What the sequence has no value for is not in the list. -/
theorem Shows.not_contains (hl : l.Shows m) (hh : m.entries.lookup h = none) : ¬l.contains h := by
  simp [contains_iff, hl.1.get?_eq_lookup, hh]

/-- An operation gives what it gives on the sequence, and makes of the list what it makes of the
sequence. -/
theorem Shows.step (hl : l.Shows m) (op : SequenceOp α) :
    (l.step op).1 = (m.step op).1 ∧ (l.step op).2.Shows (m.step op).2 := by
  obtain ⟨hentries, hsupply⟩ := id hl
  cases op with
  | pushFront value =>
    have hh := hl.pushFront_fst value
    refine ⟨congrArg _ hh, ?_, ?_⟩
    · have h := hentries.pushFront value
      rwa [hh] at h
    · show (l.pushFront value).2.nodes.supply = m.supply.issue
      rw [LinkedList.pushFront, supply_linkFront, ← hsupply]
      exact Arena.supply_insert _ _
  | pushBack value =>
    have hh := hl.pushBack_fst value
    refine ⟨congrArg _ hh, ?_, ?_⟩
    · have h := hentries.pushBack value
      rwa [hh] at h
    · show (l.pushBack value).2.nodes.supply = m.supply.issue
      rw [LinkedList.pushBack, supply_linkBack, ← hsupply]
      exact Arena.supply_insert _ _
  | popFront =>
    rcases hes : m.entries with _ | ⟨⟨h, value⟩, rest⟩
    · have hhead : l.head = none := by simp [hentries.linked.head, hes]
      simpa [LinkedList.step, LinkedList.popFront, HandleSequence.step, hhead, hes] using hl
    · have hhead : l.head = some h := by simp [hentries.linked.head, hes]
      have hsplit : m.entries = [] ++ (h, value) :: rest := hes
      obtain ⟨hvalue, hrest⟩ := hl.remove hsplit
      simp only [LinkedList.step, LinkedList.popFront, HandleSequence.step, hhead, hes]
      exact ⟨congrArg _ hvalue, hrest⟩
  | popBack =>
    rcases List.eq_nil_or_concat m.entries with hes | ⟨rest, ⟨h, value⟩, hes⟩
    · have htail : l.tail = none := by simp [hentries.linked.tail, hes]
      simpa [LinkedList.step, LinkedList.popBack, HandleSequence.step, htail, hes] using hl
    · rw [List.concat_eq_append] at hes
      have htail : l.tail = some h := by simp [hentries.linked.tail, hes]
      obtain ⟨hvalue, hrest⟩ := hl.remove hes
      simpa [LinkedList.step, LinkedList.popBack, HandleSequence.step, htail, hes, hvalue]
        using hrest
  | remove h =>
    rcases hlookup : m.entries.lookup h with _ | value
    · rw [step_of_not_contains (hl.not_contains hlookup) rfl,
        HandleSequence.step_of_lookup_eq_none hlookup rfl]
      exact ⟨rfl, hl⟩
    · have hmem : (h, value) ∈ m.entries := hentries.distinct.lookup_eq_some_iff.1 hlookup
      obtain ⟨before, after, hes⟩ := List.append_of_mem hmem
      obtain ⟨hvalue, hrest⟩ := hl.remove hes
      have hdistinct := hentries.distinct
      rw [hes] at hdistinct
      have hfilter : m.entries.filter (·.1 ≠ h) = before ++ after := by
        rw [hes, hdistinct.filter_ne_append]
      simp only [HandleSequence.step, hlookup, hfilter]
      exact ⟨congrArg _ hvalue, hrest⟩
  | moveToFront h =>
    rcases hlookup : m.entries.lookup h with _ | value
    · rw [step_of_not_contains (hl.not_contains hlookup) rfl,
        HandleSequence.step_of_lookup_eq_none hlookup rfl]
      exact ⟨rfl, hl⟩
    · have hmem : (h, value) ∈ m.entries := hentries.distinct.lookup_eq_some_iff.1 hlookup
      obtain ⟨hmoved, hrest⟩ := hentries.moveToFront hmem
      simp only [HandleSequence.step, hlookup]
      exact ⟨congrArg _ hmoved, hrest, (l.supply_moveToFront h).trans hsupply⟩
  | moveToBack h =>
    rcases hlookup : m.entries.lookup h with _ | value
    · rw [step_of_not_contains (hl.not_contains hlookup) rfl,
        HandleSequence.step_of_lookup_eq_none hlookup rfl]
      exact ⟨rfl, hl⟩
    · have hmem : (h, value) ∈ m.entries := hentries.distinct.lookup_eq_some_iff.1 hlookup
      obtain ⟨hmoved, hrest⟩ := hentries.moveToBack hmem
      simp only [HandleSequence.step, hlookup]
      exact ⟨congrArg _ hmoved, hrest, (l.supply_moveToBack h).trans hsupply⟩
  | replace h value =>
    exact ⟨congrArg _ (hentries.get?_eq_lookup h), hentries.set h value,
      (Arena.supply_modify _ _ _).trans hsupply⟩
  | clear => exact ⟨rfl, l.represents_clear, rfl⟩

/-! ### What can be looked up -/

/-- All that can be looked up in the list is what it is in the sequence of these entries. -/
structure Exhibits (l : LinkedList α) (es : List (Handle × α)) : Prop where
  distinct : DistinctKeys es
  size : l.size = es.length
  isEmpty : l.isEmpty = es.isEmpty
  contains : ∀ h, l.contains h ↔ h ∈ es.map (·.1)
  get? : ∀ h, l.get? h = es.lookup h
  /-- Following the links visits each entry once and then ends. -/
  ahead : ∀ limit, l.walk (·.next) limit l.head = es.take limit
  behind : ∀ limit, l.walk (·.prev) limit l.tail = es.reverse.take limit
  entries : l.entries = es
  entriesBack : l.entriesBack = es.reverse
  toList : l.toList = es.map (·.2)
  head : l.head = (es.map (·.1)).head?
  tail : l.tail = (es.map (·.1)).getLast?
  front? : l.front? = (es.map (·.2)).head?
  back? : l.back? = (es.map (·.2)).getLast?
  neighbours : ∀ before h value after, es = before ++ (h, value) :: after →
    l.prev? h = (before.map (·.1)).getLast? ∧ l.next? h = (after.map (·.1)).head?
  strangers : ∀ h, h ∉ es.map (·.1) → l.prev? h = none ∧ l.next? h = none

theorem Represents.exhibits {es : List (Handle × α)} (hl : l.Represents es) : l.Exhibits es where
  distinct := hl.distinct
  size := hl.size_eq
  isEmpty := by
    have hsize : l.nodes.size = es.length := hl.size_eq
    rw [LinkedList.isEmpty, Arena.isEmpty, hsize]
    cases es <;> rfl
  contains := hl.contains_iff_mem
  get? := hl.get?_eq_lookup
  ahead := hl.walk_next
  behind := hl.walk_prev
  entries := hl.entries_eq
  entriesBack := hl.entriesBack_eq
  toList := hl.toList_eq
  head := hl.linked.head
  tail := hl.linked.tail
  front? := hl.front?_eq
  back? := hl.back?_eq
  neighbours := fun _ _ _ _ hes => ⟨hl.prev?_eq hes, hl.next?_eq hes⟩
  strangers := fun h hh => by
    have hnone : l.nodes.get? h = none := by
      rw [← hl.contains_iff_mem, LinkedList.contains, Arena.contains] at hh
      simpa using hh
    simp [prev?, next?, hnone]

/-- Whatever operations a list goes through, with live handles or others, each gives what it gives
on the sequence. In the end all that can be looked up is as in the sequence; a next operation on a
handle that is not live is refused and leaves the list as it is, and any next operation but
clearing keeps the values and the order of the entries that it does not concern. -/
theorem run_eq_handleSequence_run (capacity : Nat) (ops : List (SequenceOp α)) :
    let program := runSteps LinkedList.step (withCapacity capacity) ops
    let model := runSteps HandleSequence.step {} ops
    program.1 = model.1 ∧ program.2.Exhibits model.2.entries ∧
      (∀ op h, op.handle? = some h → h ∉ model.2.entries.map (·.1) →
        program.2.step op = (op.refusal, program.2)) ∧
      ∀ op, op ≠ .clear →
        HandleSequence.others (program.2.step op).2.entries (model.2.concerned op)
          = HandleSequence.others model.2.entries (model.2.concerned op) := by
  intro program model
  have hempty : (withCapacity capacity : LinkedList α).Shows {} :=
    ⟨Represents.withCapacity capacity, rfl⟩
  obtain ⟨hanswers, hshows⟩ :=
    runSteps_related (R := Shows) (fun _ _ op h => h.step op) ops hempty
  refine ⟨hanswers, hshows.1.exhibits, fun op h hop hh => ?_, fun op hop => ?_⟩
  · exact step_of_not_contains (by rwa [hshows.1.contains_iff_mem]) hop
  · rw [(hshows.step op).2.1.entries_eq]
    exact model.2.others_step hop

end LinkedList

end ReadThrough
