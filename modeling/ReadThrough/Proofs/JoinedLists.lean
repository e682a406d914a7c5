import Mathlib.Data.List.Induction
import ReadThrough.Proofs.HandleSequence

/-!
# Joined lists

Joining two linked lists is a loop that takes the values of one off an end and adds them at an end
of the other. `LinkedList.Drains` is this loop without a limit on its rounds, and `Shows.append` and
`Shows.prepend` say what it makes of two sequences: it ends after as many rounds as there are
values, the sequences are put in a row, and the handles are the next ones of the list that grows, in
the order in which that list issues them (`HandleSupply.upcoming`). `append_and_prepend_move_all`
gathers this for all lists that can be built (`Reachable`).
-/

namespace ReadThrough

/-! ## Many handles at once -/

namespace HandleSupply

/-- The next `n` handles, in the order in which they are issued. -/
def upcoming (s : HandleSupply) (n : Nat) : List Handle :=
  s.vacant.take n ++ List.range' s.issued (n - s.vacant.length)

/-- The supply once the next `n` handles are issued. -/
def issueMany (s : HandleSupply) (n : Nat) : HandleSupply :=
  ⟨s.vacant.drop n, s.issued + (n - s.vacant.length)⟩

/-- The supply once these handles are vacated, one after the other. -/
def vacateAll (s : HandleSupply) (hs : List Handle) : HandleSupply :=
  { s with vacant := hs.reverse ++ s.vacant }

variable (s : HandleSupply) (n : Nat)

/-- So many handles were asked for. -/
@[simp] theorem length_upcoming : (s.upcoming n).length = n := by
  simp only [upcoming, List.length_append, List.length_take, List.length_range']
  omega

@[simp] theorem upcoming_zero : s.upcoming 0 = [] := by
  simp [upcoming]

@[simp] theorem issueMany_zero : s.issueMany 0 = s := by
  simp [issueMany]

/-- The next handle comes first. -/
theorem upcoming_succ : s.upcoming (n + 1) = s.next :: s.issue.upcoming n := by
  rcases s with ⟨_ | ⟨h, vacant⟩, issued⟩
  · simp [upcoming, next, issue, List.range'_succ]
  · simp [upcoming, next, issue]

theorem vacateAll_cons (h : Handle) (hs : List Handle) :
    s.vacateAll (h :: hs) = (s.vacate h).vacateAll hs := by
  simp [vacateAll, vacate]

theorem issueMany_succ : s.issueMany (n + 1) = s.issue.issueMany n := by
  rcases s with ⟨_ | ⟨h, vacant⟩, issued⟩
  · simp [issueMany, issue, Nat.add_comm, Nat.add_left_comm]
  · simp [issueMany, issue]

end HandleSupply

namespace HandleSequence

variable {α : Type} (m : HandleSequence α)

/-- The sequence with the values added at the back, the first of them first. -/
def pushAllBack (values : List α) : HandleSequence α :=
  ⟨m.entries ++ (m.supply.upcoming values.length).zip values, m.supply.issueMany values.length⟩

/-- The sequence with the values added at the front, the last of them first. -/
def pushAllFront (values : List α) : HandleSequence α :=
  ⟨(m.supply.upcoming values.length).reverse.zip values ++ m.entries,
    m.supply.issueMany values.length⟩

theorem pushAllBack_nil : m.pushAllBack [] = m := by
  simp [pushAllBack]

theorem pushAllFront_nil : m.pushAllFront [] = m := by
  simp [pushAllFront]

theorem pushAllBack_cons (value : α) (values : List α) :
    m.pushAllBack (value :: values) = (m.step (.pushBack value)).2.pushAllBack values := by
  simp [pushAllBack, step, HandleSupply.upcoming_succ, HandleSupply.issueMany_succ]

theorem pushAllFront_concat (value : α) (values : List α) :
    m.pushAllFront (values ++ [value]) = (m.step (.pushFront value)).2.pushAllFront values := by
  simp [pushAllFront, step, HandleSupply.upcoming_succ, HandleSupply.issueMany_succ,
    List.zip_append]

end HandleSequence

/-! ## The loop -/

namespace LinkedList

variable {α : Type}

/-- The loop that takes values out of `other` and adds them to `l` until there are no more: the
number of its rounds, the handles in the order of the rounds, and what it leaves of the lists. -/
inductive Drains (take : LinkedList α → Option α × LinkedList α)
    (add : LinkedList α → α → Handle × LinkedList α) :
    (rounds : Nat) → (l other : LinkedList α) → List Handle × LinkedList α × LinkedList α → Prop
  | ends {l other : LinkedList α} (hnone : take other = (none, other)) :
    Drains take add 0 l other ([], l, other)
  | moves {rounds : Nat} {l other left joined rest : LinkedList α} {value : α}
      {handles : List Handle} (hsome : take other = (some value, left))
      (hrest : Drains take add rounds (add l value).2 left (handles, joined, rest)) :
    Drains take add (rounds + 1) l other ((add l value).1 :: handles, joined, rest)

/-- A limit that the loop does not exceed makes no difference. -/
theorem Drains.drainInto_eq {take : LinkedList α → Option α × LinkedList α}
    {add : LinkedList α → α → Handle × LinkedList α} {rounds limit : Nat} {l other : LinkedList α}
    {result : List Handle × LinkedList α × LinkedList α}
    (h : Drains take add rounds l other result) (hlimit : rounds ≤ limit) :
    drainInto take add limit l other = result := by
  induction h generalizing limit with
  | ends hnone =>
    cases limit with
    | zero => rfl
    | succ limit => simp only [drainInto, hnone]
  | moves hsome hrest ih =>
    obtain ⟨limit, rfl⟩ := Nat.exists_eq_add_of_le' (Nat.one_le_of_lt hlimit)
    simp only [drainInto, hsome, ih (Nat.le_of_succ_le_succ hlimit)]

/-! ### Joining sequences -/

variable {l other : LinkedList α} {m : HandleSequence α}

/-- Taking values off the front and adding them at the back ends when there are none left, and puts
the two sequences in a row. -/
theorem Shows.drains_append {es : List (Handle × α)} {s : HandleSupply} (hl : l.Shows m)
    (ho : other.Shows ⟨es, s⟩) :
    ∃ joined rest, Drains popFront pushBack es.length l other
        (m.supply.upcoming es.length, joined, rest) ∧
      joined.Shows (m.pushAllBack (es.map (·.2))) ∧
      rest.Shows ⟨[], s.vacateAll (es.map (·.1))⟩ := by
  induction es generalizing l m other s with
  | nil =>
    refine ⟨l, other, ?_, ?_, ho⟩
    · rw [List.length_nil, HandleSupply.upcoming_zero]
      exact .ends ho.1.popFront_nil
    · rwa [List.map_nil, HandleSequence.pushAllBack_nil]
  | cons e es ih =>
    obtain ⟨h, value⟩ := e
    obtain ⟨hvalue, hleft⟩ := ho.step .popFront
    have htake : other.popFront = (some value, other.popFront.2) :=
      Prod.ext (SequenceAnswer.value.inj hvalue) rfl
    obtain ⟨joined, rest, hdrains, hjoined, hrest⟩ := ih (hl.step (.pushBack value)).2 hleft
    refine ⟨joined, rest, ?_, ?_, ?_⟩
    · rw [List.length_cons, HandleSupply.upcoming_succ, ← hl.pushBack_fst value]
      exact .moves htake hdrains
    · rwa [List.map_cons, HandleSequence.pushAllBack_cons]
    · rwa [List.map_cons, HandleSupply.vacateAll_cons]

/-- Taking values off the back and adding them at the front does the same in the opposite order. -/
theorem Shows.drains_prepend {es : List (Handle × α)} {s : HandleSupply} (hl : l.Shows m)
    (ho : other.Shows ⟨es, s⟩) :
    ∃ joined rest, Drains popBack pushFront es.length l other
        (m.supply.upcoming es.length, joined, rest) ∧
      joined.Shows (m.pushAllFront (es.map (·.2))) ∧
      rest.Shows ⟨[], s.vacateAll (es.map (·.1)).reverse⟩ := by
  induction es using List.reverseRecOn generalizing l m other s with
  | nil =>
    refine ⟨l, other, ?_, ?_, ho⟩
    · rw [List.length_nil, HandleSupply.upcoming_zero]
      exact .ends ho.1.popBack_nil
    · rwa [List.map_nil, HandleSequence.pushAllFront_nil]
  | append_singleton es e ih =>
    obtain ⟨h, value⟩ := e
    obtain ⟨hvalue, hleft⟩ := ho.step .popBack
    simp only [HandleSequence.step, List.getLast?_concat, List.dropLast_concat] at hvalue hleft
    have htake : other.popBack = (some value, other.popBack.2) :=
      Prod.ext (SequenceAnswer.value.inj hvalue) rfl
    obtain ⟨joined, rest, hdrains, hjoined, hrest⟩ := ih (hl.step (.pushFront value)).2 hleft
    refine ⟨joined, rest, ?_, ?_, ?_⟩
    · rw [List.length_append, List.length_singleton, HandleSupply.upcoming_succ,
        ← hl.pushFront_fst value]
      exact .moves htake hdrains
    · rwa [List.map_append, List.map_singleton, HandleSequence.pushAllFront_concat]
    · rwa [List.map_append, List.map_singleton, List.reverse_concat, HandleSupply.vacateAll_cons]

/-- Appending moves all values behind the others. -/
theorem Shows.append {m' : HandleSequence α} (hl : l.Shows m) (ho : other.Shows m') :
    ∃ joined rest, l.append other = (m.supply.upcoming other.size, joined, rest) ∧
      Drains popFront pushBack other.size l other
        (m.supply.upcoming other.size, joined, rest) ∧
      joined.Shows (m.pushAllBack other.toList) ∧
      rest.Shows ⟨[], m'.supply.vacateAll (m'.entries.map (·.1))⟩ := by
  rw [ho.1.size_eq, ho.1.toList_eq]
  obtain ⟨joined, rest, hdrains, hjoined, hrest⟩ := hl.drains_append ho
  exact ⟨joined, rest, hdrains.drainInto_eq ho.1.length_le_cells, hdrains, hjoined, hrest⟩

/-- Prepending moves all values before the others. -/
theorem Shows.prepend {m' : HandleSequence α} (hl : l.Shows m) (ho : other.Shows m') :
    ∃ joined rest, l.prepend other = ((m.supply.upcoming other.size).reverse, joined, rest) ∧
      Drains popBack pushFront other.size l other
        (m.supply.upcoming other.size, joined, rest) ∧
      joined.Shows (m.pushAllFront other.toList) ∧
      rest.Shows ⟨[], m'.supply.vacateAll (m'.entries.map (·.1)).reverse⟩ := by
  rw [ho.1.size_eq, ho.1.toList_eq]
  obtain ⟨joined, rest, hdrains, hjoined, hrest⟩ := hl.drains_prepend ho
  refine ⟨joined, rest, ?_, hdrains, hjoined, hrest⟩
  rw [LinkedList.prepend, hdrains.drainInto_eq ho.1.length_le_cells]

/-! ### Lists that can be built -/

/-- The lists that operations lead to from an empty one, and those that joining two of them
leaves. -/
inductive Reachable : LinkedList α → Prop
  | withCapacity (capacity : Nat) : Reachable (withCapacity capacity)
  | step {l : LinkedList α} (hl : Reachable l) (op : SequenceOp α) : Reachable (l.step op).2
  | appended {l other : LinkedList α} (hl : Reachable l) (ho : Reachable other) :
    Reachable (l.append other).2.1
  | appendedRest {l other : LinkedList α} (hl : Reachable l) (ho : Reachable other) :
    Reachable (l.append other).2.2
  | prepended {l other : LinkedList α} (hl : Reachable l) (ho : Reachable other) :
    Reachable (l.prepend other).2.1
  | prependedRest {l other : LinkedList α} (hl : Reachable l) (ho : Reachable other) :
    Reachable (l.prepend other).2.2

/-- Whatever is done to a list that was reached makes one that can be reached. -/
theorem Reachable.runSteps (hl : l.Reachable) (ops : List (SequenceOp α)) :
    (ReadThrough.runSteps LinkedList.step l ops).2.Reachable := by
  induction ops generalizing l with
  | nil => exact hl
  | cons op ops ih => exact ih (hl.step op)

/-- The entries of the list and the handles that it issues next. -/
def sequence (l : LinkedList α) : HandleSequence α := ⟨l.entries, l.nodes.supply⟩

/-- A list shows no other sequence than its own. -/
theorem Shows.sequence_eq (hl : l.Shows m) : l.sequence = m := by
  rw [sequence, hl.1.entries_eq, hl.2]

/-- A list that was reached shows its sequence. -/
theorem Reachable.shows (hl : l.Reachable) : l.Shows l.sequence := by
  suffices h : ∃ m, l.Shows m by
    obtain ⟨m, hm⟩ := h
    rwa [hm.sequence_eq]
  induction hl with
  | withCapacity capacity => exact ⟨{}, Represents.withCapacity capacity, rfl⟩
  | step _ op ih =>
    obtain ⟨_, hm⟩ := ih
    exact ⟨_, (hm.step op).2⟩
  | appended _ _ ihl iho =>
    obtain ⟨⟨_, hm⟩, ⟨_, hm'⟩⟩ := And.intro ihl iho
    obtain ⟨_, _, heq, -, hjoined, -⟩ := hm.append hm'
    exact ⟨_, by rwa [heq]⟩
  | appendedRest _ _ ihl iho =>
    obtain ⟨⟨_, hm⟩, ⟨_, hm'⟩⟩ := And.intro ihl iho
    obtain ⟨_, _, heq, -, -, hrest⟩ := hm.append hm'
    exact ⟨_, by rwa [heq]⟩
  | prepended _ _ ihl iho =>
    obtain ⟨⟨_, hm⟩, ⟨_, hm'⟩⟩ := And.intro ihl iho
    obtain ⟨_, _, heq, -, hjoined, -⟩ := hm.prepend hm'
    exact ⟨_, by rwa [heq]⟩
  | prependedRest _ _ ihl iho =>
    obtain ⟨⟨_, hm⟩, ⟨_, hm'⟩⟩ := And.intro ihl iho
    obtain ⟨_, _, heq, -, -, hrest⟩ := hm.prepend hm'
    exact ⟨_, by rwa [heq]⟩

/-! ### What joining keeps -/

/-- Any operations to come give what they give on the list's sequence, and leave the list with what
they leave of the sequence. -/
def ActsAsSequence (l : LinkedList α) : Prop :=
  ∀ ops, (runSteps LinkedList.step l ops).1 = (runSteps HandleSequence.step l.sequence ops).1 ∧
    (runSteps LinkedList.step l ops).2.Exhibits
      (runSteps HandleSequence.step l.sequence ops).2.entries

/-- A list that shows a sequence answers like it from then on. -/
theorem Shows.actsAsSequence (hl : l.Shows m) : l.ActsAsSequence := fun ops => by
  rw [hl.sequence_eq]
  obtain ⟨hanswers, hlast⟩ := runSteps_related (R := Shows) (fun _ _ op h => h.step op) ops hl
  exact ⟨hanswers, hlast.1.exhibits⟩

/-- The values of `other` were moved to `l`, each to the handle in the same place. -/
structure Moved (l other : LinkedList α) (handles : List Handle) (joined rest : LinkedList α) :
    Prop where
  length : handles.length = other.size
  nodup : handles.Nodup
  fresh : ∀ h ∈ handles, ¬l.contains h
  values : handles.map joined.get? = other.toList.map some
  /-- The handles of `l` keep their values and their order. -/
  kept : ∀ h, l.contains h → joined.get? h = l.get? h
  order : joined.entries.filter (l.contains ·.1) = l.entries
  emptied : rest.isEmpty ∧ rest.entries = []
  joined_represents : joined.Represents joined.entries
  rest_represents : rest.Represents rest.entries
  joined_acts : joined.ActsAsSequence
  rest_acts : rest.ActsAsSequence

/-- It is enough that the entries are those of `l` with one for each value before or behind them. -/
theorem moved_of_entries (before after : List (Handle × α)) {handles : List Handle}
    {joined rest : LinkedList α} {m₀ m' m'' : HandleSequence α} (hl : l.Shows m)
    (ho : other.Shows m₀) (hjoined : joined.Shows m') (hrest : rest.Shows m'')
    (hemptied : m''.entries = []) (hlength : handles.length = other.toList.length)
    (hentries : joined.entries = before ++ l.entries ++ after)
    (hmoved : before ++ after = handles.zip other.toList) :
    Moved l other handles joined rest := by
  have hkeys : (handles.zip other.toList).map (·.1) = handles :=
    List.map_fst_zip (Nat.le_of_eq hlength)
  have hvalues : (handles.zip other.toList).map (·.2) = other.toList :=
    List.map_snd_zip (Nat.le_of_eq hlength.symm)
  have hperm : joined.entries.Perm (handles.zip other.toList ++ l.entries) := by
    rw [hentries, ← hmoved, List.append_assoc, List.append_assoc]
    exact List.perm_append_comm.append_left before
  have hlrep : l.Represents l.entries := by rw [hl.1.entries_eq]; exact hl.1
  have hjrep : joined.Represents joined.entries := by rw [hjoined.1.entries_eq]; exact hjoined.1
  -- the new handles and those of `l` are all keys of one list, each once
  have hall : (handles ++ l.entries.map (·.1)).Nodup := by
    rw [← hkeys, ← List.map_append]
    exact hjrep.distinct.perm hperm
  obtain ⟨hnodup, -, hdisjoint⟩ := List.nodup_append.1 hall
  have hfresh : ∀ h ∈ handles, ¬l.contains h := fun h hh hlive =>
    hdisjoint h hh h ((hlrep.contains_iff_mem h).1 hlive) rfl
  have hget {h : Handle} {value : α} (hmem : (h, value) ∈ handles.zip other.toList ++ l.entries) :
      joined.get? h = some value :=
    (hjrep.get?_eq_some_iff h value).2 (hperm.mem_iff.2 hmem)
  refine
    { length := hlength.trans ho.1.length_toList
      nodup := hnodup, fresh := hfresh, values := ?values, kept := ?kept, order := ?order
      emptied := ⟨?isEmpty, hrest.1.entries_eq.trans hemptied⟩
      joined_represents := hjrep
      rest_represents := by rw [hrest.1.entries_eq]; exact hrest.1
      joined_acts := hjoined.actsAsSequence, rest_acts := hrest.actsAsSequence }
  case isEmpty =>
    rw [hrest.1.exhibits.isEmpty, hemptied]
    rfl
  case values =>
    calc handles.map joined.get?
        = ((handles.zip other.toList).map (·.1)).map joined.get? := by rw [hkeys]
      _ = ((handles.zip other.toList).map (·.2)).map some := by
          rw [List.map_map, List.map_map]
          exact List.map_congr_left fun e he => hget (List.mem_append_left _ he)
      _ = other.toList.map some := by rw [hvalues]
  case kept =>
    intro h hlive
    obtain ⟨value, hv⟩ := contains_iff.1 hlive
    rw [hv]
    exact hget (List.mem_append_right _ ((hlrep.get?_eq_some_iff h value).1 hv))
  case order =>
    -- the test for handles of `l` drops what stands around its entries, and keeps these
    have hnew : ∀ e ∈ before ++ after, ¬l.contains e.1 := fun e he =>
      hfresh e.1 (hkeys ▸ hmoved ▸ List.mem_map_of_mem (f := (·.1)) he)
    have hold : ∀ e ∈ l.entries, l.contains e.1 := fun e he =>
      (hlrep.contains_iff_mem e.1).2 (List.mem_map_of_mem (f := (·.1)) he)
    have hbefore : before.filter (l.contains ·.1) = [] :=
      List.filter_eq_nil_iff.2 fun e he => hnew e (List.mem_append_left _ he)
    have hafter : after.filter (l.contains ·.1) = [] :=
      List.filter_eq_nil_iff.2 fun e he => hnew e (List.mem_append_right _ he)
    rw [hentries, List.filter_append, List.filter_append, hbefore, hafter,
      List.filter_eq_self.2 hold, List.nil_append, List.append_nil]

/-- Joining two lists loses nothing, whatever they went through before. The loop ends after as many
rounds as there are values to move; the values stand behind those of the other list, or before
them, in their order; and the handles given are those of the moved values, front to back, which the
list issues as its supply says: vacant ones first, the one vacated last before all others. No other
handle changes its value or its place, nothing is left of the emptied list, and from then on both
lists act as their sequences do. -/
theorem append_and_prepend_move_all (hl : l.Reachable) (ho : other.Reachable) :
    (let (handles, joined, rest) := l.append other
     Drains popFront pushBack other.size l other (handles, joined, rest) ∧
       handles = l.nodes.supply.upcoming other.size ∧
       joined.toList = l.toList ++ other.toList ∧
       joined.entries = l.entries ++ handles.zip other.toList ∧
       handles = (joined.entries.map (·.1)).drop l.size ∧
       Moved l other handles joined rest) ∧
    (let (handles, joined, rest) := l.prepend other
     Drains popBack pushFront other.size l other (handles.reverse, joined, rest) ∧
       handles = (l.nodes.supply.upcoming other.size).reverse ∧
       joined.toList = other.toList ++ l.toList ∧
       joined.entries = handles.zip other.toList ++ l.entries ∧
       handles = (joined.entries.map (·.1)).take other.size ∧
       Moved l other handles joined rest) := by
  have hm := hl.shows
  have hm' := ho.shows
  have hsize : l.size = (l.entries.map (·.1)).length := by rw [List.length_map]; exact hm.1.size_eq
  have hcount : other.toList.length = other.size := hm'.1.length_toList
  constructor
  · obtain ⟨joined, rest, heq, hdrains, hjoined, hrest⟩ := hm.append hm'
    rw [heq]
    generalize hhandles : l.sequence.supply.upcoming other.size = handles at hdrains ⊢
    have hlength : handles.length = other.toList.length := by
      rw [← hhandles, HandleSupply.length_upcoming, hcount]
    have hentries : joined.entries = l.entries ++ handles.zip other.toList := by
      rw [hjoined.1.entries_eq, HandleSequence.pushAllBack, hcount, hhandles]
      rfl
    refine ⟨hdrains, hhandles.symm, ?_, hentries, ?_,
      moved_of_entries [] _ hm hm' hjoined hrest rfl hlength hentries rfl⟩
    · rw [toList, hentries, List.map_append, List.map_snd_zip (Nat.le_of_eq hlength.symm)]
      rfl
    · rw [hentries, List.map_append, List.map_fst_zip (Nat.le_of_eq hlength), hsize,
        List.drop_left]
  · obtain ⟨joined, rest, heq, hdrains, hjoined, hrest⟩ := hm.prepend hm'
    rw [heq]
    generalize hhandles : (l.sequence.supply.upcoming other.size).reverse = handles
    -- the values come off the back, so the first handle issued is that of the last value
    have hissued : l.sequence.supply.upcoming other.size = handles.reverse := by
      rw [← hhandles, List.reverse_reverse]
    have hlength : handles.length = other.toList.length := by
      rw [← hhandles, List.length_reverse, HandleSupply.length_upcoming, hcount]
    have hentries : joined.entries = handles.zip other.toList ++ l.entries := by
      rw [hjoined.1.entries_eq, HandleSequence.pushAllFront, hcount, hhandles]
      rfl
    rw [hissued] at hdrains
    refine ⟨hdrains, hhandles.symm, ?_, hentries, ?_,
      moved_of_entries _ [] hm hm' hjoined hrest rfl hlength
        (by rw [hentries, List.append_nil]) (List.append_nil _)⟩
    · rw [toList, hentries, List.map_append, List.map_snd_zip (Nat.le_of_eq hlength.symm)]
      rfl
    · rw [hentries, List.map_append, List.map_fst_zip (Nat.le_of_eq hlength), ← hcount, ← hlength,
        List.take_left]

/-- Two lists in which handles were vacated: the values get a vacated handle and a new one. -/
theorem append_and_prepend_move_all_of_recycled :
    let l := (runSteps LinkedList.step (withCapacity 0)
      [.pushBack 1, .pushBack 2, .pushBack 3, .remove 1]).2
    let other := (runSteps LinkedList.step (withCapacity 0)
      [.pushBack 10, .pushFront 20, .pushBack 30, .remove 0]).2
    l.Reachable ∧ other.Reachable ∧
      (l.append other).1 = [1, 3] ∧ (l.append other).2.1.toList = [1, 3, 20, 30] ∧
      (l.prepend other).1 = [3, 1] ∧ (l.prepend other).2.1.toList = [20, 30, 1, 3] := by
  intro l other
  have hl : l.Reachable := (Reachable.withCapacity 0).runSteps _
  have ho : other.Reachable := (Reachable.withCapacity 0).runSteps _
  have hvalues : l.toList = [1, 3] := rfl
  have hmoved : other.toList = [20, 30] := rfl
  have hsupply : l.nodes.supply.upcoming other.size = [1, 3] := rfl
  -- from here on the two lists need not be computed again
  clear_value l other
  obtain ⟨⟨-, hissued, hbehind, -⟩, -, hissued', hbefore, -⟩ := append_and_prepend_move_all hl ho
  rw [hvalues, hmoved] at hbehind hbefore
  rw [hsupply] at hissued hissued'
  exact ⟨hl, ho, hissued, hbehind, hissued', hbefore⟩

end LinkedList

end ReadThrough
