import Mathlib.Data.Finmap
import ReadThrough.Proofs.HandleSequence

/-!
# Arenas against finite maps

A `HandleMap` is a finite map that issues the handles of its bindings. It keeps no stack: it only
remembers in which order handles were vacated, and issues again the one vacated last among those
that are not bound, or a new one if there is none. An `Arena` answers any operations as the map does
(`run_eq_handleMap_run`), its stack is what can be read off the map's memory, and a bound handle
names its value until the value is taken out.
-/

namespace ReadThrough

/-! ## Operations -/

/-- An operation on values under handles. -/
inductive ArenaOp (α : Type) where
  | insert (value : α)
  | remove (h : Handle)
  /-- Gives the value of a handle and changes it in place. -/
  | modify (h : Handle) (f : α → α)
  | clear

/-- What an operation gives. -/
inductive ArenaAnswer (α : Type) where
  | handle (h : Handle)
  | value (found : Option α)
  | unit
deriving Repr, DecidableEq

namespace ArenaOp

variable {α : Type}

/-- The operation neither takes out the value of the handle nor clears the arena. -/
def Spares (h : Handle) : ArenaOp α → Prop
  | .remove k => k ≠ h
  | .clear => False
  | .insert _ | .modify _ _ => True

/-- What the operation makes of the value of a handle that it spares. -/
def onValue (h : Handle) : ArenaOp α → α → α
  | .modify k f, value => if k = h then f value else value
  | .insert _, value | .remove _, value | .clear, value => value

end ArenaOp

/-! ## The map -/

/-- A finite map from handles to values that issues the handles. -/
structure HandleMap (α : Type) where
  bindings : Finmap fun _ : Handle => α := ∅
  /-- The handles that were vacated, the last one first; a handle may be vacated many times. -/
  vacated : List Handle := []
  /-- The number of different handles issued so far. -/
  issued : Nat := 0

namespace HandleMap

variable {α : Type}

/-- The handles that were vacated and are not bound again, the one vacated last first. -/
def vacant (m : HandleMap α) : List Handle := (m.vacated.filter (· ∉ m.bindings)).eraseDups

/-- The handle that is issued next. -/
def next (m : HandleMap α) : Handle := m.vacant.head?.getD m.issued

/-- What an operation gives and makes of the map. -/
def step (m : HandleMap α) : ArenaOp α → ArenaAnswer α × HandleMap α
  | .insert value =>
    (.handle m.next, { m with
      bindings := m.bindings.insert m.next value
      issued := if m.vacant = [] then m.issued + 1 else m.issued })
  | .remove h =>
    (.value (m.bindings.lookup h),
      if h ∈ m.bindings then
        { m with bindings := m.bindings.erase h, vacated := h :: m.vacated }
      else m)
  | .modify h f =>
    (.value (m.bindings.lookup h),
      match m.bindings.lookup h with
      | some value => { m with bindings := m.bindings.insert h (f value) }
      | none => m)
  | .clear => (.unit, {})

/-! ### Bindings after a step -/

variable (s : Finmap fun _ : Handle => α) (h k : Handle)

theorem lookup_insert_eq (value : α) :
    (s.insert h value).lookup k = if h = k then some value else s.lookup k := by
  split
  · rename_i hk
    rw [← hk, Finmap.lookup_insert]
  · rename_i hk
    exact Finmap.lookup_insert_of_ne s (Ne.symm hk)

theorem lookup_erase_eq : (s.erase h).lookup k = if h = k then none else s.lookup k := by
  split
  · rename_i hk
    rw [← hk, Finmap.lookup_erase]
  · rename_i hk
    exact Finmap.lookup_erase_ne (Ne.symm hk)

variable (m : HandleMap α)

theorem lookup_remove :
    (m.step (.remove h)).2.bindings.lookup k = if h = k then none else m.bindings.lookup k := by
  by_cases hmem : h ∈ m.bindings
  · simp only [step, hmem, if_true, lookup_erase_eq]
  · simp only [step, hmem, if_false]
    split
    · rename_i hk
      exact hk ▸ Finmap.lookup_eq_none.2 hmem
    · rfl

theorem lookup_modify (f : α → α) :
    (m.step (.modify h f)).2.bindings.lookup k
      = if h = k then (m.bindings.lookup k).map f else m.bindings.lookup k := by
  rcases hlookup : m.bindings.lookup h with _ | value
  · simp only [step, hlookup]
    split
    · rename_i hk
      rw [← hk, hlookup]
      rfl
    · rfl
  · simp only [step, hlookup, lookup_insert_eq]
    split
    · rename_i hk
      rw [← hk, hlookup]
      rfl
    · rfl

/-! ### The supply of handles -/

/-- The handles that the map issues next. -/
def supply : HandleSupply := ⟨m.vacant, m.issued⟩

theorem next_supply : m.supply.next = m.next := rfl

/-- Binding a handle takes it off the vacant ones. -/
theorem filter_notMem_insert (value : α) (l : List Handle) :
    l.filter (· ∉ s.insert h value) = (l.filter (· ∉ s)).filter (!· == h) := by
  rw [List.filter_filter]
  refine List.filter_congr fun k _ => ?_
  simp [Finmap.mem_insert, beq_eq_decide]

theorem supply_insert (value : α) : (m.step (.insert value)).2.supply = m.supply.issue := by
  have hstep : (m.step (.insert value)).2.vacant
      = ((m.vacated.filter (· ∉ m.bindings)).filter (!· == m.next)).eraseDups :=
    congrArg _ (filter_notMem_insert m.bindings m.next value m.vacated)
  rw [supply, hstep]
  rcases hfree : m.vacated.filter (· ∉ m.bindings) with _ | ⟨h, rest⟩
  · -- no handle is vacant: a new one is issued
    have hvacant : m.vacant = [] := by rw [vacant, hfree, List.eraseDups_nil]
    simp only [step, supply, HandleSupply.issue, hvacant, if_true, List.filter_nil,
      List.eraseDups_nil]
  · -- the handle vacated last is issued, and its earlier vacations are forgotten with it
    have hvacant : m.vacant = h :: (rest.filter (!· == h)).eraseDups := by
      rw [vacant, hfree, List.eraseDups_cons]
    have hnext : m.next = h := by rw [next, hvacant]; rfl
    simp only [step, supply, HandleSupply.issue, hvacant, hnext, reduceCtorEq, if_false]
    rw [List.filter_cons_of_neg (by simp)]

/-- Vacating a handle puts it before all other vacant ones. -/
theorem supply_remove :
    (m.step (.remove h)).2.supply = if h ∈ m.bindings then m.supply.vacate h else m.supply := by
  by_cases hmem : h ∈ m.bindings
  · -- apart from the handle itself, vacant are those that were vacant before
    have hfilter : (m.vacated.filter (· ∉ m.bindings.erase h)).filter (!· == h)
        = m.vacated.filter (· ∉ m.bindings) := by
      rw [List.filter_filter]
      refine List.filter_congr fun k _ => ?_
      by_cases hk : k = h
      · simp [hk, hmem]
      · simp [hk, Finmap.mem_erase]
    simp only [supply, step, hmem, if_true, HandleSupply.vacate, vacant]
    rw [List.filter_cons_of_pos (by simp [Finmap.mem_erase]), List.eraseDups_cons, hfilter]
  · simp only [step, hmem, if_false]

theorem supply_modify (f : α → α) : (m.step (.modify h f)).2.supply = m.supply := by
  rcases hlookup : m.bindings.lookup h with _ | value
  · simp only [step, hlookup]
  · have hmem : h ∈ m.bindings := Finmap.mem_of_lookup_eq_some hlookup
    have hfilter : (m.vacated.filter (· ∉ m.bindings)).filter (!· == h)
        = m.vacated.filter (· ∉ m.bindings) := by
      refine List.filter_eq_self.2 fun k hk => ?_
      have hnot : k ∉ m.bindings := by simpa using (List.mem_filter.1 hk).2
      simpa using fun heq : k = h => hnot (heq ▸ hmem)
    simp only [supply, step, hlookup, vacant, filter_notMem_insert, hfilter]

end HandleMap

/-! ## The arena -/

namespace Arena

variable {α : Type}

/-- What an operation gives and makes of the arena. -/
def step (a : Arena α) : ArenaOp α → ArenaAnswer α × Arena α
  | .insert value => let (h, a) := a.insert value; (.handle h, a)
  | .remove h => let (value, a) := a.remove h; (.value value, a)
  | .modify h f => (.value (a.get? h), a.modify h f)
  | .clear => (.unit, a.clear)

/-- Removing a handle that is not live changes nothing. -/
theorem remove_of_not_contains {a : Arena α} {h : Handle} (hh : ¬a.contains h) :
    a.remove h = (none, a) := by
  have hnone : a.get? h = none := by simpa [contains] using hh
  simp [remove, hnone]

/-! ### The arena and the map -/

/-- The arena is in good order, has the bindings of the map and issues the handles that it does. -/
structure Shows (a : Arena α) (m : HandleMap α) : Prop where
  valid : a.Valid
  get?_eq : ∀ h, a.get? h = m.bindings.lookup h
  supply_eq : a.supply = m.supply

variable {a : Arena α} {m : HandleMap α}

theorem Shows.contains_iff (ha : a.Shows m) (h : Handle) : a.contains h ↔ h ∈ m.bindings := by
  rw [Arena.contains, ha.get?_eq, Finmap.lookup_isSome]

theorem Shows.insert_fst (ha : a.Shows m) (value : α) : (a.insert value).1 = m.next := by
  rw [Arena.insert_fst, ha.supply_eq, HandleMap.next_supply]

/-- The handle that is issued next is not bound. -/
theorem Shows.next_notMem (ha : a.Shows m) (value : α) : m.next ∉ m.bindings := by
  rw [← Finmap.lookup_eq_none, ← ha.get?_eq, ← ha.insert_fst value]
  exact ha.valid.get?_insert_fst value

/-- An operation gives what it gives on the map, and makes of the arena what it makes of the map. -/
theorem Shows.step (ha : a.Shows m) (op : ArenaOp α) :
    (a.step op).1 = (m.step op).1 ∧ (a.step op).2.Shows (m.step op).2 := by
  cases op with
  | insert value =>
    have hfst := ha.insert_fst value
    refine ⟨congrArg _ hfst, ha.valid.insert value, fun h => ?_, ?_⟩
    · show (a.insert value).2.get? h = (m.bindings.insert m.next value).lookup h
      rw [ha.valid.get?_insert, hfst, HandleMap.lookup_insert_eq, ha.get?_eq]
    · rw [HandleMap.supply_insert, ← ha.supply_eq]
      exact supply_insert a value
  | remove h =>
    refine ⟨congrArg _ ((remove_fst a h).trans (ha.get?_eq h)), ha.valid.remove h, fun k => ?_, ?_⟩
    · refine (get?_remove a h k).trans ?_
      rw [HandleMap.lookup_remove, ha.get?_eq]
    · refine (supply_remove a h).trans ?_
      rw [HandleMap.supply_remove, ha.supply_eq]
      simp only [ha.contains_iff]
  | modify h f =>
    refine ⟨congrArg _ (ha.get?_eq h), ha.valid.modify h f, fun k => ?_, ?_⟩
    · refine (get?_modify a h k f).trans ?_
      rw [HandleMap.lookup_modify, ha.get?_eq]
    · rw [HandleMap.supply_modify, ← ha.supply_eq]
      exact supply_modify a h f
  | clear => exact ⟨rfl, valid_clear a, fun h => get?_clear a h, rfl⟩

/-! ### What can be looked up -/

/-- The entries are the live handles with their values. -/
theorem mem_entries {h : Handle} {value : α} : (h, value) ∈ a.entries ↔ a.get? h = some value := by
  simp only [entries, List.mem_filterMap, Prod.exists, List.mem_zipIdx_iff_getElem?,
    Array.getElem?_toList, Option.map_eq_some_iff, Prod.mk.injEq, get?, Option.join_eq_some_iff]
  constructor
  · rintro ⟨cell, k, hcell, v, rfl, rfl, rfl⟩
    exact hcell
  · intro hcell
    exact ⟨some value, h, hcell, value, rfl, rfl, rfl⟩

/-- The entries are in the order of their handles. -/
theorem pairwise_entries (a : Arena α) : (a.entries.map (·.1)).Pairwise (· < ·) := by
  have hcells : a.cells.toList.zipIdx.Pairwise (·.2 < ·.2) := by
    rw [← List.pairwise_map, List.zipIdx_map_snd]
    exact List.pairwise_lt_range' 1
  rw [List.pairwise_map, entries]
  refine hcells.filterMap _ fun x y hxy e he e' he' => ?_
  obtain ⟨_, -, rfl⟩ := Option.map_eq_some_iff.1 he
  obtain ⟨_, -, rfl⟩ := Option.map_eq_some_iff.1 he'
  exact hxy

theorem Shows.size_eq (ha : a.Shows m) : a.size = m.bindings.keys.card := by
  rw [← Finset.length_toList]
  refine ha.valid.size_eq_length (Finset.nodup_toList _) fun h => ?_
  rw [Finset.mem_toList, Finmap.mem_keys, ← ha.contains_iff, Arena.contains_iff]

/-- All that can be looked up in the arena is what it is in the map. -/
structure Exhibits (a : Arena α) (m : HandleMap α) : Prop where
  get? : ∀ h, a.get? h = m.bindings.lookup h
  contains : ∀ h, a.contains h ↔ h ∈ m.bindings
  size : a.size = m.bindings.keys.card
  isEmpty : a.isEmpty ↔ m.bindings = ∅
  issued : a.cells.size = m.issued
  /-- The vacant handles are those below the number of cells that are not bound, each once. -/
  vacant_nodup : a.vacant.Nodup
  mem_vacant : ∀ h, h ∈ a.vacant ↔ h < a.cells.size ∧ h ∉ m.bindings
  vacant : a.vacant = m.vacant
  /-- The entries are the bindings, by ascending handle. -/
  mem_entries : ∀ h value, (h, value) ∈ a.entries ↔ m.bindings.lookup h = some value
  ascending : (a.entries.map (·.1)).Pairwise (· < ·)

theorem Shows.exhibits (ha : a.Shows m) : a.Exhibits m where
  get? := ha.get?_eq
  contains := ha.contains_iff
  size := ha.size_eq
  isEmpty := by
    rw [Arena.isEmpty, ha.size_eq, beq_iff_eq, Finset.card_eq_zero]
    constructor
    · intro hkeys
      refine Finmap.ext_lookup fun h => ?_
      rw [Finmap.lookup_empty, Finmap.lookup_eq_none, ← Finmap.mem_keys, hkeys]
      exact Finset.notMem_empty h
    · intro hbindings
      rw [hbindings, Finmap.keys_empty]
  issued := congrArg HandleSupply.issued ha.supply_eq
  vacant_nodup := ha.valid.vacant_nodup
  mem_vacant h := by rw [ha.valid.mem_vacant, ha.get?_eq, Finmap.lookup_eq_none]
  vacant := congrArg HandleSupply.vacant ha.supply_eq
  mem_entries h value := by rw [Arena.mem_entries, ha.get?_eq]
  ascending := pairwise_entries a

/-! ### Live handles -/

/-- An operation that spares a live handle keeps it, and changes its value as it does in place. -/
theorem Valid.get?_step (ha : a.Valid) {h : Handle} {value : α} (hv : a.get? h = some value)
    {op : ArenaOp α} (hop : op.Spares h) : (a.step op).2.get? h = some (op.onValue h value) := by
  cases op with
  | insert w =>
    have hother : (a.insert w).1 ≠ h := by
      rintro rfl
      rw [ha.get?_insert_fst] at hv
      exact absurd hv (by simp)
    show (a.insert w).2.get? h = some value
    rw [ha.get?_insert, if_neg hother, hv]
  | remove k =>
    show (a.remove k).2.get? h = some value
    rw [get?_remove, if_neg hop, hv]
  | modify k f =>
    show (a.modify k f).get? h = some (if k = h then f value else value)
    rw [get?_modify, hv]
    split <;> rfl
  | clear => exact absurd hop id

theorem Valid.step (ha : a.Valid) (op : ArenaOp α) : (a.step op).2.Valid := by
  cases op with
  | insert value => exact ha.insert value
  | remove h => exact ha.remove h
  | modify h f => exact ha.modify h f
  | clear => exact valid_clear a

/-- A live handle keeps naming its value over any operations that spare it. -/
theorem Valid.get?_runSteps (ha : a.Valid) {h : Handle} {value : α} (hv : a.get? h = some value)
    {ops : List (ArenaOp α)} (hops : ∀ op ∈ ops, op.Spares h) :
    (runSteps Arena.step a ops).2.get? h
      = some (ops.foldl (fun value op => op.onValue h value) value) := by
  induction ops generalizing a value with
  | nil => exact hv
  | cons op ops ih =>
    obtain ⟨hop, hops⟩ := List.forall_mem_cons.1 hops
    exact ih (ha.step op) (ha.get?_step hv hop) hops

/-- Whatever operations an arena goes through, with live handles or others, each gives what it gives
on the map. In the end all that can be looked up is as in the map. A next insertion issues the
handle vacated last, or a new one if none is vacant; the handle is not live, and no other binding
changes. A next removal or change of a live handle concerns that handle only, and one of any other
handle is refused and leaves the arena as it is. So a live handle keeps naming its value, whatever
comes next, until the value is removed or the arena cleared. -/
theorem run_eq_handleMap_run (capacity : Nat) (ops : List (ArenaOp α)) :
    let program := runSteps Arena.step (withCapacity capacity) ops
    let model := runSteps HandleMap.step {} ops
    let a := program.2
    let m := model.2
    program.1 = model.1 ∧ a.Exhibits m ∧
      (∀ value, (a.insert value).1 = m.vacant.head?.getD a.cells.size ∧
        ¬a.contains (a.insert value).1 ∧
        ∀ k, (a.insert value).2.get? k = if (a.insert value).1 = k then some value else a.get? k) ∧
      (∀ h, (a.remove h).1 = a.get? h ∧ (¬a.contains h → a.remove h = (none, a)) ∧
        ∀ k, (a.remove h).2.get? k = if h = k then none else a.get? k) ∧
      (∀ h f, (¬a.contains h → a.modify h f = a) ∧
        ∀ k, (a.modify h f).get? k = if h = k then (a.get? k).map f else a.get? k) ∧
      ∀ h value later, a.get? h = some value → (∀ op ∈ later, op.Spares h) →
        (runSteps Arena.step a later).2.get? h
          = some (later.foldl (fun value op => op.onValue h value) value) := by
  intro program model a m
  have hempty : (withCapacity capacity : Arena α).Shows {} :=
    ⟨valid_withCapacity capacity, fun h => by simp [withCapacity, Arena.get?], rfl⟩
  obtain ⟨hanswers, hshows⟩ :=
    runSteps_related (R := Shows) (fun _ _ op h => h.step op) ops hempty
  refine ⟨hanswers, hshows.exhibits, fun value => ⟨?_, ?_, hshows.valid.get?_insert value⟩,
    fun h => ⟨remove_fst a h, remove_of_not_contains, get?_remove a h⟩,
    fun h f => ⟨fun hh => modify_of_not_contains hh f, fun k => get?_modify a h k f⟩,
    fun h value later hv hlater => hshows.valid.get?_runSteps hv hlater⟩
  · rw [hshows.insert_fst, hshows.exhibits.issued]
    rfl
  · rw [hshows.insert_fst, hshows.contains_iff]
    exact hshows.next_notMem value

end Arena

end ReadThrough
