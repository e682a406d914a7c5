import ReadThrough.Eviction.Lru
import ReadThrough.Proofs.LinkedList

/-!
# Recency order

`Lru.Indexed` ties the two halves of an `Lru` together: the list holds the entries in order of use,
every key once, and the hash map leads from each key to the handle of its entry and from no other
key anywhere. Through `Lru.entries` the operations are then those on a list of bindings, the most
recently used one first: a binding that is made or found goes to the front, and the last one is
given up.
-/

namespace ReadThrough.Lru

variable {κ ν : Type} [DecidableEq κ] [Hashable κ]

/-- The list consists of the given entries, and the map gives the handle of each key's entry. -/
structure Indexed (l : Lru κ ν) (es : List (Handle × κ × ν)) : Prop where
  order : l.order.Represents es
  distinct : DistinctKeys (es.map (·.2))
  handles : ∀ key h, l.handles[key]? = some h ↔ ∃ value, (h, key, value) ∈ es

/-- The map and the list agree. -/
def Valid (l : Lru κ ν) : Prop := l.Indexed l.order.entries

namespace Indexed

variable {l : Lru κ ν} {es : List (Handle × κ × ν)} {h : Handle} {key : κ} {value : ν}

theorem valid (hl : l.Indexed es) : l.Valid := by
  rw [Valid, hl.order.entries_eq]
  exact hl

theorem entries_eq (hl : l.Indexed es) : l.entries = es.map (·.2) := hl.order.toList_eq

/-- The map has as many keys as the list has entries. -/
theorem size_handles (hl : l.Indexed es) : l.handles.size = es.length := by
  have hkeys : l.handles.keys.Perm ((es.map (·.2)).map (·.1)) := by
    rw [List.perm_ext_iff_of_nodup Std.HashMap.nodup_keys hl.distinct]
    intro key
    rw [Std.HashMap.mem_keys, Std.HashMap.mem_iff_isSome_getElem?, Option.isSome_iff_exists]
    simp [hl.handles]
  rw [← Std.HashMap.length_keys, hkeys.length_eq, List.length_map, List.length_map]

theorem empty : (Lru.empty : Lru κ ν).Indexed [] :=
  ⟨.empty, List.nodup_nil, by simp [Lru.empty]⟩

/-- Taking an entry out by its handle takes the binding out by its key. -/
theorem map_filter (hl : l.Indexed es) (hmem : (h, key, value) ∈ es) :
    (es.filter (·.1 ≠ h)).map (·.2) = (es.map (·.2)).filter (·.1 ≠ key) := by
  obtain ⟨before, after, rfl⟩ := List.append_of_mem hmem
  have hdistinct := hl.distinct
  rw [List.map_append, List.map_cons] at hdistinct ⊢
  rw [hl.order.distinct.filter_ne_append, hdistinct.filter_ne_append, List.map_append]

/-- Other keys have other handles. -/
theorem handle_ne (hl : l.Indexed es) {k : Handle} {other : κ} {w : ν} (hmem : (h, key, value) ∈ es)
    (hother : (k, other, w) ∈ es) (hne : key ≠ other) : h ≠ k := by
  rintro rfl
  exact hne (Prod.mk.inj (hl.order.distinct.value_unique hmem hother)).1

/-- A bound key has an entry, under the handle that the map gives. -/
theorem exists_entry (hl : l.Indexed es) (hmem : (key, value) ∈ l.entries) :
    ∃ h, (h, key, value) ∈ es ∧ l.handles[key]? = some h := by
  rw [hl.entries_eq, List.mem_map] at hmem
  obtain ⟨⟨h, _⟩, hes, rfl⟩ := hmem
  exact ⟨h, hes, (hl.handles key h).2 ⟨value, hes⟩⟩

theorem handles_eq_none (hl : l.Indexed es) (hkey : ∀ v, (key, v) ∉ l.entries) :
    l.handles[key]? = none := by
  rcases hh : l.handles[key]? with _ | h
  · rfl
  · obtain ⟨v, hes⟩ := (hl.handles key h).1 hh
    exact absurd (hl.entries_eq ▸ List.mem_map_of_mem (f := (·.2)) hes) (hkey v)

/-- A new entry at the front binds a key that was not bound. -/
theorem bind_front (hl : l.Indexed es) (key : κ) (value : ν) (hkey : ∀ v, (key, v) ∉ l.entries) :
    let pushed := l.order.pushFront (key, value)
    Indexed ⟨l.handles.insert key pushed.1, pushed.2⟩ ((pushed.1, key, value) :: es) := by
  intro pushed
  have hfresh : pushed.1 ∉ es.map (·.1) := hl.order.not_mem_pushFront (key, value)
  rw [hl.entries_eq] at hkey
  refine ⟨hl.order.pushFront (key, value), List.nodup_cons.2 ⟨fun hmem => ?_, hl.distinct⟩,
    fun k h => ?_⟩
  · obtain ⟨⟨_, v⟩, hv, rfl⟩ := List.mem_map.1 hmem
    exact hkey v hv
  · rw [Std.HashMap.getElem?_insert]
    by_cases hk : key = k
    · subst hk
      have hnot (v : ν) : (h, key, v) ∉ es := fun hv =>
        hkey v (List.mem_map_of_mem (f := (·.2)) hv)
      simp [hnot, eq_comm]
    · simp [hk, Ne.symm hk, hl.handles k h]

/-- Without an entry its key is unbound and all other keys keep their handles. -/
theorem erase (hl : l.Indexed es) (hmem : (h, key, value) ∈ es) {order : LinkedList (κ × ν)}
    (horder : order.Represents (es.filter (·.1 ≠ h))) :
    Indexed ⟨l.handles.erase key, order⟩ (es.filter (·.1 ≠ h)) := by
  refine ⟨horder, ?_, fun k k' => ?_⟩
  · rw [hl.map_filter hmem]
    exact hl.distinct.filter _
  · rw [Std.HashMap.getElem?_erase]
    by_cases hk : key = k
    · subst hk
      have hnone (v : ν) : (k', key, v) ∉ es.filter (·.1 ≠ h) := fun hv => by
        have hv' := List.mem_map_of_mem (f := (·.2)) hv
        rw [hl.map_filter hmem] at hv'
        simp at hv'
      simp only [beq_self_eq_true, if_true, hnone, exists_false, reduceCtorEq]
    · simp only [beq_eq_false_iff_ne.2 hk, Bool.false_eq_true, if_false, hl.handles k k',
        List.mem_filter]
      refine exists_congr fun v => (and_iff_left_of_imp fun hv => ?_).symm
      exact decide_eq_true (hl.handle_ne hmem hv hk).symm

end Indexed

/-! ## The operations on bindings -/

variable {l : Lru κ ν} {key : κ} {value : ν}

theorem valid_empty : (empty : Lru κ ν).Valid := Indexed.empty.valid

@[simp] theorem entries_empty : (empty : Lru κ ν).entries = [] := Indexed.empty.entries_eq

theorem Valid.distinctKeys (hl : l.Valid) : DistinctKeys l.entries := Indexed.distinct hl

theorem Valid.size_eq (hl : l.Valid) : l.size = l.entries.length := by
  rw [size, (Indexed.order hl).size_eq, hl.entries_eq, List.length_map]

/-- Deleting a bound key gives its value and removes its binding. -/
theorem Valid.delete_of_mem (hl : l.Valid) (hmem : (key, value) ∈ l.entries) :
    (l.delete key).1 = some value ∧ (l.delete key).2.Valid ∧
      (l.delete key).2.entries = l.entries.filter (·.1 ≠ key) := by
  obtain ⟨h, hes, hh⟩ := Indexed.exists_entry hl hmem
  have hget : l.order.get? h = some (key, value) := (hl.order.get?_eq_some_iff _ _).2 hes
  have herased := Indexed.erase hl hes (hl.order.remove h)
  simp only [delete, hh, LinkedList.remove_fst, hget, Option.map_some, true_and]
  refine ⟨herased.valid, ?_⟩
  rw [herased.entries_eq, hl.map_filter hes, hl.entries_eq]

/-- Deleting a key that is not bound changes nothing. -/
theorem Valid.delete_of_not_mem (hl : l.Valid) (hkey : ∀ v, (key, v) ∉ l.entries) :
    l.delete key = (none, l) := by
  simp only [delete, Indexed.handles_eq_none hl hkey]

/-- Deletion removes the binding of its key and nothing else. -/
theorem Valid.delete (hl : l.Valid) (key : κ) :
    (l.delete key).2.Valid ∧ (l.delete key).2.entries = l.entries.filter (·.1 ≠ key) := by
  by_cases hkey : ∃ value, (key, value) ∈ l.entries
  · obtain ⟨value, hmem⟩ := hkey
    exact (hl.delete_of_mem hmem).2
  · rw [not_exists] at hkey
    rw [hl.delete_of_not_mem hkey, DistinctKeys.filter_ne_of_not_mem hkey]
    exact ⟨hl, rfl⟩

theorem Valid.delete_eq_some_iff (hl : l.Valid) :
    (l.delete key).1 = some value ↔ (key, value) ∈ l.entries :=
  DistinctKeys.eq_some_iff_mem (fun _ hmem => (hl.delete_of_mem hmem).1)
    fun hkey => by rw [hl.delete_of_not_mem hkey]

/-- Insertion gives what deletion would and puts the new binding first. -/
theorem Valid.insert (hl : l.Valid) (key : κ) (value : ν) :
    (l.insert key value).1 = (l.delete key).1 ∧ (l.insert key value).2.Valid ∧
      (l.insert key value).2.entries = (key, value) :: l.entries.filter (·.1 ≠ key) := by
  obtain ⟨hvalid, hentries⟩ := hl.delete key
  have hbound := Indexed.bind_front hvalid key value (by simp [hentries])
  refine ⟨rfl, hbound.valid, ?_⟩
  rw [← hentries, hvalid.entries_eq]
  exact hbound.entries_eq

/-- Finding a bound key gives its value and moves its binding to the front. -/
theorem Valid.lookup_of_mem (hl : l.Valid) (hmem : (key, value) ∈ l.entries) :
    (l.lookup key).1 = some value ∧ (l.lookup key).2.Valid ∧
      (l.lookup key).2.entries = (key, value) :: l.entries.filter (·.1 ≠ key) := by
  obtain ⟨h, hes, hh⟩ := Indexed.exists_entry hl hmem
  obtain ⟨-, horder⟩ := hl.order.moveToFront hes
  have hget : (l.order.moveToFront h).2.get? h = some (key, value) :=
    (horder.get?_eq_some_iff _ _).2 (by simp)
  have hperm := hl.order.distinct.perm_cons_filter hes
  have hmoved : Indexed { l with order := (l.order.moveToFront h).2 }
      ((h, key, value) :: l.order.entries.filter (·.1 ≠ h)) :=
    ⟨horder, hl.distinct.perm (hperm.map _), fun k k' => (hl.handles k k').trans
      (exists_congr fun _ => hperm.mem_iff)⟩
  simp only [lookup, hh, hget, Option.map_some, true_and]
  refine ⟨hmoved.valid, ?_⟩
  rw [hmoved.entries_eq, List.map_cons, hl.map_filter hes, hl.entries_eq]

/-- Finding the key that was used last changes nothing. -/
theorem Valid.lookup_of_head (hl : l.Valid) {rest : List (κ × ν)}
    (hentries : l.entries = (key, value) :: rest) : l.lookup key = (some value, l) := by
  have hmapped : l.order.entries.map (·.2) = (key, value) :: rest := hentries
  obtain ⟨⟨h, entry⟩, tail, heq, hentry, -⟩ := List.map_eq_cons_iff.1 hmapped
  obtain rfl : entry = (key, value) := hentry
  have hmem : (h, key, value) ∈ l.order.entries := heq ▸ List.mem_cons_self
  have hget : l.order.get? h = some (key, value) := (hl.order.get?_eq_some_iff _ _).2 hmem
  have hlive : l.order.contains h = true := LinkedList.contains_iff.2 ⟨_, hget⟩
  have hhead : l.order.head = some h := by
    rw [hl.order.linked.head, heq]
    rfl
  have hmove : l.order.moveToFront h = (true, l.order) := by
    simp [LinkedList.moveToFront, hlive, hhead]
  rw [Lru.lookup, (hl.handles key h).2 ⟨value, hmem⟩]
  simp only [hmove, hget, Option.map_some]

/-- Looking for a key that is not bound finds nothing and changes nothing. -/
theorem Valid.lookup_of_not_mem (hl : l.Valid) (hkey : ∀ v, (key, v) ∉ l.entries) :
    l.lookup key = (none, l) := by
  simp only [lookup, Indexed.handles_eq_none hl hkey]

/-- Lookup keeps all bindings. -/
theorem Valid.lookup (hl : l.Valid) (key : κ) :
    (l.lookup key).2.Valid ∧ (l.lookup key).2.entries.Perm l.entries := by
  by_cases hkey : ∃ value, (key, value) ∈ l.entries
  · obtain ⟨value, hmem⟩ := hkey
    obtain ⟨-, hvalid, hentries⟩ := hl.lookup_of_mem hmem
    rw [hentries]
    exact ⟨hvalid, (hl.distinctKeys.perm_cons_filter hmem).symm⟩
  · rw [hl.lookup_of_not_mem (not_exists.1 hkey)]
    exact ⟨hl, .refl _⟩

theorem Valid.lookup_eq_some_iff (hl : l.Valid) :
    (l.lookup key).1 = some value ↔ (key, value) ∈ l.entries :=
  DistinctKeys.eq_some_iff_mem (fun _ hmem => (hl.lookup_of_mem hmem).1)
    fun hkey => by rw [hl.lookup_of_not_mem hkey]

/-- The value of a key is found without moving its binding. -/
theorem Valid.peek?_eq_some_iff (hl : l.Valid) :
    l.peek? key = some value ↔ (key, value) ∈ l.entries := by
  refine DistinctKeys.eq_some_iff_mem (fun v hmem => ?_) fun hkey => ?_
  · obtain ⟨h, hes, hh⟩ := Indexed.exists_entry hl hmem
    have hget : l.order.get? h = some (key, v) := (hl.order.get?_eq_some_iff _ _).2 hes
    simp only [peek?, hh, Option.bind_some, hget, Option.map_some]
  · simp only [peek?, Indexed.handles_eq_none hl hkey, Option.bind_none]

theorem Valid.contains_eq (hl : l.Valid) (key : κ) :
    l.contains key = (l.entries.lookup key).isSome := by
  rw [contains, Std.HashMap.contains_eq_isSome_getElem?, Bool.eq_iff_iff,
    Option.isSome_iff_exists, Option.isSome_iff_exists]
  simp only [hl.distinctKeys.lookup_eq_some_iff]
  constructor
  · rintro ⟨h, hh⟩
    obtain ⟨value, hes⟩ := (hl.handles key h).1 hh
    exact ⟨value, hl.entries_eq ▸ List.mem_map_of_mem (f := (·.2)) hes⟩
  · rintro ⟨value, hmem⟩
    obtain ⟨h, -, hh⟩ := Indexed.exists_entry hl hmem
    exact ⟨h, hh⟩

theorem Valid.leastRecent?_eq (hl : l.Valid) : l.leastRecent? = l.entries.getLast? := by
  rw [leastRecent?, (Indexed.order hl).back?_eq, hl.entries_eq]

/-- Nothing is bound after all bindings have been removed. -/
theorem valid_clear (l : Lru κ ν) : l.clear.Valid ∧ l.clear.entries = [] := by
  have hcleared : l.clear.Indexed [] :=
    ⟨l.order.represents_clear, List.nodup_nil, by simp [clear]⟩
  exact ⟨hcleared.valid, hcleared.entries_eq⟩

/-- Nothing can be given up when nothing is bound. -/
theorem Valid.evict_of_nil (hl : l.Valid) (hempty : l.entries = []) : l.evict = (none, l) := by
  have hes : l.order.entries = [] := by simpa [hl.entries_eq] using hempty
  have horder := hl.order
  rw [hes] at horder
  simp [evict, horder.popBack_nil]

/-- Eviction gives up the last binding. -/
theorem Valid.evict_of_concat (hl : l.Valid) {rest : List (κ × ν)}
    (hentries : l.entries = rest ++ [(key, value)]) :
    l.evict.1 = some (key, value) ∧ l.evict.2.Valid ∧ l.evict.2.entries = rest := by
  obtain ⟨es, e, hes⟩ : ∃ es e, l.order.entries = es ++ [e] := by
    rcases List.eq_nil_or_concat l.order.entries with hnil | ⟨es, e, hes⟩
    · simp [hl.entries_eq, hnil] at hentries
    · exact ⟨es, e, by simpa using hes⟩
  rw [hl.entries_eq, hes, List.map_append] at hentries
  obtain ⟨rfl, hlast⟩ := List.append_inj' hentries rfl
  obtain ⟨h, key, value⟩ := e
  obtain ⟨rfl, rfl⟩ : key = _ ∧ value = _ := by simpa using hlast
  have hl' : l.Indexed (es ++ [(h, key, value)]) := hes ▸ hl
  obtain ⟨hpop, hrest⟩ := hl'.order.popBack_concat
  have hfilter : (es ++ [(h, key, value)]).filter (·.1 ≠ h) = es := by
    rw [hl'.order.distinct.filter_ne_append, List.append_nil]
  have hmem : (h, key, value) ∈ es ++ [(h, key, value)] := by simp
  have herased := hl'.erase hmem (hfilter.symm ▸ hrest)
  rw [hfilter] at herased
  have hevict : l.evict = (some (key, value), ⟨l.handles.erase key, l.order.popBack.2⟩) := by
    unfold evict
    split
    · rename_i hnone
      simp [hnone] at hpop
    · rename_i hsome
      obtain rfl : _ = (key, value) := by simpa [hsome] using hpop
      rw [hsome]
  rw [hevict]
  exact ⟨rfl, herased.valid, herased.entries_eq⟩

/-- Eviction takes the binding that it gives off the end of the list. -/
theorem Valid.evict (hl : l.Valid) :
    l.evict.2.Valid ∧ l.entries = l.evict.2.entries ++ l.evict.1.toList := by
  rcases List.eq_nil_or_concat l.entries with hnil | ⟨rest, ⟨key, value⟩, hconcat⟩
  · rw [hl.evict_of_nil hnil]
    exact ⟨hl, by simp⟩
  · obtain ⟨hsome, hvalid, hrest⟩ := hl.evict_of_concat (by simpa using hconcat)
    rw [hsome, hrest]
    exact ⟨hvalid, by simpa using hconcat⟩

/-- Eviction gives nothing only when there is nothing. -/
theorem Valid.entries_of_evict_eq_none (hl : l.Valid) (hnone : l.evict.1 = none) :
    l.entries = [] := by
  rcases List.eq_nil_or_concat l.entries with hnil | ⟨rest, ⟨key, value⟩, hconcat⟩
  · exact hnil
  · rw [(hl.evict_of_concat (by simpa using hconcat)).1] at hnone
    exact absurd hnone (by simp)

end ReadThrough.Lru
