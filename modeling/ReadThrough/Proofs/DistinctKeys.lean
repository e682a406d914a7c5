/-!
# Association lists with distinct keys

Facts about lists of bindings in which no key is bound twice: a binding is determined by its key,
and filtering a key out removes exactly its binding.
-/

namespace ReadThrough

variable {κ ν : Type} {bindings : List (κ × ν)} {key : κ} {value : ν}

/-- No key is bound twice. -/
def DistinctKeys (bindings : List (κ × ν)) : Prop := (bindings.map (·.1)).Nodup

namespace DistinctKeys

theorem filter (h : DistinctKeys bindings) (p : κ × ν → Bool) :
    DistinctKeys (bindings.filter p) :=
  (List.filter_sublist.map _).nodup h

theorem perm {others : List (κ × ν)} (h : DistinctKeys bindings) (hp : bindings.Perm others) :
    DistinctKeys others :=
  (hp.map _).nodup_iff.1 h

theorem tail (h : DistinctKeys bindings) : DistinctKeys bindings.tail :=
  ((List.tail_sublist _).map _).nodup h

/-- A key has one value. -/
theorem value_unique {other : ν} (h : DistinctKeys bindings) (hv : (key, value) ∈ bindings)
    (hw : (key, other) ∈ bindings) : value = other := by
  obtain ⟨before, after, rfl⟩ := List.append_of_mem hv
  simp only [DistinctKeys, List.map_append, List.map_cons, List.nodup_append, List.nodup_cons] at h
  obtain ⟨-, ⟨hafter, -⟩, hbefore⟩ := h
  rcases List.mem_append.1 hw with hw | hw
  · exact absurd rfl (hbefore key (List.mem_map_of_mem hw) key (by simp))
  · rcases List.mem_cons.1 hw with hw | hw
    · exact (Prod.mk.inj hw).2.symm
    · exact absurd (List.mem_map_of_mem (f := (·.1)) hw) hafter

/-- What gives the value of a bound key, and nothing for any other, tells the bindings. -/
theorem eq_some_iff_mem {result : Option ν} (hbound : ∀ v, (key, v) ∈ bindings → result = some v)
    (hfree : (∀ v, (key, v) ∉ bindings) → result = none) :
    result = some value ↔ (key, value) ∈ bindings := by
  refine ⟨fun hresult => Classical.byContradiction fun hnot => ?_, hbound value⟩
  by_cases hkey : ∃ v, (key, v) ∈ bindings
  · obtain ⟨v, hmem⟩ := hkey
    rw [hbound v hmem, Option.some.injEq] at hresult
    exact hnot (hresult ▸ hmem)
  · rw [hfree (not_exists.1 hkey)] at hresult
    exact absurd hresult (by simp)

variable [DecidableEq κ]

/-- Looking a key up from the front finds its one value. -/
theorem lookup_eq_some_iff (h : DistinctKeys bindings) :
    bindings.lookup key = some value ↔ (key, value) ∈ bindings := by
  induction bindings with
  | nil => simp
  | cons e rest ih =>
    obtain ⟨k, v⟩ := e
    obtain ⟨hnot, hrest⟩ := List.nodup_cons.1 h
    rw [List.lookup_cons, List.mem_cons]
    by_cases hk : key = k
    · subst hk
      have hnone : (key, value) ∉ rest := fun hmem => hnot (List.mem_map_of_mem (f := (·.1)) hmem)
      simp [hnone, eq_comm]
    · rw [beq_eq_false_iff_ne.2 hk, ih hrest]
      simp [hk]

/-- Filtering out a key that is not bound changes nothing. -/
theorem filter_ne_of_not_mem (h : ∀ v, (key, v) ∉ bindings) :
    bindings.filter (·.1 ≠ key) = bindings := by
  refine List.filter_eq_self.2 fun e he => decide_eq_true ?_
  rintro rfl
  exact h e.2 he

/-- Filtering out a bound key removes its binding and keeps the order of the others. -/
theorem filter_ne_append {before after : List (κ × ν)}
    (h : DistinctKeys (before ++ (key, value) :: after)) :
    (before ++ (key, value) :: after).filter (·.1 ≠ key) = before ++ after := by
  simp only [DistinctKeys, List.map_append, List.map_cons, List.nodup_append, List.nodup_cons] at h
  obtain ⟨-, ⟨hafter, -⟩, hbefore⟩ := h
  rw [List.filter_append, List.filter_cons_of_neg (by simp), filter_ne_of_not_mem,
    filter_ne_of_not_mem]
  · exact fun v hv => hafter (List.mem_map_of_mem (f := (·.1)) hv)
  · exact fun v hv => hbefore key (List.mem_map_of_mem (f := (·.1)) hv) key (by simp) rfl

theorem filter_ne_cons (h : DistinctKeys ((key, value) :: bindings)) :
    ((key, value) :: bindings).filter (·.1 ≠ key) = bindings := by
  rw [← List.nil_append (_ :: _)] at h ⊢
  exact h.filter_ne_append

theorem cons_filter (h : DistinctKeys bindings) (key : κ) (value : ν) :
    DistinctKeys ((key, value) :: bindings.filter (·.1 ≠ key)) :=
  List.nodup_cons.2 ⟨by simp, h.filter _⟩

/-- A list of bindings is one of them and the bindings of the other keys. -/
theorem perm_cons_filter (h : DistinctKeys bindings) (hv : (key, value) ∈ bindings) :
    bindings.Perm ((key, value) :: bindings.filter (·.1 ≠ key)) := by
  obtain ⟨before, after, rfl⟩ := List.append_of_mem hv
  rw [h.filter_ne_append]
  exact List.perm_middle

end DistinctKeys

end ReadThrough
