import ReadThrough.LinkedList
import ReadThrough.Proofs.Arena
import ReadThrough.Proofs.DistinctKeys

/-!
# Linked lists as sequences

`LinkedList.Linked` says that the links run through given handles in a given order: the ends of the
list are the ends of the order and every node names the nodes next to it. `LinkedList.Represents`
adds the values: the list is a sequence of handles and values, front first, and no other handle is
live. Each operation is then the one on sequences, and `Represents.entries_eq` says that following
the links gives the sequence back.
-/

namespace ReadThrough.LinkedList

variable {α : Type}

/-! ## Links -/

/-- The links run through the handles in the given order, and through no others. -/
structure Linked (l : LinkedList α) (hs : List Handle) : Prop where
  head : l.head = hs.head?
  tail : l.tail = hs.getLast?
  links : ∀ before h after, hs = before ++ h :: after →
    ∃ node, l.nodes.get? h = some node ∧ node.prev = before.getLast? ∧ node.next = after.head?

/-- Unlinking a live node changes that node and the links that name it. -/
theorem get?_nodes_unlink {l : LinkedList α} {h : Handle} {node : Node α}
    (hn : l.nodes.get? h = some node) (k : Handle) :
    (l.unlink h).nodes.get? k = (l.nodes.get? k).map fun n =>
      if h = k then { n with prev := none, next := none }
      else { n with
        prev := if node.next = some k then node.prev else n.prev
        next := if node.prev = some k then node.next else n.next } := by
  unfold unlink
  rw [hn]
  rcases node with ⟨_, _ | p, _ | x⟩ <;> rcases hk : l.nodes.get? k with _ | ⟨_, _, _⟩ <;>
    simp only [Arena.get?_modify, hk] <;> grind

/-- Unlinking the first node makes the second the first. -/
theorem head_unlink {l : LinkedList α} {h : Handle} {node : Node α}
    (hn : l.nodes.get? h = some node) :
    (l.unlink h).head = if node.prev = none then node.next else l.head := by
  unfold unlink
  rw [hn]
  rcases node with ⟨_, _ | p, _ | x⟩ <;> rfl

/-- Unlinking the last node makes the one before it the last. -/
theorem tail_unlink {l : LinkedList α} {h : Handle} {node : Node α}
    (hn : l.nodes.get? h = some node) :
    (l.unlink h).tail = if node.next = none then node.prev else l.tail := by
  unfold unlink
  rw [hn]
  rcases node with ⟨_, _ | p, _ | x⟩ <;> rfl

/-- Whether nodes are linked depends on the ends and on these nodes only. -/
theorem Linked.of_get?_eq {l l' : LinkedList α} {hs : List Handle} (hl : l.Linked hs)
    (hhead : l'.head = l.head) (htail : l'.tail = l.tail)
    (hnodes : ∀ h ∈ hs, l'.nodes.get? h = l.nodes.get? h) : l'.Linked hs := by
  refine ⟨hhead.trans hl.head, htail.trans hl.tail, ?_⟩
  intro before h after hsplit
  rw [hnodes h (by simp [hsplit])]
  exact hl.links before h after hsplit

theorem getLast?_ne_of_not_mem {hs : List Handle} {h : Handle} (hh : h ∉ hs) :
    hs.getLast? ≠ some h :=
  fun hlast => hh (List.mem_of_getLast? hlast)

theorem head?_ne_of_not_mem {hs : List Handle} {h : Handle} (hh : h ∉ hs) : hs.head? ≠ some h :=
  fun hhead => hh (List.mem_of_head? hhead)

/-- An element of two joined lists lies in one of them. -/
theorem split_append {β : Type} {before after pre post : List β} {k : β}
    (h : before ++ after = pre ++ k :: post) :
    (∃ mid, pre = before ++ mid ∧ after = mid ++ k :: post) ∨
      ∃ mid, before = pre ++ k :: mid ∧ post = mid ++ after := by
  rcases List.append_eq_append_iff.1 h with ⟨mid, hpre, hafter⟩ | ⟨mid, hbefore, hpost⟩
  · exact .inl ⟨mid, hpre, hafter⟩
  · rcases mid with _ | ⟨b, mid⟩
    · exact .inl ⟨[], by simpa using hbefore.symm, by simpa using hpost.symm⟩
    · obtain ⟨rfl, rfl⟩ := List.cons_eq_cons.1 hpost
      exact .inr ⟨mid, hbefore, rfl⟩

/-- Unlinking takes its handle out of the order. -/
theorem Linked.unlink {l : LinkedList α} {before after : List Handle} {h : Handle}
    (hl : l.Linked (before ++ h :: after)) (hnodup : (before ++ h :: after).Nodup) :
    (l.unlink h).Linked (before ++ after) := by
  obtain ⟨node, hn, hprev, hnext⟩ := hl.links before h after rfl
  refine ⟨?_, ?_, fun pre k post hsplit => ?_⟩
  · rw [head_unlink hn, hl.head, hprev, hnext]
    cases before <;> simp
  · rw [tail_unlink hn, hl.tail, hprev, hnext]
    cases after <;> simp [List.getLast?_append, List.getLast?_cons]
  · -- the neighbours of `k` change only where `h` was one of them
    rcases split_append hsplit with ⟨mid, rfl, rfl⟩ | ⟨mid, rfl, rfl⟩
    · obtain ⟨n, hkn, hp, hx⟩ := hl.links (before ++ h :: mid) k post (by simp)
      have hkh : h ≠ k := by grind
      have hlast : before.getLast? ≠ some k := getLast?_ne_of_not_mem (by grind)
      refine ⟨_, by rw [get?_nodes_unlink hn, hkn]; rfl, ?_, ?_⟩
      · simp only [hkh, if_false, hprev, hnext, hp]
        rcases mid with _ | ⟨a, mid⟩
        · simp
        · have : a ≠ k := by grind
          simp [this, List.getLast?_append]
      · simp [hkh, hprev, hlast, hx]
    · obtain ⟨n, hkn, hp, hx⟩ := hl.links pre k (mid ++ h :: after) (by simp)
      have hkh : h ≠ k := by grind
      have hhead : after.head? ≠ some k := head?_ne_of_not_mem (by grind)
      refine ⟨_, by rw [get?_nodes_unlink hn, hkn]; rfl, ?_, ?_⟩
      · simp [hkh, hnext, hhead, hp]
      · simp only [hkh, if_false, hprev, hnext, hx]
        rcases List.eq_nil_or_concat mid with rfl | ⟨mid, b, rfl⟩
        · simp
        · have hbk : b ≠ k := by grind
          have hlast : (pre ++ k :: mid.concat b).getLast? = some b := by
            simp [List.getLast?_append, List.getLast?_cons]
          rw [hlast, if_neg (by simpa using hbk)]
          simp [List.head?_append]

/-- Linking at the front changes the new node and the one that was first. -/
theorem get?_nodes_linkFront (l : LinkedList α) (h k : Handle) :
    (l.linkFront h).nodes.get? k = (l.nodes.get? k).map fun n =>
      let n := if h = k then { n with prev := none, next := l.head } else n
      if l.head = some k then { n with prev := some h } else n := by
  unfold linkFront
  rcases hk : l.nodes.get? k with _ | ⟨_, _, _⟩ <;> rcases hf : l.head with _ | first <;>
    simp only [Arena.get?_modify, hk] <;> grind

/-- Linking at the back changes the new node and the one that was last. -/
theorem get?_nodes_linkBack (l : LinkedList α) (h k : Handle) :
    (l.linkBack h).nodes.get? k = (l.nodes.get? k).map fun n =>
      let n := if h = k then { n with prev := l.tail, next := none } else n
      if l.tail = some k then { n with next := some h } else n := by
  unfold linkBack
  rcases hk : l.nodes.get? k with _ | ⟨_, _, _⟩ <;> rcases hf : l.tail with _ | last <;>
    simp only [Arena.get?_modify, hk] <;> grind

/-- Linking a handle before the front puts it first. -/
theorem Linked.linkFront {l : LinkedList α} {hs : List Handle} {h : Handle} (hl : l.Linked hs)
    (hnodup : hs.Nodup) (hlive : l.contains h) (hh : h ∉ hs) :
    (l.linkFront h).Linked (h :: hs) := by
  obtain ⟨node, hn⟩ := Arena.contains_iff.1 hlive
  refine ⟨?_, ?_, fun pre k post hsplit => ?_⟩
  · unfold LinkedList.linkFront
    split <;> rfl
  · have htail := hl.tail
    unfold LinkedList.linkFront
    split
    · rename_i first hhead
      rw [hl.head] at hhead
      obtain ⟨hs, rfl⟩ := List.head?_eq_some_iff.1 hhead
      simpa [List.getLast?_cons] using htail
    · rename_i hhead
      rw [hl.head, List.head?_eq_none_iff] at hhead
      simp [hhead]
  · rcases pre with _ | ⟨p, pre⟩
    · obtain ⟨rfl, rfl⟩ := List.cons_eq_cons.1 hsplit
      refine ⟨_, by rw [get?_nodes_linkFront, hn]; rfl, ?_, ?_⟩ <;>
        simp [hl.head, head?_ne_of_not_mem hh]
    · obtain ⟨rfl, rfl⟩ := List.cons_eq_cons.1 hsplit
      obtain ⟨n, hkn, hp, hx⟩ := hl.links pre k post rfl
      have hkh : h ≠ k := by grind
      rcases pre with _ | ⟨q, pre⟩
      · have hhead : l.head = some k := hl.head
        exact ⟨_, by rw [get?_nodes_linkFront, hkn]; rfl, by simp [hhead], by simp [hkh, hhead, hx]⟩
      · have hhead : l.head = some q := hl.head
        have hqk : q ≠ k := by grind
        refine ⟨_, by rw [get?_nodes_linkFront, hkn]; rfl, ?_, ?_⟩ <;>
          simp [hkh, hhead, hqk, hp, hx, List.getLast?_cons]

/-- Linking a handle after the back puts it last. -/
theorem Linked.linkBack {l : LinkedList α} {hs : List Handle} {h : Handle} (hl : l.Linked hs)
    (hnodup : hs.Nodup) (hlive : l.contains h) (hh : h ∉ hs) :
    (l.linkBack h).Linked (hs ++ [h]) := by
  obtain ⟨node, hn⟩ := Arena.contains_iff.1 hlive
  refine ⟨?_, ?_, fun pre k post hsplit => ?_⟩
  · have hhead := hl.head
    unfold LinkedList.linkBack
    split
    · rename_i last htail
      rw [hl.tail] at htail
      obtain ⟨hs, rfl⟩ := List.getLast?_eq_some_iff.1 htail
      simpa using hhead
    · rename_i htail
      rw [hl.tail, List.getLast?_eq_none_iff] at htail
      simp [htail]
  · unfold LinkedList.linkBack
    split <;> simp
  · rcases List.eq_nil_or_concat post with rfl | ⟨post, p, rfl⟩
    · obtain ⟨rfl, hkh⟩ := List.append_inj' hsplit rfl
      obtain rfl : h = k := by simpa using hkh
      refine ⟨_, by rw [get?_nodes_linkBack, hn]; rfl, ?_, ?_⟩ <;>
        simp [hl.tail, getLast?_ne_of_not_mem hh]
    · obtain ⟨rfl, hph⟩ : hs = pre ++ k :: post ∧ [h] = [p] :=
        List.append_inj' (by simpa using hsplit) rfl
      obtain rfl : h = p := by simpa using hph
      obtain ⟨n, hkn, hp, hx⟩ := hl.links pre k post rfl
      have hkh : h ≠ k := by grind
      rcases List.eq_nil_or_concat post with rfl | ⟨post, q, rfl⟩
      · have htail : l.tail = some k := by rw [hl.tail]; simp
        exact ⟨_, by rw [get?_nodes_linkBack, hkn]; rfl, by simp [hkh, htail, hp], by simp [htail]⟩
      · have htail : l.tail = some q := by rw [hl.tail]; simp [List.getLast?_cons]
        have hqk : q ≠ k := by grind
        refine ⟨_, by rw [get?_nodes_linkBack, hkn]; rfl, ?_, ?_⟩ <;>
          simp [hkh, htail, hqk, hp, hx, List.head?_append]

/-! ## Values and liveness under relinking -/

/-- The list contains the handles that have a value in it. -/
theorem contains_iff {l : LinkedList α} {h : Handle} :
    l.contains h ↔ ∃ value, l.get? h = some value := by
  rw [contains, Arena.contains_iff, get?]
  cases l.nodes.get? h <;> simp

/-- Unlinking changes no value. -/
theorem get?_unlink (l : LinkedList α) (h k : Handle) : (l.unlink h).get? k = l.get? k := by
  rcases hn : l.nodes.get? h with _ | node
  · simp [unlink, hn]
  · rw [get?, get?_nodes_unlink hn, get?]
    cases l.nodes.get? k <;> grind

/-- Linking at the front changes no value. -/
theorem get?_linkFront (l : LinkedList α) (h k : Handle) : (l.linkFront h).get? k = l.get? k := by
  rw [get?, get?_nodes_linkFront, get?]
  cases l.nodes.get? k <;> grind

/-- Linking at the back changes no value. -/
theorem get?_linkBack (l : LinkedList α) (h k : Handle) : (l.linkBack h).get? k = l.get? k := by
  rw [get?, get?_nodes_linkBack, get?]
  cases l.nodes.get? k <;> grind

/-- Unlinking keeps the arena valid. -/
theorem valid_unlink {l : LinkedList α} (hv : l.nodes.Valid) (h : Handle) :
    (l.unlink h).nodes.Valid := by
  unfold unlink
  split
  · exact hv
  · rename_i node _
    rcases node with ⟨_, _ | p, _ | x⟩
    · exact hv.modify _ _
    · exact (hv.modify _ _).modify _ _
    · exact (hv.modify _ _).modify _ _
    · exact ((hv.modify _ _).modify _ _).modify _ _

/-- Linking at the front keeps the arena valid. -/
theorem valid_linkFront {l : LinkedList α} (hv : l.nodes.Valid) (h : Handle) :
    (l.linkFront h).nodes.Valid := by
  unfold linkFront
  split
  · exact (hv.modify _ _).modify _ _
  · exact hv.modify _ _

/-- Linking at the back keeps the arena valid. -/
theorem valid_linkBack {l : LinkedList α} (hv : l.nodes.Valid) (h : Handle) :
    (l.linkBack h).nodes.Valid := by
  unfold linkBack
  split
  · exact (hv.modify _ _).modify _ _
  · exact hv.modify _ _

/-! ## Lists as sequences -/

/-- The list consists of the given handles and values, front first. -/
structure Represents (l : LinkedList α) (es : List (Handle × α)) : Prop where
  valid : l.nodes.Valid
  distinct : DistinctKeys es
  linked : l.Linked (es.map (·.1))
  get?_eq_some_iff : ∀ h value, l.get? h = some value ↔ (h, value) ∈ es

namespace Represents

/-- A new list represents the empty sequence. -/
theorem withCapacity (capacity : Nat) :
    (LinkedList.withCapacity capacity : LinkedList α).Represents [] :=
  ⟨Arena.valid_withCapacity capacity, List.nodup_nil, ⟨rfl, rfl, by simp⟩,
    by simp [LinkedList.withCapacity, Arena.withCapacity, get?, Arena.get?]⟩

theorem empty : (LinkedList.empty : LinkedList α).Represents [] := withCapacity 0

variable {l : LinkedList α} {es : List (Handle × α)}

/-- The list contains the handles of the sequence. -/
theorem contains_iff_mem (hl : l.Represents es) (h : Handle) :
    l.contains h ↔ h ∈ es.map (·.1) := by
  rw [contains_iff, List.mem_map]
  constructor
  · rintro ⟨value, hv⟩
    exact ⟨(h, value), (hl.get?_eq_some_iff h value).1 hv, rfl⟩
  · rintro ⟨⟨_, value⟩, hmem, rfl⟩
    exact ⟨value, (hl.get?_eq_some_iff _ value).2 hmem⟩

/-- The size is the length of the sequence. -/
theorem size_eq (hl : l.Represents es) : l.size = es.length := by
  have hsize := hl.valid.size_eq_length hl.distinct fun h => by
    rw [← hl.contains_iff_mem h, LinkedList.contains, Arena.contains_iff]
  rw [LinkedList.size, hsize, List.length_map]

/-! ### Traversal -/

/-- The links of a live element name the elements around it. -/
theorem node_eq (hl : l.Represents es) {before after : List (Handle × α)} {h : Handle} {value : α}
    (hes : es = before ++ (h, value) :: after) :
    ∃ node, l.nodes.get? h = some node ∧ node.value = value ∧
      node.prev = (before.map (·.1)).getLast? ∧ node.next = (after.map (·.1)).head? := by
  have hv : l.get? h = some value := (hl.get?_eq_some_iff h value).2 (by simp [hes])
  obtain ⟨node, hn, hprev, hnext⟩ := hl.linked.links (before.map (·.1)) h (after.map (·.1))
    (by simp [hes])
  rw [get?, hn] at hv
  exact ⟨node, hn, Option.some.inj hv, hprev, hnext⟩

/-- Following links that lead along a list visits what is left of it, up to the limit. -/
theorem walk_eq_take {follow : Node α → Option Handle} (entries : List (Handle × α))
    (hfollow : ∀ before h value after, entries = before ++ (h, value) :: after →
      ∃ node, l.nodes.get? h = some node ∧ node.value = value ∧
        follow node = (after.map (·.1)).head?)
    (limit : Nat) (before after : List (Handle × α))
    (hentries : entries = before ++ after) :
    l.walk follow limit (after.map (·.1)).head? = after.take limit := by
  induction limit generalizing before after with
  | zero => simp [walk]
  | succ limit ih =>
    rcases after with _ | ⟨⟨h, value⟩, after⟩
    · rfl
    · obtain ⟨node, hn, hvalue, hnext⟩ := hfollow before h value after hentries
      have hrest := ih (before ++ [(h, value)]) after (by simp [hentries])
      simp only [List.map_cons, List.head?_cons, walk, hn, hvalue, hnext, hrest,
        List.take_succ_cons]

/-- Following the links from the front visits the sequence in order and then ends. -/
theorem walk_next (hl : l.Represents es) (limit : Nat) :
    l.walk (·.next) limit l.head = es.take limit := by
  rw [hl.linked.head]
  refine walk_eq_take es (fun before h value after hes => ?_) limit [] es rfl
  obtain ⟨node, hn, hvalue, -, hnext⟩ := hl.node_eq hes
  exact ⟨node, hn, hvalue, hnext⟩

/-- Following the links from the back visits the sequence in reverse and then ends. -/
theorem walk_prev (hl : l.Represents es) (limit : Nat) :
    l.walk (·.prev) limit l.tail = es.reverse.take limit := by
  have htail : l.tail = (es.reverse.map (·.1)).head? := by
    rw [hl.linked.tail, List.map_reverse, List.head?_reverse]
  rw [htail]
  refine walk_eq_take es.reverse (fun before h value after hes => ?_) limit [] _ rfl
  have hsplit : es = after.reverse ++ (h, value) :: before.reverse := by
    rw [← List.reverse_reverse es, hes]
    simp
  obtain ⟨node, hn, hvalue, hprev, -⟩ := hl.node_eq hsplit
  exact ⟨node, hn, hvalue, by simpa [List.getLast?_reverse] using hprev⟩

/-- There are cells for all elements. -/
theorem length_le_cells (hl : l.Represents es) : es.length ≤ l.nodes.cells.size := by
  have hsize := hl.valid.size_add_vacant
  have hlength := hl.size_eq
  rw [LinkedList.size] at hlength
  omega

/-- Walking from the front gives the sequence. -/
theorem entries_eq (hl : l.Represents es) : l.entries = es := by
  rw [entries, hl.walk_next, List.take_of_length_le hl.length_le_cells]

/-- Walking from the back gives it reversed. -/
theorem entriesBack_eq (hl : l.Represents es) : l.entriesBack = es.reverse := by
  rw [entriesBack, hl.walk_prev, List.take_of_length_le (by simpa using hl.length_le_cells)]

/-- The values are those of the sequence, in its order. -/
theorem toList_eq (hl : l.Represents es) : l.toList = es.map (·.2) := by
  rw [toList, hl.entries_eq]

theorem length_toList (hl : l.Represents es) : l.toList.length = l.size := by
  rw [hl.toList_eq, List.length_map, hl.size_eq]

/-- The value of a handle is the one that the sequence has for it. -/
theorem get?_eq_lookup (hl : l.Represents es) (h : Handle) : l.get? h = es.lookup h :=
  Option.ext fun value => by rw [hl.get?_eq_some_iff, hl.distinct.lookup_eq_some_iff]

/-- The first value is that of the first element. -/
theorem front?_eq (hl : l.Represents es) : l.front? = (es.map (·.2)).head? := by
  rw [front?, hl.linked.head]
  rcases es with _ | ⟨⟨h, value⟩, rest⟩
  · rfl
  · exact (hl.get?_eq_some_iff h value).2 (by simp)

/-- The last value is that of the last element. -/
theorem back?_eq (hl : l.Represents es) : l.back? = (es.map (·.2)).getLast? := by
  rw [back?, hl.linked.tail]
  rcases List.eq_nil_or_concat es with rfl | ⟨rest, ⟨h, value⟩, rfl⟩
  · rfl
  · have hv : l.get? h = some value := (hl.get?_eq_some_iff h value).2 (by simp)
    simpa using hv

/-- The handle before an element is the last one of what comes before it. -/
theorem prev?_eq (hl : l.Represents es) {before after : List (Handle × α)} {h : Handle} {value : α}
    (hes : es = before ++ (h, value) :: after) : l.prev? h = (before.map (·.1)).getLast? := by
  obtain ⟨node, hn, -, hprev, -⟩ := hl.node_eq hes
  rw [prev?, hn]
  exact hprev

/-- The handle after an element is the first one of what comes after it. -/
theorem next?_eq (hl : l.Represents es) {before after : List (Handle × α)} {h : Handle} {value : α}
    (hes : es = before ++ (h, value) :: after) : l.next? h = (after.map (·.1)).head? := by
  obtain ⟨node, hn, -, -, hnext⟩ := hl.node_eq hes
  rw [next?, hn]
  exact hnext

end Represents

/-- Without elements no handle is live and the ends are gone. -/
theorem represents_clear (l : LinkedList α) : l.clear.Represents [] :=
  ⟨Arena.valid_clear _, List.nodup_nil, ⟨rfl, rfl, by simp⟩, by simp [clear, get?]⟩

/-! ### Adding -/

namespace Represents

variable {l : LinkedList α} {es : List (Handle × α)}

/-- A new node is live, belongs to no place yet and leaves the others alone. -/
theorem insert_node (hl : l.Represents es) (value : α) :
    let inserted := l.nodes.insert { value }
    let l' : LinkedList α := { l with nodes := inserted.2 }
    inserted.1 ∉ es.map (·.1) ∧ l'.nodes.Valid ∧ l'.Linked (es.map (·.1)) ∧
      ∀ h v, l'.get? h = some v ↔ (h, v) = (inserted.1, value) ∨ (h, v) ∈ es := by
  intro inserted l'
  have hfresh : inserted.1 ∉ es.map (·.1) := by
    rw [← hl.contains_iff_mem, LinkedList.contains, Arena.contains_iff]
    rintro ⟨node, hn⟩
    rw [hl.valid.get?_insert_fst] at hn
    exact absurd hn (by simp)
  have hget := hl.valid.get?_insert { value }
  refine ⟨hfresh, hl.valid.insert _, hl.linked.of_get?_eq rfl rfl fun h hh => ?_, fun h v => ?_⟩
  · rw [hget, if_neg]
    rintro rfl
    exact hfresh hh
  · rw [get?, hget]
    by_cases hh : inserted.1 = h
    · subst hh
      have hnot : (inserted.1, v) ∉ es := fun hmem => hfresh (List.mem_map.2 ⟨_, hmem, rfl⟩)
      simp [inserted, hnot, eq_comm]
    · rw [if_neg hh, ← get?, hl.get?_eq_some_iff]
      simp [Ne.symm hh]

/-- A new element gets a handle that no element has. -/
theorem not_mem_pushFront (hl : l.Represents es) (value : α) :
    (l.pushFront value).1 ∉ es.map (·.1) :=
  (hl.insert_node value).1

/-- Adding at the front puts the value first, under a handle of its own. -/
theorem pushFront (hl : l.Represents es) (value : α) :
    (l.pushFront value).2.Represents (((l.pushFront value).1, value) :: es) := by
  obtain ⟨hfresh, hvalid, hlinked, hget⟩ := hl.insert_node value
  refine ⟨valid_linkFront hvalid _, List.nodup_cons.2 ⟨hfresh, hl.distinct⟩,
    hlinked.linkFront hl.distinct (contains_iff.2 ⟨value, (hget _ _).2 (.inl rfl)⟩) hfresh,
    fun h v => ?_⟩
  rw [LinkedList.pushFront, get?_linkFront, List.mem_cons]
  exact hget h v

/-- Adding at the back puts the value last, under a handle of its own. -/
theorem pushBack (hl : l.Represents es) (value : α) :
    (l.pushBack value).2.Represents (es ++ [((l.pushBack value).1, value)]) := by
  obtain ⟨hfresh, hvalid, hlinked, hget⟩ := hl.insert_node value
  refine ⟨valid_linkBack hvalid _, ?_, ?_, fun h v => ?_⟩
  · rw [DistinctKeys, List.map_append]
    refine List.nodup_append.2 ⟨hl.distinct, by simp, fun h hh k hk hhk => hfresh ?_⟩
    simp_all [LinkedList.pushBack]
  · rw [List.map_append]
    exact hlinked.linkBack hl.distinct (contains_iff.2 ⟨value, (hget _ _).2 (.inl rfl)⟩) hfresh
  · rw [LinkedList.pushBack, get?_linkBack, List.mem_append, or_comm]
    simpa using hget h v

end Represents

/-! ### Removing and moving -/

/-- Removing gives the value of the handle. -/
theorem remove_fst (l : LinkedList α) (h : Handle) : (l.remove h).1 = l.get? h := by
  rw [← get?_unlink l h h]
  simp [LinkedList.remove, get?]

/-- Removing takes away the value of its handle only. -/
theorem get?_remove (l : LinkedList α) (h k : Handle) :
    (l.remove h).2.get? k = if h = k then none else l.get? k := by
  rw [← get?_unlink l h k]
  simp only [LinkedList.remove, get?, Arena.get?_remove]
  split <;> rfl

namespace Represents

variable {l : LinkedList α} {es : List (Handle × α)}

theorem not_mem (hl : l.Represents es) {h : Handle} (hh : ¬l.contains h) (value : α) :
    (h, value) ∉ es :=
  fun hmem => hh ((hl.contains_iff_mem h).2 (List.mem_map_of_mem (f := (·.1)) hmem))

/-- The entries around a live handle, and the order once it is taken out. -/
theorem linked_unlink (hl : l.Represents es) {h : Handle} (hh : l.contains h) :
    (l.unlink h).Linked ((es.filter (·.1 ≠ h)).map (·.1)) := by
  obtain ⟨value, hv⟩ := contains_iff.1 hh
  obtain ⟨before, after, rfl⟩ := List.append_of_mem ((hl.get?_eq_some_iff h value).1 hv)
  have hkeys : (before ++ (h, value) :: after).map (·.1)
      = before.map (·.1) ++ h :: after.map (·.1) := by
    simp
  rw [hl.distinct.filter_ne_append, List.map_append]
  exact (hkeys ▸ hl.linked).unlink (hkeys ▸ hl.distinct)

/-- Removing takes out the entry of the handle, if there is one, and nothing else. -/
theorem remove (hl : l.Represents es) (h : Handle) :
    (l.remove h).2.Represents (es.filter (·.1 ≠ h)) := by
  refine ⟨(valid_unlink hl.valid h).remove h, hl.distinct.filter _, ?_, fun k v => ?_⟩
  · by_cases hlive : l.contains h
    · refine (hl.linked_unlink hlive).of_get?_eq rfl rfl fun k hk => ?_
      have hhk : h ≠ k := by
        rintro rfl
        simp at hk
      simp only [LinkedList.remove, Arena.get?_remove, if_neg hhk]
    · have hn : l.nodes.get? h = none := by
        simpa [LinkedList.contains, Arena.contains] using hlive
      have hsame : (l.remove h).2 = l := by simp [LinkedList.remove, unlink, Arena.remove, hn]
      rw [hsame, DistinctKeys.filter_ne_of_not_mem (hl.not_mem hlive)]
      exact hl.linked
  · rw [get?_remove, List.mem_filter, ← hl.get?_eq_some_iff]
    by_cases hhk : h = k
    · simp [hhk]
    · simp [hhk, Ne.symm hhk]

/-- An empty sequence has no last element to take. -/
theorem popBack_nil (hl : l.Represents []) : l.popBack = (none, l) := by
  have htail : l.tail = none := hl.linked.tail
  simp [LinkedList.popBack, htail]

/-- Taking the last element gives its value and leaves the rest. -/
theorem popBack_concat {h : Handle} {value : α} (hl : l.Represents (es ++ [(h, value)])) :
    l.popBack.1 = some value ∧ l.popBack.2.Represents es := by
  have htail : l.tail = some h := by simp [hl.linked.tail]
  have hv : l.get? h = some value := (hl.get?_eq_some_iff h value).2 (by simp)
  have hrest := hl.remove h
  rw [hl.distinct.filter_ne_append, List.append_nil] at hrest
  simpa only [LinkedList.popBack, htail, remove_fst, hv, true_and] using hrest

/-- An empty sequence has no first element to take. -/
theorem popFront_nil (hl : l.Represents []) : l.popFront = (none, l) := by
  have hhead : l.head = none := hl.linked.head
  simp [LinkedList.popFront, hhead]

/-- Moving a live element to the front changes its place only. -/
theorem moveToFront (hl : l.Represents es) {h : Handle} {value : α} (hmem : (h, value) ∈ es) :
    (l.moveToFront h).1 = true ∧
      (l.moveToFront h).2.Represents ((h, value) :: es.filter (·.1 ≠ h)) := by
  have hv : l.get? h = some value := (hl.get?_eq_some_iff h value).2 hmem
  have hlive : l.contains h := contains_iff.2 ⟨value, hv⟩
  have hkeys : ((h, value) :: es.filter (·.1 ≠ h)).map (·.1)
      = h :: (es.filter (·.1 ≠ h)).map (·.1) := rfl
  simp only [LinkedList.moveToFront, hlive, Bool.not_true, Bool.false_eq_true, if_false]
  split
  · -- the element is the first one already
    rename_i hhead
    refine ⟨rfl, ?_⟩
    rcases es with _ | ⟨⟨k, w⟩, es⟩
    · exact absurd hmem (by simp)
    · obtain rfl : k = h := by simpa [hl.linked.head] using hhead
      have hsame : ((k, w) :: es).filter (·.1 ≠ k) = es :=
        hl.distinct.filter_ne_cons
      have hwv : w = value := hl.distinct.value_unique (by simp) hmem
      rw [hsame, ← hwv]
      exact hl
  · refine ⟨rfl, valid_linkFront (valid_unlink hl.valid h) h, ?_, ?_, fun k v => ?_⟩
    · exact hl.distinct.perm_cons_filter hmem |> hl.distinct.perm
    · rw [hkeys]
      refine (hl.linked_unlink hlive).linkFront (hl.distinct.filter _) ?_ ?_
      · exact contains_iff.2 ⟨value, by rw [get?_unlink, hv]⟩
      · simp
    · rw [get?_linkFront, get?_unlink, hl.get?_eq_some_iff]
      exact (hl.distinct.perm_cons_filter hmem).mem_iff

/-- Moving a live element to the back changes its place only. -/
theorem moveToBack (hl : l.Represents es) {h : Handle} {value : α} (hmem : (h, value) ∈ es) :
    (l.moveToBack h).1 = true ∧
      (l.moveToBack h).2.Represents (es.filter (·.1 ≠ h) ++ [(h, value)]) := by
  have hv : l.get? h = some value := (hl.get?_eq_some_iff h value).2 hmem
  have hlive : l.contains h := contains_iff.2 ⟨value, hv⟩
  have hkeys : (es.filter (·.1 ≠ h) ++ [(h, value)]).map (·.1)
      = (es.filter (·.1 ≠ h)).map (·.1) ++ [h] := List.map_append
  have hperm : es.Perm (es.filter (·.1 ≠ h) ++ [(h, value)]) :=
    (hl.distinct.perm_cons_filter hmem).trans (List.perm_append_singleton _ _).symm
  simp only [LinkedList.moveToBack, hlive, Bool.not_true, Bool.false_eq_true, if_false]
  split
  · -- the element is the last one already
    rename_i htail
    refine ⟨rfl, ?_⟩
    rcases List.eq_nil_or_concat es with rfl | ⟨rest, ⟨k, w⟩, rfl⟩
    · exact absurd hmem (by simp)
    · rw [List.concat_eq_append] at *
      obtain rfl : k = h := by simpa [hl.linked.tail] using htail
      have hwv : w = value := hl.distinct.value_unique (by simp) hmem
      rw [hl.distinct.filter_ne_append, List.append_nil, ← hwv]
      exact hl
  · refine ⟨rfl, valid_linkBack (valid_unlink hl.valid h) h, hl.distinct.perm hperm, ?_,
      fun k v => ?_⟩
    · rw [hkeys]
      refine (hl.linked_unlink hlive).linkBack (hl.distinct.filter _) ?_ ?_
      · exact contains_iff.2 ⟨value, by rw [get?_unlink, hv]⟩
      · simp
    · rw [get?_linkBack, get?_unlink, hl.get?_eq_some_iff]
      exact hperm.mem_iff

end Represents

/-! ### Replacing values -/

/-- Setting changes the value of its handle only. -/
theorem get?_set (l : LinkedList α) (h k : Handle) (value : α) :
    (l.set h value).get? k = if h = k then (l.get? k).map fun _ => value else l.get? k := by
  simp only [set, get?, Arena.get?_modify]
  split
  · cases l.nodes.get? k <;> rfl
  · rfl

/-- The entries with another value under one handle. -/
def assign (es : List (Handle × α)) (h : Handle) (value : α) : List (Handle × α) :=
  es.map fun e => if e.1 = h then (h, value) else e

/-- Assigning changes no handle. -/
theorem map_fst_assign (es : List (Handle × α)) (h : Handle) (value : α) :
    (assign es h value).map (·.1) = es.map (·.1) := by
  rw [assign, List.map_map]
  refine List.map_congr_left fun e _ => ?_
  by_cases he : e.1 = h <;> simp [he]

/-- Assigning changes the value of its handle only. -/
theorem mem_assign {es : List (Handle × α)} {h k : Handle} {value v : α} :
    (k, v) ∈ assign es h value ↔
      if h = k then v = value ∧ k ∈ es.map (·.1) else (k, v) ∈ es := by
  rw [assign, List.mem_map]
  split
  · rename_i hhk
    subst hhk
    constructor
    · rintro ⟨⟨i, w⟩, hmem, heq⟩
      by_cases hi : i = h
      · subst hi
        have hwv : value = v := by simpa using heq
        exact ⟨hwv.symm, List.mem_map_of_mem (f := (·.1)) hmem⟩
      · simp_all
    · rintro ⟨rfl, hmem⟩
      obtain ⟨⟨i, w⟩, hi, rfl⟩ := List.mem_map.1 hmem
      exact ⟨(i, w), hi, by simp⟩
  · rename_i hhk
    constructor
    · rintro ⟨⟨i, w⟩, hmem, heq⟩
      by_cases hi : i = h
      · simp_all
      · simp only [hi, if_false] at heq
        exact heq ▸ hmem
    · intro hmem
      exact ⟨(k, v), hmem, by simp [Ne.symm hhk]⟩

/-- Replacing a value keeps its place and all other entries. -/
theorem Represents.set {l : LinkedList α} {es : List (Handle × α)} (hl : l.Represents es)
    (h : Handle) (value : α) : (l.set h value).Represents (assign es h value) := by
  have hkeys := map_fst_assign es h value
  refine ⟨hl.valid.modify _ _, ?_, ?_, fun k v => ?_⟩
  · rw [DistinctKeys, hkeys]
    exact hl.distinct
  · rw [hkeys]
    refine ⟨hl.linked.head, hl.linked.tail, fun before k after hsplit => ?_⟩
    obtain ⟨node, hn, hprev, hnext⟩ := hl.linked.links before k after hsplit
    have hnode := Arena.get?_modify l.nodes h k fun n : Node α => { n with value }
    rw [hn] at hnode
    by_cases hhk : h = k
    · rw [if_pos hhk] at hnode
      exact ⟨_, hnode, hprev, hnext⟩
    · rw [if_neg hhk] at hnode
      exact ⟨_, hnode, hprev, hnext⟩
  · rw [get?_set, mem_assign, ← hl.contains_iff_mem, contains_iff]
    split
    · cases l.get? k <;> simp [eq_comm]
    · exact hl.get?_eq_some_iff k v

end ReadThrough.LinkedList
