import Minix.Lib.Chain

/-!
# Families of intrusive lists with tail pointers

Several lists share one link function, so that a node can be in one of them only. `Queues next head tail l` says that
list `i` has the nodes `l i`, and that `tail i` points at the last of them. A node is added to the front or to the end
of a list and taken out of it as `Queues.pushOnly`, `Queues.pushFront`, `Queues.pushBack` and `Queues.remove` say.
-/

namespace Minix.Lib

open Function List

variable {α ι : Type*}

/-- The lists with heads `head` and tails `tail` have the nodes `l`, and no node is in two of them. -/
structure Queues (next : α → Option α) (head tail : ι → Option α) (l : ι → List α) : Prop where
  chain : ∀ i, Chain next (head i) (l i)
  last : ∀ i, tail i = (l i).getLast?
  nodup : ∀ i, (l i).Nodup
  disjoint : ∀ {i j}, i ≠ j → (l i).Disjoint (l j)

namespace Queues

variable {next next' : α → Option α} {head head' tail tail' : ι → Option α} {l : ι → List α}

theorem empty (hh : ∀ i, head i = none) (ht : ∀ i, tail i = none) : Queues next head tail fun _ => [] where
  chain := hh
  last := ht
  nodup _ := nodup_nil
  disjoint _ := disjoint_nil_left _

theorem head? (h : Queues next head tail l) (i : ι) : head i = (l i).head? := chain_head? (h.chain i)

/-- The links of nodes that are in a list are not changed with the link of one that is not. -/
theorem update_of_mem [DecidableEq α] {c : α} (hc : ∀ j, c ∉ l j) (v : Option α) {j : ι} {a : α} (ha : a ∈ l j) :
    update next c v a = next a :=
  update_of_ne (fun e => hc j (by rwa [← e])) _ _

theorem congr (h : Queues next head tail l) (hn : ∀ i, ∀ a ∈ l i, next' a = next a) : Queues next' head tail l where
  chain i := chain_congr (hn i) (h.chain i)
  last := h.last
  nodup := h.nodup
  disjoint := h.disjoint

variable [DecidableEq ι]

/-- One list is replaced. Its nodes are old ones or were in no list, and the links of the other lists are kept. -/
theorem set (h : Queues next head tail l) {i : ι} {m : List α} (hc : Chain next' (head' i) m)
    (hl : tail' i = m.getLast?) (hd : m.Nodup) (hm : ∀ a ∈ m, a ∈ l i ∨ ∀ j, a ∉ l j)
    (hn : ∀ j, j ≠ i → ∀ a ∈ l j, next' a = next a) (hh : ∀ j, j ≠ i → head' j = head j)
    (ht : ∀ j, j ≠ i → tail' j = tail j) : Queues next' head' tail' (update l i m) := by
  have hdis : ∀ {j}, j ≠ i → m.Disjoint (l j) := by
    intro j hj a ha hb
    rcases hm a ha with h1 | h1
    · exact h.disjoint hj hb h1
    · exact h1 j hb
  refine ⟨fun j => ?_, fun j => ?_, fun j => ?_, fun {j j'} hjj => ?_⟩
  · by_cases hj : j = i
    · subst hj
      rwa [update_self]
    · rw [update_of_ne hj, hh j hj]
      exact chain_congr (hn j hj) (h.chain j)
  · by_cases hj : j = i
    · subst hj
      rwa [update_self]
    · rw [update_of_ne hj, ht j hj]
      exact h.last j
  · by_cases hj : j = i
    · subst hj
      rwa [update_self]
    · rw [update_of_ne hj]
      exact h.nodup j
  · by_cases hj : j = i
    · subst hj
      rw [update_self, update_of_ne hjj.symm]
      exact hdis hjj.symm
    · rw [update_of_ne hj]
      by_cases hj' : j' = i
      · subst hj'
        rw [update_self]
        exact (hdis hj).symm
      · rw [update_of_ne hj']
        exact h.disjoint hjj

variable [DecidableEq α] {i : ι} {c : α}

section

variable (h : Queues next head tail l)

include h

theorem pushOnly (hc : ∀ j, c ∉ l j) (hi : head i = none) :
    Queues (update next c none) (update head i (some c)) (update tail i (some c)) (update l i (c :: l i)) := by
  have he : l i = [] := by simpa [hi] using (h.head? i).symm
  refine h.set ?_ ?_ ?_ ?_ (fun j _ a ha => update_of_mem hc _ ha) (fun j hj => update_of_ne hj _ _)
    fun j hj => update_of_ne hj _ _
  · simp [he]
  · simp [he]
  · simp [he]
  · simpa [he] using fun j => hc j

theorem pushFront (hc : ∀ j, c ∉ l j) (hi : head i ≠ none) :
    Queues (update next c (head i)) (update head i (some c)) tail (update l i (c :: l i)) := by
  have hne : l i ≠ [] := fun he => hi (by simp [h.head? i, he])
  refine h.set ?_ ?_ (nodup_cons.mpr ⟨hc i, h.nodup i⟩) ?_ (fun j _ a ha => update_of_mem hc _ ha)
    (fun j hj => update_of_ne hj _ _) fun _ _ => rfl
  · refine ⟨update_self .., ?_⟩
    rw [update_self]
    exact chain_congr (fun a ha => update_of_mem hc _ ha) (h.chain i)
  · rw [h.last i, getLast?_cons_of_ne_nil hne]
  · intro a ha
    rcases mem_cons.mp ha with rfl | ha
    · exact .inr hc
    · exact .inl ha

theorem pushBack (hc : ∀ j, c ∉ l j) {t : α} (hi : tail i = some t) :
    Queues (update (update next t (some c)) c none) head (update tail i (some c)) (update l i (l i ++ [c])) := by
  obtain ⟨m, hm⟩ : ∃ m, l i = m ++ [t] := by
    rw [h.last i] at hi
    exact getLast?_eq_some_iff.mp hi
  have ht : t ∈ l i := by simp [hm]
  refine h.set ?_ (by simp) (by simpa using (h.nodup i).concat (hc i)) ?_ (fun j hj a ha => ?_) (fun _ _ => rfl)
    fun j hj => update_of_ne hj _ _
  · have := chain_concat (h.chain i) (h.nodup i) (hc i)
    rwa [hm, after_concat, ← hm] at this
  · intro a ha
    rcases mem_append.mp ha with ha | ha
    · exact .inl ha
    · rw [mem_singleton.mp ha]
      exact .inr hc
  · rw [update_of_mem hc _ ha]
    refine update_of_ne (fun e => ?_) _ _
    exact h.disjoint hj ha (by rwa [e])

theorem remove {m r : List α} (hi : l i = m ++ c :: r) :
    Queues ((Loc.after m).setNext next (next c)) (update head i ((Loc.after m).setHead (head i) (next c)))
      (if tail i = some c then update tail i (Loc.after m).node else tail) (update l i (m ++ r)) := by
  have hd : (m ++ c :: r).Nodup := hi ▸ h.nodup i
  have hc : Chain next (head i) (m ++ c :: r) := hi ▸ h.chain i
  have hcr : c ∉ r := (nodup_cons.mp (hd.sublist (sublist_append_right m _))).1
  have hlast : tail i = (c :: r).getLast? := by rw [h.last i, hi, getLast?_append_cons]
  refine h.set ?_ ?_ (hd.sublist (by simp)) (fun a ha => .inl ?_) (fun j hj a ha => ?_)
    (fun j hj => update_of_ne hj _ _) fun j hj => ?_
  · rw [update_self]
    exact chain_remove hc hd
  · -- the tail moves back only if the last node is taken out
    cases r with
    | nil => rw [if_pos (show tail i = some c from hlast), update_self, node_after, append_nil]
    | cons b r =>
      rw [getLast?_cons_cons] at hlast
      rw [if_neg, hlast, getLast?_append_cons]
      rw [hlast]
      exact fun he => hcr (mem_of_getLast? he)
  · rw [hi]
    exact mem_append.mpr ((mem_append.mp ha).imp_right (mem_cons_of_mem c))
  · refine setNext_of_not_mem fun ha' => h.disjoint hj ha ?_
    rw [hi]
    exact mem_append_left _ ha'
  · split_ifs
    · exact update_of_ne hj _ _
    · rfl

end

end Queues

end Minix.Lib
