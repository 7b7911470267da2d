import Minix.Lib.Chain

/-!
# Doubly linked lists

`DList next prev front rear l`: following `next` from `front` visits the nodes `l`, and following `prev` from `rear`
visits them the other way round. Both directions are the chains of `Minix.Lib.Chain`, so taking a node out
(`DList.remove`) and adding one at either end (`DList.pushFront`, `DList.pushBack`) are stores at two places.
-/

namespace Minix.Lib

open Function List

variable {α : Type*}

/-- The nodes `l`, linked in both directions. -/
structure DList (next prev : α → Option α) (front rear : Option α) (l : List α) : Prop where
  forward : Chain next front l
  backward : Chain prev rear l.reverse
  nodup : l.Nodup

/-- The place that a neighbour pointer stands for: the link of the neighbour, or the end pointer of the list. -/
def Loc.ofNode : Option α → Loc α
  | none => .head
  | some a => .link a

@[simp] theorem ofNode_getLast? (l : List α) : Loc.ofNode l.getLast? = Loc.after l := by
  induction l using reverseRecOn with
  | nil => rfl
  | append_singleton l a _ => simp [Loc.ofNode]

namespace DList

variable {next prev : α → Option α} {front rear : Option α} {l m r : List α} {c : α}

theorem front_eq (h : DList next prev front rear l) : front = l.head? := chain_head? h.forward

theorem next_eq (h : DList next prev front rear (m ++ c :: r)) : next c = r.head? :=
  chain_head? (chain_after m h.forward).2

theorem prev_eq (h : DList next prev front rear (m ++ c :: r)) : prev c = m.getLast? := by
  have hb := h.backward
  rw [reverse_append, reverse_cons, append_assoc, singleton_append] at hb
  rw [chain_head? (chain_after _ hb).2, head?_reverse]

variable [DecidableEq α]

/-- A node is taken out: its neighbours, or the ends of the list, are linked to each other. -/
theorem remove (h : DList next prev front rear (m ++ c :: r)) :
    DList ((Loc.ofNode (prev c)).setNext next (next c)) ((Loc.ofNode (next c)).setNext prev (prev c))
      ((Loc.ofNode (prev c)).setHead front (next c)) ((Loc.ofNode (next c)).setHead rear (prev c)) (m ++ r) := by
  have hb := h.backward
  rw [reverse_append, reverse_cons, append_assoc, singleton_append] at hb
  have hd : (r.reverse ++ c :: m.reverse).Nodup := by
    rw [← singleton_append, ← append_assoc, ← reverse_cons, ← reverse_append]
    exact nodup_reverse.mpr h.nodup
  refine ⟨?_, ?_, h.nodup.sublist (by simp)⟩
  · rw [h.prev_eq, ofNode_getLast?]
    exact chain_remove h.forward h.nodup
  · rw [h.next_eq, ← getLast?_reverse, ofNode_getLast?, reverse_append]
    exact chain_remove hb hd

theorem pushFront (h : DList next prev front rear l) (hc : c ∉ l) :
    DList (update next c front)
      ((Loc.ofNode front).setNext (update prev c none) (some c)) (some c)
      ((Loc.ofNode front).setHead rear (some c)) (c :: l) := by
  have hc' : c ∉ l.reverse := by rwa [mem_reverse]
  refine ⟨⟨rfl, ?_⟩, ?_, nodup_cons.mpr ⟨hc, h.nodup⟩⟩
  · rw [update_self]
    exact chain_congr (fun a ha => update_of_ne (ne_of_mem_of_not_mem ha hc) _ _) h.forward
  · have key := chain_concat h.backward (nodup_reverse.mpr h.nodup) hc'
    rw [reverse_cons, h.front_eq, ← getLast?_reverse, ofNode_getLast?]
    refine chain_congr (fun a ha => ?_) key
    -- the old end of the list is not the new node, so the two stores commute
    rcases eq_nil_or_concat l.reverse with hl | ⟨k, b, hl⟩
    · rw [hl]
      rfl
    · rw [hl, concat_eq_append, after_concat]
      simp only [Loc.setNext]
      rw [update_comm]
      rintro rfl
      exact hc' (by rw [hl]; simp)

omit [DecidableEq α] in
theorem symm (h : DList next prev front rear l) : DList prev next rear front l.reverse :=
  ⟨h.backward, by rw [reverse_reverse]; exact h.forward, nodup_reverse.mpr h.nodup⟩

theorem pushBack (h : DList next prev front rear l) (hc : c ∉ l) :
    DList ((Loc.ofNode rear).setNext (update next c none) (some c)) (update prev c rear)
      ((Loc.ofNode rear).setHead front (some c)) (some c) (l ++ [c]) := by
  have key := (h.symm.pushFront (by rwa [mem_reverse])).symm
  simpa using key

end DList

end Minix.Lib
