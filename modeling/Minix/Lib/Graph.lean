import Mathlib

/-!
# Graphs without cycles

`Acyclic r` says that the relation `r` has no cycle. It is kept when edges are taken away (`Acyclic.mono`) and when one
edge is added whose end does not lead to its start (`Acyclic.insert`). When every vertex has at most one successor,
following the edges ends within as many steps as there are vertices (`Acyclic.walk_length`).
-/

namespace Minix.Lib

open Relation

variable {α : Type*} {r r' : α → α → Prop}

/-- The relation has no cycle. -/
def Acyclic (r : α → α → Prop) : Prop := ∀ a, ¬ TransGen r a a

theorem Acyclic.mono (h : Acyclic r) (hr : ∀ a b, r' a b → r a b) : Acyclic r' :=
  fun a ha => h a (TransGen.mono hr _ _ ha)

/-- A path that may use one more edge is a path without it, or goes through the edge. -/
theorem transGen_insert {a b x y : α} (hr : ∀ x y, r' x y → r x y ∨ (x = a ∧ y = b)) (h : TransGen r' x y) :
    TransGen r x y ∨ (ReflTransGen r x a ∧ ReflTransGen r b y) := by
  induction h with
  | single h =>
    rcases hr _ _ h with h | ⟨rfl, rfl⟩
    · exact .inl (.single h)
    · exact .inr ⟨.refl, .refl⟩
  | tail _ h ih =>
    rcases hr _ _ h with h | ⟨rfl, rfl⟩
    · rcases ih with ih | ⟨h1, h2⟩
      · exact .inl (ih.tail h)
      · exact .inr ⟨h1, h2.tail h⟩
    · rcases ih with ih | ⟨h1, _⟩
      · exact .inr ⟨ih.to_reflTransGen, .refl⟩
      · exact .inr ⟨h1, .refl⟩

/-- A new edge closes no cycle if its end does not lead to its start. -/
theorem Acyclic.insert {a b : α} (h : Acyclic r) (hr : ∀ x y, r' x y → r x y ∨ (x = a ∧ y = b))
    (hab : ¬ ReflTransGen r b a) : Acyclic r' := by
  intro x hx
  rcases transGen_insert hr hx with hx | ⟨h1, h2⟩
  · exact h x hx
  · exact hab (h2.trans h1)

/-- The vertices of a walk, the last one first: each leads to those before it in the list. -/
def Walk (r : α → α → Prop) (l : List α) : Prop := l.Pairwise fun a b => TransGen r b a

theorem Walk.cons {x y : α} {l : List α} (h : Walk r (x :: l)) (hxy : r x y) : Walk r (y :: x :: l) := by
  refine List.pairwise_cons.mpr ⟨fun z hz => ?_, h⟩
  rcases List.mem_cons.mp hz with rfl | hz
  · exact .single hxy
  · exact ((List.pairwise_cons.mp h).1 z hz).tail hxy

/-- No walk is longer than the number of vertices. -/
theorem Acyclic.walk_length [Fintype α] (h : Acyclic r) {l : List α} (hl : Walk r l) : l.length ≤ Fintype.card α := by
  refine List.Nodup.length_le_card (hl.imp ?_)
  rintro a b hab rfl
  exact h a hab

end Minix.Lib
