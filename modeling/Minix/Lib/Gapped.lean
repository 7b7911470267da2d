import Mathlib

/-!
# Lists of intervals with gaps

A list of intervals of natural numbers is `Gapped` if the intervals are not empty, are in order and do not touch.
`covered` is the set of their positions. A list with gaps that covers all positions below `n` has just one interval
(`Gapped.eq_singleton`).
-/

namespace Minix.Lib

open List

variable {α : Type*} {lo hi : α → ℕ} {l m : List α} {a : α}

/-- The positions of a list of intervals. -/
def covered (lo hi : α → ℕ) (l : List α) : Finset ℕ := l.foldr (fun a s => Finset.Ico (lo a) (hi a) ∪ s) ∅

/-- The intervals are not empty, in order, and do not touch. -/
structure Gapped (lo hi : α → ℕ) (l : List α) : Prop where
  pos : ∀ a ∈ l, lo a < hi a
  gaps : l.Pairwise fun a b => hi a < lo b

@[simp]
theorem covered_nil : covered lo hi ([] : List α) = ∅ := rfl

@[simp]
theorem covered_cons : covered lo hi (a :: l) = Finset.Ico (lo a) (hi a) ∪ covered lo hi l := rfl

theorem covered_append : covered lo hi (l ++ m) = covered lo hi l ∪ covered lo hi m := by
  induction l with
  | nil => simp
  | cons a l ih => rw [cons_append, covered_cons, covered_cons, ih, Finset.union_assoc]

theorem mem_covered {x : ℕ} : x ∈ covered lo hi l ↔ ∃ a ∈ l, lo a ≤ x ∧ x < hi a := by
  induction l with
  | nil => simp
  | cons a l ih => simp [ih]

theorem gapped_cons : Gapped lo hi (a :: l) ↔ lo a < hi a ∧ (∀ b ∈ l, hi a < lo b) ∧ Gapped lo hi l := by
  constructor
  · rintro ⟨hp, hg⟩
    rw [pairwise_cons] at hg
    exact ⟨hp a mem_cons_self, hg.1, fun b hb => hp b (mem_cons_of_mem a hb), hg.2⟩
  · rintro ⟨ha, hg, h⟩
    refine ⟨fun b hb => ?_, pairwise_cons.mpr ⟨hg, h.gaps⟩⟩
    rcases mem_cons.mp hb with rfl | hb
    · exact ha
    · exact h.pos b hb

theorem gapped_append : Gapped lo hi (l ++ m) ↔
    Gapped lo hi l ∧ Gapped lo hi m ∧ ∀ a ∈ l, ∀ b ∈ m, hi a < lo b := by
  constructor
  · rintro ⟨hp, hg⟩
    rw [pairwise_append] at hg
    exact ⟨⟨fun a ha => hp a (mem_append_left m ha), hg.1⟩, ⟨fun a ha => hp a (mem_append_right l ha), hg.2.1⟩,
      hg.2.2⟩
  · rintro ⟨hl, hm, hg⟩
    refine ⟨fun a ha => ?_, pairwise_append.mpr ⟨hl.gaps, hm.gaps, hg⟩⟩
    rcases mem_append.mp ha with ha | ha
    · exact hl.pos a ha
    · exact hm.pos a ha

theorem Gapped.lt_of_mem {b : α} {x : ℕ} (h : Gapped lo hi (a :: l)) (hb : b ∈ l) (hx : lo b ≤ x) : hi a < x :=
  lt_of_lt_of_le ((gapped_cons.mp h).2.1 b hb) hx

/-- All positions below `n` are covered by one interval. -/
theorem Gapped.eq_singleton {n : ℕ} (h : Gapped lo hi l) (hn : 0 < n) (hc : covered lo hi l = Finset.range n) :
    ∃ a, l = [a] ∧ lo a = 0 ∧ hi a = n := by
  have hmem (x : ℕ) : (∃ a ∈ l, lo a ≤ x ∧ x < hi a) ↔ x < n := by
    rw [← mem_covered, hc, Finset.mem_range]
  cases l with
  | nil =>
    obtain ⟨a, ha, -⟩ := (hmem 0).mpr hn
    cases ha
  | cons a l =>
    have hpos := (gapped_cons.mp h).1
    have hzero : lo a = 0 := by
      obtain ⟨b, hb, hlo, hhi⟩ := (hmem 0).mpr hn
      rcases mem_cons.mp hb with rfl | hb
      · omega
      · have := h.lt_of_mem hb hlo
        omega
    have hle : hi a ≤ n := by
      have := (hmem (hi a - 1)).mp ⟨a, mem_cons_self, by omega, by omega⟩
      omega
    have htop : hi a = n := by
      by_contra hne
      obtain ⟨b, hb, hlo, hhi⟩ := (hmem (hi a)).mpr (by omega)
      rcases mem_cons.mp hb with rfl | hb
      · omega
      · have := h.lt_of_mem hb hlo
        omega
    refine ⟨a, ?_, hzero, htop⟩
    cases l with
    | nil => rfl
    | cons b l =>
      have hb := (gapped_cons.mp (gapped_cons.mp h).2.2).1
      have := (hmem (lo b)).mp ⟨b, by simp, le_rfl, hb⟩
      have := h.lt_of_mem (b := b) (by simp) le_rfl
      omega

end Minix.Lib
