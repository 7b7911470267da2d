import Mathlib

/-!
# Reference counts

Objects `V` with counters, and holders `H` each of which refers to at most one object. `Balanced c t xs`: the counter of
every object is the number of holders that refer to it, and of its occurrences in `xs`, the references that no holder
has: those in local variables, and those that were lost.

A reference is made (`Balanced.dup`), given up (`Balanced.put`), stored in a holder (`Balanced.store`) and taken out of
one (`Balanced.clear`).
-/

namespace Minix.Lib

open Function Finset

variable {H V : Type*} [Fintype H] [DecidableEq V]

/-- The number of holders that refer to an object. -/
def held (t : H → Option V) (v : V) : Nat := (univ.filter fun h => t h = some v).card

/-- The counters count the holders and the references in `xs`. -/
def Balanced (c : V → Nat) (t : H → Option V) (xs : List V) : Prop := ∀ v, c v = held t v + xs.count v

variable {c : V → Nat} {t : H → Option V} {xs ys : List V} {v w : V} {h : H}

theorem held_pos : 0 < held t v ↔ ∃ h, t h = some v := by
  rw [held, card_pos]
  constructor
  · rintro ⟨h, hh⟩
    exact ⟨h, (mem_filter.mp hh).2⟩
  · rintro ⟨h, hh⟩
    exact ⟨h, mem_filter.mpr ⟨mem_univ h, hh⟩⟩

theorem held_store [DecidableEq H] (hn : t h = none) :
    held (update t h (some v)) w = held t w + if w = v then 1 else 0 := by
  unfold held
  by_cases hw : w = v
  · subst hw
    have hset : (univ.filter fun x => update t h (some w) x = some w) =
        insert h (univ.filter fun x => t x = some w) := by
      ext x
      by_cases hx : x = h
      · simp [hx]
      · simp [hx]
    rw [hset, if_pos rfl, card_insert_of_notMem]
    simp [hn]
  · rw [if_neg hw, Nat.add_zero]
    congr 1
    apply filter_congr
    intro x _
    by_cases hx : x = h
    · simp [hx, hn, Ne.symm hw]
    · rw [update_of_ne hx]

theorem held_clear [DecidableEq H] (hv : t h = some v) :
    held t w = held (update t h none) w + if w = v then 1 else 0 := by
  have := held_store (w := w) (v := v) (update_self h none t)
  rw [← this]
  congr 1
  rw [update_idem, ← hv, update_eq_self]

theorem count_cons_eq : (v :: xs).count w = xs.count w + if w = v then 1 else 0 := by
  rw [List.count_cons]
  by_cases h : w = v
  · simp [h]
  · simp [h, Ne.symm h]

namespace Balanced

section

variable (hb : Balanced c t xs)

include hb

theorem not_held (h0 : c v = 0) : t h ≠ some v := by
  intro hh
  have := held_pos.mpr ⟨h, hh⟩
  have := hb v
  omega

theorem pos_of_held (hh : t h = some v) : 0 < c v := by
  have := held_pos.mpr ⟨h, hh⟩
  have := hb v
  omega

theorem pos_of_mem (hv : v ∈ xs) : 0 < c v := by
  have := List.count_pos_iff.mpr hv
  have := hb v
  omega

theorem perm (hp : xs.Perm ys) : Balanced c t ys := by
  intro v
  rw [hb v, hp.count_eq]

theorem dup (v : V) : Balanced (update c v (c v + 1)) t (v :: xs) := by
  intro w
  rw [count_cons_eq]
  by_cases hw : w = v
  · subst hw
    rw [update_self, hb w, if_pos rfl, Nat.add_assoc]
  · rw [update_of_ne hw, hb w, if_neg hw, Nat.add_zero]

end

theorem put (hb : Balanced c t (v :: xs)) : Balanced (update c v (c v - 1)) t xs := by
  intro w
  have := hb w
  rw [count_cons_eq] at this
  by_cases hw : w = v
  · subst hw
    rw [if_pos rfl] at this
    rw [update_self]
    omega
  · rw [if_neg hw] at this
    rw [update_of_ne hw]
    omega

theorem store [DecidableEq H] (hb : Balanced c t (v :: xs)) (hn : t h = none) :
    Balanced c (update t h (some v)) xs := by
  intro w
  have := hb w
  rw [count_cons_eq] at this
  rw [held_store hn]
  omega

theorem clear [DecidableEq H] (hb : Balanced c t xs) (hv : t h = some v) : Balanced c (update t h none) (v :: xs) := by
  intro w
  rw [hb w, count_cons_eq, held_clear hv]
  omega

end Balanced

end Minix.Lib
