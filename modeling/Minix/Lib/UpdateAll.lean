import Mathlib

/-!
# Updating the elements of a list

`updateAll f l` updates the elements of `l` from left to right, where each update may crash, and collects what the
updates put out.

* `updateAll_getElem?`: every element is updated on its own.
* `updateAll_ind`: what holds of the update of one element, and is kept when updates follow each other, holds of all of
  them.
* `updateAll_some`: nothing crashes if no update does.
-/

namespace Minix.Lib

variable {α β : Type} {f : α → Option (α × List β)} {l l' : List α} {out : List β}

/-- The elements are updated from left to right. -/
def updateAll (f : α → Option (α × List β)) : List α → Option (List α × List β)
  | [] => some ([], [])
  | a :: l => do
    let (a', o) ← f a
    let (l', out) ← updateAll f l
    return (a' :: l', o ++ out)

theorem updateAll_cons {a : α} (h : updateAll f (a :: l) = some (l', out)) :
    ∃ a' o m out', f a = some (a', o) ∧ updateAll f l = some (m, out') ∧ l' = a' :: m ∧ out = o ++ out' := by
  obtain ⟨⟨a', o⟩, ha, h⟩ := Option.bind_eq_some_iff.mp h
  obtain ⟨⟨m, out'⟩, hm, h⟩ := Option.bind_eq_some_iff.mp h
  cases h
  exact ⟨a', o, m, out', ha, hm, rfl, rfl⟩

/-- Every element of the result is the update of the element at its place. -/
theorem updateAll_getElem? : ∀ {l l' : List α} {out : List β}, updateAll f l = some (l', out) → ∀ {i : Nat} {a' : α},
    l'[i]? = some a' → ∃ a o, l[i]? = some a ∧ f a = some (a', o) ∧ o ⊆ out
  | [], _, _, h, _, _, hi => by
    cases h
    cases hi
  | a :: l, l', out, h, i, b, hi => by
    obtain ⟨a', o, m, out', ha, hm, rfl, rfl⟩ := updateAll_cons h
    cases i with
    | zero =>
      cases hi
      exact ⟨a, o, rfl, ha, List.subset_append_left o out'⟩
    | succ i =>
      obtain ⟨a0, o0, hl, hf, ho⟩ := updateAll_getElem? hm hi
      exact ⟨a0, o0, hl, hf, List.Subset.trans ho (List.subset_append_right o out')⟩

/-- The elements are updated one after the other: those on the left are updated already. -/
theorem updateAll_ind_aux {R : List α → List β → List α → Prop} (hrefl : ∀ m, R m [] m)
    (htrans : ∀ m1 m2 m3 o1 o2, R m1 o1 m2 → R m2 o2 m3 → R m1 (o1 ++ o2) m3) :
    ∀ {l l' : List α} {out : List β} {pre : List α}, updateAll f l = some (l', out) →
      (∀ m i a a' o, a ∈ l → m[i]? = some a → f a = some (a', o) → R m o (m.set i a')) → R (pre ++ l) out (pre ++ l')
  | [], _, _, pre, h, _ => by
    cases h
    exact hrefl _
  | a :: l, l', out, pre, h, hstep => by
    obtain ⟨a', o, m, out', ha, hm, rfl, rfl⟩ := updateAll_cons h
    have h1 : R (pre ++ a :: l) o ((pre ++ a :: l).set pre.length a') :=
      hstep _ pre.length a a' o List.mem_cons_self (by simp) ha
    have h2 : R ((pre ++ [a']) ++ l) out' ((pre ++ [a']) ++ m) :=
      updateAll_ind_aux hrefl htrans hm fun m i b b' o hb => hstep m i b b' o (List.mem_cons_of_mem a hb)
    rw [List.append_assoc, List.append_assoc] at h2
    refine htrans _ _ _ _ _ h1 ?_
    simpa using h2

/-- What holds of the update of one element, and is kept when updates follow each other, holds of all of them. -/
theorem updateAll_ind {R : List α → List β → List α → Prop} (hrefl : ∀ m, R m [] m)
    (htrans : ∀ m1 m2 m3 o1 o2, R m1 o1 m2 → R m2 o2 m3 → R m1 (o1 ++ o2) m3) (h : updateAll f l = some (l', out))
    (hstep : ∀ m i a a' o, a ∈ l → m[i]? = some a → f a = some (a', o) → R m o (m.set i a')) : R l out l' :=
  show R ([] ++ l) out ([] ++ l') from updateAll_ind_aux hrefl htrans h hstep

theorem updateAll_some : ∀ {l : List α}, (∀ a ∈ l, ∃ a' o, f a = some (a', o)) →
    ∃ l' out, updateAll f l = some (l', out)
  | [], _ => ⟨[], [], rfl⟩
  | a :: l, h => by
    obtain ⟨a', o, ha⟩ := h a List.mem_cons_self
    obtain ⟨m, out', hm⟩ := updateAll_some fun b hb => h b (List.mem_cons_of_mem a hb)
    refine ⟨a' :: m, o ++ out', ?_⟩
    rw [updateAll, ha, hm]
    rfl

end Minix.Lib
