import Mathlib

/-!
# Loops

The body of a loop is a function `turn : σ → Turn σ ρ` of the loop's variables: it goes round again, leaves the loop
with a result, or crashes. `loop` runs it with fuel, and `Reaches` relates the variables to the values they take later.

* `loop_reaches`: a loop that has a result got it in a state that it reaches.
* `Reaches.invariant`: what a turn keeps holds in every state that is reached.
* `loop_total`: a loop whose turns go down a measure ends within that many turns.
-/

namespace Minix.Lib

variable {σ ρ : Type*}

/-- What one turn of a loop does. -/
inductive Turn (σ ρ : Type*)
  | again (s : σ)
  | done (r : ρ)
  | crash

/-- A loop, with fuel. It has no result if it crashes. -/
def loop (turn : σ → Turn σ ρ) : Nat → σ → Option ρ
  | 0, _ => none
  | fuel + 1, s =>
    match turn s with
    | .again s' => loop turn fuel s'
    | .done r => some r
    | .crash => none

/-- The loop goes from one state to the other in some turns. -/
def Reaches (turn : σ → Turn σ ρ) : σ → σ → Prop := Relation.ReflTransGen fun s s' => turn s = .again s'

section

variable {turn : σ → Turn σ ρ} {s s' : σ} {r : ρ}

theorem Reaches.refl (s : σ) : Reaches turn s s := Relation.ReflTransGen.refl

theorem Reaches.head {s'' : σ} (h : turn s = .again s') (h' : Reaches turn s' s'') : Reaches turn s s'' :=
  Relation.ReflTransGen.head h h'

theorem Reaches.tail {s'' : σ} (h : Reaches turn s s') (h' : turn s' = .again s'') : Reaches turn s s'' :=
  Relation.ReflTransGen.tail h h'

/-- What a turn keeps holds in every state that is reached. -/
theorem Reaches.invariant {I : σ → Prop} (hI : ∀ s s', I s → turn s = .again s' → I s') (h : Reaches turn s s')
    (hs : I s) : I s' := by
  induction h with
  | refl => exact hs
  | tail _ ht ih => exact hI _ _ ih ht

/-- The result of a loop comes from a state that the loop reaches. -/
theorem loop_reaches : ∀ {fuel : Nat} {s : σ}, loop turn fuel s = some r → ∃ s', Reaches turn s s' ∧ turn s' = .done r
  | fuel + 1, s, h => by
    unfold loop at h
    split at h
    · next s' ht =>
      obtain ⟨t, hr, hd⟩ := loop_reaches h
      exact ⟨t, .head ht hr, hd⟩
    · next r' ht =>
      cases h
      exact ⟨s, .refl s, ht⟩
    · cases h

/-- A loop whose turns go down a measure ends. -/
theorem loop_total {I : σ → Prop} {μ : σ → Nat}
    (hI : ∀ s, I s → (∃ r, turn s = .done r) ∨ ∃ s', turn s = .again s' ∧ I s' ∧ μ s' < μ s) :
    ∀ (fuel : Nat) (s : σ), I s → μ s < fuel → ∃ r, loop turn fuel s = some r
  | 0, _, _, h => absurd h (Nat.not_lt_zero _)
  | fuel + 1, s, hs, h => by
    rcases hI s hs with ⟨r, hr⟩ | ⟨s', ht, hs', hlt⟩
    · exact ⟨r, by rw [loop, hr]⟩
    · obtain ⟨r, hr⟩ := loop_total hI fuel s' hs' (by omega)
      exact ⟨r, by rw [loop, ht]; exact hr⟩

/-- More fuel does not change the result. -/
theorem loop_mono {n m : Nat} (h : loop turn n s = some r) (hnm : n ≤ m) : loop turn m s = some r := by
  induction n generalizing m s with
  | zero => cases h
  | succ n ih =>
    obtain ⟨k, rfl⟩ := Nat.exists_eq_add_of_le' hnm
    rw [← Nat.add_assoc]
    unfold loop at h ⊢
    split
    · next ht =>
      rw [ht] at h
      exact ih h (by omega)
    · next ht => rwa [ht] at h
    · next ht => rwa [ht] at h

/-- A loop whose variables stay as they are does not end. -/
theorem loop_stuck (h : turn s = .again s) (fuel : Nat) : loop turn fuel s = none := by
  induction fuel with
  | zero => rfl
  | succ fuel ih =>
    rw [loop, h]
    exact ih

/-- A loop that comes to a state from which it does not end does not end. -/
theorem loop_none_of_reaches (h : Reaches turn s s') (hs : ∀ fuel, loop turn fuel s' = none) (fuel : Nat) :
    loop turn fuel s = none := by
  induction h using Relation.ReflTransGen.head_induction_on generalizing fuel with
  | refl => exact hs fuel
  | head ht _ ih =>
    cases fuel with
    | zero => rfl
    | succ fuel =>
      rw [loop, ht]
      exact ih fuel

/-- The states of a loop, for as long as the fuel lasts. -/
def visited (turn : σ → Turn σ ρ) : Nat → σ → List σ
  | 0, _ => []
  | fuel + 1, s =>
    s :: match turn s with
      | .again s' => visited turn fuel s'
      | _ => []

/-- A loop that has a result visits every state that it reaches. -/
theorem mem_visited {fuel : Nat} (hr : loop turn fuel s = some r) (h : Reaches turn s s') :
    s' ∈ visited turn fuel s := by
  induction h using Relation.ReflTransGen.head_induction_on generalizing fuel with
  | refl =>
    cases fuel with
    | zero => cases hr
    | succ fuel => exact List.mem_cons_self
  | head ht _ ih =>
    cases fuel with
    | zero => cases hr
    | succ fuel =>
      rw [loop, ht] at hr
      rw [visited, ht]
      exact List.mem_cons_of_mem _ (ih hr)

end

end Minix.Lib
