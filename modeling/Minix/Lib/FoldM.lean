import Mathlib

/-!
# Loops that can stop early

A loop over a list with `foldlM` in `Except ε`: an invariant that speaks of the elements seen so far holds at the end
(`foldlM_ok`), and it holds of the state in which the loop is stopped (`foldlM_error`).
-/

namespace Minix.Lib

variable {σ α ε : Type} {f : σ → α → Except ε σ} {I : List α → σ → Prop}
  (hstep : ∀ done a s s', I done s → f s a = .ok s' → I (done ++ [a]) s')

include hstep

theorem foldlM_ok_aux : ∀ {l done : List α} {s s' : σ}, I done s → l.foldlM f s = .ok s' → I (done ++ l) s'
  | [], done, s, s', h0, h => by
    cases h
    rw [List.append_nil]
    exact h0
  | a :: l, done, s, s', h0, h => by
    rw [List.foldlM_cons] at h
    cases ha : f s a with
    | error e =>
      rw [ha] at h
      cases h
    | ok s1 =>
      rw [ha] at h
      have := foldlM_ok_aux (hstep done a s s1 h0 ha) h
      rwa [List.append_assoc] at this

/-- An invariant of the turns holds when the loop has seen all elements. -/
theorem foldlM_ok {l : List α} {s s' : σ} (h0 : I [] s) (h : l.foldlM f s = .ok s') : I l s' := foldlM_ok_aux hstep h0 h

theorem foldlM_error_aux {e : ε} :
    ∀ {l done : List α} {s : σ}, I done s → l.foldlM f s = .error e → ∃ seen a rest s1, l = seen ++ a :: rest ∧
      I (done ++ seen) s1 ∧ f s1 a = .error e
  | [], done, s, h0, h => by cases h
  | a :: l, done, s, h0, h => by
    rw [List.foldlM_cons] at h
    cases ha : f s a with
    | error e' =>
      rw [ha] at h
      cases h
      refine ⟨[], a, l, s, rfl, ?_, ha⟩
      rwa [List.append_nil]
    | ok s1 =>
      rw [ha] at h
      obtain ⟨seen, b, rest, s2, rfl, hI, hb⟩ := foldlM_error_aux (hstep done a s s1 h0 ha) h
      refine ⟨a :: seen, b, rest, s2, rfl, ?_, hb⟩
      rwa [List.append_assoc] at hI

/-- The invariant holds of the state in which the loop is stopped. -/
theorem foldlM_error {l : List α} {s : σ} {e : ε} (h0 : I [] s) (h : l.foldlM f s = .error e) :
    ∃ seen a rest s1, l = seen ++ a :: rest ∧ I seen s1 ∧ f s1 a = .error e := foldlM_error_aux hstep h0 h

end Minix.Lib
