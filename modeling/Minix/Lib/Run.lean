import Mathlib

/-!
# Runs of a step function

A system is given by a step function `step : σ → ω → Option σ`, where `ω` are the operations that its environment
chooses. `run` performs a list of operations, and `AllOk` says that each of them meets a condition in the state it is
performed in. `run_invariant` carries an invariant through a run, `run_total` also shows that it does not crash,
`run_history` is for an invariant that speaks of the `outputs` of the steps.
-/

namespace Minix.Lib

open List

variable {σ ω : Type*}

/-- A run: the operations are performed one after the other. -/
def run (step : σ → ω → Option σ) : List ω → σ → Option σ
  | [], s => some s
  | o :: os, s => (step s o).bind (run step os)

/-- Every operation of a run meets the condition `ok` in the state it is performed in. -/
def AllOk (step : σ → ω → Option σ) (ok : σ → ω → Prop) : List ω → σ → Prop
  | [], _ => True
  | o :: os, s => ok s o ∧ (step s o).elim True (AllOk step ok os)

instance AllOk.decidable (step : σ → ω → Option σ) (ok : σ → ω → Prop) [∀ s o, Decidable (ok s o)] :
    ∀ os s, Decidable (AllOk step ok os s)
  | [], _ => isTrue trivial
  | o :: os, s =>
    have : Decidable ((step s o).elim True (AllOk step ok os)) :=
      match step s o with
      | none => isTrue trivial
      | some s' => AllOk.decidable step ok os s'
    inferInstanceAs (Decidable (_ ∧ _))

variable {step : σ → ω → Option σ} {ok : σ → ω → Prop}

/-- Operations that meet the condition in every state. -/
theorem allOk_of_forall :
    ∀ {os : List ω} (s : σ), (∀ o ∈ os, ∀ s, ok s o) → AllOk step ok os s
  | [], _, _ => trivial
  | o :: os, s, h => by
    refine ⟨h o mem_cons_self s, ?_⟩
    cases step s o with
    | none => trivial
    | some s' => exact allOk_of_forall s' fun o' ho' => h o' (mem_cons_of_mem _ ho')

/-- An invariant of the steps that meet the condition holds after every run of such steps. -/
theorem run_invariant {I : σ → Prop}
    (hI : ∀ s o s', I s → ok s o → step s o = some s' → I s') :
    ∀ {os : List ω} {s s' : σ}, I s → AllOk step ok os s → run step os s = some s' → I s'
  | [], _, _, hs, _, hr => by cases hr; exact hs
  | o :: os, s, s', hs, hok, hr => by
    obtain ⟨t, ht, hr⟩ := Option.bind_eq_some_iff.mp hr
    have hok' := hok.2
    rw [ht] at hok'
    exact run_invariant hI (hI s o t hs hok.1 ht) hok' hr

/-- If no step that meets the condition crashes, a run of such steps does not. -/
theorem run_total {I : σ → Prop}
    (hI : ∀ s o, I s → ok s o → ∃ s', step s o = some s' ∧ I s') :
    ∀ {os : List ω} {s : σ}, I s → AllOk step ok os s → ∃ s', run step os s = some s' ∧ I s'
  | [], s, hs, _ => ⟨s, rfl, hs⟩
  | o :: os, s, hs, hok => by
    obtain ⟨t, ht, hIt⟩ := hI s o hs hok.1
    have hok' := hok.2
    rw [ht] at hok'
    obtain ⟨s', hr, hs'⟩ := run_total hI hIt hok'
    refine ⟨s', ?_, hs'⟩
    rw [run, ht]
    exact hr

theorem allOk_concat {o : ω} :
    ∀ {os : List ω} {s : σ}, AllOk step ok (os ++ [o]) s → AllOk step ok os s ∧ ∀ t, run step os s = some t → ok t o
  | [], s, h => ⟨trivial, fun t ht => by cases ht; exact h.1⟩
  | o' :: os, s, h => by
    refine ⟨⟨h.1, ?_⟩, fun t ht => ?_⟩
    · have h2 := h.2
      cases hs : step s o' with
      | none => trivial
      | some s' =>
        rw [hs] at h2
        exact (allOk_concat h2).1
    · obtain ⟨s', hs, ht⟩ := Option.bind_eq_some_iff.mp ht
      have h2 := h.2
      rw [hs] at h2
      exact (allOk_concat h2).2 t ht

/-- Whether a run reaches a state with a given property is decided by performing it. -/
instance decidableReaches (o : Option σ) (P : σ → Prop) [DecidablePred P] : Decidable (∃ s, o = some s ∧ P s) :=
  match o with
  | none => isFalse (by rintro ⟨_, h, _⟩; cases h)
  | some s => decidable_of_iff (P s) ⟨fun h => ⟨s, rfl, h⟩, by rintro ⟨_, h, hp⟩; cases h; exact hp⟩

/-- What a call has to answer, if it does not fail. -/
instance decidableOk {ε : Type*} (x : Except ε σ) (P : σ → Prop) [DecidablePred P] : Decidable (∀ a, x = .ok a → P a) :=
  match x with
  | .error _ => isTrue nofun
  | .ok a => decidable_of_iff (P a) ⟨fun h _ e => Except.ok.inj e ▸ h, fun h => h a rfl⟩

instance decidableSome (o : Option σ) (P : σ → Prop) [DecidablePred P] : Decidable (∀ a, o = some a → P a) :=
  inferInstanceAs (Decidable (∀ a ∈ o, P a))

/-- What the steps of a run put out, one after the other. -/
def outputs {α : Type*} (step : σ → ω → Option σ) (out : σ → ω → σ → List α) : List ω → σ → List α
  | [], _ => []
  | o :: os, s => (step s o).elim [] fun s' => out s o s' ++ outputs step out os s'

/-- An invariant that speaks of what was put out so far holds after every run, of all that was put out. -/
theorem run_history {α : Type*} {I : List α → σ → Prop}
    (out : σ → ω → σ → List α)
    (hI : ∀ T s o s', I T s → ok s o → step s o = some s' → I (T ++ out s o s') s') :
    ∀ {os : List ω} {T : List α} {s s' : σ}, I T s → AllOk step ok os s → run step os s = some s' →
      I (T ++ outputs step out os s) s'
  | [], T, s, _, hs, _, hr => by
    cases hr
    rw [outputs, append_nil]
    exact hs
  | o :: os, T, s, s', hs, hok, hr => by
    obtain ⟨t, ht, hr⟩ := Option.bind_eq_some_iff.mp hr
    have hok' := hok.2
    rw [ht] at hok'
    have := run_history out hI (hI T s o t hs hok.1 ht) hok' hr
    simpa only [outputs, ht, Option.elim_some, append_assoc] using this

/-- A history to which every step adds its output has all outputs of the run. -/
theorem run_outputs {α : Type*} {I : σ → Prop}
    (out : σ → ω → σ → List α) (hist : σ → List α)
    (hI : ∀ s o s', I s → ok s o → step s o = some s' → I s' ∧ hist s' = hist s ++ out s o s')
    {os : List ω} {s s' : σ} (hs : I s) (hok : AllOk step ok os s) (hr : run step os s = some s') :
    hist s' = hist s ++ outputs step out os s := by
  refine (run_history (I := fun T t => I t ∧ hist t = hist s ++ T) (T := []) out ?_ ⟨hs, ?_⟩ hok hr).2
  · rintro T t o t' ⟨ht, hT⟩ ho hst
    obtain ⟨h1, h2⟩ := hI t o t' ht ho hst
    exact ⟨h1, by rw [h2, hT, append_assoc]⟩
  · rw [append_nil]

/-- Where an element of a history is after one more was added. -/
theorem concat_eq_append_cons {α : Type*} {T A B : List α} {e x : α} (h : T ++ [e] = A ++ x :: B) :
    (T = A ∧ e = x ∧ B = []) ∨ ∃ C, B = C ++ [e] ∧ T = A ++ x :: C := by
  rcases eq_nil_or_concat B with rfl | ⟨C, y, rfl⟩
  · obtain ⟨h1, h2⟩ := append_inj' h rfl
    cases h2
    exact .inl ⟨h1, rfl, rfl⟩
  · rw [concat_eq_append, ← cons_append, ← append_assoc] at h
    obtain ⟨h1, h2⟩ := append_inj' h rfl
    cases h2
    exact .inr ⟨C, concat_eq_append, h1⟩

end Minix.Lib
