import Minix.Lib.Run

/-!
# Programs with a state

A program `Prog σ α` changes a state of type `σ` and returns a value, or crashes. `After x s Q` says that `Q` holds of
the value and of the state that `x` ends with when it starts in `s`, unless it crashes.

The rules follow the program text: `After.bind` for a sequence, `After.ite` for a branch, `After.forM` and
`After.forM_of_allOk` for a loop, and `After.mono` for weakening.

`Ends P x Q` says that `x` does not crash when it starts in a state with `P`, and ends in one with `Q`. Its rules are
named alike.
-/

namespace Minix.Lib

/-- A program with a state. It has no result if it crashes. -/
abbrev Prog (σ α : Type) := StateT σ Option α

/-- The program that crashes. -/
def crash {σ α : Type} : Prog σ α := fun _ => none

variable {σ α β : Type} {s : σ} {Q Q' : α → σ → Prop} {R : β → σ → Prop}

/-- What holds after a program that does not crash. -/
def After (x : Prog σ α) (s : σ) (Q : α → σ → Prop) : Prop := ∀ a s', x s = some (a, s') → Q a s'

namespace After

theorem pure {a : α} (h : Q a s) : After (Pure.pure a) s Q := by
  intro b s' hx
  cases hx
  exact h

theorem bind {x : Prog σ α} {f : α → Prog σ β} (hx : After x s Q) (hf : ∀ a s', Q a s' → After (f a) s' R) :
    After (x >>= f) s R := by
  intro b s'' h
  obtain ⟨⟨a, s'⟩, ha, hb⟩ := Option.bind_eq_some_iff.mp h
  exact hf a s' (hx a s' ha) b s'' hb

theorem mono {x : Prog σ α} (h : After x s Q) (hQ : ∀ a s', Q a s' → Q' a s') : After x s Q' :=
  fun a s' hx => hQ a s' (h a s' hx)

theorem and {x : Prog σ α} (h : After x s Q) (h' : After x s Q') : After x s fun a s' => Q a s' ∧ Q' a s' :=
  fun a s' hx => ⟨h a s' hx, h' a s' hx⟩

theorem get {f : σ → Prog σ α} (h : After (f s) s Q) : After (MonadState.get >>= f) s Q := by
  intro a s' hx
  exact h a s' hx

theorem set {f : σ → σ} {g : Unit → Prog σ α} (h : After (g ()) (f s) Q) : After (modify f >>= g) s Q := by
  intro a s' hx
  exact h a s' hx

theorem modify {f : σ → σ} {Q : Unit → σ → Prop} (h : Q () (f s)) : After (modify f) s Q := by
  intro a s' hx
  cases hx
  exact h

theorem crash : After (Lib.crash : Prog σ α) s Q := by
  intro a s' h
  cases h

theorem ite {c : Prop} [Decidable c] {x y : Prog σ α} (hx : c → After x s Q) (hy : ¬c → After y s Q) :
    After (if c then x else y) s Q := by
  split
  · next h => exact hx h
  · next h => exact hy h

/-- A loop over a list: what every round keeps holds at the end. -/
theorem forM {ι : Type} {f : ι → Prog σ Unit} {I : σ → Prop} (hf : ∀ i s, I s → After (f i) s fun _ s' => I s') :
    ∀ {l : List ι} {s : σ}, I s → After (l.forM f) s fun _ s' => I s'
  | [], _, h => .pure h
  | _ :: _, _, h => .bind (hf _ _ h) fun _ _ h' => forM hf h'

/-- The same for a loop whose rounds meet a condition. -/
theorem forM_of_allOk {ι : Type} {f : ι → Prog σ Unit} {I : σ → Prop} {ok : σ → ι → Prop}
    (hf : ∀ i s, I s → ok s i → After (f i) s fun _ s' => I s') :
    ∀ {l : List ι} {s : σ}, I s → AllOk (fun s i => (f i s).map Prod.snd) ok l s → After (l.forM f) s fun _ s' => I s'
  | [], _, h, _ => .pure h
  | i :: l, s, h, hok => by
    intro a t ht
    obtain ⟨⟨u, s'⟩, hs', ht⟩ := Option.bind_eq_some_iff.mp ht
    have hrest : AllOk (fun s i => (f i s).map Prod.snd) ok l s' := by
      have h2 := hok.2
      dsimp only at h2
      rw [hs'] at h2
      exact h2
    exact forM_of_allOk hf (hf i s h hok.1 u s' hs') hrest a t ht

end After

/-- From states with `P` the program does not crash, and `Q` holds at the end. -/
def Ends (P : σ → Prop) (x : Prog σ α) (Q : σ → Prop) : Prop := ∀ s, P s → ∃ a s', x s = some (a, s') ∧ Q s'

namespace Ends

variable {P Q R : σ → Prop} {x y : Prog σ α} {f : σ → σ}

theorem pure {a : α} (h : ∀ s, P s → Q s) : Ends P (Pure.pure a : Prog σ α) Q := fun s hs => ⟨a, s, rfl, h s hs⟩

theorem get {f : σ → Prog σ α} (h : ∀ s, Ends P (f s) Q) : Ends P (MonadState.get >>= f) Q := fun s => h s s

theorem set {g : Unit → Prog σ α} (hg : Ends R (g ()) Q) (hf : ∀ s, P s → R (f s)) : Ends P (modify f >>= g) Q :=
  fun s hs => hg (f s) (hf s hs)

theorem keep {g : Unit → Prog σ α} (hf : ∀ s, P s → P (f s)) (hg : Ends P (g ()) Q) :
    Ends P (modify f >>= g) Q := set hg hf

theorem modify (hf : ∀ s, P s → Q (f s)) : Ends P (modify f : Prog σ Unit) Q := fun s hs => ⟨(), f s, rfl, hf s hs⟩

theorem read {f : σ → Prog σ α} (h : ∀ s, P s → Ends (fun s' => s' = s) (f s) Q) : Ends P (MonadState.get >>= f) Q :=
  fun s hs => h s hs s rfl

theorem ite {c : Prop} [Decidable c] (hx : Ends P x Q) (hy : Ends P y Q) : Ends P (if c then x else y) Q := by
  split
  · exact hx
  · exact hy

end Ends

end Minix.Lib
