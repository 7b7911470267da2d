import Minix.Kernel.Frame
import Minix.Kernel.Leaves
import Minix.Kernel.Privileges

/-!
# What leaves the privileges alone

`State.PrivSame`: nothing has changed that the assignment of privilege structures depends on. Everything that the kernel
does for message passing, signals and page faults is such a change (`PrivSame.exec`), and so are `clear_endpoint` and
the requests that add resources.
-/

namespace Minix.Kernel

open Minix.Lib

namespace State

/-- The same processes exist and wait for their privileges, and they have the same privileges. -/
structure PrivSame (k k' : State) : Prop where
  priv : ∀ p, (k'.proc p).pPriv = (k.proc p).pPriv
  free : ∀ p, .slotFree ∈ (k'.proc p).pRtsFlags ↔ .slotFree ∈ (k.proc p).pRtsFlags
  noPriv : ∀ p, .noPriv ∈ (k'.proc p).pRtsFlags ↔ .noPriv ∈ (k.proc p).pRtsFlags
  grants : ∀ i, (k'.priv i).grants = (k.priv i).grants

namespace PrivSame

variable {k k' k'' : State} {p c d : Slot}

theorem of_eq (hp : k'.proc = k.proc) (hr : k'.priv = k.priv) : k.PrivSame k' := by
  constructor <;> simp [hp, hr]

theorem refl (k : State) : k.PrivSame k := of_eq rfl rfl

theorem trans (h : k.PrivSame k') (h' : k'.PrivSame k'') : k.PrivSame k'' where
  priv p := (h'.priv p).trans (h.priv p)
  free p := (h'.free p).trans (h.free p)
  noPriv p := (h'.noPriv p).trans (h.noPriv p)
  grants i := (h'.grants i).trans (h.grants i)

section

variable (k)

theorem modProc (p : Slot) {f : Proc → Proc} (hi : (f (k.proc p)).pPriv = (k.proc p).pPriv)
    (h1 : .slotFree ∈ (f (k.proc p)).pRtsFlags ↔ .slotFree ∈ (k.proc p).pRtsFlags)
    (h2 : .noPriv ∈ (f (k.proc p)).pRtsFlags ↔ .noPriv ∈ (k.proc p).pRtsFlags) : k.PrivSame (k.modProc p f) := by
  refine ⟨fun q => ?_, fun q => ?_, fun q => ?_, fun _ => rfl⟩ <;> by_cases hq : q = p
  all_goals simp [State.modProc, hq, hi, h1, h2]

theorem fields (p : Slot) {f : Proc → Proc} (hi : (f (k.proc p)).pPriv = (k.proc p).pPriv)
    (hf : (f (k.proc p)).pRtsFlags = (k.proc p).pRtsFlags) : k.PrivSame (k.modProc p f) :=
  modProc k p hi (by rw [hf]) (by rw [hf])

theorem modPriv (i : PrivId) {f : Priv → Priv} (hf : (f (k.priv i)).grants = (k.priv i).grants) :
    k.PrivSame (k.modPriv i f) := by
  refine ⟨fun _ => rfl, fun _ => Iff.rfl, fun _ => Iff.rfl, fun j => ?_⟩
  by_cases hj : j = i
  · subst hj
    simpa [State.modPriv] using hf
  · simp [State.modPriv, hj]

theorem rtsUnset (p : Slot) {f : Finset RtsFlag} (h1 : .slotFree ∉ f) (h2 : .noPriv ∉ f) :
    k.PrivSame (k.rtsUnset p f) := by
  have h : k.PrivSame (k.modProc p fun r => { r with pRtsFlags := r.pRtsFlags \ f }) :=
    modProc k p rfl (by simp [h1]) (by simp [h2])
  unfold State.rtsUnset
  dsimp only
  split_ifs
  · exact h.trans (of_eq rfl rfl)
  · exact h

theorem rtsSet (p : Slot) {f : Finset RtsFlag} (h1 : .slotFree ∉ f) (h2 : .noPriv ∉ f) : k.PrivSame (k.rtsSet p f) := by
  unfold State.rtsSet
  refine .trans ?_ (modProc _ p rfl (by simp [h1]) (by simp [h2]))
  split_ifs
  · exact of_eq rfl rfl
  · exact refl k

theorem clearFlag (p : Slot) {f : RtsFlag} (h1 : f ≠ .slotFree) (h2 : f ≠ .noPriv) : k.PrivSame (k.clearFlag p f) :=
  modProc k p rfl (by simp [h1.symm]) (by simp [h2.symm])

end

/-! ## Calls -/

theorem of_leaves {o : Option Slot} (h : Leaves o k k') : k.PrivSame k' where
  priv := h.priv
  free p := h.lasting p .slotFree (by decide) (by decide)
  noPriv p := h.lasting p .noPriv (by decide) (by decide)
  grants i := by
    obtain ⟨h1, h2, h3⟩ := h.grants i
    rw [Priv.grants, Priv.grants, h1, h2, h3]

theorem of_moves {o : Option Slot} (h : Moves o k k') : k.PrivSame k' := of_leaves h.leaves

theorem special (h : Special c k k') : k.PrivSame k' := by
  cases h with
  | none => exact refl k
  | ask => exact fields k c rfl rfl
  | hear => exact fields k c rfl rfl
  | submit size t => exact of_eq rfl rfl

theorem call (h : Call c k k') : k.PrivSame k' := by
  obtain ⟨k1, k2, h1, -, hs, h2⟩ := h
  exact ((of_moves h1).trans (special hs)).trans (of_moves h2)

theorem clears (rc : Slot) : Clears rc PrivSame where
  refl := refl
  trans := trans
  halt _ := of_eq rfl rfl
  modPriv k i _ hf := modPriv k i (hf _)
  modProc k p f hf := by
    have h := hf (k.proc p)
    simp only [Proc.core, Proc.mk.injEq] at h
    exact fields k p h.1 h.2.1
  rtsUnset k p f hf := by
    refine rtsUnset k p ?_ ?_ <;> rcases hf with rfl | rfl <;> decide
  clearFlag k f hf := by
    refine clearFlag k rc ?_ ?_ <;> rcases hf with rfl | rfl <;> decide

theorem clearEndpoint (k : State) (rc : Slot) : k.PrivSame (k.clearEndpoint rc) := by
  rcases (clears rc).clearEndpoint (k := k) with h | h
  · rw [h]
    exact of_eq rfl rfl
  · exact (rtsSet k rc (by simp) (by simp)).trans h

/-- Only exits and forks change who has which structure. -/
theorem exec {o : Op} (h : k.exec o = some k') :
    k.PrivSame k' ∨ (∃ whoP e rc, o = .exit whoP e ∧ k' = k.clearProc rc) ∨
      ∃ e rpc vm lin, o = .fork e rpc vm lin ∧ k' = (k.doFork e rpc vm lin).2 := by
  cases exec_does h with
  | call _ hm => exact .inl (call hm)
  | resume _ hm => exact .inl (call hm)
  | notify hm => exact .inl (of_moves hm)
  | reply _ hm => exact .inl (of_moves hm)
  | exit =>
    unfold doExit
    split
    · split
      · exact .inl (refl k)
      · exact .inr (.inl ⟨_, _, _, rfl, rfl⟩)
    · exact .inr (.inl ⟨_, _, _, rfl, rfl⟩)
  | signal hm => exact .inl (of_moves hm)
  | kill _ hm => exact .inl ((of_moves hm).trans (clearEndpoint _ _))
  | fork => exact .inr (.inr ⟨_, _, _, _, rfl, rfl⟩)

end PrivSame

end State

end Minix.Kernel
