import Minix.Kernel.System

/-!
# What the death of a process leaves alone

`State.Clears rc R` says that the relation `R` between states allows for what `clear_endpoint` does once `rc` has lost
its endpoint, and then `R` holds between the states before and after that (`Clears.clearEndpoint`). `State.Frame R` is
the case of a relation that has nothing to do with queues, return registers, privileges and scheduling.
-/

namespace Minix.Kernel

open Minix.Lib

/-- An entry of the process table without its links and its return register. -/
def Proc.core (r : Proc) : Proc := { r with pCallerQ := none, pQLink := none, retreg := 0 }

/-- The fields of a privilege structure that say whose it is and what it allows. -/
def Priv.grants (r : Priv) : Option Slot × Finset PrivFlag × Finset PrivId := (r.sProcNr, r.sFlags, r.sIpcTo)

namespace State

/-- The relation `R` allows for changes of queues, return registers, privileges and scheduling, and for the end of a
wait. -/
structure Frame (R : State → State → Prop) : Prop where
  refl : ∀ k, R k k
  trans : ∀ {k k' k''}, R k k' → R k' k'' → R k k''
  of_proc : ∀ {k k' : State}, k'.proc = k.proc → k'.vmrequest = k.vmrequest → R k k'
  of_core : ∀ (k : State) (p : Slot) {f : Proc → Proc}, (∀ r, (f r).core = r.core) → R k (k.modProc p f)
  clearFlag : ∀ (k : State) (p : Slot) {f : RtsFlag}, f = .sending ∨ f = .receiving → R k (k.clearFlag p f)

/-- `R` allows for what `clear_endpoint` does after `rc` has lost its endpoint. -/
structure Clears (rc : Slot) (R : State → State → Prop) : Prop where
  refl : ∀ k, R k k
  trans : ∀ {k k' k''}, R k k' → R k' k'' → R k k''
  halt : ∀ k, R k k.halt
  modPriv : ∀ (k : State) (i : PrivId) {f : Priv → Priv}, (∀ r, (f r).grants = r.grants) → R k (k.modPriv i f)
  modProc : ∀ (k : State) (p : Slot) {f : Proc → Proc}, (∀ r, (f r).core = r.core) → R k (k.modProc p f)
  rtsUnset : ∀ (k : State) (p : Slot) {f : RtsFlag}, f = .sending ∨ f = .receiving → R k (k.rtsUnset p {f})
  clearFlag : ∀ (k : State) {f : RtsFlag}, f = .sending ∨ f = .receiving → R k (k.clearFlag rc f)

namespace Clears

variable {R : State → State → Prop} {k : State} {rc : Slot}

theorem wakeWith (hR : Clears rc R) (p : Slot) {f : RtsFlag} (hf : f = .sending ∨ f = .receiving) (r : Int) :
    R k (k.wakeWith p f r) := by
  refine hR.trans (hR.modProc k p (f := fun p => { p with retreg := r }) fun _ => rfl) ?_
  exact hR.rtsUnset _ p hf

theorem storeQ (hR : Clears rc R) (d : Slot) (x : Loc Slot) (q : Option Slot) : R k (k.storeQ d x q) := by
  cases x with
  | head => exact hR.modProc k d (f := fun r => { r with pCallerQ := q }) fun _ => rfl
  | link a => exact hR.modProc k a (f := fun r => { r with pQLink := q }) fun _ => rfl

theorem unqueue (hR : Clears rc R) : R k (k.unqueue rc) := by
  unfold State.unqueue
  split
  · exact hR.halt k
  · split
    · exact hR.halt k
    · split
      · exact hR.refl k
      · exact hR.storeQ ..

theorem clearRef (hR : Clears rc R) (rp : Slot) : R k (clearRef rc k rp) := by
  unfold State.clearRef
  split_ifs
  · exact hR.refl k
  dsimp only
  set k1 := k.modPriv (k.proc rp).pPriv fun r =>
    { r with sNotifyPending := r.sNotifyPending.erase (k.proc rc).pPriv }
  have h1 : R k k1 := hR.modPriv k _ fun _ => rfl
  set k2 := if k1.rtsIsset rp .receiving ∧ (k1.proc rp).pGetfromE = (k1.proc rc).pEndpoint then
    k1.wakeWith rp .receiving ESRCDIED else k1 with hk2
  have h2 : R k k2 := by
    rw [hk2]
    split_ifs
    · exact hR.trans h1 (hR.wakeWith rp (.inr rfl) _)
    · exact h1
  split_ifs
  · exact hR.trans h2 (hR.wakeWith rp (.inl rfl) _)
  · exact h2

theorem foldl_clearRef (hR : Clears rc R) : ∀ (l : List Slot) (k : State), R k (l.foldl (State.clearRef rc) k)
  | [], k => hR.refl k
  | p :: l, _ => hR.trans (hR.clearRef p) (hR.foldl_clearRef l _)

/-- `clear_endpoint` panics, or it goes on after the endpoint is lost. -/
theorem clearEndpoint (hR : Clears rc R) :
    k.clearEndpoint rc = k.halt ∨ R (k.rtsSet rc {.noEndpoint}) (k.clearEndpoint rc) := by
  unfold State.clearEndpoint
  split_ifs
  · exact .inl rfl
  · exact .inl rfl
  refine .inr ?_
  set k1 := k.rtsSet rc {.noEndpoint}
  set k2 := if .sysProc ∈ k1.privFlags rc then k1.modPriv (k1.proc rc).pPriv fun r => { r with sAsynsize := 0 } else k1
    with hk2
  have h2 : R k1 k2 := by
    rw [hk2]
    split_ifs
    · exact hR.modPriv k1 _ fun _ => rfl
    · exact hR.refl k1
  set k3 := if k2.rtsIsset rc .sending then (k2.unqueue rc).clearFlag rc .sending else k2 with hk3
  have h3 : R k1 k3 := by
    rw [hk3]
    split_ifs
    · exact hR.trans (hR.trans h2 hR.unqueue) (hR.clearFlag _ (.inl rfl))
    · exact h2
  exact hR.trans (hR.trans h3 (hR.clearFlag _ (.inr rfl))) (hR.foldl_clearRef _ _)

end Clears

namespace Frame

variable {R : State → State → Prop} {k : State}

theorem clears (hR : Frame R) (rc : Slot) : Clears rc R where
  refl := hR.refl
  trans := hR.trans
  halt _ := hR.of_proc rfl rfl
  modPriv _ _ _ _ := hR.of_proc rfl rfl
  modProc := hR.of_core
  rtsUnset k p f hf := by
    have h : R k (k.clearFlag p f) := hR.clearFlag k p hf
    unfold State.rtsUnset
    dsimp only
    split_ifs
    · exact hR.trans h (hR.of_proc rfl rfl)
    · exact h
  clearFlag k _ hf := hR.clearFlag k rc hf

/-- `clear_endpoint`, for a relation that allows for the lost endpoint as well. -/
theorem clearEndpoint (hR : Frame R) {rc : Slot} (h1 : R k (k.rtsSet rc {.noEndpoint})) : R k (k.clearEndpoint rc) := by
  rcases (hR.clears rc).clearEndpoint (k := k) with h | h
  · rw [h]
    exact hR.of_proc rfl rfl
  · exact hR.trans h1 h

end Frame

end State

end Minix.Kernel
