import Minix.Kernel.Effects
import Minix.Kernel.Frame
import Minix.Kernel.VmRequests

/-!
# What requests to VM depend on

`State.VmSame` says that nothing has changed that the protocol depends on: which slots are free, the endpoints,
`VMREQUEST` and `p_vmrequest`. Message passing and `clear_endpoint` are such changes. `State.Suspended` is what
`vm_suspend` does.
-/

namespace Minix.Kernel

open Minix.Lib

namespace State

/-! ## What the protocol depends on -/

/-- Nothing has changed that the protocol depends on. -/
structure VmSame (k k' : State) : Prop where
  endpoint : ∀ p, (k'.proc p).pEndpoint = (k.proc p).pEndpoint
  free : ∀ p, .slotFree ∈ (k'.proc p).pRtsFlags ↔ .slotFree ∈ (k.proc p).pRtsFlags
  vmreq : ∀ p, .vmrequest ∈ (k'.proc p).pRtsFlags ↔ .vmrequest ∈ (k.proc p).pRtsFlags
  req : ∀ p, (k'.proc p).pVmrequest = (k.proc p).pVmrequest
  empty : ∀ p, (k.proc p).pRtsFlags = {.slotFree} → (k'.proc p).pRtsFlags = {.slotFree}
  chain : k'.vmrequest = k.vmrequest

namespace VmSame

variable {k k' k'' : State} {p : Slot}

theorem of_proc (h : k'.proc = k.proc) (hc : k'.vmrequest = k.vmrequest) : k.VmSame k' := by
  constructor <;> simp [h, hc]

theorem refl (k : State) : k.VmSame k := of_proc rfl rfl

theorem trans (h : k.VmSame k') (h' : k'.VmSame k'') : k.VmSame k'' where
  endpoint p := (h'.endpoint p).trans (h.endpoint p)
  free p := (h'.free p).trans (h.free p)
  vmreq p := (h'.vmreq p).trans (h.vmreq p)
  req p := (h'.req p).trans (h.req p)
  empty p hp := h'.empty p (h.empty p hp)
  chain := h'.chain.trans h.chain

theorem modProc {f : Proc → Proc} (he : (f (k.proc p)).pEndpoint = (k.proc p).pEndpoint)
    (hr : (f (k.proc p)).pVmrequest = (k.proc p).pVmrequest)
    (hf : (f (k.proc p)).pRtsFlags = (k.proc p).pRtsFlags) : k.VmSame (k.modProc p f) := by
  refine ⟨fun q => ?_, fun q => ?_, fun q => ?_, fun q => ?_, fun q => ?_, rfl⟩ <;> by_cases hq : q = p
  all_goals simp [State.modProc, hq, he, hr, hf]

theorem flags (g : Finset RtsFlag → Finset RtsFlag)
    (hfree : .slotFree ∈ g (k.proc p).pRtsFlags ↔ .slotFree ∈ (k.proc p).pRtsFlags)
    (hvm : .vmrequest ∈ g (k.proc p).pRtsFlags ↔ .vmrequest ∈ (k.proc p).pRtsFlags)
    (hempty : (k.proc p).pRtsFlags = {.slotFree} → g (k.proc p).pRtsFlags = {.slotFree}) :
    k.VmSame (k.modProc p fun r => { r with pRtsFlags := g r.pRtsFlags }) := by
  refine ⟨fun q => ?_, fun q => ?_, fun q => ?_, fun q => ?_, fun q => ?_, rfl⟩ <;> by_cases hq : q = p
  all_goals simp [State.modProc, hq, hfree, hvm]
  exact hempty

theorem rtsUnset {f : Finset RtsFlag} (h1 : .slotFree ∉ f) (h2 : .vmrequest ∉ f) : k.VmSame (k.rtsUnset p f) := by
  have h : k.VmSame (k.modProc p fun r => { r with pRtsFlags := r.pRtsFlags \ f }) := by
    refine flags (· \ f) (by simp [h1]) (by simp [h2]) fun he => ?_
    rw [he]
    simpa using h1
  unfold State.rtsUnset
  dsimp only
  split_ifs
  · exact h.trans (of_proc rfl rfl)
  · exact h

theorem rtsSet {f : Finset RtsFlag} (hp : .slotFree ∉ (k.proc p).pRtsFlags) (h1 : .slotFree ∉ f) (h2 : .vmrequest ∉ f) :
    k.VmSame (k.rtsSet p f) := by
  have h : k.VmSame (k.modProc p fun r => { r with pRtsFlags := r.pRtsFlags ∪ f }) := by
    refine flags (· ∪ f) (by simp [h1]) (by simp [h2]) fun he => ?_
    exact absurd (by simp [he]) hp
  unfold State.rtsSet
  split_ifs
  · exact ⟨h.endpoint, h.free, h.vmreq, h.req, h.empty, rfl⟩
  · exact h

theorem record (e : Event) : k.VmSame (k.record e) := of_proc rfl rfl

theorem hand (via : Via) (s d : Slot) (m : Message) : k.VmSame (k.hand via s d m) := by
  have h : k.VmSame (k.queueMess (k.proc s).pEndpoint m d) := modProc rfl rfl rfl
  exact h.trans (record _)

theorem miniNotify (c : Slot) (e : Endpoint) : k.VmSame (k.miniNotify c e).2 := by
  unfold State.miniNotify
  split
  · exact refl k
  · rename_i d _
    split_ifs
    · have h : k.VmSame (k.buildNotifyMessage c d).2 := by
        unfold buildNotifyMessage
        split_ifs <;> exact of_proc rfl rfl
      exact (h.trans (hand _ _ _ _)).trans (rtsUnset (by simp) (by simp))
    · exact of_proc rfl rfl

theorem frame : Frame VmSame where
  refl := refl
  trans := trans
  of_proc := of_proc
  of_core k p f hf := by
    have h := hf (k.proc p)
    simp only [Proc.core, Proc.mk.injEq] at h
    apply modProc <;> simp [h]
  clearFlag k p f hf := by
    have h1 : f ≠ .slotFree ∧ f ≠ .vmrequest := by rcases hf with rfl | rfl <;> decide
    refine flags (· \ {f}) (by simp [h1.1.symm]) (by simp [h1.2.symm]) fun he => ?_
    rw [he]
    simpa using h1.1.symm

theorem miniSend {c : Slot} (hc : .slotFree ∉ (k.proc c).pRtsFlags) (e : Endpoint) (buf : MsgBuf) (nb : Bool) :
    k.VmSame (k.miniSend c e buf nb).2 := by
  unfold State.miniSend
  by_cases hb : buf.lin = 0
  · rw [if_pos hb]
    exact refl k
  rw [if_neg hb]
  cases procAddr (endpointP e) with
  | none => exact of_proc rfl rfl
  | some d =>
    cases buf.data with
    | none =>
      dsimp only
      split_ifs <;> exact refl k
    | some m =>
      dsimp only
      split_ifs
      · exact refl k
      · refine .trans (.trans ?_ (hand .send c d m)) (rtsUnset (by simp) (by simp))
        exact of_proc rfl rfl
      · exact refl k
      · set k1 := k.modProc c fun r => { r with pSendmsg := m } with hk1
        have h1 : k.VmSame k1 := modProc rfl rfl rfl
        have h2 := h1.trans (rtsSet (f := {.sending}) (mt (h1.free c).mp hc) (by simp) (by simp))
        set k2 := (k1.rtsSet c {.sending}).modProc c fun r => { r with pSendtoE := e }
        have h3 : k.VmSame k2 := h2.trans (modProc rfl rfl rfl)
        split
        · exact h3.trans (of_proc rfl rfl)
        · exact ((h3.trans ((frame.clears d).storeQ _ _ _)).trans (modProc rfl rfl rfl)).trans (record _)

theorem sysReply (hs : .slotFree ∉ (k.proc SYSTEM).pRtsFlags) (d : Slot) (m : Message) : k.VmSame (k.sysReply d m) := by
  unfold State.sysReply
  split_ifs
  · exact miniSend hs ..
  · exact refl k

theorem clearEndpoint {rc : Slot} (hrc : .slotFree ∉ (k.proc rc).pRtsFlags) : k.VmSame (k.clearEndpoint rc) :=
  frame.clearEndpoint (rtsSet hrc (by simp) (by simp))

end VmSame

/-! ## Slots and endpoints -/

/-- A free slot has no other flag, and the endpoint of a process has its slot number. -/
structure Sane (k : State) : Prop where
  tidy : ∀ p, .slotFree ∈ (k.proc p).pRtsFlags → (k.proc p).pRtsFlags = {.slotFree}
  ep : ∀ p, ∃ g, 0 ≤ g ∧ (k.proc p).pEndpoint = Kernel.endpoint g (procNr p)

variable {k k' : State} {p : Slot}

theorem Sane.same (h : k.Sane) (hs : k.VmSame k') : k'.Sane where
  tidy p hp := hs.empty p (h.tidy p ((hs.free p).mp hp))
  ep p := by rw [hs.endpoint]; exact h.ep p

theorem Sane.valid (h : k.Sane) (hp : .slotFree ∉ (k.proc p).pRtsFlags) :
    k.isokendpt (k.proc p).pEndpoint = some p := by
  obtain ⟨g, hg, he⟩ := h.ep p
  refine isokendpt_iff.mpr ⟨?_, ?_, rfl⟩
  · rw [he, endpointP_endpoint hg, procAddr_procNr]
  · simp only [State.view, decide_eq_false_iff_not]
    intro hf
    exact hp (by simp [hf])

theorem Sane.of_valid (h : k.Sane) {e : Endpoint} (hp : k.isokendpt e = some p) :
    .slotFree ∉ (k.proc p).pRtsFlags ∧ (k.proc p).pEndpoint = e := by
  obtain ⟨h1, h2⟩ := isokendpt_some hp
  refine ⟨fun hf => ?_, h2⟩
  have := h.tidy p hf
  simp [State.view, this] at h1

/-- `vm_suspend` puts the caller at the head of the chain. -/
structure Suspended (k : State) (c t : Slot) (type : VmsType) (k' : State) : Prop where
  endpoint : ∀ p, (k'.proc p).pEndpoint = (k.proc p).pEndpoint
  free : ∀ p, .slotFree ∈ (k'.proc p).pRtsFlags ↔ .slotFree ∈ (k.proc p).pRtsFlags
  vmreq : ∀ p, .vmrequest ∈ (k'.proc p).pRtsFlags ↔ p = c ∨ .vmrequest ∈ (k.proc p).pRtsFlags
  empty : ∀ p, (k.proc p).pRtsFlags = {.slotFree} → (k'.proc p).pRtsFlags = {.slotFree}
  req : ∀ p, p ≠ c → (k'.proc p).pVmrequest = (k.proc p).pVmrequest
  next : (k'.proc c).pVmrequest.nextrequestor = k.vmrequest
  type : (k'.proc c).pVmrequest.type = type
  who : (k'.proc c).pVmrequest.who = (k.proc t).pEndpoint
  chain : k'.vmrequest = some c

theorem vmSuspend_suspended {c : Slot} (hc : .slotFree ∉ (k.proc c).pRtsFlags) (t : Slot) (lin len : Nat)
    (type : VmsType) : k.Suspended c t type (k.vmSuspend c t lin len type) := by
  unfold vmSuspend
  have h1 : ∀ p, ((k.rtsSet c {.vmrequest}).proc p) =
      if p = c then { k.proc p with pRtsFlags := (k.proc p).pRtsFlags ∪ {.vmrequest} } else k.proc p := by
    intro p
    unfold rtsSet
    split_ifs <;> simp_all [modProc, dequeue]
  have hv : (k.rtsSet c {.vmrequest}).vmrequest = k.vmrequest := by
    unfold rtsSet
    split_ifs <;> rfl
  set k1 := k.rtsSet c {.vmrequest}
  set r : VmRequest := { nextrequestor := k1.vmrequest, type := type, start := lin, length := len, writeflag := 1,
                         who := (k1.proc t).pEndpoint } with hr
  set k2 := k1.modProc c fun p => { p with pVmrequest := r } with hk2
  have h2 : ∀ p, k2.proc p = if p = c then { k1.proc p with pVmrequest := r } else k1.proc p := by
    intro p
    by_cases hp : p = c <;> simp [hk2, modProc, hp]
  set k3 := if k2.vmrequest = none then (k2.miniNotify SYSTEM (procNr VM)).2 else k2 with hk3
  have h3 : k2.VmSame k3 := by
    rw [hk3]
    split_ifs
    · exact .miniNotify ..
    · exact .refl _
  have he : ∀ p, (k2.proc p).pEndpoint = (k.proc p).pEndpoint := by
    intro p
    rw [h2, h1]
    split_ifs <;> rfl
  have hf : ∀ p, (k2.proc p).pRtsFlags =
      if p = c then (k.proc p).pRtsFlags ∪ {.vmrequest} else (k.proc p).pRtsFlags := by
    intro p
    rw [h2, h1]
    split_ifs <;> rfl
  have hq : ((k2.proc c).pVmrequest) = r := by rw [h2, if_pos rfl]
  refine ⟨fun p => (h3.endpoint p).trans (he p), fun p => (h3.free p).trans ?_, fun p => (h3.vmreq p).trans ?_,
    fun p hp => h3.empty p ?_, fun p hp => (h3.req p).trans ?_, ?_, ?_, ?_, rfl⟩
  · rw [hf]
    split_ifs <;> simp
  · rw [hf]
    split_ifs with h <;> simp [h]
  · rw [hf]
    split_ifs with h
    · subst h
      exact absurd (by simp [hp]) hc
    · exact hp
  · rw [h2, if_neg hp, h1, if_neg hp]
  · exact (congrArg VmRequest.nextrequestor ((h3.req c).trans hq)).trans hv
  · exact congrArg VmRequest.type ((h3.req c).trans hq)
  · refine (congrArg VmRequest.who ((h3.req c).trans hq)).trans ?_
    rw [hr]
    rw [h1]
    split_ifs <;> rfl

end State

end Minix.Kernel
