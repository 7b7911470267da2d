import Minix.Kernel.System

/-!
# What message passing depends on

`View` has one column for each thing that the message passing of the kernel depends on: of the runtime flags whether a
process is sending or receiving, has lost its endpoint or has a free slot, of the other fields the two endpoints it
waits for, the caller queues and the messages. `State.view` forgets the rest (scheduling, signals, timers), so that a
function that does nothing to the messages leaves the view as it is.

The operations on views (`handTo`, `unrecv`, `listen`, `block`, `unlink`) are what a system call is made of.
-/

namespace Minix.Kernel

open Minix.Lib Function

/-- The part of the kernel's state that message passing depends on, by columns. -/
@[ext] structure View where
  endpoint : Slot → Endpoint
  privId : Slot → PrivId
  empty : Slot → Bool
  free : Slot → Bool
  noEp : Slot → Bool
  sending : Slot → Bool
  receiving : Slot → Bool
  getfrom : Slot → Endpoint
  sendto : Slot → Endpoint
  callerQ : Slot → Option Slot
  qLink : Slot → Option Slot
  sendmsg : Slot → Message
  delivermsg : Slot → Message
  deliver : Slot → Bool
  asyn : Slot → Bool
  procOf : PrivId → Option Slot
  sysPriv : PrivId → Bool
  ipcTo : PrivId → Finset PrivId
  asynsize : PrivId → Nat
  tab : Slot → Nat → AsynMsg
  log : List Event

/-- The view of a state. -/
def State.view (k : State) : View where
  endpoint p := (k.proc p).pEndpoint
  privId p := (k.proc p).pPriv
  empty p := (k.proc p).pRtsFlags = {RtsFlag.slotFree}
  free p := .slotFree ∈ (k.proc p).pRtsFlags
  noEp p := .noEndpoint ∈ (k.proc p).pRtsFlags
  sending p := .sending ∈ (k.proc p).pRtsFlags
  receiving p := .receiving ∈ (k.proc p).pRtsFlags
  getfrom p := (k.proc p).pGetfromE
  sendto p := (k.proc p).pSendtoE
  callerQ p := (k.proc p).pCallerQ
  qLink p := (k.proc p).pQLink
  sendmsg p := (k.proc p).pSendmsg
  delivermsg p := (k.proc p).pDelivermsg
  deliver p := .delivermsg ∈ (k.proc p).pMiscFlags
  asyn p := .asynmsg ∈ (k.proc p).pMiscFlags
  procOf i := (k.priv i).sProcNr
  sysPriv i := .sysProc ∈ (k.priv i).sFlags
  ipcTo i := (k.priv i).sIpcTo
  asynsize i := (k.priv i).sAsynsize
  tab := k.tab
  log := k.log

namespace View

variable (v : View)

/-- The process exists and can be sent messages. -/
def live (p : Slot) : Prop := v.free p = false ∧ v.noEp p = false

/-- A new event of the history. -/
def record (e : Event) : View := { v with log := v.log ++ [e] }

/-- A message of `s` is put into `p_delivermsg` of `d`. -/
def handTo (via : Via) (s d : Slot) (m : Message) : View :=
  { v with
    delivermsg := update v.delivermsg d { m with mSource := v.endpoint s }
    deliver := update v.deliver d true
    log := v.log ++ [.handed via s d { m with mSource := v.endpoint s }] }

/-- `d` no longer waits for a message. -/
def unrecv (d : Slot) : View := { v with receiving := update v.receiving d false }

/-- `c` waits for a message of `e`. -/
def listen (c : Slot) (e : Endpoint) : View :=
  { v with receiving := update v.receiving c true, getfrom := update v.getfrom c e }

/-- A pointer of the caller queue of `d` is set. -/
def storeQ (d : Slot) (x : Loc Slot) (q : Option Slot) : View :=
  { v with
    callerQ := update v.callerQ d (x.setHead (v.callerQ d) q)
    qLink := x.setNext v.qLink q }

/-- `p` is not sending any more. -/
def unsend (p : Slot) : View := { v with sending := update v.sending p false }

/-- `c` is sending `m` to endpoint `e`. -/
def send (c : Slot) (e : Endpoint) (m : Message) : View :=
  { v with
    sendmsg := update v.sendmsg c m
    sending := update v.sending c true
    sendto := update v.sendto c e }

end View

/-! ## Views of updated states -/

/-- An entry of the process table without the fields that message passing does not read. -/
def Proc.ipc (r : Proc) : Proc :=
  { r with pMiscFlags := ∅, pPending := 0, pDelivermsgVir := 0, pDelivermsgLin := 0, pVmrequest := {}, retreg := 0 }

/-- Two entries of the process table that message passing cannot tell apart. -/
structure Proc.Same (r r' : Proc) : Prop where
  ipc : r'.ipc = r.ipc
  deliver : .delivermsg ∈ r'.pMiscFlags ↔ .delivermsg ∈ r.pMiscFlags
  asyn : .asynmsg ∈ r'.pMiscFlags ↔ .asynmsg ∈ r.pMiscFlags

/-- What message passing reads of a privilege structure. -/
def Priv.ipc (r : Priv) : Option Slot × Finset PrivFlag × Finset PrivId × Nat :=
  (r.sProcNr, r.sFlags, r.sIpcTo, r.sAsynsize)

namespace State

variable {k : State} {p : Slot}

@[simp] theorem view_record (e : Event) : (k.record e).view = k.view.record e := rfl

theorem view_same {f : Proc → Proc} (h : (k.proc p).Same (f (k.proc p))) : (k.modProc p f).view = k.view := by
  have hi := h.ipc
  simp only [Proc.ipc, Proc.mk.injEq, true_and, and_true] at hi
  simp only [State.view, modProc]
  congr 1 <;> funext q <;> by_cases hq : q = p <;> simp [hq, hi, h.deliver, h.asyn]

theorem view_same_priv {i : PrivId} {f : Priv → Priv} (h : (f (k.priv i)).ipc = (k.priv i).ipc) :
    (k.modPriv i f).view = k.view := by
  simp only [Priv.ipc, Prod.mk.injEq] at h
  obtain ⟨h1, h2, h3, h4⟩ := h
  simp only [State.view, modPriv]
  congr 1 <;> funext q <;> by_cases hq : q = i <;> simp [hq, h1, h2, h3, h4]

theorem view_asynsize (i : PrivId) (n : Nat) : (k.modPriv i fun r => { r with sAsynsize := n }).view =
    { k.view with asynsize := update k.view.asynsize i n } := by
  simp only [State.view, modPriv]
  congr 1 <;> funext q <;> by_cases hq : q = i <;> simp [hq]

/-! ### Runtime flags -/

theorem view_flags (g : Finset RtsFlag → Finset RtsFlag) :
    (k.modProc p fun r => { r with pRtsFlags := g r.pRtsFlags }).view = { k.view with
      empty := update k.view.empty p (g (k.proc p).pRtsFlags = {RtsFlag.slotFree})
      free := update k.view.free p (.slotFree ∈ g (k.proc p).pRtsFlags)
      noEp := update k.view.noEp p (.noEndpoint ∈ g (k.proc p).pRtsFlags)
      sending := update k.view.sending p (.sending ∈ g (k.proc p).pRtsFlags)
      receiving := update k.view.receiving p (.receiving ∈ g (k.proc p).pRtsFlags) } := by
  simp only [State.view, modProc]
  congr 1 <;> funext q <;> by_cases hq : q = p <;> simp [hq]

theorem slotFree_notMem (hp : k.view.free p = false) : RtsFlag.slotFree ∉ (k.proc p).pRtsFlags := by
  simpa [State.view] using hp

/-- A change of runtime flags that leaves the slot in use. -/
theorem view_flags_of_used (g : Finset RtsFlag → Finset RtsFlag) (hp : k.view.free p = false)
    (hg : .slotFree ∉ g (k.proc p).pRtsFlags) :
    (k.modProc p fun r => { r with pRtsFlags := g r.pRtsFlags }).view = { k.view with
      noEp := update k.view.noEp p (.noEndpoint ∈ g (k.proc p).pRtsFlags)
      sending := update k.view.sending p (.sending ∈ g (k.proc p).pRtsFlags)
      receiving := update k.view.receiving p (.receiving ∈ g (k.proc p).pRtsFlags) } := by
  have hp' := slotFree_notMem hp
  have hne : (k.proc p).pRtsFlags ≠ {.slotFree} := fun h => hp' (by simp [h])
  have hne' : g (k.proc p).pRtsFlags ≠ {.slotFree} := fun h => hg (by simp [h])
  rw [view_flags]
  simp [State.view, hp', hg, hne, hne']

theorem view_rtsSet (f : Finset RtsFlag) :
    (k.rtsSet p f).view = (k.modProc p fun r => { r with pRtsFlags := r.pRtsFlags ∪ f }).view := by
  unfold rtsSet
  split <;> rfl

theorem view_rtsUnset (f : Finset RtsFlag) :
    (k.rtsUnset p f).view = (k.modProc p fun r => { r with pRtsFlags := r.pRtsFlags \ f }).view := by
  unfold rtsUnset
  dsimp only
  split <;> rfl

section

variable (hp : k.view.free p = false)

include hp

theorem view_rtsSet_quiet {f : Finset RtsFlag}
    (hf : ∀ x ∈ f, x ∉ ({.slotFree, .noEndpoint, .sending, .receiving} : Finset RtsFlag)) :
    (k.rtsSet p f).view = k.view := by
  have hp' := slotFree_notMem hp
  have hn : ∀ x ∈ ({.slotFree, .noEndpoint, .sending, .receiving} : Finset RtsFlag), x ∉ f := fun x hx h => hf x h hx
  simp only [Finset.mem_insert, Finset.mem_singleton, forall_eq_or_imp, forall_eq] at hn
  rw [view_rtsSet, view_flags_of_used (· ∪ f) hp (by simp [hp', hn.1])]
  simp [State.view, hn]

theorem view_rtsUnset_quiet {f : Finset RtsFlag}
    (hf : ∀ x ∈ f, x ∉ ({.slotFree, .noEndpoint, .sending, .receiving} : Finset RtsFlag)) :
    (k.rtsUnset p f).view = k.view := by
  have hp' := slotFree_notMem hp
  have hn : ∀ x ∈ ({.slotFree, .noEndpoint, .sending, .receiving} : Finset RtsFlag), x ∉ f := fun x hx h => hf x h hx
  rw [view_rtsUnset, view_flags_of_used (· \ f) hp (by simp [hp'])]
  simp [State.view, hn]

theorem view_rtsSet_sending :
    (k.rtsSet p {.sending}).view = { k.view with sending := update k.view.sending p true } := by
  have hp' := slotFree_notMem hp
  rw [view_rtsSet, view_flags_of_used (· ∪ {.sending}) hp (by simp [hp'])]
  simp [State.view]

theorem view_rtsSet_receiving :
    (k.rtsSet p {.receiving}).view = { k.view with receiving := update k.view.receiving p true } := by
  have hp' := slotFree_notMem hp
  rw [view_rtsSet, view_flags_of_used (· ∪ {.receiving}) hp (by simp [hp'])]
  simp [State.view]

theorem view_rtsSet_noEndpoint : (k.rtsSet p {.noEndpoint}).view =
    { k.view with noEp := update k.view.noEp p true } := by
  have hp' := slotFree_notMem hp
  rw [view_rtsSet, view_flags_of_used (· ∪ {.noEndpoint}) hp (by simp [hp'])]
  simp [State.view]

theorem view_clear_receiving :
    (k.modProc p fun r => { r with pRtsFlags := r.pRtsFlags \ {.receiving} }).view = k.view.unrecv p := by
  have hp' := slotFree_notMem hp
  rw [view_flags_of_used (· \ {.receiving}) hp (by simp [hp'])]
  simp [State.view, View.unrecv]

theorem view_clear_sending : (k.modProc p fun r => { r with pRtsFlags := r.pRtsFlags \ {.sending} }).view =
    k.view.unsend p :=
    by
  have hp' := slotFree_notMem hp
  rw [view_flags_of_used (· \ {.sending}) hp (by simp [hp'])]
  simp [State.view, View.unsend]

theorem view_rtsUnset_receiving : (k.rtsUnset p {.receiving}).view = k.view.unrecv p := by
  rw [view_rtsUnset, view_clear_receiving hp]

theorem view_rtsUnset_sending : (k.rtsUnset p {.sending}).view = k.view.unsend p := by
  rw [view_rtsUnset, view_clear_sending hp]

end

/-! ### Messages and queues -/

@[simp] theorem view_hand (via : Via) (s d : Slot) (m : Message) :
    (k.hand via s d m).view = k.view.handTo via s d m := by
  simp only [State.view, hand, queueMess, record, modProc, View.handTo]
  congr 1 <;> funext q <;> by_cases hq : q = d <;> simp [hq]

@[simp] theorem view_storeQ (d : Slot) (x : Loc Slot) (q : Option Slot) :
    (k.storeQ d x q).view = k.view.storeQ d x q := by
  cases x with
  | head =>
    simp only [State.view, storeQ, modProc, View.storeQ, Loc.setHead, Loc.setNext]
    congr 1 <;> funext r <;> by_cases hr : r = d <;> simp [hr]
  | link a =>
    simp only [State.view, storeQ, modProc, View.storeQ, Loc.setHead, Loc.setNext]
    congr 1 <;> funext r <;> by_cases hr : r = a <;> simp [hr]

theorem view_getfrom (e : Endpoint) : (k.modProc p fun r => { r with pGetfromE := e }).view =
    { k.view with getfrom := update k.view.getfrom p e } := by
  simp only [State.view, modProc]
  congr 1 <;> funext q <;> by_cases hq : q = p <;> simp [hq]

theorem view_sendto (e : Endpoint) : (k.modProc p fun r => { r with pSendtoE := e }).view =
    { k.view with sendto := update k.view.sendto p e } := by
  simp only [State.view, modProc]
  congr 1 <;> funext q <;> by_cases hq : q = p <;> simp [hq]

theorem view_sendmsg (m : Message) : (k.modProc p fun r => { r with pSendmsg := m }).view =
    { k.view with sendmsg := update k.view.sendmsg p m } := by
  simp only [State.view, modProc]
  congr 1 <;> funext q <;> by_cases hq : q = p <;> simp [hq]

theorem view_qLink (x : Option Slot) : (k.modProc p fun r => { r with pQLink := x }).view =
    { k.view with qLink := update k.view.qLink p x } := by
  simp only [State.view, modProc]
  congr 1 <;> funext q <;> by_cases hq : q = p <;> simp [hq]

end State

end Minix.Kernel
