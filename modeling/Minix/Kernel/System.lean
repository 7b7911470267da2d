import Minix.Kernel.Ipc

/-!
# Process creation and death, and runs of the kernel

`clear_endpoint` (`kernel/system.c`), `do_exit`, `do_kill` and `do_fork` (`kernel/system/`), the reply of `sys_task`,
and the step function `State.step`: an operation is possible or not (a blocked process makes no calls), and the kernel
goes on unless it has halted.
-/

namespace Minix.Kernel

open Minix.Lib Function

namespace State

variable (k : State)

/-! ## Death -/

/-- `clear_endpoint` takes `rc` from the queue of the process it is sending to. -/
def unqueue (rc : Slot) : State :=
  match k.isokendpt (k.proc rc).pSendtoE with
  | none => k.halt
  | some t =>
    match scan (k.proc t).pCallerQ k.qLink (fun p => p = rc) loopFuel .head with
    | none => k.halt
    | some x =>
      match x.get (k.proc t).pCallerQ k.qLink with
      | none => k
      | some _ => k.storeQ t x (k.qLink rc)

/-- `rp` no longer waits for `rc`, in one of the two ways. -/
def wakeWith (rp : Slot) (f : RtsFlag) (r : Int) : State :=
  (k.modProc rp fun p => { p with retreg := r }).rtsUnset rp {f}

/-- One process of the loop of `clear_endpoint`. -/
def clearRef (rc : Slot) (k : State) (rp : Slot) : State :=
  if k.isemptyp rp then k
  else
    let k := k.modPriv (k.proc rp).pPriv fun r =>
      { r with sNotifyPending := r.sNotifyPending.erase (k.proc rc).pPriv }
    let k :=
      if k.rtsIsset rp .receiving ∧ (k.proc rp).pGetfromE = (k.proc rc).pEndpoint then
        k.wakeWith rp .receiving ESRCDIED
      else k
    if k.rtsIsset rp .sending ∧ (k.proc rp).pSendtoE = (k.proc rc).pEndpoint then k.wakeWith rp .sending EDSTDIED
    else k

/-- `rp->p_rts_flags &= ~f`, without the scheduling of `RTS_UNSET`. -/
def clearFlag (p : Slot) (f : RtsFlag) : State := k.modProc p fun r => { r with pRtsFlags := r.pRtsFlags \ {f} }

/-- `clear_endpoint(rc)`. -/
def clearEndpoint (rc : Slot) : State :=
  if k.isemptyp rc then k.halt
  else if (k.proc rc).pEndpoint = procNr PM ∨ (k.proc rc).pEndpoint = procNr VFS ∨
      (k.proc rc).pEndpoint = procNr VM then k.halt
  else
    let k := k.rtsSet rc {.noEndpoint}
    let k :=
      if .sysProc ∈ k.privFlags rc then k.modPriv (k.proc rc).pPriv fun r => { r with sAsynsize := 0 } else k
    let k := if k.rtsIsset rc .sending then (k.unqueue rc).clearFlag rc .sending else k
    let k := k.clearFlag rc .receiving
    allSlots.foldl (clearRef rc) k

/-- `clear_proc(rc)`. A panic in `clear_endpoint` does not return. -/
def clearProc (rc : Slot) : State :=
  if k.isemptyp rc then k
  else
    let k := k.clearEndpoint rc
    if k.sched.halted then k
    else
      let k := k.rtsSetFlags rc {.slotFree}
      if .sysProc ∈ k.privFlags rc then k.modPriv (k.proc rc).pPriv fun r => { r with sProcNr := none } else k

/-- `do_exit(m_ptr)`, requested by `whoP`. -/
def doExit (whoP : Slot) (prEndpt : Endpoint) : Int × State :=
  if whoP = PM ∧ prEndpt ≠ SELF then
    match k.isokendpt prEndpt with
    | none => (EINVAL, k)
    | some p => (OK, k.clearProc p)
  else (EDONTREPLY, k.clearProc whoP)

/-- `do_kill(m_ptr)`. -/
def doKill (sigEndpt : Endpoint) (sig : Nat) : Int × State :=
  match k.isokendpt sigEndpt with
  | none => (EINVAL, k)
  | some p =>
    if sig > 26 then (EINVAL, k)
    else if procNr p < 0 then (EPERM, k)
    else
      let k := k.causeSig p sig
      (OK, if sig = SIGKILL then k.clearEndpoint p else k)

/-! ## Fork -/

/-- The generation of the next endpoint in a slot. -/
def nextGen (e : Endpoint) : Int := if endpointG e + 1 ≥ endpointMaxGeneration then 1 else endpointG e + 1

/-- The child's entry of the process table: a copy of the parent's with some fields set anew. -/
def childProc (rpp : Proc) (rpc : Slot) (e : Endpoint) (parentSys : Bool) (lin : Nat) : Proc :=
  { rpp with
    pEndpoint := endpoint (nextGen e) (procNr rpc)
    retreg := 0
    pMiscFlags := rpp.pMiscFlags \ {.virtTimer, .profTimer, .scTrace}
    pPriv := if parentSys then userPrivId else rpp.pPriv
    pRtsFlags := if parentSys then rpp.pRtsFlags ∪ {.noPriv} else rpp.pRtsFlags
    pDelivermsgLin := lin }

/-- The scheduling fields of the child are the parent's; the two share the quantum. -/
def forkSched (s : Sched) (rpp rpc : Slot) : Sched :=
  let t := s.pTicksLeft rpp
  { s with
    pPriority := update s.pPriority rpc (s.pPriority rpp)
    pMaxPriority := update s.pMaxPriority rpc (s.pMaxPriority rpp)
    pQuantumSize := update s.pQuantumSize rpc (s.pQuantumSize rpp)
    pNextready := update s.pNextready rpc (s.pNextready rpp)
    pTicksLeft := update (update s.pTicksLeft rpc ((t + 1).tdiv 2)) rpp (t.tdiv 2) }

/-- `do_fork(m_ptr)`. The argument `lin` is what `FIXLINMSG` finds in the new map. -/
def doFork (prEndpt : Endpoint) (rpc : Slot) (vminhibit : Bool) (lin : Nat) : Int × State :=
  match k.isokendpt prEndpt with
  | none => (EINVAL, k)
  | some rpp =>
    if k.isemptyp rpp ∨ ¬ k.isemptyp rpc then (EINVAL, k)
    else if !k.rtsIsset rpp .receiving then (EINVAL, k)
    else if (k.priv (k.proc rpp).pPriv).sAsynsize > 0 then (EINVAL, k)
    else
      let child := childProc (k.proc rpp) rpc (k.proc rpc).pEndpoint (.sysProc ∈ k.privFlags rpp) lin
      let k := { k with proc := update k.proc rpc child, sched := forkSched k.sched rpp rpc }
      let k := if vminhibit then k.rtsSet rpc {.vminhibit} else k
      let k := k.rtsUnset rpc {.signaled, .sigPending, .pStop}
      (OK, k.modProc rpc fun r => { r with pPending := 0 })

theorem rtsUnset_fixed (k : State) (p : Slot) (f : Finset RtsFlag) :
    (k.rtsUnset p f).proc = (k.modProc p fun r => { r with pRtsFlags := r.pRtsFlags \ f }).proc ∧
      (k.rtsUnset p f).priv = k.priv ∧ (k.rtsUnset p f).tab = k.tab ∧ (k.rtsUnset p f).log = k.log := by
  unfold rtsUnset
  dsimp only
  split_ifs <;> exact ⟨rfl, rfl, rfl, rfl⟩

theorem rtsUnset_proc (k : State) (p : Slot) (f : Finset RtsFlag) (q : Slot) : (k.rtsUnset p f).proc q =
    if q = p then { k.proc q with pRtsFlags := (k.proc q).pRtsFlags \ f } else k.proc q := by
  rw [(rtsUnset_fixed k p f).1]
  by_cases hq : q = p <;> simp [modProc, hq]

theorem rtsSet_proc (k : State) (p : Slot) (f : Finset RtsFlag) (q : Slot) : (k.rtsSet p f).proc q =
    if q = p then { k.proc q with pRtsFlags := (k.proc q).pRtsFlags ∪ f } else k.proc q := by
  unfold rtsSet
  by_cases hq : q = p <;> split_ifs <;> simp [modProc, hq, dequeue]

/-- The state with an entry for the child. -/
def withChild (rpp rpc : Slot) (lin : Nat) : State :=
  { k with
    proc := update k.proc rpc (childProc (k.proc rpp) rpc (k.proc rpc).pEndpoint (.sysProc ∈ k.privFlags rpp) lin)
    sched := forkSched k.sched rpp rpc }

/-- The state after a fork. -/
def forked (rpp rpc : Slot) (vminhibit : Bool) (lin : Nat) : State :=
  ((if vminhibit then (k.withChild rpp rpc lin).rtsSet rpc {.vminhibit} else k.withChild rpp rpc lin).rtsUnset rpc
    {.signaled, .sigPending, .pStop}).modProc rpc fun r => { r with pPending := 0 }

/-- `do_fork` fails, or the parent is a process that waits for a message. -/
theorem doFork_cases (e : Endpoint) (rpc : Slot) (vm : Bool) (lin : Nat) : k.doFork e rpc vm lin = (EINVAL, k) ∨
    ∃ rpp, k.isokendpt e = some rpp ∧ ¬k.isemptyp rpp ∧ k.isemptyp rpc = true ∧ k.rtsIsset rpp .receiving = true ∧
      k.doFork e rpc vm lin = (OK, k.forked rpp rpc vm lin) := by
  unfold doFork
  split
  · exact .inl rfl
  next rpp hp =>
  split
  · exact .inl rfl
  next hno =>
  split
  · exact .inl rfl
  next hr =>
  split
  · exact .inl rfl
  obtain ⟨h1, h2⟩ := not_or.mp hno
  exact .inr ⟨rpp, hp, h1, not_not.mp h2, by simpa using hr, rfl⟩

theorem forked_proc (rpp rpc : Slot) (vm : Bool) (lin : Nat) (q : Slot) : (k.forked rpp rpc vm lin).proc q =
    if q = rpc then
      let r := childProc (k.proc rpp) rpc (k.proc rpc).pEndpoint (.sysProc ∈ k.privFlags rpp) lin
      { r with pRtsFlags := (r.pRtsFlags ∪ if vm then {.vminhibit} else ∅) \ {.signaled, .sigPending, .pStop}
               pPending := 0 }
    else k.proc q := by
  have hself : (k.withChild rpp rpc lin).proc rpc = _ := update_self ..
  have hother (h : q ≠ rpc) : (k.withChild rpp rpc lin).proc q = k.proc q := update_of_ne h ..
  unfold forked
  by_cases hq : q = rpc
  · subst hq
    simp only [modProc, update_self, rtsUnset_proc]
    cases vm <;> simp [rtsSet_proc, hself]
  · simp only [modProc, update_of_ne hq, rtsUnset_proc, if_neg hq]
    cases vm <;> simp [rtsSet_proc, hq, hother]

theorem forked_fixed (rpp rpc : Slot) (vm : Bool) (lin : Nat) :
    (k.forked rpp rpc vm lin).priv = k.priv ∧ (k.forked rpp rpc vm lin).vmrequest = k.vmrequest := by
  unfold forked rtsUnset rtsSet
  dsimp only
  split_ifs <;> exact ⟨rfl, rfl⟩

/-! ## Runs -/

/-- The reply of `sys_task` to `dst`, sent only when it is waiting for it. -/
def sysReply (dst : Slot) (m : Message) : State :=
  if k.willReceive dst (procNr SYSTEM) then (k.miniSend SYSTEM (k.proc dst).pEndpoint ⟨0, 1, some m⟩ false).2 else k

end State

/-- What can happen to the kernel. -/
inductive Op
  /-- Process `c` traps. -/
  | call (c : Slot) (a : CallArgs)
  /-- Process `p` is about to run: a round of `schedcheck`. -/
  | resume (p : Slot) (a : CallArgs) (fault : Bool)
  /-- `mini_notify` by a task or an interrupt handler. -/
  | notify (src : Slot) (dstE : Endpoint)
  | reply (dst : Slot) (m : Message)
  | exit (whoP : Slot) (prEndpt : Endpoint)
  | kill (sigEndpt : Endpoint) (sig : Nat)
  | fork (prEndpt : Endpoint) (rpc : Slot) (vminhibit : Bool) (lin : Nat)

namespace State

variable (k : State)

/-- A process can run: no runtime flag is set. -/
def runnable (p : Slot) : Bool := (k.proc p).pRtsFlags = ∅

/-- The process whose code runs becomes `proc_ptr`. -/
def running (p : Slot) : State := { k with sched := { k.sched with procPtr := p } }

/-- The effect of an operation, if it is possible. -/
def exec : Op → Option State
  | .call c a =>
    if k.runnable c && !k.mf c .delivermsg && !k.mf c .scDefer then some ((k.running c).trap c a) else none
  | .resume p a fault => if k.runnable p then some ((k.running p).schedcheckRound p a fault) else none
  | .notify src dstE => some (k.miniNotify src dstE).2
  | .reply dst m => if k.runnable SYSTEM then some ((k.running SYSTEM).sysReply dst m) else none
  | .exit whoP e => if k.isemptyp whoP then none else some (k.doExit whoP e).2
  | .kill e sig => some (k.doKill e sig).2
  | .fork e rpc v lin => some (k.doFork e rpc v lin).2

/-- One step of the kernel, which goes on unless it has halted. -/
def step (o : Op) : Option State := (k.exec o).filter fun k => !k.sched.halted

variable {k} in
theorem exec_of_step {o : Op} {k' : State} (h : k.step o = some k') : k.exec o = some k' ∧ k'.sched.halted = false := by
  simpa [step, Option.filter_eq_some_iff] using h

end State

end Minix.Kernel
