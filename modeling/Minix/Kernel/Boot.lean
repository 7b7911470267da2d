import Minix.Kernel.System

/-!
# Start states

`State.Initial` is what is known of message passing when the system starts. `startState l` is a system with the
processes `l`, and `sixState` one with the idle task, the system task, three servers and INIT.
-/

namespace Minix.Kernel

namespace State

/-- A state in which the system starts: endpoints of generation zero, no blocked processes, empty queues, no messages.
-/
structure Initial (k : State) : Prop where
  endpoint : ∀ p, (k.proc p).pEndpoint = procNr p
  flags : ∀ p, (k.proc p).pRtsFlags = {.slotFree} ∨
    (k.proc p).pRtsFlags ∩ {.slotFree, .noEndpoint, .sending, .receiving} = ∅
  callerQ : ∀ p, (k.proc p).pCallerQ = none
  deliver : ∀ p, .delivermsg ∉ (k.proc p).pMiscFlags
  asynsize : ∀ i, (k.priv i).sAsynsize = 0
  log : k.log = []

end State

/-- A kernel without processes. Privilege structure `i + 1` is for the process in slot `i`, and structure 0 is shared.
-/
def blankState : State where
  proc p := { pEndpoint := procNr p, pPriv := if (p : Nat) < 31 then Fin.ofNat 32 (p + 1) else userPrivId }
  priv i :=
    { sProcNr := some (if i = userPrivId then INIT else Fin.ofNat 104 (i - 1))
      sFlags := if i = userPrivId then {.preemptible, .billable} else {.sysProc, .preemptible}
      sTrapMask := -1
      sIpcTo := Finset.univ }
  sched :=
    { pPriority := fun p => if p = IDLE then idleQ else 7
      pMaxPriority := fun p => if p = IDLE then idleQ else 7
      pTicksLeft := fun _ => 8
      pQuantumSize := fun _ => 8
      pNextready := fun _ => none
      rdyHead := fun _ => none
      rdyTail := fun _ => none
      procPtr := IDLE
      nextPtr := none
      billPtr := IDLE
      prevPtr := IDLE
      halted := false
      picked := false }
  vmrequest := none
  realtime := 0
  tab _ _ := {}
  log := []

/-- The system with the processes `l`. -/
def startState (l : List Slot) : State := l.foldl (fun k p => k.rtsUnset p {.slotFree}) blankState

/-- A call with a valid message buffer. -/
def plainCall (c : Slot) (callNr : Int) (e : Endpoint) : Op :=
  .call c { callNr := callNr, srcDstE := e, buf := ⟨0, 1, some {}⟩ }

/-- The idle task, the system task, three servers and INIT. -/
def sixState : State := startState [IDLE, SYSTEM, PM, VFS, RS, INIT]

theorem sixState_initial : sixState.Initial where
  endpoint := by decide +kernel
  flags := by decide +kernel
  callerQ := by decide +kernel
  deliver := by decide +kernel
  asynsize := by decide +kernel
  log := by decide +kernel

end Minix.Kernel
