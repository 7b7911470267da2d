import Minix.Kernel.Types
import Minix.Lib.Chain

/-!
# Scheduling

`enqueue`, `dequeue`, `sched`, `pick_proc` and `balance_queues` of `kernel/proc.c`, the `RTS_` macros of
`kernel/proc.h`, and what the clock (`kernel/clock.c`) does to the ready queues.

The functions on `Sched` take the privilege flags of the processes as an argument.
-/

namespace Minix.Kernel

open Minix.Lib Function

def nrSchedQueues : Nat := 16

def idleQ : Nat := 15

def maxUserQ : Int := 0

def minUserQ : Int := 14

/-- More than any list of processes is long: the fuel of the loops over the kernel's lists. -/
def loopFuel : Nat := nrSlots + 1

/-! ## The ready queues -/

namespace Sched

/-- The first queue that is not empty has the next process to run. -/
def firstReady (s : Sched) : Option Slot := (List.range nrSchedQueues).findSome? s.rdyHead

/-- `pick_proc()`. -/
def pickProc (pf : Slot → Finset PrivFlag) (s : Sched) : Sched :=
  match s.firstReady with
  | none => { s with halted := true }
  | some rp =>
    { s with nextPtr := some rp, billPtr := if .billable ∈ pf rp then rp else s.billPtr, picked := true }

/-- `sched(rp, &queue, &front)`. The queue is the priority in the new state. -/
def sched (s : Sched) (rp : Slot) : Sched × Bool :=
  if s.pTicksLeft rp > 0 then (s, true)
  else
    ({ s with
      pTicksLeft := update s.pTicksLeft rp (s.pQuantumSize rp)
      pPriority :=
        if s.pPriority rp < idleQ - 1 then update s.pPriority rp (s.pPriority rp + 1) else s.pPriority },
      false)

/-- The list surgery of `enqueue`: `rp` becomes the only, the first or the last process of queue `q`. -/
def insert (s : Sched) (rp : Slot) (q : Nat) (front : Bool) : Sched :=
  match s.rdyHead q with
  | none =>
    { s with
      rdyHead := update s.rdyHead q (some rp)
      rdyTail := update s.rdyTail q (some rp)
      pNextready := update s.pNextready rp none }
  | some h =>
    if front then
      { s with
        pNextready := update s.pNextready rp (some h)
        rdyHead := update s.rdyHead q (some rp) }
    else
      match s.rdyTail q with
      | none => { s with halted := true }
      | some t =>
        { s with
          pNextready := update (update s.pNextready t (some rp)) rp none
          rdyTail := update s.rdyTail q (some rp) }

/-- `enqueue(rp)`. -/
def enqueue (pf : Slot → Finset PrivFlag) (s : Sched) (rp : Slot) : Sched :=
  let r := sched { s with picked := false } rp
  let s := insert r.1 rp (r.1.pPriority rp) r.2
  if s.pPriority s.procPtr > s.pPriority rp ∧ .preemptible ∈ pf s.procPtr then pickProc pf s else s

/-- The list surgery of `dequeue` at the place that points at `rp`; `prev_xp` is the node before the place. -/
def remove (s : Sched) (rp : Slot) (q : Nat) (x : Loc Slot) : Sched :=
  { s with
    rdyHead := update s.rdyHead q (x.setHead (s.rdyHead q) (s.pNextready rp))
    pNextready := x.setNext s.pNextready (s.pNextready rp)
    rdyTail := if s.rdyTail q = some rp then update s.rdyTail q x.node else s.rdyTail }

/-- `dequeue(rp)`. -/
def dequeue (pf : Slot → Finset PrivFlag) (s : Sched) (rp : Slot) : Sched :=
  let s := { s with picked := false }
  let q := s.pPriority rp
  match scan (s.rdyHead q) s.pNextready (fun p => p = rp) loopFuel .head with
  | none => { s with halted := true }
  | some x =>
    match x.get (s.rdyHead q) s.pNextready with
    | none => s
    | some _ =>
      let s := s.remove rp q x
      if rp = s.procPtr ∨ some rp = s.nextPtr then pickProc pf s else s

end Sched

namespace State

variable (k : State) (p : Slot) (f : Finset RtsFlag)

/-- `enqueue(rp)`. -/
def enqueue : State := { k with sched := k.sched.enqueue k.privFlags p }

/-- `dequeue(rp)`. -/
def dequeue : State := { k with sched := k.sched.dequeue k.privFlags p }

/-- `RTS_SET(rp, f)` and `RTS_LOCK_SET(rp, f)`. -/
def rtsSet : State :=
  let k := if (k.proc p).pRtsFlags = ∅ then k.dequeue p else k
  k.modProc p fun r => { r with pRtsFlags := r.pRtsFlags ∪ f }

/-- `RTS_UNSET(rp, f)` and `RTS_LOCK_UNSET(rp, f)`. -/
def rtsUnset : State :=
  let rts := (k.proc p).pRtsFlags
  let k := k.modProc p fun r => { r with pRtsFlags := r.pRtsFlags \ f }
  if rts ≠ ∅ ∧ (k.proc p).pRtsFlags = ∅ then k.enqueue p else k

/-- `RTS_LOCK_SETFLAGS(rp, f)`. -/
def rtsSetFlags : State :=
  let k := if (k.proc p).pRtsFlags = ∅ ∧ f ≠ ∅ then k.dequeue p else k
  k.modProc p fun r => { r with pRtsFlags := f }

/-! ## Clock -/

/-- A value stored in a `char` field. -/
def toChar (n : Int) : Int := n.bmod 256

/-- The accounting of `clock_handler`, after `ticks` clock ticks. The flag `due` stands for the timers: with it, or when
the quantum of the running process is over, the process is stored for the clock task. -/
def clockHandler (ticks : Nat) (due : Bool) : State :=
  let s := k.sched
  let charge (t : Slot → Int) (q : Slot) := update t q (toChar (t q - ticks))
  let t := if .preemptible ∈ k.privFlags s.procPtr then charge s.pTicksLeft s.procPtr else s.pTicksLeft
  let t := if .billable ∈ k.privFlags s.procPtr then t else charge t s.billPtr
  { k with
    realtime := k.realtime + ticks
    sched := { s with
      pTicksLeft := t
      prevPtr := if due ∨ t s.procPtr ≤ 0 then s.procPtr else s.prevPtr } }

/-- The scheduling part of `do_clocktick`: a process that used up its quantum is inserted again. -/
def doClocktick : State :=
  let p := k.sched.prevPtr
  if k.sched.pTicksLeft p ≤ 0 ∧ .preemptible ∈ k.privFlags p ∧ (k.proc p).pRtsFlags = ∅ then (k.dequeue p).enqueue p
  else k

/-- One process of `balance_queues`. -/
def balance : State :=
  if k.isemptyp p then k
  else if k.sched.pPriority p > k.sched.pMaxPriority p then
    let k := if (k.proc p).pRtsFlags = ∅ then k.dequeue p else k
    let k := { k with sched := { k.sched with
      pPriority := update k.sched.pPriority p (k.sched.pPriority p - 1) } }
    if (k.proc p).pRtsFlags = ∅ then k.enqueue p else k
  else
    { k with sched := { k.sched with
      pTicksLeft := update k.sched.pTicksLeft p (k.sched.pQuantumSize p) } }

/-- `balance_queues(tp)`. -/
def balanceQueues : State := allSlots.foldl balance k

/-- The start of `schedcheck`: the process that was picked runs. -/
def schedcheckPick : State :=
  match k.sched.nextPtr with
  | none => k
  | some p => { k with sched := { k.sched with procPtr := p, nextPtr := none, picked := false } }

/-- `do_nice(m_ptr)`. -/
def doNice (prEndpt : Endpoint) (pri : Int) : Int × State :=
  match k.isokendpt prEndpt with
  | none => (EINVAL, k)
  | some rp =>
    if procNr rp < 0 then (EPERM, k)
    else if pri < -20 ∨ pri > 20 then (EINVAL, k)
    else
      let newQ := maxUserQ + ((pri - -20) * (minUserQ - maxUserQ + 1)).tdiv (20 - -20 + 1)
      let newQ := if newQ < maxUserQ then maxUserQ else newQ
      let newQ := if newQ > minUserQ then minUserQ else newQ
      let k := k.rtsSet rp {.sysLock}
      let k := { k with sched := { k.sched with
        pMaxPriority := update k.sched.pMaxPriority rp newQ.toNat
        pPriority := update k.sched.pPriority rp newQ.toNat } }
      (OK, k.rtsUnset rp {.sysLock})

end State

end Minix.Kernel
