import Mathlib

/-!
# The kernel's tables

`struct proc` (`kernel/proc.h`), `struct priv` (`kernel/priv.h`), the message of `include/minix/ipc.h` and the global
variables of the kernel that its message passing and scheduling code reads or writes.

* A process pointer is a slot of `proc[]`, the null pointer is `none`. The scheduling fields of `struct proc` are the
  columns of `Sched`, since `enqueue`, `dequeue`, `sched` and `pick_proc` touch nothing else.
* A flag word is the set of its flags.
* `halted` stands for `minix_panic`, an endless loop or a null pointer dereference: the kernel does not go on.
* `log` and `picked` are history variables that no function of the kernel reads.
-/

namespace Minix.Kernel

/-! ## Numbers -/

/-- An entry of `proc[NR_TASKS + NR_PROCS]`, with `NR_TASKS = 4` and `NR_PROCS = 100`. -/
abbrev Slot := Fin 104

/-- The process table from `BEG_PROC_ADDR` to `END_PROC_ADDR`. -/
def allSlots : List Slot := List.finRange 104

/-- An entry of `priv[NR_SYS_PROCS]`. -/
abbrev PrivId := Fin 32

-- for literals of these types
instance neZero104 : NeZero 104 := ⟨by decide⟩

instance neZero32 : NeZero 32 := ⟨by decide⟩

instance neZero16 : NeZero 16 := ⟨by decide⟩

instance neZero100 : NeZero 100 := ⟨by decide⟩

abbrev Endpoint := Int

def nrTasks : Nat := 4

def nrSlots : Nat := 104

def ANY : Int := 0x7ace

def NONE : Int := 0x6ace

def SELF : Int := 0x8ace

def maxNrTasks : Int := 1023

/-- `_ENDPOINT_GENERATION_SIZE`. -/
def endpointGenerationSize : Int := maxNrTasks + SELF + 1

/-- `_ENDPOINT_MAX_GENERATION`. -/
def endpointMaxGeneration : Int := 2147483647 / endpointGenerationSize - 1

/-- `_ENDPOINT(g, p)`. -/
def endpoint (g p : Int) : Endpoint := g * endpointGenerationSize + p

/-- `_ENDPOINT_G(e)`, with the division of C. -/
def endpointG (e : Endpoint) : Int := (e + maxNrTasks).tdiv endpointGenerationSize

/-- `_ENDPOINT_P(e)`, with the remainder of C. -/
def endpointP (e : Endpoint) : Int := (e + maxNrTasks).tmod endpointGenerationSize - maxNrTasks

/-- `proc_nr(p)`. -/
def procNr (p : Slot) : Int := (p : Int) - 4

/-- `proc_addr(n)`, for the numbers that `isokprocn` accepts. -/
def procAddr (n : Int) : Option Slot :=
  if h : 0 ≤ n + 4 ∧ n + 4 < 104 then some ⟨(n + 4).toNat, by omega⟩ else none

def IDLE : Slot := 0

def CLOCK : Slot := 1

def SYSTEM : Slot := 2

def HARDWARE : Slot := 3

def PM : Slot := 4

def VFS : Slot := 5

def RS : Slot := 6

def VM : Slot := 12

def INIT : Slot := 13

def userPrivId : PrivId := 0

/-! ## Results -/

def OK : Int := 0

def EPERM : Int := -1

def ESRCH : Int := -3

def EAGAIN : Int := -11

def EFAULT : Int := -14

def EINVAL : Int := -22

def EDOM : Int := -33

def ELOCKED : Int := -101

def EBADCALL : Int := -102

def ECALLDENIED : Int := -104

def EDEADSRCDST : Int := -105

def ENOTREADY : Int := -106

def ESRCDIED : Int := -108

def EDSTDIED : Int := -109

def ETRAPDENIED : Int := -110

def EDONTREPLY : Int := -201

def VMSUSPEND : Int := -996

/-- The bits of `p_rts_flags`. A process is runnable iff none is set. -/
inductive RtsFlag
  | slotFree | procStop | sending | receiving | signaled | sigPending | pStop | noPriv | noEndpoint | vminhibit
  | pagefault | vmrequest | vmreqtarget | sysLock
  deriving DecidableEq

/-- The bits of `p_misc_flags`. -/
inductive MiscFlag
  | replyPend | virtTimer | profTimer | asynmsg | fullvm | delivermsg | sigDelay | scActive | scDefer | scTrace
  deriving DecidableEq

/-- The bits of `s_flags`. -/
inductive PrivFlag
  | preemptible | billable | sysProc | checkIoPort | checkIrq | checkMem | procFullvm
  deriving DecidableEq

/-- The suspended operation of `p_vmrequest`. -/
inductive VmsType
  | sysNone | kernelcall | delivermsg
  deriving DecidableEq

/-! ## Records -/

/-- `message`: the two words that the kernel sets in a notification, and the rest of the payload as one number. -/
structure Message where
  mSource : Endpoint := 0
  mType : Int := 0
  notifyArg : Nat := 0
  notifyTimestamp : Nat := 0
  body : Nat := 0
  deriving DecidableEq

/-- `asynmsg_t`: an entry of the table of an asynchronous send, in the memory of the sender. -/
structure AsynMsg where
  flags : Nat := 0
  dst : Endpoint := 0
  result : Int := 0
  msg : Message := {}
  deriving DecidableEq

/-- `p_vmrequest`. -/
structure VmRequest where
  nextrequestor : Option Slot := none
  type : VmsType := .sysNone
  start : Nat := 0
  length : Nat := 0
  writeflag : Nat := 0
  who : Endpoint := 0
  deriving DecidableEq

/-- `struct proc`, without the scheduling fields. -/
structure Proc where
  pPriv : PrivId := 0
  pRtsFlags : Finset RtsFlag := {.slotFree}
  pMiscFlags : Finset MiscFlag := ∅
  pCallerQ : Option Slot := none
  pQLink : Option Slot := none
  pGetfromE : Endpoint := 0
  pSendtoE : Endpoint := 0
  pPending : Nat := 0
  pEndpoint : Endpoint := 0
  pSendmsg : Message := {}
  pDelivermsg : Message := {}
  pDelivermsgVir : Nat := 0
  pDelivermsgLin : Nat := 0
  pVmrequest : VmRequest := {}
  retreg : Int := 0

/-- `struct priv`. The id `s_id` of an entry is its index; `s_proc_nr` is `none` for `NONE`. -/
structure Priv where
  sProcNr : Option Slot := none
  sFlags : Finset PrivFlag := ∅
  sAsyntab : Nat := 0
  sAsynsize : Nat := 0
  sTrapMask : Int := 0
  sIpcTo : Finset PrivId := ∅
  sNotifyPending : Finset PrivId := ∅
  sIntPending : Nat := 0
  sSigPending : Nat := 0

/-- The scheduling fields of `struct proc` and the ready queues. `picked` is a history variable: the last `enqueue` or
`dequeue` has recomputed `next_ptr`, which was not consumed since. -/
structure Sched where
  pPriority : Slot → Nat
  pMaxPriority : Slot → Nat
  pTicksLeft : Slot → Int
  pQuantumSize : Slot → Int
  pNextready : Slot → Option Slot
  rdyHead : Nat → Option Slot
  rdyTail : Nat → Option Slot
  procPtr : Slot
  nextPtr : Option Slot
  billPtr : Slot
  prevPtr : Slot
  halted : Bool
  picked : Bool

/-- How a message was handed to its receiver: by a send, by a notification, or from entry `i` of a table. -/
inductive Via
  | send
  | notify
  | asyn (i : Nat)
  deriving DecidableEq

/-- What the history records. -/
inductive Event
  /-- `mini_send` accepted message `m` of `src` for `dst`: it was handed over at once, or `src` waits. -/
  | called (src dst : Slot) (m : Message)
  /-- Message `m` of `src` was put into `p_delivermsg` of `dst`. -/
  | handed (via : Via) (src dst : Slot) (m : Message)
  /-- Message `m` was copied from `p_delivermsg` to the buffer of `dst`. -/
  | received (dst : Slot) (m : Message)
  /-- A table was submitted by `src`. -/
  | submitted (src : Slot) (size : Nat) (table : Nat → AsynMsg)
  /-- The kernel gave up on entry `i` of the table of `src`. -/
  | failed (src : Slot) (i : Nat)

/-- The state of the kernel. `tab p i` is entry `i` of the table of asynchronous messages in the memory of `p`. -/
structure State where
  proc : Slot → Proc
  priv : PrivId → Priv
  sched : Sched
  vmrequest : Option Slot
  realtime : Nat
  tab : Slot → Nat → AsynMsg
  log : List Event

/-! ## Access -/

namespace State

variable (k : State) (p : Slot)

/-- `priv(rp)->s_flags`. -/
def privFlags : Finset PrivFlag := (k.priv (k.proc p).pPriv).sFlags

/-- `RTS_ISSET(rp, f)`, for one flag. -/
def rtsIsset (f : RtsFlag) : Bool := f ∈ (k.proc p).pRtsFlags

/-- A bit of `p_misc_flags`. -/
def mf (f : MiscFlag) : Bool := f ∈ (k.proc p).pMiscFlags

/-- `isemptyp(p)`. -/
def isemptyp : Bool := (k.proc p).pRtsFlags = {RtsFlag.slotFree}

/-- `isokendpt(e, &p)`: the slot of a live endpoint. -/
def isokendpt (e : Endpoint) : Option Slot :=
  match procAddr (endpointP e) with
  | none => none
  | some p => if k.isemptyp p then none else if (k.proc p).pEndpoint ≠ e then none else some p

/-- `may_send_to(rp, nr)`. -/
def maySendTo (q : Slot) : Bool := (k.proc q).pPriv ∈ (k.priv (k.proc p).pPriv).sIpcTo

/-- An assignment to fields of `*rp`. -/
def modProc (f : Proc → Proc) : State := { k with proc := Function.update k.proc p (f (k.proc p)) }

/-- An assignment to fields of a privilege structure. -/
def modPriv (i : PrivId) (f : Priv → Priv) : State := { k with priv := Function.update k.priv i (f (k.priv i)) }

/-- The kernel stops. -/
def halt : State := { k with sched := { k.sched with halted := true } }

/-- A new event of the history. -/
def record (e : Event) : State := { k with log := k.log ++ [e] }

end State

/-! ## Endpoints -/

theorem procNr_bounds (p : Slot) : -4 ≤ procNr p ∧ procNr p < 100 := by
  have := p.isLt
  unfold procNr
  omega

@[simp] theorem procAddr_procNr (p : Slot) : procAddr (procNr p) = some p := by
  have := p.isLt
  unfold procAddr procNr
  rw [dif_pos (by omega)]
  congr 1
  ext
  simp

theorem procNr_inj {p q : Slot} : procNr p = procNr q ↔ p = q := by
  constructor
  · intro h
    have := congrArg procAddr h
    simpa using this
  · rintro rfl; rfl

theorem generationSize_eq : endpointGenerationSize = 36558 := by decide

theorem endpointP_endpoint {g : Int} (hg : 0 ≤ g) (p : Slot) : endpointP (endpoint g (procNr p)) = procNr p := by
  have hb := procNr_bounds p
  have he : endpoint g (procNr p) + maxNrTasks = (procNr p + 1023) + g * 36558 := by
    rw [endpoint, generationSize_eq, maxNrTasks]; ring
  rw [endpointP, he, generationSize_eq, Int.tmod_eq_emod_of_nonneg (by omega), Int.add_mul_emod_self_right,
    Int.emod_eq_of_lt (by omega) (by omega), maxNrTasks]
  ring

theorem endpointG_endpoint {g : Int} (hg : 0 ≤ g) (p : Slot) : endpointG (endpoint g (procNr p)) = g := by
  have hb := procNr_bounds p
  have he : endpoint g (procNr p) + maxNrTasks = (procNr p + 1023) + g * 36558 := by
    rw [endpoint, generationSize_eq, maxNrTasks]; ring
  rw [endpointG, he, generationSize_eq, Int.tdiv_eq_ediv_of_nonneg (by omega),
    Int.add_mul_ediv_right _ _ (by norm_num), Int.ediv_eq_zero_of_lt (by omega) (by omega), zero_add]

theorem endpoint_ne_ANY {g : Int} (hg : 0 ≤ g) (p : Slot) : endpoint g (procNr p) ≠ ANY := by
  intro h
  have := endpointP_endpoint hg p
  rw [h] at this
  have hb := procNr_bounds p
  have ha : endpointP ANY = 31438 := by decide
  omega

end Minix.Kernel
