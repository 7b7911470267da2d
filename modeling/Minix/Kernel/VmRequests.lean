import Minix.Kernel.Boot
import Minix.Lib.Run

/-!
# Requests to VM

A process whose memory is not mapped when the kernel needs it is suspended by `vm_suspend`, and VM is asked to map the
memory: `do_vmctl` (`kernel/system/do_vmctl.c`, the requests `VMCTL_MEMREQ_GET` and `VMCTL_MEMREQ_REPLY`), `sys_task`
and `vmrestart_check` (`kernel/system.c`), `virtual_copy_f` (`kernel/arch/i386/memory.c`). A suspended kernel call is
performed again, from the start, when VM has replied.

* `VmState` adds to the kernel's state the part of `p_vmrequest` that only this protocol uses.
* A result `none` stands for `minix_panic`.
-/

namespace Minix.Kernel

open Minix.Lib Function

/-! ## The state -/

/-- Where the request of a process is. This is a history variable. -/
inductive Phase
  | idle
  /-- On the chain `vmrequest`. -/
  | queued
  /-- VM has got the request and has not replied. -/
  | asked
  /-- On the chain `vmrestart`. -/
  | answered
  deriving DecidableEq

/-- The kernel with the rest of `p_vmrequest` of each process: `nextrestart`, `vmresult` and `saved.reqmsg`. -/
structure VmState where
  kernel : State
  vmrestart : Option Slot
  nextrestart : Slot → Option Slot
  vmresult : Slot → Int
  reqmsg : Slot → Message
  phase : Slot → Phase

def EBADREQUEST : Int := -107

def EFAULT_SRC : Int := -995

def EFAULT_DST : Int := -994

/-- `call_nr` is one of the kernel calls: `KERNEL_CALL` is `0x600`, and `NR_SYS_CALLS` is 47. -/
def validCall (mType : Int) : Bool := 0 ≤ mType - 0x600 && mType - 0x600 < 47

/-- The errors of `virtual_copy_f` before it copies anything. -/
inductive Refusal
  | edom | efault | einval
  deriving DecidableEq

def Refusal.code : Refusal → Int
  | .edom => EDOM
  | .efault => EFAULT
  | .einval => EINVAL

/-- A call of `virtual_copy_f` between two processes: the error before the copy, if any, and whether reading or writing
faults, at linear address `lin`. -/
structure CopyTry where
  refusal : Option Refusal
  src : Endpoint
  dst : Endpoint
  srcFaults : Bool
  dstFaults : Bool
  lin : Nat
  len : Nat
  vmcheck : Bool

/-- What the handler of a kernel call does: the copies that it tries, up to one that suspends the caller, and its
result. The flag `permitted` is the bit of the call in `s_k_call_mask` of the caller. -/
structure Handler where
  permitted : Bool
  tries : List CopyTry
  result : Int

/-- The reply to `VMCTL_MEMREQ_GET`. -/
structure MemReq where
  addr : Nat
  len : Nat
  write : Nat
  ep : Endpoint
  requestor : Endpoint

/-- The requests of `do_vmctl` that belong to the protocol. -/
inductive VmctlParam
  | memreqGet
  | memreqReply (value : Int)

namespace VmState

variable (s : VmState)

/-! ## The functions -/

/-- `vm_suspend(caller, target, linaddr, len, wrflag, type)`. -/
def vmSuspend (caller target : Slot) (lin len : Nat) (type : VmsType) : VmState :=
  { s with
    kernel := s.kernel.vmSuspend caller target lin len type
    phase := update s.phase caller .queued }

/-- The end of `virtual_copy_f`: `lin_lin_copy`, and the suspension of the caller if it faults. -/
def copyOrSuspend (caller a b : Slot) (t : CopyTry) : Int × VmState :=
  if !t.srcFaults && !t.dstFaults then (OK, s)
  else if !t.vmcheck then (if t.srcFaults then EFAULT_SRC else EFAULT_DST, s)
  else (VMSUSPEND, s.vmSuspend caller (if t.srcFaults then a else b) t.lin t.len .kernelcall)

/-- `virtual_copy_f(src_addr, dst_addr, bytes, vmcheck)` in a kernel call of `caller`. -/
def virtualCopy (caller : Slot) (t : CopyTry) : Int × VmState :=
  match t.refusal with
  | some r => (r.code, s)
  | none =>
    match s.kernel.isokendpt t.src, s.kernel.isokendpt t.dst with
    | some a, some b =>
      if s.kernel.rtsIsset caller .vmrequest then
        let r := s.vmresult caller
        let s := { s with kernel := s.kernel.rtsUnset caller {.vmrequest} }
        if r ≠ OK then (r, s) else s.copyOrSuspend caller a b t
      else s.copyOrSuspend caller a b t
    | _, _ => (EDEADSRCDST, s)

/-- The copies of a handler, and its result. -/
def handler (caller : Slot) (result : Int) : List CopyTry → VmState → Int × VmState
  | [], s => (result, s)
  | t :: ts, s =>
    match s.virtualCopy caller t with
    | (r, s) => if r = VMSUSPEND then (VMSUSPEND, s) else handler caller result ts s

/-- `vmrestart_check(m)`: the message of the call that is to be performed again, if there is one. -/
def vmrestartCheck : Option (Option Message × VmState) :=
  match s.vmrestart with
  | none => some (none, s)
  | some p =>
    let type := (s.kernel.proc p).pVmrequest.type
    let m := s.reqmsg p
    let s := { s with
      kernel := s.kernel.modProc p fun r => { r with pVmrequest := { r.pVmrequest with type := .sysNone } }
      vmrestart := s.nextrestart p
      phase := update s.phase p .idle }
    match type with
    | .kernelcall =>
      let s := { s with reqmsg := update s.reqmsg p { m with mSource := NONE } }
      if (s.kernel.isokendpt m.mSource).isNone then some (none, s)
      else if validCall m.mType then some (some m, s)
      else none
    | _ => none

/-- `sys_task` performs the kernel call of message `m`. -/
def perform (m : Message) (h : Handler) : Option VmState :=
  match s.kernel.isokendpt m.mSource with
  | none => none
  | some caller =>
    match if !validCall m.mType then (EBADREQUEST, s) else if !h.permitted then (ECALLDENIED, s)
      else handler caller h.result h.tries s with
    | (result, s) =>
      if result = VMSUSPEND then some { s with reqmsg := update s.reqmsg caller m }
      else if result ≠ EDONTREPLY then
        some { s with kernel := s.kernel.sysReply caller { m with mType := result } }
      else some s

/-- One iteration of `sys_task`, where `m` is the message that `receive` gets. -/
def sysTask (m : Message) (h : Handler) : Option VmState :=
  match s.vmrestartCheck with
  | none => none
  | some (restarting, s) => s.perform (restarting.getD m) h

/-- `do_vmctl(m_ptr)`, in a message of `source`. -/
def doVmctl (source who : Endpoint) (param : VmctlParam) : Option (Int × Option MemReq × VmState) :=
  match s.kernel.isokendpt (if who = SELF then source else who) with
  | none => some (EINVAL, none, s)
  | some p =>
    match param with
    | .memreqGet =>
      match s.kernel.vmrequest with
      | none => some (ESRCH, none, s)
      | some rp =>
        let r := (s.kernel.proc rp).pVmrequest
        some (OK, some ⟨r.start, r.length, r.writeflag, r.who, (s.kernel.proc rp).pEndpoint⟩,
          { s with
            kernel := { s.kernel with vmrequest := r.nextrequestor }
            vmresult := update s.vmresult rp VMSUSPEND
            phase := update s.phase rp .asked })
    | .memreqReply value =>
      match s.kernel.isokendpt (s.kernel.proc p).pVmrequest.who with
      | none => none
      | some _ =>
        let s := { s with vmresult := update s.vmresult p value }
        match (s.kernel.proc p).pVmrequest.type with
        | .kernelcall =>
          some (OK, none,
            { s with
              nextrestart := update s.nextrestart p s.vmrestart
              vmrestart := some p
              phase := update s.phase p .answered })
        | .delivermsg =>
          some (OK, none,
            { s with
              kernel := s.kernel.rtsUnset p {.vmrequest}
              phase := update s.phase p .idle })
        | .sysNone => none

/-- `delivermsg(rp)`, which suspends the process if its buffer is not mapped. -/
def delivermsg (p : Slot) (fault : Bool) : VmState :=
  if fault then s.vmSuspend p p (s.kernel.proc p).pDelivermsgLin 36 .delivermsg
  else { s with kernel := (s.kernel.delivermsg p false).2 }

/-- `do_fork(m_ptr)`: the child has a copy of `p_vmrequest`. -/
def doFork (prEndpt : Endpoint) (rpc : Slot) (vminhibit : Bool) (lin : Nat) : VmState :=
  match s.kernel.isokendpt prEndpt, s.kernel.doFork prEndpt rpc vminhibit lin with
  | some rpp, (r, k) =>
    if r ≠ OK then s
    else
      { s with
        kernel := k
        nextrestart := update s.nextrestart rpc (s.nextrestart rpp)
        vmresult := update s.vmresult rpc (s.vmresult rpp)
        reqmsg := update s.reqmsg rpc (s.reqmsg rpp) }
  | none, _ => s

end VmState

/-- The operations of the protocol. -/
inductive VmOp
  /-- An iteration of `sys_task`, in which it may get message `m` of process `c`. -/
  | work (c : Slot) (m : Message) (h : Handler)
  /-- Process `p` is about to run and has a message. -/
  | deliver (p : Slot) (fault : Bool)
  | vmctl (source who : Endpoint) (param : VmctlParam)
  | exit (whoP : Slot) (prEndpt : Endpoint)
  | fork (prEndpt : Endpoint) (rpc : Slot) (vminhibit : Bool) (lin : Nat)

namespace VmState

variable (s : VmState)

/-- The effect of an operation, if it is possible. A process that is suspended makes no calls. -/
def exec : VmOp → Option VmState
  | .work c m h =>
    if !s.kernel.runnable SYSTEM || s.kernel.isemptyp c || s.kernel.rtsIsset c .vmrequest then none
    else s.sysTask { m with mSource := (s.kernel.proc c).pEndpoint } h
  | .deliver p fault => if s.kernel.runnable p && s.kernel.mf p .delivermsg then some (s.delivermsg p fault) else none
  | .vmctl source who param => (s.doVmctl source who param).map fun r => r.2.2
  | .exit whoP e => if s.kernel.isemptyp whoP then none else some { s with kernel := (s.kernel.doExit whoP e).2 }
  | .fork e rpc v lin => some (s.doFork e rpc v lin)

/-- One step, after which the kernel goes on unless it has halted. -/
def step (o : VmOp) : Option VmState := (s.exec o).filter fun s => !s.kernel.sched.halted

end VmState

end Minix.Kernel
