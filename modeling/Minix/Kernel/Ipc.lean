import Minix.Kernel.Sched

/-!
# Message passing

The message passing functions of `kernel/proc.c` (`mini_send`, `mini_receive`, `mini_notify`, `mini_senda`, `try_one`,
`try_async`, `deadlock`, `sys_call`), the signals of `kernel/system.c` that they cause, and `delivermsg` of
`kernel/arch/i386/memory.c`.

What user memory does is an input of a call: `MsgBuf` is the caller's message buffer, and an access to a table of
asynchronous messages succeeds or fails as the call's `io` says.
-/

namespace Minix.Kernel

open Minix.Lib

def SEND : Int := 1

def RECEIVE : Int := 2

def SENDREC : Int := 3

def NOTIFY : Int := 4

def SENDNB : Int := 5

def SENDA : Int := 16

def SIGTRAP : Nat := 5

def SIGKILL : Nat := 9

def SIGKSIG : Nat := 30

def SIGNDELAY : Nat := 31

/-- The message buffer of a caller: its address, what `umap_local` makes of it (zero when the range is not mapped) and
its contents (`none` when reading it faults). -/
structure MsgBuf where
  vir : Nat
  lin : Nat
  data : Option Message

/-- The accesses to an entry of a table: `A_RETRIEVE` and `A_INSERT` of a field, and the copy of the message from its
linear address. -/
inductive Access
  | getFlags | getDst | getMsg | putResult | putFlags | linMsg
  deriving DecidableEq

/-- Which accesses to the table of which process succeed. -/
abbrev TableIo := Slot → Nat → Access → Bool

/-- The arguments of `sys_call` and what it finds in user memory. `junk` is what `src_dst_p` holds when the call does
not set it. -/
structure CallArgs where
  callNr : Int
  srcDstE : Int
  buf : MsgBuf
  table : Nat → AsynMsg := fun _ => {}
  io : TableIo := fun _ _ _ => true
  junk : Int := 0

namespace State

variable (k : State)

/-! ## Delivery -/

/-- `WILLRECEIVE(target, source_ep)`. -/
def willReceive (target : Slot) (sourceEp : Endpoint) : Bool :=
  k.rtsIsset target .receiving && !k.rtsIsset target .sending &&
    ((k.proc target).pGetfromE = ANY || (k.proc target).pGetfromE = sourceEp)

/-- `QueueMess(ep, msg_lin, dst)`, when the message could be read. -/
def queueMess (ep : Endpoint) (m : Message) (dst : Slot) : State :=
  k.modProc dst fun r =>
    { r with pDelivermsg := { m with mSource := ep }, pMiscFlags := r.pMiscFlags ∪ {.delivermsg} }

/-- `QueueMess` with the event that goes with it. -/
def hand (via : Via) (src dst : Slot) (m : Message) : State :=
  (k.queueMess (k.proc src).pEndpoint m dst).record (.handed via src dst { m with mSource := (k.proc src).pEndpoint })

/-- `BuildNotifyMessage(m_ptr, src, dst_ptr)`. The words of the message that it does not set are zero here. -/
def buildNotifyMessage (src dst : Slot) : Message × State :=
  let i := (k.proc dst).pPriv
  let m : Message := { mType := (0x1000 ||| (src : Nat) : Nat), notifyTimestamp := k.realtime }
  if src = HARDWARE then
    ({ m with notifyArg := (k.priv i).sIntPending }, k.modPriv i fun r => { r with sIntPending := 0 })
  else if src = SYSTEM then
    ({ m with notifyArg := (k.priv i).sSigPending }, k.modPriv i fun r => { r with sSigPending := 0 })
  else (m, k)

/-- `mini_notify(caller_ptr, dst_e)`. -/
def miniNotify (c : Slot) (dstE : Endpoint) : Int × State :=
  match k.isokendpt dstE with
  | none => (EDEADSRCDST, k)
  | some d =>
    if k.willReceive d (k.proc c).pEndpoint && !k.mf d .replyPend then
      let b := k.buildNotifyMessage c d
      (OK, (b.2.hand .notify c d b.1).rtsUnset d {.receiving})
    else
      (OK, k.modPriv (k.proc d).pPriv fun r => { r with sNotifyPending := insert (k.proc c).pPriv r.sNotifyPending })

/-- `send_sig(proc_nr, sig_nr)`. -/
def sendSig (p : Slot) (sig : Nat) : State :=
  if k.isemptyp p then k.halt
  else
    let k := k.modPriv (k.proc p).pPriv fun r => { r with sSigPending := r.sSigPending ||| 2 ^ sig }
    (k.miniNotify SYSTEM (k.proc p).pEndpoint).2

/-- `cause_sig(proc_nr, sig_nr)`. -/
def causeSig (p : Slot) (sig : Nat) : State :=
  if p = PM then k.halt
  else if (k.proc p).pPending.testBit sig then k
  else
    let k := k.modProc p fun r => { r with pPending := r.pPending ||| 2 ^ sig }
    if k.rtsIsset p .signaled then k else (k.rtsSet p {.signaled, .sigPending}).sendSig PM SIGKSIG

/-- `sig_delay_done(rp)`. -/
def sigDelayDone (p : Slot) : State :=
  (k.modProc p fun r => { r with pMiscFlags := r.pMiscFlags \ {.sigDelay} }).causeSig p SIGNDELAY

/-- The links of the caller queues, `p_q_link`. -/
def qLink (p : Slot) : Option Slot := (k.proc p).pQLink

/-- A store through a pointer into the caller queue of `d`. -/
def storeQ (d : Slot) (x : Loc Slot) (v : Option Slot) : State :=
  match x with
  | .head => k.modProc d fun r => { r with pCallerQ := v }
  | .link p => k.modProc p fun r => { r with pQLink := v }

/-- `mini_send(caller_ptr, dst_e, m_ptr, flags)`. -/
def miniSend (c : Slot) (dstE : Endpoint) (buf : MsgBuf) (nonBlocking : Bool) : Int × State :=
  if buf.lin = 0 then (EFAULT, k)
  else
    match procAddr (endpointP dstE) with
    | none => (EFAULT, k.halt)
    | some d =>
      if k.rtsIsset d .noEndpoint then (EDSTDIED, k)
      else if k.willReceive d (k.proc c).pEndpoint then
        match buf.data with
        | none => (EFAULT, k)
        | some m => (OK, ((k.record (.called c d m)).hand .send c d m).rtsUnset d {.receiving})
      else if nonBlocking then (ENOTREADY, k)
      else
        match buf.data with
        | none => (EFAULT, k)
        | some m =>
          let k := k.modProc c fun r => { r with pSendmsg := m }
          let k := k.rtsSet c {.sending}
          let k := k.modProc c fun r => { r with pSendtoE := dstE }
          match scan (k.proc d).pCallerQ k.qLink (fun _ => false) loopFuel .head with
          | none => (OK, k.halt)
          | some x =>
            (OK, ((k.storeQ d x (some c)).modProc c fun r => { r with pQLink := none }).record (.called c d m))

/-! ## Asynchronous messages -/

/-- The bit number of `AMF_VALID`, as for the next two. -/
def amfValid : Nat := 0

def amfDone : Nat := 1

def amfNoreply : Nat := 3

/-- Reserved bits are set, or `AMF_VALID` is not. -/
def badFlags (flags : Nat) : Bool := 16 ≤ flags || !flags.testBit amfValid

/-- `flags | AMF_DONE`. -/
def setDone (flags : Nat) : Nat := flags ||| 2 ^ amfDone

/-- How an iteration over a table goes on. -/
inductive Iter
  /-- The function returns. -/
  | ret (r : Int)
  /-- The loop continues. -/
  | next
  /-- The loop continues, and the table is not done. -/
  | undone
  /-- The loop continues, the table is not done, and the entry is postponed. -/
  | postponed

/-- An assignment to entry `i` of the table of `p`. -/
def modTab (p : Slot) (i : Nat) (f : AsynMsg → AsynMsg) : State :=
  { k with tab := Function.update k.tab p (Function.update (k.tab p) i (f (k.tab p i))) }

/-- The result of entry `i` is written back and the entry is marked done: `A_INSERT(i, result)`, `A_INSERT(i, flags)`.
-/
def finishEntry (p : Slot) (io : TableIo) (i : Nat) (result : Int) (last : Iter) : Iter × State :=
  if !io p i .putResult then (.ret EFAULT, k)
  else
    let k := k.modTab p i fun e => { e with result := result }
    if !io p i .putFlags then (.ret EFAULT, k)
    else (last, k.modTab p i fun e => { e with flags := setDone e.flags })

/-- The entry has failed for good, and its result says why. -/
def failEntry (p : Slot) (io : TableIo) (i : Nat) (result : Int) : Iter × State :=
  (k.record (.failed p i)).finishEntry p io i result .next

/-- An entry of `mini_senda` that is valid and not done: it fails, its message is handed over, or its receiver is told
that a message is pending. -/
def sendaTo (c : Slot) (io : TableIo) (i : Nat) (e : AsynMsg) : Iter × State :=
  match k.isokendpt e.dst with
  | none => k.failEntry c io i EDEADSRCDST
  | some d =>
    if !k.maySendTo c d then k.failEntry c io i ECALLDENIED
    else if k.rtsIsset d .noEndpoint then k.failEntry c io i EDSTDIED
    else if k.willReceive d (k.proc c).pEndpoint && (!e.flags.testBit amfNoreply || !k.mf d .replyPend) then
      if !io c i .linMsg then k.failEntry c io i EFAULT
      else ((k.hand (.asyn i) c d e.msg).rtsUnset d {.receiving}).finishEntry c io i OK .next
    else (.undone, k.modProc d fun r => { r with pMiscFlags := r.pMiscFlags ∪ {.asynmsg} })

/-- One entry of `mini_senda`. -/
def sendaEntry (c : Slot) (io : TableIo) (i : Nat) : Iter × State :=
  if !io c i .getFlags then (.ret EFAULT, k)
  else
    let e := k.tab c i
    if e.flags = 0 then (.next, k)
    else if badFlags e.flags then (.ret EINVAL, k)
    else if e.flags.testBit amfDone then (.next, k)
    else if !io c i .getDst then (.ret EFAULT, k)
    else k.sendaTo c io i e

/-- The scan of `mini_senda`: the result of the call and whether all entries are done. -/
def sendaLoop (c : Slot) (io : TableIo) : List Nat → Bool → State → Int × Bool × State
  | [], done, k => (OK, done, k)
  | i :: is, done, k =>
    match k.sendaEntry c io i with
    | (.ret r, k) => (r, done, k)
    | (.next, k) => sendaLoop c io is done k
    | (_, k) => sendaLoop c io is false k

/-- The table of a privilege structure, `s_asyntab` and `s_asynsize`, is set. -/
def setTable (i : PrivId) (t n : Nat) : State := k.modPriv i fun r => { r with sAsyntab := t, sAsynsize := n }

/-- The table in the memory of `c` that `mini_senda` is about to scan. -/
def submitTable (c : Slot) (size : Nat) (table : Nat → AsynMsg) : State :=
  { k with tab := Function.update k.tab c table }.record (.submitted c size table)

/-- The scan of the submitted table, which is kept when an entry is not done. -/
def sendaScan (c : Slot) (a : CallArgs) (size : Nat) : Int × State :=
  match sendaLoop c a.io (List.range size) true k with
  | (r, done, k) => if r ≠ OK then (r, k) else (OK, if done then k else k.setTable (k.proc c).pPriv a.buf.vir size)

/-- `mini_senda(caller_ptr, table, size)`. -/
def miniSenda (c : Slot) (a : CallArgs) (size : Nat) : Int × State :=
  if .sysProc ∉ k.privFlags c then (EPERM, k)
  else
    let k := k.setTable (k.proc c).pPriv (2 ^ 32 - 1) 0
    if size = 0 then (OK, k)
    else if a.buf.lin = 0 then (EFAULT, k)
    else if size > 16 * nrSlots then (EDOM, k)
    else (k.submitTable c size a.table).sendaScan c a size

/-- One entry of `try_one`. -/
def tryOneEntry (src dst : Slot) (io : TableIo) (i : Nat) : Iter × State :=
  if !io src i .getFlags then (.ret EFAULT, k)
  else
    let e := k.tab src i
    if e.flags = 0 then (.next, k)
    else if badFlags e.flags then
      (.ret EINVAL, k.modPriv (k.proc src).pPriv fun r => { r with sAsynsize := 0 })
    else if e.flags.testBit amfDone then (.next, k)
    else if !io src i .getDst then (.ret EFAULT, k)
    else if e.dst ≠ (k.proc dst).pEndpoint then (.undone, k)
    else if e.flags.testBit amfNoreply && k.mf dst .replyPend then (.postponed, k)
    else if !io src i .getMsg then (.ret EFAULT, k)
    else (k.hand (.asyn i) src dst e.msg).finishEntry src io i OK (.ret OK)

/-- The scan of `try_one`: its result, whether an entry was postponed, and the new state. -/
def tryOneLoop (src dst : Slot) (io : TableIo) : List Nat → Bool → Bool → Int × Bool × State
  | [], done, postponed =>
    (EAGAIN, postponed, if done then k.modPriv (k.proc src).pPriv fun r => { r with sAsynsize := 0 } else k)
  | i :: is, done, postponed =>
    match k.tryOneEntry src dst io i with
    | (.ret r, k) => (r, postponed, k)
    | (.next, _) => tryOneLoop src dst io is done postponed
    | (.undone, _) => tryOneLoop src dst io is false postponed
    | (.postponed, _) => tryOneLoop src dst io is false true

/-- `try_one(src_ptr, dst_ptr, postponed)`. -/
def tryOne (src dst : Slot) (io : TableIo) (postponed : Bool) : Int × Bool × State :=
  let i := (k.proc src).pPriv
  if i = userPrivId then (EAGAIN, postponed, k)
  else if (k.priv i).sAsynsize = 0 then (EAGAIN, postponed, k)
  else if !k.maySendTo src dst then (EAGAIN, postponed, k)
  else k.tryOneLoop src dst io (List.range (k.priv i).sAsynsize) true postponed

/-- The loop of `try_async` over the privilege structures. -/
def tryAsyncLoop (c : Slot) (io : TableIo) : List PrivId → Bool → State → Int × State
  | [], postponed, k =>
    (ESRCH, if postponed then k else k.modProc c fun r => { r with pMiscFlags := r.pMiscFlags \ {.asynmsg} })
  | i :: is, postponed, k =>
    match (k.priv i).sProcNr with
    | none => tryAsyncLoop c io is postponed k
    | some src =>
      match k.tryOne src c io postponed with
      | (r, postponed, k) => if r = OK then (OK, k) else tryAsyncLoop c io is postponed k

/-- `try_async(caller_ptr)`. -/
def tryAsync (c : Slot) (io : TableIo) : Int × State := tryAsyncLoop c io (List.finRange 32) false k

/-! ## Receiving -/

/-- The lowest bit of one 16-bit chunk of `s_notify_pending`. -/
def lowBit (pending : Finset PrivId) (chunk : Nat) : Option PrivId :=
  (List.finRange 32).find? fun i => i.val / 16 = chunk && i ∈ pending

/-- The search of `mini_receive` for a pending notification: only the lowest bit of each chunk is looked at. The source
`src` is `none` for `ANY`. -/
def findNotify (pending : Finset PrivId) (src : Option Slot) : List Nat → Option PrivId
  | [] => none
  | chunk :: cs =>
    match lowBit pending chunk with
    | none => findNotify pending src cs
    | some i => if src.isSome ∧ (k.priv i).sProcNr ≠ src then findNotify pending src cs else some i

/-- The notification with system id `i` is delivered to the caller. -/
def takeNotify (c : Slot) (i : PrivId) : State :=
  let k := k.modPriv (k.proc c).pPriv fun r => { r with sNotifyPending := r.sNotifyPending.erase i }
  match (k.priv i).sProcNr with
  | none => k.halt
  | some src =>
    let b := k.buildNotifyMessage src c
    b.2.hand .notify src c b.1

/-- The message of the blocked sender `p` at place `x` of the caller's queue is taken. -/
def takeQueued (c p : Slot) (x : Loc Slot) : State :=
  let k := k.hand .send p c (k.proc p).pSendmsg
  let k := if k.mf p .sigDelay then k.sigDelayDone p else k
  let k := k.rtsUnset p {.sending}
  k.storeQ c x (k.proc p).pQLink

/-- The end of `mini_receive`: no suitable message is available. -/
def receiveBlock (c : Slot) (srcE : Endpoint) (nonBlocking : Bool) : Int × State :=
  if nonBlocking then (ENOTREADY, k)
  else (OK, (k.modProc c fun r => { r with pGetfromE := srcE }).rtsSet c {.receiving})

/-- The rest of `mini_receive` when no notification and no blocked sender was found. -/
def receiveAsyn (c : Slot) (srcE : Endpoint) (src : Option Slot) (io : TableIo) (nonBlocking : Bool) : Int × State :=
  if !k.mf c .asynmsg then k.receiveBlock c srcE nonBlocking
  else
    match src with
    | some q =>
      match k.tryOne q c io false with
      | (r, _, k) => if r = OK then (OK, k) else k.receiveBlock c srcE nonBlocking
    | none =>
      match k.tryAsync c io with
      | (r, k) => if r = OK then (OK, k) else k.receiveBlock c srcE nonBlocking

/-- `mini_receive` for a caller whose buffer is set and whose source is known: `src` is `none` for `ANY`. -/
def receiveFrom (c : Slot) (srcE : Endpoint) (src : Option Slot) (io : TableIo) (nonBlocking : Bool) : Int × State :=
  if k.rtsIsset c .sending then k.receiveBlock c srcE nonBlocking
  else
    match if k.mf c .replyPend then none else k.findNotify (k.priv (k.proc c).pPriv).sNotifyPending src [0, 1] with
    | some i => (OK, k.takeNotify c i)
    | none =>
      match scan (k.proc c).pCallerQ k.qLink (fun p => src.isNone || src = some p) loopFuel .head with
      | none => (OK, k.halt)
      | some x =>
        match x.get (k.proc c).pCallerQ k.qLink with
        | some p => (OK, k.takeQueued c p x)
        | none => k.receiveAsyn c srcE src io nonBlocking

/-- `mini_receive(caller_ptr, src_e, m_ptr, flags)`. -/
def miniReceive (c : Slot) (srcE : Endpoint) (buf : MsgBuf) (io : TableIo) (nonBlocking : Bool) : Int × State :=
  if buf.lin = 0 then (EFAULT, k)
  else
    let k := k.modProc c fun r => { r with pDelivermsgLin := buf.lin, pDelivermsgVir := buf.vir }
    if srcE = ANY then k.receiveFrom c srcE none io nonBlocking
    else
      match k.isokendpt srcE with
      | none => (OK, k.halt)
      | some q => if k.rtsIsset q .noEndpoint then (ESRCDIED, k) else k.receiveFrom c srcE (some q) io nonBlocking

/-! ## The system call -/

/-- The endpoint that a blocked process waits for. -/
def dependency (xp : Slot) : Option Endpoint :=
  if k.rtsIsset xp .receiving then some (k.proc xp).pGetfromE
  else if k.rtsIsset xp .sending then some (k.proc xp).pSendtoE
  else none

/-- `(xp->p_rts_flags ^ (function << 2)) & SENDING`. -/
def sendAndReceive (function : Nat) (xp : Slot) : Bool := xor (k.rtsIsset xp .sending) (function.testBit 0)

/-- `deadlock(function, cp, src_dst)` with the group size so far; `src_dst` is `none` for `ANY`. The result is `none`
when the loop has not ended in `n` rounds, or when an endpoint in the chain is not valid. -/
def deadlock (function : Nat) (cp : Slot) : Nat → Nat → Option Slot → Option Nat
  | 0, _, _ => none
  | _ + 1, _, none => some 0
  | n + 1, groupSize, some xp =>
    match k.dependency xp with
    | none => some 0
    | some e =>
      if e = ANY then some 0
      else
        match k.isokendpt e with
        | none => none
        | some y =>
          if y = cp then if groupSize + 1 = 2 ∧ k.sendAndReceive function xp then some 0 else some (groupSize + 1)
          else deadlock function cp n (groupSize + 1) (some y)

/-- The check of the destination in `sys_call`: an error, or `src_dst_p`. -/
def checkDst (c : Slot) (a : CallArgs) : Except Int Int :=
  if a.callNr = SENDA then .ok a.junk
  else if a.srcDstE = ANY then if a.callNr ≠ RECEIVE then .error EINVAL else .ok ANY
  else
    match k.isokendpt a.srcDstE with
    | none => .error EDEADSRCDST
    | some p => if a.callNr ≠ RECEIVE ∧ !k.maySendTo c p then .error ECALLDENIED else .ok (procNr p)

/-- The cast of an `int` to `size_t`. -/
def sizeT (n : Int) : Nat := (n % 2 ^ 32).toNat

/-- The switch of `sys_call`. -/
def performCall (c : Slot) (a : CallArgs) : Int × State :=
  if a.callNr = SENDREC then
    let k := k.modProc c fun r => { r with pMiscFlags := r.pMiscFlags ∪ {.replyPend} }
    match k.miniSend c a.srcDstE a.buf false with
    | (r, k) => if r ≠ OK then (r, k) else k.miniReceive c a.srcDstE a.buf a.io false
  else if a.callNr = SEND then k.miniSend c a.srcDstE a.buf false
  else if a.callNr = RECEIVE then
    let k := k.modProc c fun r => { r with pMiscFlags := r.pMiscFlags \ {.replyPend} }
    k.miniReceive c a.srcDstE a.buf a.io false
  else if a.callNr = NOTIFY then k.miniNotify c a.srcDstE
  else if a.callNr = SENDNB then k.miniSend c a.srcDstE a.buf true
  else if a.callNr = SENDA then k.miniSenda c a (sizeT a.srcDstE)
  else (EBADCALL, k)

/-- `sys_call` after the handling of system call tracing. -/
def checkedCall (c : Slot) (a : CallArgs) : Int × State :=
  match k.checkDst c a with
  | .error r => (r, k)
  | .ok srcDstP =>
    if a.callNr < 0 ∨ a.callNr ≥ 32 then (ETRAPDENIED, k)
    else if !(k.priv (k.proc c).pPriv).sTrapMask.testBit a.callNr.toNat then (ETRAPDENIED, k)
    else if srcDstP < 0 ∧ a.callNr ≠ SENDREC ∧ a.callNr ≠ RECEIVE then (ETRAPDENIED, k)
    else if a.callNr = SENDA ∧ sizeT a.srcDstE > 16 * nrSlots then (EDOM, k)
    else if a.callNr = SEND ∨ a.callNr = SENDREC ∨ a.callNr = RECEIVE then
      match k.deadlock a.callNr.toNat c loopFuel 1 (procAddr srcDstP) with
      | none => (OK, k.halt)
      | some groupSize => if groupSize ≠ 0 then (ELOCKED, k) else k.performCall c a
    else k.performCall c a

/-- `sys_call(call_nr, src_dst_e, m_ptr, bit_map)` by process `c`. -/
def sysCall (c : Slot) (a : CallArgs) : Int × State :=
  if k.mf c .scTrace && !k.mf c .scDefer then
    let k := k.modProc c fun r => { r with pMiscFlags := r.pMiscFlags \ {.scTrace} ∪ {.scDefer} }
    let k := k.causeSig c SIGTRAP
    ((k.proc c).retreg, k)
  else if k.mf c .scDefer then
    (k.modProc c fun r => { r with pMiscFlags := r.pMiscFlags \ {.scDefer} ∪ {.scActive} }).checkedCall c a
  else k.checkedCall c a

/-- A system call whose result goes to the caller's return register. -/
def trap (c : Slot) (a : CallArgs) : State :=
  match k.sysCall c a with
  | (r, k) => k.modProc c fun p => { p with retreg := r }

/-- `vm_suspend(caller, target, linaddr, len, wrflag, type)`. -/
def vmSuspend (caller target : Slot) (linaddr len : Nat) (type : VmsType) : State :=
  let k := k.rtsSet caller {.vmrequest}
  let r : VmRequest :=
    { nextrequestor := k.vmrequest, type := type, start := linaddr, length := len, writeflag := 1
      who := (k.proc target).pEndpoint }
  let k := k.modProc caller fun p => { p with pVmrequest := r }
  let k := if k.vmrequest = none then (k.miniNotify SYSTEM (procNr VM)).2 else k
  { k with vmrequest := some caller }

/-- `delivermsg(rp)`; writing to the buffer of the process faults or not. The message has 36 bytes. -/
def delivermsg (p : Slot) (fault : Bool) : Int × State :=
  if fault then (VMSUSPEND, k.vmSuspend p p (k.proc p).pDelivermsgLin 36 .delivermsg)
  else
    (OK, (k.modProc p fun r => { r with pMiscFlags := r.pMiscFlags \ {.delivermsg} }).record
      (.received p (k.proc p).pDelivermsg))

/-- One round of the loop of `schedcheck` for the process `p` that is about to run. -/
def schedcheckRound (p : Slot) (a : CallArgs) (fault : Bool) : State :=
  if k.mf p .delivermsg then (k.delivermsg p fault).2
  else if k.mf p .scDefer then
    let k := k.trap p a
    if k.mf p .sigDelay && !k.rtsIsset p .sending then k.sigDelayDone p else k
  else if k.mf p .scTrace then
    if !k.mf p .scActive then k
    else (k.modProc p fun r => { r with pMiscFlags := r.pMiscFlags \ {.scTrace, .scActive} }).causeSig p SIGTRAP
  else if k.mf p .scActive then k.modProc p fun r => { r with pMiscFlags := r.pMiscFlags \ {.scActive} }
  else k

end State

end Minix.Kernel
