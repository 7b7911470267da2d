import Minix.Kernel.Types
import Minix.Lib.Prog

/-!
# The reincarnation server

The table of system services and all that changes it: `do_up`, `do_start`, `do_down`, `do_restart`, `do_refresh`,
`do_shutdown`, `do_exit`, `do_period`, `start_service`, `stop_service` and `run_script` (`rs/manager.c`), and the
dispatch of messages (`rs/main.c`).

The state has also the children of the server as the process manager knows them, live ones and those that have exited
and are not yet waited for, and a history of the calls of `start_service`. A child that is sent `SIGKILL` is not live
any more. What forks, copies and other servers answer comes with each message.
-/

namespace Minix.Rs

open Minix.Lib Function List

/-! ## Tables -/

def OK : Int := 0

def ESRCH : Int := -3

def EIO : Int := -5

def E2BIG : Int := -7

def ENOMEM : Int := -12

def EBUSY : Int := -16

def EINVAL : Int := -22

def EDONTREPLY : Int := -201

def SIGKILL : Nat := 9

abbrev SlotNr := Fin 32

abbrev Text := List Char

/-- `r_flags`. -/
structure Flags where
  inUse : Bool := false
  exiting : Bool := false
  refreshing : Bool := false
  noPingReply : Bool := false
  killed : Bool := false
  crashed : Bool := false
  lateReply : Bool := false
  signaled : Bool := false
  execFailed : Bool := false
  deriving DecidableEq

/-- `struct rproc`. -/
structure Rproc where
  procNrE : Int := 0
  pid : Int := 0
  restarts : Int := 0
  backoff : Nat := 0
  flags : Flags := {}
  period : Int := 0
  checkTm : Int := 0
  aliveTm : Int := 0
  stopTm : Int := 0
  caller : Int := 0
  /-- The length of the copy of the executable. -/
  exec : Option Nat := none
  label : Text := []
  /-- The path, which is the first word of the command. -/
  cmd : Text := []
  script : Text := []

inductive ExitStatus
  | exited (code : Nat)
  | signaled (sig : Nat)
  deriving DecidableEq

/-- A child of the server: the slot that it was started for, unless it runs a script, and its status once it has exited.
-/
structure Child where
  pid : Int
  slot : Option SlotNr
  status : Option ExitStatus := none
  deriving DecidableEq

/-- A call of `start_service`, with the processes of the slot that were live then. -/
structure Start where
  slot : SlotNr
  live : List Int

structure State where
  rproc : SlotNr → Rproc := fun _ => {}
  rprocPtr : Int → Option SlotNr := fun _ => none
  shuttingDown : Bool := false
  execPipe : List SlotNr := []
  children : List Child := []
  /-- The callers of `do_down` that got a late reply. -/
  replies : List Int := []
  starts : List Start := []

namespace State

def modRproc (s : State) (i : SlotNr) (f : Rproc → Rproc) : State :=
  { s with rproc := update s.rproc i (f (s.rproc i)) }

/-- The processes of a slot that are live. -/
def live (s : State) (i : SlotNr) : List Int :=
  (s.children.filter fun c => c.slot = some i ∧ c.status = none).map Child.pid

/-- A child exits. -/
def exits (s : State) (pid : Int) (st : ExitStatus) : State :=
  { s with children := s.children.map fun c => if c.pid = pid ∧
    c.status = none then { c with status := some st } else c }

/-- `kill(pid, SIGKILL)`. -/
def kill (s : State) (pid : Int) : State := s.exits pid (.signaled SIGKILL)

/-- The search for a service. -/
def find (s : State) (label : Text) : Option SlotNr :=
  (finRange 32).find? fun i => (s.rproc i).flags.inUse = true ∧ (s.rproc i).label = label

/-- The search of `do_exit`. -/
def findPid (s : State) (pid : Int) : Option SlotNr :=
  (finRange 32).find? fun i => (s.rproc i).flags.inUse = true ∧ (s.rproc i).pid = pid

/-- The slot that `do_start` takes. -/
def freeSlot (s : State) : Option SlotNr := (finRange 32).find? fun i => (s.rproc i).flags.inUse = false

/-- The slots that `do_up` takes: the test `! rp->r_flags & RS_IN_USE` is for a slot without flags. -/
def unused (s : State) : Option SlotNr := (finRange 32).find? fun i => (s.rproc i).flags = {}

/-- `do_up` does not check that its search has succeeded: the last slot is taken if it has not. -/
def upSlot (s : State) : SlotNr := s.unused.getD 31

end State

def modRproc (i : SlotNr) (f : Rproc → Rproc) : Prog State Unit := modify fun s => s.modRproc i f

/-- A program that stops at an error. -/
def thenOk (x y : Prog State Int) : Prog State Int := do
  let r ← x
  if r ≠ OK then return r else y

/-! ## Starting and stopping -/

/-- What `start_service` is answered. -/
structure StartAns where
  /-- The new process and its endpoint, or `errno`. -/
  fork : Except Int (Int × Int)
  /-- `sys_privctl`. -/
  privctl : Int := OK
  /-- `vm_set_priv`. -/
  setPriv : Int := OK
  uptime : Int := 0

/-- A child is forked. Its process number is not in use. -/
def forked (pid : Int) (slot : Option SlotNr) : Prog State Unit := do
  let s ← get
  if pid ≤ 0 ∨ pid ∈ s.children.map Child.pid then crash
  else modify fun s => { s with children := s.children ++ [{ pid := pid, slot := slot }] }

/-- The new process cannot be used. -/
def startFailed (i : SlotNr) (pid r : Int) : Prog State Int := do
  modRproc i fun rp => { rp with flags := { rp.flags with exiting := true } }
  modify fun s => s.kill pid
  return r

/-- `start_service(rp, flags, endpoint)`, without flags. -/
def startService (i : SlotNr) (a : StartAns) : Prog State Int := do
  modify fun s => { s with starts := s.starts ++ [⟨i, s.live i⟩] }
  match a.fork with
  | .error errno => return errno
  | .ok (pid, e) =>
    forked pid (some i)
    if a.privctl < 0 then startFailed i pid a.privctl
    else if a.setPriv < 0 then startFailed i pid a.setPriv
    else
      modRproc i fun rp =>
        { rp with
          flags := { inUse := true }, restarts := rp.restarts + 1, procNrE := e, pid := pid, checkTm := 0,
          aliveTm := a.uptime, stopTm := 0 }
      modify fun s => { s with rprocPtr := update s.rprocPtr (Kernel.endpointP e) (some i) }
      return OK

/-- `stop_service(rp, how)`. The signal `SIGTERM` need not end the process. -/
def stopService (i : SlotNr) (how : Flags → Flags) (uptime : Int) : Prog State Unit :=
  modRproc i fun rp => { rp with flags := how rp.flags, stopTm := uptime }

/-- A slot is released. -/
def release (i : SlotNr) : Prog State Unit := do
  modRproc i fun rp => { rp with flags := {}, exec := none }
  modify fun s => { s with rprocPtr := update s.rprocPtr (Kernel.endpointP (s.rproc i).procNrE) none }

/-- `run_script(rp)`, with the answer of the fork. -/
def runScript (i : SlotNr) (fork : Except Int Int) : Prog State Unit := do
  let s ← get
  let f := (s.rproc i).flags
  if f.exiting ∨ f.refreshing ∨ f.noPingReply ∨ f.killed ∨ f.crashed ∨ f.signaled then
    match fork with
    | .error _ => return
    | .ok pid => forked pid none
  else return

/-! ## Requests -/

/-- A string in an array of characters. -/
def cstr (t : Text) : Text := t.takeWhile fun c => c.toNat ≠ 0

/-- The name after the last slash, cut to the size of a label. -/
def defaultLabel (cmd : Text) : Text := (cmd.reverse.takeWhile fun c => c ≠ '/').reverse.take 15

/-- The command is copied, and its first word is the path. -/
def setCmd (i : SlotNr) (max len : Nat) (cmd : Except Int Text) : Prog State Int := do
  if max < len then return E2BIG
  else
    match cmd with
    | .error r => return r
    | .ok t =>
      if t.head? ≠ some '/' then
        modRproc i fun rp => { rp with cmd := cstr t }
        return EINVAL
      else
        modRproc i fun rp => { rp with cmd := (cstr t).takeWhile fun c => c ≠ ' ' }
        return OK

/-- `read_exec(rp)`, with the length of the file that was read. -/
def readExec (i : SlotNr) (file : Except Int Nat) : Prog State Int := do
  match file with
  | .error r => return r
  | .ok len =>
    modRproc i fun rp => { rp with exec := some len }
    return OK

/-- `copy_exec(rp_dst, rp_src)`, with whether memory was allocated. -/
def copyExec (dst src : SlotNr) (malloc : Bool) : Prog State Int := do
  let s ← get
  if malloc = false then return ENOMEM
  else if (s.rproc src).exec = some 0 then return EIO
  else
    modRproc dst fun rp => { rp with exec := (s.rproc src).exec }
    return OK

/-- The message of `RS_UP` and `RS_UP_COPY`. -/
structure UpReq where
  cmdLen : Nat
  cmd : Except Int Text
  file : Except Int Nat := .error EIO
  period : Int := 0

/-- What `do_up` enters in the slot after the command. -/
def setUp (i : SlotNr) (copy : Bool) (q : UpReq) : Prog State Int := do
  modRproc i fun rp => { rp with script := [], label := defaultLabel rp.cmd, exec := none }
  if copy = true then readExec i q.file else return OK

/-- The last fields, before the service is started. -/
def initFields (i : SlotNr) (period : Int) (a : StartAns) : Prog State Int := do
  modRproc i fun rp => { rp with period := period, restarts := -1 }
  startService i a

/-- `do_up(m_ptr, do_copy, flags)`. -/
def doUp (copy : Bool) (q : UpReq) (a : StartAns) : Prog State Int := do
  let s ← get
  let i := s.upSlot
  thenOk (setCmd i 512 q.cmdLen q.cmd) <| thenOk (setUp i copy q) (initFields i q.period a)

/-- `struct rs_start`. -/
structure StartReq where
  cmdLen : Nat
  cmd : Except Int Text
  label : Option (Except Int Text) := none
  scriptLen : Nat := 0
  script : Option (Except Int Text) := none
  /-- The length of the list of `RF_IPC_VALID`, and how copying it ends. -/
  ipc : Option (Nat × Int) := none
  copy : Bool := false
  reuse : Bool := false
  file : Except Int Nat := .error EIO
  malloc : Bool := true
  nrIrq : Int := 0
  nrIo : Int := 0
  nrPciId : Int := 0
  nrPciClass : Int := 0
  period : Int := 0

def setLabel (i : SlotNr) (label : Option (Except Int Text)) : Prog State Int := do
  match label with
  | some (.error r) => return r
  | some (.ok t) =>
    modRproc i fun rp => { rp with label := cstr (t.take 15) }
    return OK
  | none =>
    modRproc i fun rp => { rp with label := defaultLabel rp.cmd }
    return OK

/-- The label is not that of another service. -/
def checkLabel (i : SlotNr) : Prog State Int := do
  let s ← get
  if ∃ j, (s.rproc j).flags.inUse = true ∧ j ≠ i ∧
    (s.rproc j).label = (s.rproc i).label then return EBUSY else return OK

def setScript (i : SlotNr) (len : Nat) (script : Option (Except Int Text)) : Prog State Int := do
  modRproc i fun rp => { rp with script := [] }
  if 255 < len then return E2BIG
  else
    match script with
    | none => return OK
    | some (.error r) => return r
    | some (.ok t) =>
      modRproc i fun rp => { rp with script := cstr t }
      return OK

/-- The list of IPC targets. -/
def checkIpc (ipc : Option (Nat × Int)) : Prog State Int := do
  match ipc with
  | none => return OK
  | some (len, r) => if 256 < len + 1 then return EINVAL else return r

/-- The copy of the executable, if one is wanted. -/
def setExec (i : SlotNr) (q : StartReq) : Prog State Int := do
  modRproc i fun rp => { rp with exec := none }
  let s ← get
  if q.copy = false then return OK
  else if q.reuse = false then readExec i q.file
  else
    match (finRange 32).find? fun j => (s.rproc i).cmd = (s.rproc j).cmd ∧ (s.rproc j).exec ≠ none with
    | some j => copyExec i j q.malloc
    | none => readExec i q.file

/-- The resources that are granted. -/
def checkResources (q : StartReq) : Prog State Int := do
  if 4 < q.nrIrq then return EINVAL
  else if 32 < q.nrIo then return EINVAL
  else if 32 < q.nrPciId then return EINVAL
  else if 4 < q.nrPciClass then return EINVAL
  else return OK

/-- What `do_start` enters in the slot. -/
def describe (i : SlotNr) (q : StartReq) : Prog State Int :=
  thenOk (setCmd i 511 q.cmdLen q.cmd) <| thenOk (setLabel i q.label) <| thenOk (checkLabel i) <|
    thenOk (setScript i q.scriptLen q.script) <| thenOk (checkIpc q.ipc) <| thenOk (setExec i q) (checkResources q)

/-- `do_start(m_ptr)`. -/
def doStart (q : Except Int StartReq) (a : StartAns) : Prog State Int := do
  match q with
  | .error r => return r
  | .ok q =>
    let s ← get
    match s.freeSlot with
    | none => return ENOMEM
    | some i => thenOk (describe i q) (initFields i q.period a)

/-- A message with the label of a service. -/
structure LabelReq where
  source : Int := 0
  len : Nat
  label : Except Int Text

/-- The service of a message. -/
def withLabel (q : LabelReq) (f : SlotNr → Prog State Int) : Prog State Int := do
  if 16 ≤ q.len then return EINVAL
  else
    match q.label with
    | .error r => return r
    | .ok t =>
      let s ← get
      match s.find (cstr t) with
      | none => return ESRCH
      | some i => f i

/-- `do_down(m_ptr)`. -/
def doDown (q : LabelReq) (uptime : Int) : Prog State Int :=
  withLabel q fun i => do
    stopService i (fun f => { f with exiting := true }) uptime
    let s ← get
    if (s.rproc i).pid = -1 then
      release i
      return OK
    else
      modRproc i fun rp => { rp with flags := { rp.flags with lateReply := true }, caller := q.source }
      return EDONTREPLY

/-- `do_restart(m_ptr)`. -/
def doRestart (q : LabelReq) (a : StartAns) : Prog State Int :=
  withLabel q fun i => do
    let s ← get
    if 0 ≤ (s.rproc i).pid then return EBUSY
    else
      modRproc i fun rp =>
        { rp with flags := { rp.flags with exiting := false, refreshing := false, noPingReply := false } }
      startService i a

/-- `do_refresh(m_ptr)`. -/
def doRefresh (q : LabelReq) (uptime : Int) : Prog State Int :=
  withLabel q fun i => do
    stopService i (fun f => { f with refreshing := true }) uptime
    return OK

/-- `do_shutdown(m_ptr)`. -/
def doShutdown : Prog State Int := do
  modify fun s => { s with shuttingDown := true }
  return OK

/-! ## Exits -/

/-- What children do. -/
inductive Event
  | exits (pid : Int) (st : ExitStatus)
  /-- The executable cannot be run: the slot is written to the pipe. -/
  | execFails (pid : Int)

/-- A live child exits, or one that was started for a slot writes to the pipe. -/
def childEvent (e : Event) : Prog State Unit := do
  let s ← get
  match e with
  | .exits pid st =>
    if (s.children.find? fun c => c.pid = pid ∧ c.status = none).isSome then modify fun s => s.exits pid st else crash
  | .execFails pid =>
    match (s.children.find? fun c => c.pid = pid ∧ c.status = none).bind Child.slot with
    | none => crash
    | some i => modify fun s => { s with execPipe := s.execPipe ++ [i] }

/-- The pipe is read. -/
def readPipe : Prog State Unit :=
  modify fun s =>
    { s.execPipe.foldl
      (fun s i => s.modRproc i fun rp => { rp with flags := { rp.flags with execFailed := true } }) s with
      execPipe := [] }

/-- The service is not to be started again. -/
def down (i : SlotNr) : Prog State Unit := do
  modify fun s => if (s.rproc i).flags.lateReply = true
    then { s with replies := s.replies ++ [(s.rproc i).caller] } else s
  release i

/-- The service is refreshed. -/
def refresh (i : SlotNr) (a : StartAns) (script : Except Int Int) : Prog State Unit := do
  modRproc i fun rp => { rp with restarts := -1 }
  let s ← get
  if (s.rproc i).script ≠ [] then runScript i script
  else
    let _ ← startService i a
    return

/-- The flag for an unexpected exit. -/
def Flags.died (f : Flags) : ExitStatus → Flags
  | .signaled sig => if sig = SIGKILL then { f with killed := true } else { f with signaled := true }
  | .exited _ => { f with crashed := true }

/-- The periods to wait before a service is started again. -/
def backoffOf (restarts : Int) (exec : Option Nat) : Nat :=
  let b := min (1 <<< min restarts.toNat 30) 30
  if exec ≠ none ∧ 1 < b then 1 else b

/-- The first unexpected exit is followed by a direct restart, the others by one after a binary exponential backoff. -/
def recover (i : SlotNr) (st : ExitStatus) (a : StartAns) (script : Except Int Int) : Prog State Unit := do
  modRproc i fun rp => { rp with flags := rp.flags.died st }
  let s ← get
  if (s.rproc i).script ≠ [] then runScript i script
  else if 0 < (s.rproc i).restarts then modRproc i fun rp => { rp with backoff := backoffOf rp.restarts rp.exec }
  else
    let _ ← startService i a
    return

/-- The process of a slot is gone. -/
def gone (i : SlotNr) (st : ExitStatus) (a : StartAns) (script : Except Int Int) : Prog State Unit := do
  modify fun s => { s with rprocPtr := update s.rprocPtr (Kernel.endpointP (s.rproc i).procNrE) none }
  modRproc i fun rp => { rp with pid := -1 }
  let s ← get
  if (s.rproc i).flags.exiting = true ∨ s.shuttingDown = true then down i
  else if (s.rproc i).flags.refreshing = true then refresh i a script
  else if (s.rproc i).flags.execFailed = true then modRproc i fun rp => { rp with flags := {} }
  else recover i st a script

/-- The rest of a round of the loop of `do_exit`, for what `waitpid` has returned. -/
def waited (pid : Int) (st : ExitStatus) (a : StartAns) (script : Except Int Int) : Prog State Unit := do
  readPipe
  let s ← get
  match s.findPid pid with
  | none => return
  | some i => gone i st a script

/-- What happens in the loop of `do_exit`. -/
inductive Wait
  | event (e : Event)
  /-- A child has exited. -/
  | child (pid : Int) (a : StartAns) (script : Except Int Int)
  /-- There are no children: `waitpid` returns -1 and sets no status. -/
  | noChild (st : ExitStatus) (a : StartAns) (script : Except Int Int)

def waitRound : Wait → Prog State Unit
  | .event e => childEvent e
  | .child pid a script => do
    let s ← get
    match (s.children.find? fun c => c.pid = pid).bind Child.status with
    | none => crash
    | some st =>
      modify fun s => { s with children := s.children.filter fun c => c.pid ≠ pid }
      waited pid st a script
  | .noChild st a script => do
    let s ← get
    if s.children ≠ [] then crash else waited (-1) st a script

/-- `do_exit(m_ptr)`. The loop ends when no child has exited, but it goes on as long as there are no children at all. -/
def doExit (ws : List Wait) : Prog State Unit := do
  ws.forM waitRound
  let s ← get
  if s.children = [] ∨ ∃ c ∈ s.children, c.status ≠ none then crash else return

/-- The status of a service is checked. -/
def checkStatus (i : SlotNr) (now : Int) (rp : Rproc) : Prog State Unit := do
  if rp.aliveTm < rp.checkTm then
    if 2 * rp.period < now - rp.aliveTm ∧ 0 < rp.pid ∧ rp.flags.noPingReply = false then
      modRproc i fun rp => { rp with flags := { rp.flags with noPingReply := true } }
      modify fun s => s.kill rp.pid
    else return
  else if rp.period < now - rp.checkTm then modRproc i fun rp => { rp with checkTm := now }
  else return

/-- A period of backoff has passed. -/
def waitBackoff (i : SlotNr) (a : StartAns) : Prog State Unit := do
  modRproc i fun rp => { rp with backoff := rp.backoff - 1 }
  let s ← get
  if (s.rproc i).backoff = 0 then
    let _ ← startService i a
    return
  else return

/-- One slot of the loop of `do_period`. -/
def periodSlot (now : Int) (a : SlotNr → StartAns) (i : SlotNr) : Prog State Unit := do
  let s ← get
  let rp := s.rproc i
  if rp.flags.inUse = false then return
  else if 0 < rp.backoff then waitBackoff i (a i)
  else if 0 < rp.stopTm ∧ 2 * 60 < now - rp.stopTm ∧ 0 < rp.pid then modify fun s => s.kill rp.pid
  else if 0 < rp.period then checkStatus i now rp
  else return

/-- `do_period(m_ptr)`. -/
def doPeriod (now : Int) (a : SlotNr → StartAns) : Prog State Unit := (finRange 32).forM (periodSlot now a)

/-! ## Messages -/

inductive Request
  | up (copy : Bool) (q : UpReq) (a : StartAns)
  | start (q : Except Int StartReq) (a : StartAns)
  | down (q : LabelReq) (uptime : Int)
  | refresh (q : LabelReq) (uptime : Int)
  | restart (q : LabelReq) (a : StartAns)
  | shutdown

def Request.prog : Request → Prog State Int
  | .up copy q a => doUp copy q a
  | .start q a => doStart q a
  | .down q uptime => doDown q uptime
  | .refresh q uptime => doRefresh q uptime
  | .restart q a => doRestart q a
  | .shutdown => doShutdown

/-- `SIGCHLD`, if it is pending. -/
def onSigchld : Option (List Wait) → Prog State Unit
  | none => return
  | some ws => doExit ws

/-- `sig_handler()`, with the signals that are pending. -/
def sigHandler (chld : Option (List Wait)) (term : Bool) : Prog State Unit := do
  onSigchld chld
  modify fun s => if term = true then { s with shuttingDown := true } else s

/-- What the server receives, and what its children do in the meantime. -/
inductive Op
  | request (euid : Nat) (r : Request)
  | signals (chld : Option (List Wait)) (term : Bool)
  | period (now : Int) (a : SlotNr → StartAns)
  | heartbeat (who : Int) (timestamp : Int)
  | event (e : Event)

/-- A round of the main loop. -/
def Op.prog : Op → Prog State Unit
  | .request euid r => do
    if euid ≠ 0 then return
    else
      let _ ← r.prog
      return
  | .signals chld term => sigHandler chld term
  | .period now a => doPeriod now a
  | .heartbeat who timestamp => do
    let s ← get
    match s.rprocPtr who with
    | none => return
    | some i => modRproc i fun rp => { rp with aliveTm := timestamp }
  | .event e => childEvent e

/-- The effect of a round. -/
def State.step (s : State) (o : Op) : Option State := (o.prog s).map fun x => x.2

end Minix.Rs
