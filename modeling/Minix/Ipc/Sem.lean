import Mathlib
import Minix.Lib.UpdateAll

/-!
# The semaphores of the IPC server

`ipc/sem.c`: sets of semaphores that processes make with `semget`, change with `semop` and control with `semctl`. A
process whose operation is not possible is put asleep: it is added to one of the two waiting lists of the semaphore and
gets no reply. After every `semop`, and after `semctl` has changed a value, `update_semaphores` looks at all the
semaphores and wakes processes up. A function that reads or writes outside of its arrays has the value `none`.
-/

namespace Minix.Ipc

open Minix.Lib

/-! ## Requests and replies -/

def semMni : Nat := 128
def semMsl : Nat := 250
def semOpm : Nat := 32
def semVmx : Nat := 32767

def ipcCreat : Nat := 0o1000
def ipcExcl : Nat := 0o2000
def ipcNowait : Nat := 0o4000
def ipcPrivate : Int := 0

inductive Ret
  | OK | EEXIST | EACCES | EINVAL | ENOENT | ENOSPC | E2BIG | ENOMEM | EFBIG | EAGAIN | EPERM | EFAULT |
    ERANGE | EIDRM | EINTR
  deriving DecidableEq

structure IpcPerm where
  uid : Nat
  cuid : Nat
  gid : Nat
  cgid : Nat
  mode : Nat
  deriving DecidableEq

/-- The process that makes a call, `who_e`, with what PM tells of it. -/
structure Caller where
  who : Nat
  uid : Nat
  gid : Nat
  pid : Nat
  deriving DecidableEq

/-- What is copied to the caller. -/
inductive Data
  | none
  | ds (perm : IpcPerm) (nsems : Nat)
  | vals (buf : List Nat)
  deriving DecidableEq

structure Reply where
  who : Nat
  ret : Ret
  val : Nat
  data : Data
  deriving DecidableEq

/-- `send_message_to_process`. -/
def sendMessageToProcess (who : Nat) (ret : Ret) : Reply := ⟨who, ret, 0, .none⟩

structure Sembuf where
  semNum : Nat
  semOp : Int
  semFlg : Nat
  deriving DecidableEq

/-- Does the allocation of the array succeed, does copying it from the caller, and does the allocation of a waiting list
fail at one of the operations? -/
structure Memory where
  malloc : Bool
  copy : Bool
  lost : Option Nat
  deriving DecidableEq

/-- The commands of `semctl`, with whether memory can be allocated and the caller's memory be accessed. -/
inductive Cmd
  | ipcStat (ds copy : Bool)
  | ipcSet (copy : Bool) (uid gid mode : Nat)
  | ipcRmid
  | ipcInfo
  | semInfo
  | semStat
  | getAll (malloc copy : Bool)
  | getNcnt
  | getPid
  | getVal
  | getZcnt
  | setAll (malloc copy : Bool) (buf : List Nat)
  | setVal (val : Int)
  | unknown
  deriving DecidableEq

/-- What the server handles. A new shared memory segment takes an identifier. -/
inductive Event
  | semget (c : Caller) (key nsems : Int) (flag : Nat)
  | semctl (c : Caller) (id : Nat) (num : Int) (cmd : Cmd)
  | semop (c : Caller) (id : Nat) (sops : List Sembuf) (mem : Memory)
  | exit (pt : Nat)
  | shmget

/-! ## The tables -/

structure Waiting where
  who : Nat
  val : Int
  deriving DecidableEq

/-- A list that has never been needed is not allocated. It stays allocated when it becomes empty. -/
structure Semaphore where
  semval : Nat
  semzcnt : Nat
  semncnt : Nat
  zlist : Option (List Waiting)
  nlist : Option (List Waiting)
  sempid : Nat
  deriving DecidableEq

structure SemStruct where
  key : Int
  id : Nat
  perm : IpcPerm
  sems : List Semaphore
  deriving DecidableEq

structure Server where
  semList : List SemStruct
  identifier : Nat
  deriving DecidableEq

/-- The server when it starts. -/
def Server.init : Server := ⟨[], 0x1234⟩

/-- `check_perm`. -/
def checkPerm (req : IpcPerm) (c : Caller) (mode : Nat) : Bool :=
  let mode := mode &&& 0o666
  if c.uid = 0 then true
  else
    let (reqMode, curMode) :=
      if c.uid = req.uid ∨ c.uid = req.cuid then ((req.mode >>> 6) &&& 7, (mode >>> 6) &&& 7)
      else if c.gid = req.gid ∨ c.gid = req.cgid then ((req.mode >>> 3) &&& 7, (mode >>> 3) &&& 7)
      else (req.mode &&& 7, mode &&& 7)
    curMode ≠ 0 && curMode &&& reqMode = curMode

/-! ## The waiting lists -/

/-- The first `cnt` entries of a waiting list. -/
def entries (list : Option (List Waiting)) (cnt : Nat) : Option (List Waiting) :=
  if cnt ≤ (list.getD []).length then some ((list.getD []).take cnt) else none

/-- The list with a last entry, as the `cnt`-th. Any other length would leave entries that nobody has written. -/
def addWaiting (list : Option (List Waiting)) (cnt : Nat) (w : Waiting) : Option (List Waiting) :=
  if (list.getD []).length + 1 = cnt then some (list.getD [] ++ [w]) else none

/-- `remove_process`, for one of the lists. -/
def dropProcess (pt : Nat) (list : Option (List Waiting)) (cnt : Nat) :
    Option (Option (List Waiting) × Nat × List Reply) := do
  let l ← entries list cnt
  match l.findIdx? (fun w => w.who = pt) with
  | none => return (list, cnt, [])
  | some k => return (some (l.eraseIdx k), cnt - 1, [sendMessageToProcess pt .EINTR])

namespace Semaphore

variable (s : Semaphore)

/-- `remove_process`, for one semaphore. -/
def removeProcess (pt : Nat) : Option (Semaphore × List Reply) := do
  let (zlist, semzcnt, out₁) ← dropProcess pt s.zlist s.semzcnt
  let (nlist, semncnt, out₂) ← dropProcess pt s.nlist s.semncnt
  return ({ s with zlist, semzcnt, nlist, semncnt }, out₁ ++ out₂)

/-- `update_one_semaphore` with `is_remove`, for one semaphore. -/
def removed : Option (Semaphore × List Reply) := do
  let z ← entries s.zlist s.semzcnt
  let n ← entries s.nlist s.semncnt
  return (s, (z ++ n).map fun w => sendMessageToProcess w.who .EIDRM)

/-- Wake up the first process that waits for zero. Whether there is one is read off the pointer to the list, so that the
length of the list to move may be negative. -/
def wakeZero : Option (Semaphore × List Reply) :=
  match s.zlist with
  | none => some (s, [])
  | some l =>
    if s.semval ≠ 0 then some (s, [])
    else
      match l with
      | [] => none
      | w :: l =>
        if s.semzcnt = 0 then none
        else some ({ s with zlist := some l, semzcnt := s.semzcnt - 1 }, [sendMessageToProcess w.who .OK])

/-- Wake up the first process whose amount is there. -/
def wakeIncrease : Option (Semaphore × List Reply) :=
  match s.nlist with
  | none => some (s, [])
  | some _ => do
    let l ← entries s.nlist s.semncnt
    match l.findIdx? (fun w => w.val ≤ (s.semval : Int)) with
    | none => return (s, [])
    | some j =>
      let w ← l[j]?
      let semval := ((s.semval : Int) - w.val).toNat
      return ({ s with semval, nlist := some (l.eraseIdx j), semncnt := s.semncnt - 1 },
        [sendMessageToProcess w.who .OK])

/-- `update_one_semaphore`, for one semaphore. -/
def wake : Option (Semaphore × List Reply) := do
  let (s, out₁) ← s.wakeZero
  let (s, out₂) ← s.wakeIncrease
  return (s, out₁ ++ out₂)

end Semaphore

/-! ## semop -/

/-- What becomes of one operation. -/
inductive Next
  | applied
  | asleep
  | denied
  | lost
  deriving DecidableEq

/-- One operation on a semaphore, by a process with or without the permission to alter it. -/
def Semaphore.operate (s : Semaphore) (c : Caller) (alter realloc : Bool) (op : Int) : Option (Next × Semaphore) :=
  let s := { s with sempid := c.pid }
  if 0 < op then
    if alter then some (.applied, { s with semval := ((s.semval + op) % 65536).toNat }) else some (.denied, s)
  else if op = 0 then
    if s.semval = 0 then some (.applied, s)
    else
      let semzcnt := (s.semzcnt + 1) % 65536
      if realloc then
        (addWaiting s.zlist semzcnt ⟨c.who, op⟩).map fun l => (.asleep, { s with semzcnt, zlist := some l })
      else some (.lost, { s with semzcnt, zlist := none })
  else if alter then
    if -op ≤ s.semval then some (.applied, { s with semval := (s.semval + op).toNat })
    else
      let semncnt := (s.semncnt + 1) % 65536
      if realloc then
        (addWaiting s.nlist semncnt ⟨c.who, -op⟩).map fun l => (.asleep, { s with semncnt, nlist := some l })
      else some (.lost, { s with semncnt, nlist := none })
  else some (.denied, s)

/-- The operations one by one. The result has the number of those that put the process asleep. -/
def operations (c : Caller) (alter : Bool) (lost : Option Nat) :
    Nat → List Sembuf → List Semaphore → Nat → Option (Ret × List Semaphore × Nat)
  | _, [], sems, noReply => some (.OK, sems, noReply)
  | i, op :: sops, sems, noReply => do
    let s ← sems[op.semNum]?
    let (next, s) ← s.operate c alter (lost ≠ some i) op.semOp
    let sems := sems.set op.semNum s
    match next with
    | .applied => operations c alter lost (i + 1) sops sems noReply
    | .asleep => operations c alter lost (i + 1) sops sems (noReply + 1)
    | .denied => return (.EACCES, sems, noReply)
    | .lost => return (.OK, sems, noReply)

/-- Is an operation possible with a value of the semaphore? -/
def Possible (val : Nat) (op : Int) : Prop := (op = 0 → val = 0) ∧ (op < 0 → -op ≤ val)

instance (val : Nat) (op : Int) : Decidable (Possible val op) := inferInstanceAs (Decidable (_ ∧ _))

/-- The value of a semaphore. -/
def valueAt (sems : List Semaphore) (num : Nat) : Nat := (sems[num]?.map (·.semval)).getD 0

namespace SemStruct

variable (sem : SemStruct)

/-- The checks before the operations. -/
def refuses (c : Caller) (sops : List Sembuf) (mem : Memory) : Option Ret :=
  if sops.length = 0 then some .EINVAL
  else if semOpm < sops.length then some .E2BIG
  else if ¬checkPerm sem.perm c 0o444 then some .EACCES
  else if ¬mem.malloc then some .ENOMEM
  else if ¬mem.copy then some .EINVAL
  else if ∃ op ∈ sops, sem.sems.length ≤ op.semNum then some .EFBIG
  else if ¬(sops.map (·.semNum)).Nodup then some .EINVAL
  else if ∃ op ∈ sops, op.semFlg &&& ipcNowait ≠ 0 ∧ ¬Possible (valueAt sem.sems op.semNum) op.semOp then some .EAGAIN
  else none

/-- Go through the semaphores of the set. -/
def eachSemaphore (f : Semaphore → Option (Semaphore × List Reply)) : Option (SemStruct × List Reply) := do
  let (sems, out) ← updateAll f sem.sems
  return ({ sem with sems }, out)

/-- May the caller control the set, as its owner or its creator? -/
def owner (c : Caller) : Bool := c.uid = sem.perm.cuid || c.uid = sem.perm.uid || c.uid = 0

end SemStruct

/-- Set the values one by one, until one is out of range. -/
def setValues : List Semaphore → List Nat → Ret × List Semaphore
  | s :: sems, val :: buf =>
    if semVmx < val then (.ERANGE, s :: sems)
    else
      let (r, sems) := setValues sems buf
      (r, { s with semval := val } :: sems)
  | sems, _ => (.OK, sems)

namespace Server

variable (s : Server)

/-- `sem_find_key`. -/
def semFindKey (key : Int) : Option SemStruct :=
  if key = ipcPrivate then none else s.semList.find? fun sem => sem.key = key

/-- `sem_find_id`: the place of the set in the list. -/
def semFindId (id : Nat) : Option (Nat × SemStruct) := do
  let i ← s.semList.findIdx? fun sem => sem.id = id
  let sem ← s.semList[i]?
  return (i, sem)

/-- Write a set back to its place. -/
def put (i : Nat) (sem : SemStruct) : Server := { s with semList := s.semList.set i sem }

/-- Go through all the semaphores of all the sets. -/
def eachSemaphore (f : Semaphore → Option (Semaphore × List Reply)) : Option (Server × List Reply) := do
  let (semList, out) ← updateAll (·.eachSemaphore f) s.semList
  return ({ s with semList }, out)

/-- `update_semaphores`. -/
def updateSemaphores : Option (Server × List Reply) := s.eachSemaphore Semaphore.wake

/-- `remove_process`. -/
def removeProcess (pt : Nat) : Option (Server × List Reply) := s.eachSemaphore (·.removeProcess pt)

/-- `remove_semaphore`: the last set takes the place of the one that is removed. -/
def removeSemaphore (i : Nat) : Server :=
  { s with semList := (match s.semList.getLast? with
    | none => s.semList
    | some sem => s.semList.set i sem).dropLast }

/-- The next identifier is taken. -/
def nextIdentifier : Nat := (s.identifier + 1) % 2 ^ 32

/-- `do_semget`. -/
def doSemget (c : Caller) (key nsems : Int) (flag : Nat) : Server × Ret × Nat :=
  match s.semFindKey key with
  | some sem =>
    if flag &&& ipcCreat ≠ 0 ∧ flag &&& ipcExcl ≠ 0 then (s, .EEXIST, 0)
    else if ¬checkPerm sem.perm c flag then (s, .EACCES, 0)
    -- the comparison is one of unsigned numbers
    else if nsems < 0 ∨ sem.sems.length < nsems then (s, .EINVAL, 0)
    else (s, .OK, sem.id)
  | none =>
    if flag &&& ipcCreat = 0 then (s, .ENOENT, 0)
    else if nsems < 0 ∨ semMsl ≤ nsems then (s, .EINVAL, 0)
    else if s.semList.length = semMni then (s, .ENOSPC, 0)
    else
      let sem : SemStruct :=
        { key, id := s.identifier, perm := ⟨c.uid, c.uid, c.gid, c.gid, flag &&& 0o777⟩,
          sems := List.replicate nsems.toNat ⟨0, 0, 0, none, none, 0⟩ }
      (⟨s.semList ++ [sem], s.nextIdentifier⟩, .OK, s.identifier)

/-- What a request does before `update_semaphores`: the messages that are sent, whether the semaphores are to be
updated, and the message that is sent last. -/
structure Act where
  srv : Server
  sent : List Reply
  update : Bool
  reply : List Reply

/-- An answer that changes nothing. -/
def answer (c : Caller) (ret : Ret) (val : Nat) (data : Data) : Option Act :=
  some ⟨s, [], false, [⟨c.who, ret, val, data⟩]⟩

def fail (c : Caller) (ret : Ret) : Option Act := s.answer c ret 0 .none

/-- The commands that read a field of one semaphore. -/
def getField (c : Caller) (sem : SemStruct) (num : Int) (field : Semaphore → Nat) : Option Act :=
  if num < 0 ∨ sem.sems.length ≤ num then s.fail c .EINVAL
  else do
    let semaphore ← sem.sems[num.toNat]?
    s.answer c .OK (field semaphore) .none

/-- The commands of `do_semctl`. Those that change values end with `update_semaphores`. -/
def command (c : Caller) (i : Nat) (sem : SemStruct) (num : Int) : Cmd → Option Act
  | .ipcStat ds copy =>
    if ¬ds then s.fail c .EFAULT
    else if ¬copy then s.fail c .EINVAL
    else s.answer c .OK 0 (.ds sem.perm sem.sems.length)
  | .ipcSet copy uid gid mode =>
    if ¬sem.owner c then s.fail c .EPERM
    else if ¬copy then s.fail c .EINVAL
    else
      let perm := { sem.perm with uid, gid, mode := (sem.perm.mode >>> 9 <<< 9) ||| (mode &&& 0o666) }
      (s.put i { sem with perm }).answer c .OK 0 .none
  | .ipcRmid =>
    if ¬sem.owner c then s.fail c .EPERM
    else do
      let (_, out) ← sem.eachSemaphore Semaphore.removed
      return ⟨s.removeSemaphore i, out, false, [sendMessageToProcess c.who .OK]⟩
  | .ipcInfo => s.answer c .OK 0 .none
  | .semInfo => s.answer c .OK 0 .none
  | .semStat => s.answer c .OK 0 .none
  | .getAll malloc copy =>
    if ¬malloc then s.fail c .ENOMEM
    else if ¬copy then s.fail c .EINVAL
    else s.answer c .OK 0 (.vals (sem.sems.map (·.semval)))
  | .getNcnt => s.getField c sem num (·.semncnt)
  | .getPid => s.getField c sem num (·.sempid)
  | .getVal => s.getField c sem num (·.semval)
  | .getZcnt => s.getField c sem num (·.semzcnt)
  | .setAll malloc copy buf =>
    if ¬malloc then s.fail c .ENOMEM
    else if ¬copy then s.fail c .EINVAL
    else
      let (r, sems) := setValues sem.sems buf
      some ⟨s.put i { sem with sems }, [], true, [sendMessageToProcess c.who r]⟩
  | .setVal val =>
    if ¬checkPerm sem.perm c 0o222 then s.fail c .EACCES
    else if num < 0 ∨ sem.sems.length ≤ num then s.fail c .EINVAL
    else if val < 0 ∨ semVmx < val then s.fail c .ERANGE
    else
      let sems := sem.sems.modify num.toNat fun x => { x with semval := val.toNat }
      some ⟨s.put i { sem with sems }, [], true, [sendMessageToProcess c.who .OK]⟩
  | .unknown => s.fail c .EINVAL

/-- `do_semctl`. -/
def doSemctl (c : Caller) (id : Nat) (num : Int) (cmd : Cmd) : Option Act :=
  match s.semFindId id with
  | none => s.fail c .EINVAL
  | some (i, sem) =>
    match cmd with
    | .ipcSet .. | .ipcRmid => s.command c i sem num cmd
    | _ => if ¬checkPerm sem.perm c 0o444 then s.fail c .EACCES else s.command c i sem num cmd

/-- `do_semop`. The caller is answered before the semaphores are updated, also if the call fails. -/
def doSemop (c : Caller) (id : Nat) (sops : List Sembuf) (mem : Memory) : Option Act :=
  match s.semFindId id with
  | none => some ⟨s, [sendMessageToProcess c.who .EINVAL], true, []⟩
  | some (i, sem) =>
    match sem.refuses c sops mem with
    | some r => some ⟨s, [sendMessageToProcess c.who r], true, []⟩
    | none => do
      let (r, sems, noReply) ← operations c (checkPerm sem.perm c 0o222) mem.lost 0 sops sem.sems 0
      let sent := if r ≠ .OK ∨ noReply = 0 then [sendMessageToProcess c.who r] else []
      return ⟨s.put i { sem with sems }, sent, true, []⟩

/-- The request of one turn of the server's main loop. -/
def act : Event → Option Act
  | .semget c key nsems flag =>
    let (s, r, id) := s.doSemget c key nsems flag
    s.answer c r id .none
  | .semctl c id num cmd => s.doSemctl c id num cmd
  | .semop c id sops mem => s.doSemop c id sops mem
  | .exit pt => do
    let (s, out) ← s.removeProcess pt
    return ⟨s, out, false, []⟩
  | .shmget => some ⟨{ s with identifier := s.nextIdentifier }, [], false, []⟩

/-- One turn of the server's main loop, with all the messages it sends. -/
def handle (e : Event) : Option (Server × List Reply) := do
  let a ← s.act e
  if a.update then
    let (s, out) ← a.srv.updateSemaphores
    return (s, a.sent ++ out ++ a.reply)
  else return (a.srv, a.sent ++ a.reply)

end Server

end Minix.Ipc
