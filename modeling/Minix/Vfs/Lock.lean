import Minix.Lib.Run

/-!
# Advisory locks

`lock_op` and `lock_revive` of `vfs/lock.c` and `close_fd` of `vfs/open.c`: a table of locks on regions of files, and
processes that are suspended until a lock is released. `none` stands for a panic, and for writing past the table.
-/

namespace Minix.Vfs

open Function

def nrLocks : Nat := 8
def nrProcs : Nat := 100
def initProcNr : Nat := 9
def openMax : Nat := 30
def maxFilePos : Int := 0x7FFFFFFF

/-- `F_RDLCK` and `F_WRLCK`. -/
inductive LockType
  | rd
  | wr
  deriving DecidableEq

structure FileLock where
  lockType : LockType
  lockPid : Nat
  lockVnode : Nat
  lockFirst : Int
  lockLast : Int
  deriving DecidableEq

/-- The locking table. A slot with type 0 is unused. -/
abbrev LockTable : Type := Fin nrLocks → Option FileLock

inductive LockReq
  | getlk
  | setlk
  | setlkw
  deriving DecidableEq

/-- The field `l_type`. -/
inductive FlockType
  | lock (t : LockType)
  | unlck
  | other
  deriving DecidableEq

/-- The field `l_whence`. -/
inductive Whence
  | seekSet
  | seekCur
  | seekEnd
  | other
  deriving DecidableEq

structure Flock where
  lType : FlockType
  lWhence : Whence
  lStart : Int
  lLen : Int
  lPid : Nat
  deriving DecidableEq

/-- What an open file is for the locks: its vnode, whether that is a regular file, and the mode it was opened with. -/
structure LockFilp where
  vno : Nat
  regular : Bool
  rBit : Bool
  wBit : Bool
  deriving DecidableEq

inductive LockRet
  | OK
  | EINVAL
  | EBADF
  | EAGAIN
  | ENOLCK
  | EFAULT
  | SUSPEND
  deriving DecidableEq

/-- The value of a `long`. -/
def long (x : Int) : Int := (x + 2 ^ 31) % 2 ^ 32 - 2 ^ 31

/-- The byte that the region is relative to. VFS panics if the position in the file is too high. -/
def Flock.base (fl : Flock) (pos : Nat) (size : Int) : Option (Option Int) :=
  match fl.lWhence with
  | .seekSet => some (some 0)
  | .seekCur => if pos / 2 ^ 32 ≠ 0 then none else some (some (long pos))
  | .seekEnd => some (some size)
  | .other => some none

/-- The first and last bytes in the lock region. -/
def Flock.region (fl : Flock) (first : Int) : Option (Int × Int) :=
  let start := long fl.lStart
  if 0 < start ∧ long (first + start) < first then none
  else if start < 0 ∧ first < long (first + start) then none
  else
    let first := long (first + start)
    let last := if fl.lLen = 0 then maxFilePos else long (first + fl.lLen - 1)
    if last < first then none else some (first, last)

/-! ## The loop over the table -/

/-- A request: `ltype` is the type of the lock to set or `none` to clear locks. -/
structure LockQuery where
  req : LockReq
  ltype : Option LockType
  pid : Nat
  vno : Nat
  first : Int
  last : Int
  deriving DecidableEq

/-- The checks of `lock_op` and the region. -/
def lockQuery (pid : Nat) (f : LockFilp) (pos : Nat) (size : Int) (req : LockReq) (fl : Flock) :
    Option (Except LockRet LockQuery) :=
  if fl.lType = .other then some (.error .EINVAL)
  else if req = .getlk ∧ fl.lType = .unlck then some (.error .EINVAL)
  else if ¬f.regular then some (.error .EINVAL)
  else if req ≠ .getlk ∧ fl.lType = .lock .rd ∧ ¬f.rBit then some (.error .EBADF)
  else if req ≠ .getlk ∧ fl.lType = .lock .wr ∧ ¬f.wBit then some (.error .EBADF)
  else do
    let base ← fl.base pos size
    match base.bind fl.region with
    | none => some (.error .EINVAL)
    | some (first, last) =>
      let ltype := match fl.lType with
        | .lock t => some t
        | _ => none
      some (.ok ⟨req, ltype, pid, f.vno, first, last⟩)

/-- The variables of the loop. -/
structure Scan where
  table : LockTable
  count : Nat
  empty : Option (Fin nrLocks)
  unlocking : Bool

/-- How the loop ends before it has seen the whole table. -/
inductive Stop
  | conflict (flp : FileLock)
  | again
  | suspend
  | full (s : Scan)
  | crash

/-- The first unused slot. -/
def firstFree (table : LockTable) : Option (Fin nrLocks) := (List.finRange nrLocks).find? fun i => table i = none

/-- A lock overlaps the region of a request. -/
def FileLock.Overlaps (l : FileLock) (q : LockQuery) : Prop :=
  l.lockVnode = q.vno ∧ l.lockFirst ≤ q.last ∧ q.first ≤ l.lockLast

instance (l : FileLock) (q : LockQuery) : Decidable (l.Overlaps q) := inferInstanceAs (Decidable (_ ∧ _ ∧ _))

/-- Clear the region of a lock that overlaps it. -/
def Scan.clear (q : LockQuery) (s : Scan) (i : Fin nrLocks) (flp : FileLock) : Except Stop Scan :=
  let s := { s with unlocking := true }
  if q.first ≤ flp.lockFirst ∧ flp.lockLast ≤ q.last then
    .ok { s with table := update s.table i none, count := s.count - 1 }
  else if q.first ≤ flp.lockFirst then
    .ok { s with table := update s.table i (some { flp with lockFirst := q.last + 1 }) }
  else if flp.lockLast ≤ q.last then
    .ok { s with table := update s.table i (some { flp with lockLast := q.first - 1 }) }
  -- the lock is split in two
  else if s.count = nrLocks then .error (.full s)
  else
    match firstFree s.table with
    | none => .error .crash
    | some j =>
      let table := update s.table j (some { flp with lockFirst := q.last + 1 })
      .ok { s with table := update table i (some { flp with lockLast := q.first - 1 }), count := s.count + 1 }

/-- One turn of the loop. -/
def Scan.visit (q : LockQuery) (s : Scan) (i : Fin nrLocks) : Except Stop Scan :=
  match s.table i with
  | none => .ok { s with empty := s.empty.or (some i) }
  | some flp =>
    if ¬flp.Overlaps q then .ok s
    else if q.ltype = some .rd ∧ flp.lockType = .rd then .ok s
    else if q.ltype ≠ none ∧ flp.lockPid = q.pid then .ok s
    else if q.req = .getlk then .error (.conflict flp)
    else if q.ltype ≠ none then .error (if q.req = .setlk then .again else .suspend)
    else s.clear q i flp

/-- The loop. -/
def Scan.run (q : LockQuery) (s : Scan) : Except Stop Scan := (List.finRange nrLocks).foldlM (Scan.visit q) s

/-! ## Processes -/

/-- What a process waits for: the descriptor and the request of its call of `fcntl`. -/
structure LockProc where
  pid : Option Nat
  onLock : Option (Nat × LockReq)
  reviving : Bool
  filp : Nat → Option LockFilp

structure LockState where
  table : LockTable
  nrLocks : Nat
  fproc : Fin nrProcs → LockProc

namespace LockState

variable (s : LockState)

/-- `lock_revive`. -/
def lockRevive : LockState :=
  { s with fproc := fun p =>
      if initProcNr < p.val ∧ (s.fproc p).pid ≠ none ∧ (s.fproc p).onLock ≠ none then
        { s.fproc p with reviving := true }
      else s.fproc p }

/-- Change the entry of a process. -/
def setProc (p : Fin nrProcs) (fp : LockProc) : LockState := { s with fproc := update s.fproc p fp }

/-- `lock_op` after the region has been computed. -/
def setLock (p : Fin nrProcs) (fd : Nat) (q : LockQuery) (fl : Flock) (copyOut : Bool) :
    Option (LockRet × Option Flock × LockState) :=
  match Scan.run q ⟨s.table, s.nrLocks, none, false⟩ with
  | .error (.conflict flp) =>
    -- `l_len` is a `long`
    let len := (flp.lockLast - flp.lockFirst + 1).bmod (2 ^ 32)
    let fl : Flock := ⟨.lock flp.lockType, .seekSet, flp.lockFirst, len, flp.lockPid⟩
    some (if copyOut then (.OK, some fl, s) else (.EFAULT, none, s))
  | .error .again => some (.EAGAIN, none, s)
  | .error .suspend => some (.SUSPEND, none, s.setProc p { s.fproc p with onLock := some (fd, q.req) })
  | .error (.full sc) => some (.ENOLCK, none, { s with table := sc.table, nrLocks := sc.count })
  | .error .crash => none
  | .ok sc =>
    let s : LockState := { s with table := sc.table, nrLocks := sc.count }
    let s := if sc.unlocking then s.lockRevive else s
    if q.req = .getlk then some (if copyOut then (.OK, some { fl with lType := .unlck }, s) else (.EFAULT, none, s))
    else
      match q.ltype with
      | none => some (.OK, none, s)
      | some t =>
        match sc.empty with
        | none => some (.ENOLCK, none, s)
        | some i =>
          let flp : FileLock := ⟨t, q.pid, q.vno, q.first, q.last⟩
          some (.OK, none, { s with table := update s.table i (some flp), nrLocks := s.nrLocks + 1 })

/-- `lock_op`. The structure `flock` is copied from and to the caller, which may fail. -/
def lockOp (p : Fin nrProcs) (fd pid : Nat) (f : LockFilp) (pos : Nat) (size : Int) (req : LockReq)
    (flock : Option Flock) (copyOut : Bool) :
    Option (LockRet × Option Flock × LockState) :=
  match flock with
  | none => some (.EINVAL, none, s)
  | some fl =>
    match lockQuery pid f pos size req fl with
    | none => none
    | some (.error r) => some (r, none, s)
    | some (.ok q) => s.setLock p fd q fl copyOut

/-- `do_fcntl`, for the requests about locks. -/
def doFcntl (p : Fin nrProcs) (fd pos : Nat) (size : Int) (req : LockReq) (flock : Option Flock) (copyOut : Bool) :
    Option (LockRet × Option Flock × LockState) :=
  match (s.fproc p).pid, (s.fproc p).filp fd with
  | some pid, some f => s.lockOp p fd pid f pos size req flock copyOut
  | _, _ => some (.EBADF, none, s)

/-- The slots with a lock of a process on a file. -/
def held (pid vno : Nat) : Finset (Fin Vfs.nrLocks) :=
  Finset.univ.filter fun i => ∃ l ∈ s.table i, l.lockVnode = vno ∧ l.lockPid = pid

/-- `close_fd`: all locks of the process on the file are released. -/
def closeFd (p : Fin nrProcs) (fd : Nat) : LockState :=
  match (s.fproc p).pid, (s.fproc p).filp fd with
  | some pid, some f =>
    let s := s.setProc p { s.fproc p with filp := update (s.fproc p).filp fd none }
    if s.nrLocks = 0 then s
    else
      let lockCount := s.nrLocks
      let own := s.held pid f.vno
      let s : LockState :=
        { s with table := fun i => if i ∈ own then none else s.table i, nrLocks := s.nrLocks - own.card }
      if s.nrLocks < lockCount then s.lockRevive else s
  | _, _ => s

/-- `unpause`, of a process that may be suspended on a lock. -/
def unpause (p : Fin nrProcs) : LockState :=
  if (s.fproc p).onLock ≠ none then s.setProc p { s.fproc p with onLock := none, reviving := false } else s

/-- `free_proc` of a process that exits. -/
def freeProc (p : Fin nrProcs) : LockState :=
  let s := (List.range openMax).foldl (fun s fd => s.closeFd p fd) (s.unpause p)
  s.setProc p { s.fproc p with pid := none }

/-- `pm_fork`. VFS panics if the slot of the child is in use. -/
def pmFork (p child : Fin nrProcs) (pid : Nat) : Option LockState :=
  if (s.fproc child).pid ≠ none then none else some (s.setProc child { s.fproc p with pid := some pid })

end LockState

/-- What VFS handles, as far as it matters for locks. `retry` is a call that is tried again by `get_work`, and `open_`
stands for all the ways to get a new descriptor. -/
inductive LockEvent
  | fcntl (p : Fin nrProcs) (fd pos : Nat) (size : Int) (req : LockReq) (flock : Option Flock) (copyOut : Bool)
  | retry (p : Fin nrProcs) (pos : Nat) (size : Int) (flock : Option Flock) (copyOut : Bool)
  | close (p : Fin nrProcs) (fd : Nat)
  | exit (p : Fin nrProcs)
  | unpause (p : Fin nrProcs)
  | fork (p child : Fin nrProcs) (pid : Nat)
  | open_ (p : Fin nrProcs) (fd : Nat) (f : LockFilp)

/-- One event, with what is replied to the caller. -/
def LockState.handle (s : LockState) : LockEvent → Option (LockRet × Option Flock × LockState)
  | .fcntl p fd pos size req flock copyOut => s.doFcntl p fd pos size req flock copyOut
  | .retry p pos size flock copyOut =>
    match (s.fproc p).onLock with
    | none => some (.OK, none, s)
    | some (fd, req) =>
      (s.setProc p { s.fproc p with onLock := none, reviving := false }).doFcntl p fd pos size req flock copyOut
  | .close p fd => some (.OK, none, s.closeFd p fd)
  | .exit p => some (.OK, none, s.freeProc p)
  | .unpause p => some (.OK, none, s.unpause p)
  | .fork p child pid => (s.pmFork p child pid).map fun s => (.OK, none, s)
  | .open_ p fd f =>
    some (.OK, none, s.setProc p { s.fproc p with filp := update (s.fproc p).filp fd (some f) })

end Minix.Vfs
