import Minix.Lib.DoubleWord
import Minix.Lib.Run
import Minix.Vfs.Lock
import Minix.Vfs.Tables

/-!
# Positions in files

`do_lseek` and `do_llseek` of `vfs/open.c`, and the calls that use the position they set: `read_write` and `do_getdents`
of `vfs/read.c`, and `do_fcntl` of `vfs/misc.c` for locks and for freeing a part of a file. Positions are numbers of two
words. What drivers and file servers answer is chosen by the environment, and `none` stands for a panic.
-/

namespace Minix.Vfs.Seek

open Lib

def EAGAIN : Int := -11

def EFAULT : Int := -14

def ESPIPE : Int := -29

def EPIPE : Int := -32

def ENOLCK : Int := -37

def PIPE_BUF : Nat := 7168

/-- `rw_flag`. -/
inductive Rw
  | reading
  | writing
  deriving DecidableEq

/-- `u64_t`. -/
abbrev U64 := DWord 32

/-- `struct vnode`. `v_size` and the positions of a pipe have type `off_t`. -/
structure Vnode where
  type : FileType
  /-- `v_pipe` is `I_PIPE`. -/
  pipe : Bool := false
  size : BitVec 32 := 0
  rdPos : BitVec 32 := 0
  wrPos : BitVec 32 := 0
  /-- There is none for `NO_DEV`. -/
  sdev : Option Nat := none
  deriving DecidableEq

/-- `struct filp`. The bits are those of `filp_mode`, and are both clear for `FILP_CLOSED`. -/
structure Filp where
  count : Nat := 0
  rBit : Bool := false
  wBit : Bool := false
  /-- `O_APPEND` and `O_NONBLOCK` in `filp_flags`. -/
  append : Bool := false
  nonblock : Bool := false
  pos : U64 := ⟨0, 0⟩
  vno : VnodeRef := 0
  deriving DecidableEq

/-- `struct fproc`. -/
structure Fproc where
  filp : Fd → Option FilpRef := fun _ => none
  inuse : Fd → Bool := fun _ => false
  cumIoPartial : Nat := 0
  /-- The process waits for the answer to a call. -/
  suspended : Bool := false

structure State where
  vnode : VnodeRef → Vnode
  filp : FilpRef → Filp
  fproc : ProcRef → Fproc

/-- What a call returns, and the fields `reply_l1` and `reply_l2` of its answer. -/
structure Out where
  ret : Int
  replyL1 : BitVec 32 := 0
  replyL2 : BitVec 32 := 0
  /-- The position and the number of bytes of the request to a driver or a file server. -/
  asked : Option (U64 × Int) := none
  deriving DecidableEq

namespace State

def modVnode (s : State) (v : VnodeRef) (f : Vnode → Vnode) : State :=
  { s with vnode := Function.update s.vnode v (f (s.vnode v)) }

def modFproc (s : State) (p : ProcRef) (f : Fproc → Fproc) : State :=
  { s with fproc := Function.update s.fproc p (f (s.fproc p)) }

/-- `filp_pos` is set. -/
def setPos (s : State) (x : FilpRef) (pos : U64) : State :=
  { s with filp := Function.update s.filp x { s.filp x with pos := pos } }

/-- A process is suspended if the call returns `SUSPEND`. -/
def suspendIf (s : State) (p : ProcRef) (r : Int) : State :=
  s.modFproc p fun fp => { fp with suspended := fp.suspended || decide (r = SUSPEND) }

/-- The vnode of an open file. -/
def node (s : State) (x : FilpRef) : Vnode := s.vnode (s.filp x).vno

/-- `get_filp(fild)`, with the error code. -/
def getFilp (s : State) (p : ProcRef) (fild : Int) : Except Int FilpRef :=
  if h : 0 ≤ fild ∧ fild < 30 then
    let fd : Fd := ⟨fild.toNat, (Int.toNat_lt h.1).mpr h.2⟩
    match (s.fproc p).filp fd with
    | some x => .ok x
    | none => .error (if (s.fproc p).inuse fd then EIO else EBADF)
  else .error EBADF

/-- `find_filp(vp, bits)` finds something, for one of the bits. -/
def findFilp (s : State) (v : VnodeRef) (w : Bool) : Bool :=
  (List.finRange 512).any fun x =>
    (s.filp x).count ≠ 0 ∧ (s.filp x).vno = v ∧ (if w then (s.filp x).wBit else (s.filp x).rBit) = true

/-! ## Seeking -/

/-- The start position. -/
def seekBase (s : State) (x : FilpRef) : Whence → Option U64
  | .seekSet => some ⟨0, 0⟩
  | .seekCur => some (s.filp x).pos
  | .seekEnd => some (.ofWord (s.node x).size)
  | .other => none

end State

/-- The offset of `lseek`, or the two words of that of `llseek`. -/
inductive Offset
  | long (offset : BitVec 32)
  | longer (lo hi : BitVec 32)
  deriving DecidableEq

namespace Offset

/-- The new position, if there is no overflow. -/
def newpos (pos : U64) : Offset → Except Int U64
  | long offset =>
    let newpos := if 0 ≤ offset.toInt then pos.addWord offset else pos.subWord (-offset)
    if newpos.hi ≠ 0 then .error EINVAL else .ok newpos
  | longer lo hi =>
    let newpos := pos.add ⟨lo, hi⟩
    if 0 < hi.toInt ∧ newpos.Before pos then .error EINVAL
    else if hi.toInt < 0 ∧ pos.Before newpos then .error EINVAL
    else .ok newpos

/-- The answer to a seek. -/
def reply (newpos : U64) : Offset → Out
  | long _ => { ret := OK, replyL1 := newpos.lo }
  | longer _ _ => { ret := OK, replyL1 := newpos.lo, replyL2 := newpos.hi }

end Offset

namespace State

/-- `do_lseek()` and `do_llseek()`, which differ in the offset. `inhibread` is what the file server answers to
`req_inhibread`. -/
def doSeek (s : State) (p : ProcRef) (lsFd : Int) (whence : Whence) (offset : Offset) (inhibread : Int) : State × Out :=
  match s.getFilp p lsFd with
  | .error errCode => (s, { ret := errCode })
  | .ok x =>
    if (s.node x).pipe = true then (s, { ret := ESPIPE })
    else
      match s.seekBase x whence with
      | none => (s, { ret := EINVAL })
      | some pos =>
        match offset.newpos pos with
        | .error r => (s, { ret := r })
        | .ok newpos =>
          if newpos ≠ (s.filp x).pos ∧ inhibread ≠ OK then (s, { ret := inhibread })
          else (s.setPos x newpos, offset.reply newpos)

def doLseek (s : State) (p : ProcRef) (lsFd : Int) (whence : Whence) (offsetLo : BitVec 32) (inhibread : Int) :
    State × Out :=
  s.doSeek p lsFd whence (.long offsetLo) inhibread

def doLlseek (s : State) (p : ProcRef) (lsFd : Int) (whence : Whence) (offsetLo offsetHigh : BitVec 32)
    (inhibread : Int) :
    State × Out :=
  s.doSeek p lsFd whence (.longer offsetLo offsetHigh) inhibread

end State

/-! ## Reading and writing -/

/-- The bit that allows a transfer. -/
def Filp.bit (f : Filp) : Rw → Bool
  | .reading => f.rBit
  | .writing => f.wBit

/-- The position in a pipe. -/
def Vnode.pipePos (vp : Vnode) : Rw → BitVec 32
  | .reading => vp.rdPos
  | .writing => vp.wrPos

/-- What drivers and file servers answer to a transfer. -/
structure IoAns where
  /-- What `dev_io` returns. -/
  dev : Int := 0
  /-- What is answered to `req_breadwrite`: the new position and the number of bytes, or an error. -/
  block : Except Int (U64 × BitVec 32) := .error EIO
  /-- What is in `res_pos` and `res_cum_io` before, and after an error. -/
  stale : U64 × BitVec 32 := (⟨0, 0⟩, 0)
  /-- What is answered to `req_readwrite`. An error is negative. -/
  fs : Except Int (BitVec 32 × BitVec 32) := .error EIO

/-- `PM_PROC_NR`. -/
def pmProc : ProcRef := 0

/-- `_PM_SEG_FLAG` in a descriptor. -/
def segFlag (fd : Int) : Bool := (BitVec.ofInt 32 fd).getLsbD 30

/-- `req_readwrite` panics if the position is too large. -/
def reqReadwrite (pos : U64) (fs : Except Int (BitVec 32 × BitVec 32)) : Option (Except Int (U64 × BitVec 32)) :=
  if pos.hi ≠ 0 then none
  else
    match fs with
    | .error r => some (.error r)
    | .ok (resPos, cumIo) => some (.ok (.ofWord resPos, cumIo))

/-- The position after a request at a position, with the number of bytes or the error. It is a panic if the answer is
too large. -/
def newPosition (position : U64) (fs : Except Int (BitVec 32 × BitVec 32)) : Option (U64 × Int) := do
  match ← reqReadwrite position fs with
  | .error r => some (position, r)
  | .ok (newPos, cumIo) => if newPos.hi ≠ 0 then none else some (newPos, cumIo.toNat)

/-- The file size is updated on write. It is a panic if it gets too big. -/
def Vnode.grow (vp : Vnode) (position : U64) : Option Vnode :=
  if (DWord.ofWord vp.size).Before position then
    if position.hi ≠ 0 then none else some { vp with size := position.lo }
  else some vp

/-- The vnode of a file that is no special file, after a transfer that ended at a position. -/
def Vnode.transferred (vp : Vnode) (rw : Rw) (position : U64) : Option Vnode :=
  if rw = .writing ∧ (vp.type = .regular ∨ vp.type = .directory) then vp.grow position else some vp

namespace State

/-- `Xpipe_check` for a position in a pipe. Processes that wait for the pipe are not considered here. -/
def pipeCheck (s : State) (v : VnodeRef) (rw : Rw) (nonblock : Bool) (bytes : Int) (position : U64) : Option Int :=
  if position.hi ≠ 0 then none
  else
    let pos := position.lo.toInt
    match rw with
    | .reading =>
      if (s.vnode v).size.toInt ≤ pos then
        if s.findFilp v true then some (if nonblock then EAGAIN else SUSPEND) else some 0
      else some bytes
    | .writing =>
      if s.findFilp v false = false then some EPIPE
      else if PIPE_BUF < long (pos + bytes) then
        let space : Int := PIPE_BUF - pos
        if nonblock then
          -- a write of at most `PIPE_BUF` bytes has to be atomic
          if bytes ≤ PIPE_BUF then some EAGAIN else some (if 0 < space then space else EAGAIN)
        else if PIPE_BUF < bytes ∧ 0 < space then some space
        else some SUSPEND
      else some bytes

/-- The bytes of a read request are truncated at the size of a pipe, where the position has to fit in an `off_t`. -/
def pipeSize (vp : Vnode) (rw : Rw) (size : Int) (position : U64) : Option Int :=
  match rw with
  | .reading =>
    if (DWord.ofWord vp.size).Before (position.addWord (BitVec.ofInt 32 size)) then
      if 2 ^ 31 ≤ position.value then none else some (vp.size.toInt - position.value)
    else some size
  | .writing => some size

/-- The size and the positions of a pipe after a transfer that ended at a position. -/
def pipeMoved (vp : Vnode) (rw : Rw) (position : U64) : Option Vnode :=
  match rw with
  | .reading =>
    if position.Before (.ofWord vp.size) then some { vp with rdPos := position.lo }
    else some { vp with size := 0, rdPos := 0, wrPos := 0 }
  | .writing => do
    let vp ← vp.grow position
    some { vp with wrPos := position.lo }

/-- `rw_pipe(rw_flag, usr, fd_nr, f, buf, req_size)`. -/
def rwPipe (s : State) (p : ProcRef) (rw : Rw) (x : FilpRef) (reqSize : Int) (ans : IoAns) : Option (State × Out) := do
  let v := (s.filp x).vno
  let nonblock := (s.filp x).nonblock
  let position : U64 := .ofWord ((s.vnode v).pipePos rw)
  let r ← s.pipeCheck v rw nonblock reqSize position
  if r ≤ 0 then some (s.suspendIf p r, { ret := r })
  else
    let size ← pipeSize (s.vnode v) rw r position
    let (position', r') ← newPosition position ans.fs
    let vp ← pipeMoved (s.vnode v) rw position'
    let s := s.modVnode v fun _ => vp
    let asked := some (position, size)
    if r' < 0 then some (s, { ret := r', asked })
    else if r < reqSize ∧ nonblock = false then
      -- the rest is written when there is space
      some (s.modFproc p fun fp => { fp with cumIoPartial := r'.toNat, suspended := true }, { ret := SUSPEND, asked })
    else some (s.modFproc p fun fp => { fp with cumIoPartial := 0 }, { ret := r', asked })

/-- Character special files. -/
def rwChar (s : State) (p : ProcRef) (x : FilpRef) (nbytes : Int) (ans : IoAns) : State × Out :=
  let position := (s.filp x).pos
  let asked := some (position, nbytes)
  if 0 ≤ ans.dev then (s.setPos x (position.addWord (BitVec.ofInt 32 ans.dev)), { ret := ans.dev, asked })
  else ((s.setPos x position).suspendIf p ans.dev, { ret := ans.dev, asked })

/-- Block special files. After an error the new position is one that was never set. -/
def rwBlock (s : State) (x : FilpRef) (nbytes : Int) (ans : IoAns) : State × Out :=
  let asked := some ((s.filp x).pos, nbytes)
  match ans.block with
  | .error e => (s.setPos x ans.stale.1, { ret := e, asked })
  | .ok (resPos, cumIo) => (s.setPos x resPos, { ret := cumIo.toNat, asked })

/-- All other files. -/
def rwRegular (s : State) (rw : Rw) (x : FilpRef) (nbytes : Int) (ans : IoAns) : Option (State × Out) := do
  let v := (s.filp x).vno
  let vp := s.vnode v
  let position := if rw = .writing ∧ (s.filp x).append = true then .ofWord vp.size else (s.filp x).pos
  let (position', r) ← newPosition position ans.fs
  let vp ← vp.transferred rw position'
  some ((s.modVnode v fun _ => vp).setPos x position', { ret := r, asked := some (position, nbytes) })

/-- `read_write(rw_flag)`. -/
def readWrite (s : State) (p : ProcRef) (rw : Rw) (fd nbytes : Int) (ans : IoAns) : Option (State × Out) :=
  if p = pmProc ∧ segFlag fd = true then none
  else if nbytes < 0 then some (s, { ret := EINVAL })
  else
    match s.getFilp p fd with
    | .error errCode => some (s, { ret := errCode })
    | .ok x =>
      let f := s.filp x
      if f.bit rw = false then
        some (s, { ret := if f.rBit = false ∧ f.wBit = false then EIO else EBADF })
      else if nbytes = 0 then some (s, { ret := 0 })
      else if (s.node x).pipe = true then
        if (s.fproc p).cumIoPartial ≠ 0 then none else s.rwPipe p rw x nbytes ans
      else
        match (s.node x).type with
        | .charSpecial => if (s.node x).sdev = none then none else some (s.rwChar p x nbytes ans)
        | .blockSpecial => if (s.node x).sdev = none then none else some (s.rwBlock x nbytes ans)
        | _ => s.rwRegular rw x nbytes ans

/-! ## Directories, locks and free space -/

/-- `do_getdents()`. The file server answers with the number of bytes, or an error, and the change of the position. -/
def doGetdents (s : State) (p : ProcRef) (fd nbytes : Int) (ans : Int × BitVec 32) : Option (State × Out) :=
  match s.getFilp p fd with
  | .error errCode => some (s, { ret := errCode })
  | .ok x =>
    if (s.filp x).rBit = false then some (s, { ret := EBADF })
    else if (s.node x).type ≠ .directory then some (s, { ret := EBADF })
    else if (s.filp x).pos.hi ≠ 0 then none
    else
      let asked := some ((s.filp x).pos, nbytes)
      if 0 < ans.1 then some (s.setPos x ((s.filp x).pos.addWord ans.2), { ret := ans.1, asked })
      else some (s, { ret := ans.1, asked })

end State

/-- The number for a result of `lock_op`. -/
def lockRet : LockRet → Int
  | .OK => OK
  | .EINVAL => EINVAL
  | .EBADF => EBADF
  | .EAGAIN => EAGAIN
  | .ENOLCK => ENOLCK
  | .EFAULT => EFAULT
  | .SUSPEND => SUSPEND

namespace State

/-- What `lock_op` is told about an open file. -/
def lockFilp (s : State) (x : FilpRef) : LockFilp where
  vno := (s.filp x).vno.val
  regular := decide ((s.node x).type = .regular)
  rBit := (s.filp x).rBit
  wBit := (s.filp x).wBit

/-- `do_fcntl()` with `F_GETLK`, `F_SETLK` or `F_SETLKW`, where `fl` is `none` if it cannot be copied. The loop over the
table of locks does not use the position, and its result is an answer here. -/
def lockOp (s : State) (p : ProcRef) (fd : Int) (req : LockReq) (fl : Option Flock) (ans : LockRet) :
    Option (State × Out) :=
  match s.getFilp p fd with
  | .error errCode => some (s, { ret := errCode })
  | .ok x =>
    match fl with
    | none => some (s, { ret := EINVAL })
    | some fl => do
      match ← lockQuery p.val (s.lockFilp x) (s.filp x).pos.value (s.node x).size.toInt req fl with
      | .error r => some (s, { ret := lockRet r })
      | .ok _ => some (s.suspendIf p (lockRet ans), { ret := lockRet ans })

/-- The start position of the part of a file that is freed. It is a panic if the position is too high. -/
def freespBase (s : State) (x : FilpRef) (fl : Flock) : Option (Option Int) :=
  match fl.lWhence with
  | .seekSet => some (if long fl.lStart < 0 then none else some 0)
  | .seekCur => if (s.filp x).pos.hi ≠ 0 then none else some (some (s.filp x).pos.lo.toInt)
  | .seekEnd => some (some (s.node x).size.toInt)
  | .other => some none

/-- The part of a file from a start position, or an overflow. Its end is 0 if it is the rest of the file. -/
def freespRange (start : Int) (fl : Flock) : Option (Int × Int) :=
  let offset := long fl.lStart
  if 0 < offset ∧ long (start + offset) < start then none
  else if offset < 0 ∧ start < long (start + offset) then none
  else
    let start := long (start + offset)
    if 0 < fl.lLen then
      let last := long (start + fl.lLen)
      if last ≤ start then none else some (start, last)
    else some (start, 0)

/-- `do_fcntl()` with `F_FREESP`. `fl` is an error if it cannot be copied, and `ans` is what the file server answers. -/
def freesp (s : State) (p : ProcRef) (fd : Int) (fl : Except Int Flock) (ans : Int) : Option (State × Out) :=
  match s.getFilp p fd with
  | .error errCode => some (s, { ret := errCode })
  | .ok x =>
    if (s.node x).type ≠ .regular then some (s, { ret := EINVAL })
    else if (s.filp x).wBit = false then some (s, { ret := EBADF })
    else
      match fl with
      | .error r => some (s, { ret := r })
      | .ok fl => do
        match (← s.freespBase x fl).bind (freespRange · fl) with
        | none => some (s, { ret := EINVAL })
        | some _ => some (s, { ret := ans })

end State

inductive Op
  | lseek (p : ProcRef) (lsFd : Int) (whence : Whence) (offsetLo : BitVec 32) (inhibread : Int)
  | llseek (p : ProcRef) (lsFd : Int) (whence : Whence) (offsetLo offsetHigh : BitVec 32) (inhibread : Int)
  | readWrite (p : ProcRef) (rw : Rw) (fd nbytes : Int) (ans : IoAns)
  | getdents (p : ProcRef) (fd nbytes : Int) (ans : Int × BitVec 32)
  | lock (p : ProcRef) (fd : Int) (req : LockReq) (fl : Option Flock) (ans : LockRet)
  | freesp (p : ProcRef) (fd : Int) (fl : Except Int Flock) (ans : Int)

namespace State

def exec (s : State) : Op → Option (State × Out)
  | .lseek p lsFd whence lo inhibread => some (s.doLseek p lsFd whence lo inhibread)
  | .llseek p lsFd whence lo high inhibread => some (s.doLlseek p lsFd whence lo high inhibread)
  | .readWrite p rw fd nbytes ans => s.readWrite p rw fd nbytes ans
  | .getdents p fd nbytes ans => s.doGetdents p fd nbytes ans
  | .lock p fd req fl ans => s.lockOp p fd req fl ans
  | .freesp p fd fl ans => s.freesp p fd fl ans

def step (s : State) (o : Op) : Option State := (s.exec o).map Prod.fst

end State

end Minix.Vfs.Seek
