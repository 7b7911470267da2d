import Minix.Kernel.Types
import Minix.Lib.Prog

/-!
# The tables of VFS

`struct vnode`, `struct filp`, `struct vmnt` and `struct fproc` of `vfs/vnode.h`, `file.h`, `vmnt.h` and `fproc.h`, the
functions of `vfs/vnode.c` and `vfs/vmnt.c`, `lookup_rel_vp` and `lookup_lastdir_rel` of `vfs/path.c`, and `get_fd`,
`get_filp2` and `find_filp` of `vfs/filedes.c`.

What the file servers and drivers answer is an argument of the functions here. A pointer to a table is an index, and the
null pointer is `none`. The program crashes where VFS panics or follows a null pointer.
-/

namespace Minix.Vfs

open Minix.Lib Function List

/-! ## Numbers -/

def OK : Int := 0

def EPERM : Int := -1

def ENOENT : Int := -2

def EIO : Int := -5

def ENXIO : Int := -6

def EBADF : Int := -9

def EACCES : Int := -13

def ENOTBLK : Int := -15

def EBUSY : Int := -16

def EEXIST : Int := -17

def ENODEV : Int := -19

def ENOTDIR : Int := -20

def EISDIR : Int := -21

def EINVAL : Int := -22

def ENFILE : Int := -23

def EMFILE : Int := -24

def ENAMETOOLONG : Int := -36

def ELOOP : Int := -40

def EDEADSRCDST : Int := -105

def SUSPEND : Int := -998

/-- No process at all. -/
def NONE : Int := 0x6ace

/-- A device number, of type `short`. -/
abbrev Dev := Int

def NO_DEV : Dev := 0

/-- `vnode[NR_VNODES]`. -/
abbrev VnodeRef := Fin 512

/-- `filp[NR_FILPS]`. -/
abbrev FilpRef := Fin 512

/-- `vmnt[NR_MNTS]`. -/
abbrev VmntRef := Fin 8

/-- `fproc[NR_PROCS]`. -/
abbrev ProcRef := Fin 100

/-- A file descriptor below `OPEN_MAX`. -/
abbrev Fd := Fin 30

instance neZero30 : NeZero 30 := ⟨by decide⟩

instance neZero512 : NeZero 512 := ⟨by decide⟩

/-! ## Tables -/

/-- `v_mode & I_TYPE`. -/
inductive FileType
  | regular
  | directory
  | charSpecial
  | blockSpecial
  | namedPipe
  | symlink
  deriving DecidableEq

/-- `struct vnode`. -/
structure VnodeSlot where
  fsE : Int := 0
  inodeNr : Nat := 0
  type : FileType := .regular
  /-- 0 if the slot is free. -/
  refCount : Nat := 0
  fsCount : Int := 0
  /-- The file server for the blocks of a block special file. -/
  bfsE : Int := 0
  /-- The device that the inode is on. -/
  dev : Dev := NO_DEV
  /-- The device number of a special file. The file servers put the first zone number of other files here. -/
  sdev : Dev := NO_DEV
  vmnt : Option VmntRef := none
  deriving DecidableEq

/-- `struct filp`. The bits are those of `filp_mode`. -/
structure FilpSlot where
  count : Nat := 0
  vno : Option VnodeRef := none
  rBit : Bool := false
  wBit : Bool := false
  deriving DecidableEq

/-- `struct vmnt`. A slot with device `NO_DEV` is free. -/
structure VmntSlot where
  fsE : Int := 0
  dev : Dev := NO_DEV
  mountedOn : Option VnodeRef := none
  rootNode : Option VnodeRef := none
  deriving DecidableEq

/-- `struct fproc`. -/
structure FprocSlot where
  /-- `fp_pid` is not `PID_FREE`. -/
  live : Bool := false
  rd : Option VnodeRef := none
  wd : Option VnodeRef := none
  filp : Fd → Option FilpRef := fun _ => none
  inuse : Fd → Bool := fun _ => false
  /-- `fp_effuid` is `SU_UID`. -/
  superUser : Bool := false

/-- The part of `mount_m_in` that is used: the field with the file server, and the caller. -/
structure MountMsg where
  fsE : Int := NONE
  source : ProcRef := 0

/-- The tables and global variables. -/
structure Tables where
  vnode : VnodeRef → VnodeSlot
  filp : FilpRef → FilpSlot
  vmnt : VmntRef → VmntSlot
  fproc : ProcRef → FprocSlot
  rootDev : Dev
  rootFsE : Int
  allowNewroot : Bool := true
  lastLoginFsE : Int := NONE
  mountMIn : MountMsg := {}
  errCode : Int := OK

/-- `struct node_details`, the answer of a file server. -/
structure NodeDetails where
  fsE : Int
  inodeNr : Nat
  fmode : FileType
  dev : Dev := NO_DEV

namespace Tables

def modVnode (s : Tables) (v : VnodeRef) (f : VnodeSlot → VnodeSlot) : Tables :=
  { s with vnode := update s.vnode v (f (s.vnode v)) }

def modFilp (s : Tables) (x : FilpRef) (f : FilpSlot → FilpSlot) : Tables :=
  { s with filp := update s.filp x (f (s.filp x)) }

def modVmnt (s : Tables) (m : VmntRef) (f : VmntSlot → VmntSlot) : Tables :=
  { s with vmnt := update s.vmnt m (f (s.vmnt m)) }

def modFproc (s : Tables) (p : ProcRef) (f : FprocSlot → FprocSlot) : Tables :=
  { s with fproc := update s.fproc p (f (s.fproc p)) }

/-- `fp_filp[fd]` and the bit of `fp_filp_inuse`. -/
def setFd (s : Tables) (p : ProcRef) (fd : Fd) (x : Option FilpRef) : Tables :=
  s.modFproc p fun fp =>
    { fp with filp := update fp.filp fd x, inuse := update fp.inuse fd x.isSome }

/-- The first vnode that is not in use. -/
def freeVnode (s : Tables) : Option VnodeRef := (finRange 512).find? fun v => (s.vnode v).refCount = 0

/-- `find_vnode(fs_e, numb)`. -/
def findVnode (s : Tables) (fsE : Int) (numb : Nat) : Option VnodeRef :=
  (finRange 512).find? fun v => 0 < (s.vnode v).refCount ∧ (s.vnode v).inodeNr = numb ∧ (s.vnode v).fsE = fsE

/-- `find_vmnt(fs_e)`. -/
def findVmnt (s : Tables) (fsE : Int) : Option VmntRef := (finRange 8).find? fun m => (s.vmnt m).fsE = fsE

/-- The slot of a mounted device. -/
def vmntOf (s : Tables) (dev : Dev) : Option VmntRef := (finRange 8).find? fun m => (s.vmnt m).dev = dev

/-- `find_filp(vp, bits)`. -/
def findFilp (s : Tables) (v : VnodeRef) (rBit wBit : Bool) : Option FilpRef :=
  (finRange 512).find? fun x =>
    (s.filp x).count ≠ 0 ∧ (s.filp x).vno = some v ∧ (((s.filp x).rBit && rBit) || ((s.filp x).wBit && wBit)) = true

end Tables

open Tables

/-! ## Vnodes -/

def modVnode (v : VnodeRef) (f : VnodeSlot → VnodeSlot) : Prog Tables Unit := modify fun s => s.modVnode v f

/-- `get_free_vnode(file, line)`. -/
def getFreeVnode : Prog Tables (Option VnodeRef) := do
  let s ← get
  match s.freeVnode with
  | none =>
    modify fun s => { s with errCode := ENFILE }
    return none
  | some v =>
    modVnode v fun vp => { vp with sdev := -1 }
    return some v

/-- `dup_vnode(vp)`. -/
def dupVnode (v : VnodeRef) : Prog Tables Unit := modVnode v fun vp => { vp with refCount := vp.refCount + 1 }

/-- `vnode_clean_refs(vp)`. -/
def vnodeCleanRefs (v : VnodeRef) : Prog Tables Unit :=
  modVnode v fun vp => if vp.fsCount ≤ 1 then vp else { vp with fsCount := 1 }

/-- `put_vnode(vp)`. -/
def putVnode (v : VnodeRef) : Prog Tables Unit := do
  let s ← get
  let vp := s.vnode v
  if 1 < vp.refCount then
    modVnode v fun vp => { vp with refCount := vp.refCount - 1 }
    if 256 < vp.fsCount then vnodeCleanRefs v
  else if vp.refCount = 0 then crash
  else if vp.fsCount ≤ 0 then crash
  else modVnode v fun vp => { vp with fsCount := 0, refCount := 0, sdev := NO_DEV }

/-! ## Path names -/

/-- The vnode for what a file server has found. `new` is a free vnode. -/
def claimVnode (new : VnodeRef) (res : NodeDetails) : Prog Tables VnodeRef := do
  let s ← get
  match s.findVnode res.fsE res.inodeNr with
  | some v =>
    modVnode v fun vp => { vp with refCount := vp.refCount + 1, fsCount := vp.fsCount + 1 }
    return v
  | none =>
    match s.findVmnt res.fsE with
    | none => crash
    | some m =>
      modVnode new fun vp =>
        { vp with
          fsE := res.fsE, inodeNr := res.inodeNr, type := res.fmode, sdev := res.dev, vmnt := some m,
          dev := (s.vmnt m).dev, fsCount := 1, refCount := 1 }
      return new

/-- `lookup_rel_vp(start_node, flags, use_realuid, vpp)`, with the result of `lookup_rel`. -/
def lookupRelVp (res : Except Int NodeDetails) : Prog Tables (Except Int VnodeRef) := do
  match ← getFreeVnode with
  | none => return .error EINVAL
  | some new =>
    match res with
    | .error r => return .error r
    | .ok res => return .ok (← claimVnode new res)

/-- `lookup_vp(flags, use_realuid, vpp)`. -/
def lookupVp (p : ProcRef) (res : Except Int NodeDetails) : Prog Tables (Except Int VnodeRef) := do
  let s ← get
  if (s.fproc p).rd = none ∨ (s.fproc p).wd = none then return .error ENOENT
  else lookupRelVp res

/-- How `lookup_lastdir_rel` goes on: the path is empty, has no slash, or its directory is looked up. -/
inductive LastDir
  | empty
  | entry
  | lookup (res : Except Int NodeDetails)

/-- `lookup_lastdir_rel(start_node, use_realuid, vpp)`. -/
def lookupLastdirRel (start : VnodeRef) : LastDir → Prog Tables (Except Int VnodeRef)
  | .empty => return .error ENOENT
  | .entry => do
    dupVnode start
    return .ok start
  | .lookup res => lookupRelVp res

def modFilp (x : FilpRef) (f : FilpSlot → FilpSlot) : Prog Tables Unit := modify fun s => s.modFilp x f

/-- `get_fd(start, bits, k, fpt)`. -/
def getFd (p : ProcRef) (start : Nat) (rBit wBit : Bool) : Prog Tables (Except Int (Fd × FilpRef)) := do
  let s ← get
  let fp := s.fproc p
  match (finRange 30).find? fun i : Fd => start ≤ i ∧ fp.filp i = none ∧ fp.inuse i = false with
  | none => return .error EMFILE
  | some fd =>
    match (finRange 512).find? fun x => (s.filp x).count = 0 with
    | none => return .error ENFILE
    | some x =>
      modFilp x fun f => { f with rBit := rBit, wBit := wBit }
      return .ok (fd, x)

/-- `get_filp2(rfp, fild)`. -/
def getFilp2 (p : ProcRef) (fd : Fd) : Prog Tables (Option FilpRef) := do
  let s ← get
  let fp := s.fproc p
  -- the descriptor is not there, but not closed either
  let code := if fp.filp fd = none ∧ fp.inuse fd = true then EIO else EBADF
  modify fun s => { s with errCode := code }
  return fp.filp fd

end Minix.Vfs
