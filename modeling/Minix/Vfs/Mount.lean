import Minix.Vfs.Tables

/-!
# Opening files, and mounting devices

`common_open`, `create_open`, `exists_open`, `pipe_open` and `close_filp` (`vfs/open.c`), `do_fcntl` with `F_DUPFD`
(`vfs/misc.c`), `change` (`vfs/stadir.c`), and `do_fslogin`, `do_mount`, `do_umount`, `mount_fs` and `unmount`
(`vfs/mount.c`).
-/

namespace Minix.Vfs

open Minix.Lib

/-! ## Open -/

/-- The answers for one round of the loop of `create_open`. -/
structure CreateRound where
  lastdir : LastDir
  /-- The last component does not fit. -/
  tooLong : Bool := false
  /-- `forbidden(dir_vp, W_BIT|X_BIT, 0)`. -/
  forbidden : Int := OK
  /-- `req_create`. -/
  create : Except Int NodeDetails
  /-- The regular lookup of the last component. -/
  lookup : Except Int NodeDetails
  /-- The lookup that stops at a symbolic link. -/
  link : Except Int NodeDetails
  /-- `req_rdlink`, and whether the link is absolute. -/
  rdlink : Except Int Bool

/-- An open call: the access mode, the flags, and the answers that it gets. -/
structure OpenReq where
  rBit : Bool
  wBit : Bool
  nonblock : Bool := false
  /-- `O_CREAT`, with `O_EXCL` and the rounds of the loop. -/
  creat : Option (Bool × (Nat → CreateRound)) := none
  /-- The lookup without `O_CREAT`. -/
  lookup : Except Int NodeDetails := .error ENOENT
  /-- `forbidden` and truncation in `exists_open`. -/
  allowed : Int := OK
  /-- `dev_open` of a character device. -/
  charOpen : Int := OK
  /-- `dev_open` of a block device. -/
  blockOpen : Int := OK
  /-- `dmap_driver` is not `NONE`. -/
  driver : Bool := true
  /-- `req_newdriver`. -/
  newdriver : Int := OK

/-- The vnode of a created file. -/
def createdVnode (new dirVp : VnodeRef) (res : NodeDetails) : Prog Tables VnodeRef := do
  let s ← get
  match s.findVnode res.fsE res.inodeNr with
  | some v =>
    modVnode v fun vp => { vp with refCount := vp.refCount + 1, fsCount := vp.fsCount + 1 }
    return v
  | none =>
    match (s.vnode dirVp).vmnt with
    | none => crash
    | some m =>
      modVnode new fun vp =>
        { vp with
          fsE := res.fsE, inodeNr := res.inodeNr, type := res.fmode, sdev := res.dev, vmnt := some m,
          dev := (s.vmnt m).dev, fsCount := 1, refCount := 1 }
      return new

/-- How a round of `create_open` ends: with a result, or with the vnode to start from again. -/
inductive Round
  | done (r : Except Int (VnodeRef × Bool))
  | again (startVp : VnodeRef)

/-- The rest of a round, after creating has failed with `r`. -/
def createFailed (p : ProcRef) (excl : Bool) (q : CreateRound) (dirVp : VnodeRef) (r : Int) : Prog Tables Round := do
  if r = EEXIST ∧ excl = true then
    putVnode dirVp
    return .done (.error r)
  else
    match ← lookupRelVp q.lookup with
    | .ok vp =>
      putVnode dirVp
      return .done (.ok (vp, false))
    | .error r1 =>
      if r1 ≠ ENOENT then
        putVnode dirVp
        return .done (.error r1)
      else if r = EACCES then
        putVnode dirVp
        return .done (.error r)
      else
        match ← lookupRelVp q.link with
        | .error r =>
          putVnode dirVp
          return .done (.error r)
        | .ok vp =>
          let s ← get
          if (s.vnode vp).type ≠ .symlink then
            putVnode dirVp
            return .done (.ok (vp, false))
          else
            putVnode vp
            match q.rdlink with
            | .error r =>
              putVnode dirVp
              return .done (.error r)
            | .ok true =>
              putVnode dirVp
              let s ← get
              match (s.fproc p).rd with
              | none => crash
              | some startVp =>
                dupVnode startVp
                return .again startVp
            | .ok false => return .again dirVp

/-- A round of the loop of `create_open`. -/
def createRound (p : ProcRef) (excl : Bool) (q : CreateRound) (startVp : VnodeRef) : Prog Tables Round := do
  let r ← lookupLastdirRel startVp q.lastdir
  putVnode startVp
  match r with
  | .error r => return .done (.error r)
  | .ok dirVp =>
    if q.tooLong = true then
      putVnode dirVp
      return .done (.error ENAMETOOLONG)
    else
      match ← getFreeVnode with
      | none =>
        putVnode dirVp
        return .done (.error EINVAL)
      | some newVp =>
        match (if q.forbidden = OK then q.create else .error q.forbidden) with
        | .ok res =>
          putVnode dirVp
          let vp ← createdVnode newVp dirVp res
          return .done (.ok (vp, true))
        | .error r =>
          if r ≠ EEXIST ∧ r ≠ EACCES then
            putVnode dirVp
            return .done (.error r)
          else createFailed p excl q dirVp r

/-- The rounds of `create_open`, of which `n` are left. -/
def createRounds (p : ProcRef) (excl : Bool) (rounds : Nat → CreateRound) :
    Nat → VnodeRef → Prog Tables (Except Int (VnodeRef × Bool))
  | 0, startVp => do
    putVnode startVp
    return .error ELOOP
  | n + 1, startVp => do
    match ← createRound p excl (rounds n) startVp with
    | .done r => return r
    | .again startVp => createRounds p excl rounds n startVp

/-- `create_open(omode, excl, vpp, created)`. `absolute` is the first character of the path. -/
def createOpen (p : ProcRef) (excl absolute : Bool) (rounds : Nat → CreateRound) :
    Prog Tables (Except Int (VnodeRef × Bool)) := do
  let s ← get
  match (s.fproc p).rd, (s.fproc p).wd with
  | some rd, some wd =>
    let startVp := if absolute then rd else wd
    dupVnode startVp
    createRounds p excl rounds 16 startVp
  | _, _ => return .error ENOENT

/-- `exists_open(vp, bits, oflags)`. -/
def existsOpen (vp : VnodeRef) (q : OpenReq) : Prog Tables Int := do
  let s ← get
  if q.allowed ≠ OK then return q.allowed
  else
    match (s.vnode vp).type with
    | .directory => return if q.wBit then EISDIR else OK
    | .charSpecial | .blockSpecial => if (s.vnode vp).sdev = -1 then crash else return OK
    | _ => return OK

/-- `dev_open(dev, proc, flags)` of a block device. There is no driver for major device 0. -/
def OpenReq.devOpen (q : OpenReq) (dev : Dev) : Int := if 0 ≤ dev ∧ dev < 256 then ENODEV else q.blockOpen

/-- The part of `common_open` for block special files. -/
def openBlock (vp : VnodeRef) (q : OpenReq) : Prog Tables Int := do
  let s ← get
  let sdev := (s.vnode vp).sdev
  if q.devOpen sdev ≠ OK then return q.devOpen sdev
  else
    let bfsE := (s.vmntOf sdev).elim s.rootFsE fun m => (s.vmnt m).fsE
    modVnode vp fun v => { v with bfsE := bfsE }
    if q.driver = false then return EINVAL else return q.newdriver

/-- `pipe_open(vp, bits, oflags)`. -/
def pipeOpen (vp : VnodeRef) (q : OpenReq) : Prog Tables Int := do
  let s ← get
  if q.rBit = true ∧ q.wBit = true then return ENXIO
  else if s.findFilp vp q.wBit (!q.wBit) = none then
    if q.nonblock = true then return if q.wBit then ENXIO else OK
    else return SUSPEND
  else return OK

/-- Somebody else's filp is used for the FIFO, if there is one. -/
def shareFifo (p : ProcRef) (fd : Fd) (fil : FilpRef) (vp : VnodeRef) (q : OpenReq) : Prog Tables Unit := do
  -- don't find self
  modFilp fil fun f => { f with count := 0 }
  let s ← get
  match s.findFilp vp q.rBit (!q.rBit) with
  | some filp2 =>
    modify fun s => (s.modFproc p fun fp => { fp with filp := Function.update fp.filp fd (some filp2) }).modFilp filp2
      fun f => { f with count := f.count + 1, vno := some vp }
    putVnode vp
  | none => modFilp fil fun f => { f with count := 1 }

/-- The part of `common_open` for FIFOs. -/
def openFifo (p : ProcRef) (fd : Fd) (fil : FilpRef) (vp : VnodeRef) (q : OpenReq) : Prog Tables Int := do
  let r ← pipeOpen vp q
  if r = ENXIO then return r
  else
    shareFifo p fd fil vp q
    return r

/-- The file that is opened, and whether it was created. -/
def openNode (p : ProcRef) (absolute : Bool) (q : OpenReq) : Prog Tables (Except Int (VnodeRef × Bool)) :=
  match q.creat with
  | some (excl, rounds) => createOpen p excl absolute rounds
  | none => do
    match ← lookupVp p q.lookup with
    | .error r => return .error r
    | .ok vp => return .ok (vp, false)

/-- The check of a file that was not created. -/
def checkOpen (vp : VnodeRef) (created : Bool) (q : OpenReq) : Prog Tables Int :=
  if created = true then return OK else existsOpen vp q

/-- The special processing of the file types. -/
def openType (p : ProcRef) (fd : Fd) (fil : FilpRef) (vp : VnodeRef) (q : OpenReq) : Prog Tables Int := do
  let s ← get
  match (s.vnode vp).type with
  | .charSpecial => return q.charOpen
  | .blockSpecial => openBlock vp q
  | .namedPipe => openFifo p fd fil vp q
  | _ => return OK

/-- `common_open(oflags, omode)`. -/
def commonOpen (p : ProcRef) (absolute : Bool) (q : OpenReq) : Prog Tables Int := do
  if q.rBit = false ∧ q.wBit = false then return EINVAL
  else
    match ← getFd p 0 q.rBit q.wBit with
    | .error r => return r
    | .ok (fd, fil) =>
      match ← openNode p absolute q with
      | .error r => return r
      | .ok (vp, created) =>
        let r ← checkOpen vp created q
        if r ≠ OK then
          putVnode vp
          return r
        else
          modify fun s => (s.setFd p fd (some fil)).modFilp fil fun f => { f with count := 1, vno := some vp }
          let r ← openType p fd fil vp q
          if r = OK then return fd
          else if r = SUSPEND then return r
          else
            modify fun s => (s.setFd p fd none).modFilp fil fun f => { f with count := 0 }
            putVnode vp
            modFilp fil fun f => { f with vno := none }
            return r

/-! ## Descriptors and directories -/

/-- `close_filp(fp)`. -/
def closeFilp (x : FilpRef) : Prog Tables Unit := do
  let s ← get
  modFilp x fun f => { f with count := f.count - 1 }
  if (s.filp x).count = 1 then
    match (s.filp x).vno with
    | none => crash
    | some v => putVnode v

/-- `close_fd(rfp, fd_nr)`. -/
def closeFd (p : ProcRef) (fd : Fd) : Prog Tables Int := do
  match ← getFilp2 p fd with
  | none => return (← get).errCode
  | some x =>
    closeFilp x
    modify fun s => s.setFd p fd none
    return OK

/-- `do_fcntl()` with `F_DUPFD`, which does not set the bit in `fp_filp_inuse`. -/
def dupFd (p : ProcRef) (fd : Fd) (addr : Nat) : Prog Tables Int := do
  match ← getFilp2 p fd with
  | none => return (← get).errCode
  | some x =>
    if 30 ≤ addr then return EINVAL
    else
      match ← getFd p addr false false with
      | .error r => return r
      | .ok (newFd, _) =>
        modify fun s => (s.modFilp x fun f => { f with count := f.count + 1 }).modFproc p fun fp =>
          { fp with filp := Function.update fp.filp newFd (some x) }
        return newFd

/-- Which directory of a process changes. -/
inductive Dir
  | rd
  | wd
  deriving DecidableEq

instance : Fintype Dir := ⟨{.rd, .wd}, fun d => by cases d <;> decide⟩

def FprocSlot.dir (fp : FprocSlot) : Dir → Option VnodeRef
  | .rd => fp.rd
  | .wd => fp.wd

def FprocSlot.setDir (fp : FprocSlot) (v : Option VnodeRef) : Dir → FprocSlot
  | .rd => { fp with rd := v }
  | .wd => { fp with wd := v }

/-- `change(iip, name_ptr, len)` with `change_into`. -/
def change (p : ProcRef) (d : Dir) (name : Int) (res : Except Int NodeDetails) (forbidden : Int) : Prog Tables Int := do
  if name ≠ OK then return name
  else
    match ← lookupVp p res with
    | .error r => return r
    | .ok vp =>
      let s ← get
      if (s.vnode vp).type ≠ .directory then
        putVnode vp
        return ENOTDIR
      else if forbidden ≠ OK then
        putVnode vp
        return forbidden
      else
        match (s.fproc p).dir d with
        | none => crash
        | some old =>
          putVnode old
          modify fun s => s.modFproc p fun fp => fp.setDir (some vp) d
          return OK

/-- A call that looks a file up and is done with it, as `stat` is. -/
def statPath (p : ProcRef) (res : Except Int NodeDetails) : Prog Tables Int := do
  match ← lookupVp p res with
  | .error r => return r
  | .ok vp =>
    putVnode vp
    return OK

/-- The block-device request of `read_write`, with the file server that it goes to. -/
def Tables.blockRequest (s : Tables) (p : ProcRef) (fd : Fd) : Option (Int × Dev) := do
  let x ← (s.fproc p).filp fd
  let v ← (s.filp x).vno
  if (s.vnode v).type = .blockSpecial then some ((s.vnode v).bfsE, (s.vnode v).sdev) else none

/-- `read_write(rw_flag)` on a block special file. -/
def readWrite (p : ProcRef) (fd : Fd) : Prog Tables Int := do
  match ← getFilp2 p fd with
  | none => return (← get).errCode
  | some _ =>
    let s ← get
    match s.blockRequest p fd with
    | some (_, dev) => if dev = NO_DEV then crash else return OK
    | none => return OK

/-! ## Mount -/

/-- The answers that a mount gets. -/
structure MountAns where
  /-- `fetch_name` for the special file. -/
  name1 : Int := OK
  special : Except Int NodeDetails
  /-- `fetch_name` for the mount point, and whether that is `/`. -/
  name2 : Int := OK
  isroot : Bool := false
  point : Except Int NodeDetails
  /-- `req_mountpoint`. -/
  mountpoint : Int := OK
  /-- `dmap_driver` is not `NONE`. -/
  driver : Bool := true
  /-- `dmap_label` is not empty. -/
  label : Bool := true
  /-- `req_readsuper`: the root inode and its type. -/
  readsuper : Except Int (Nat × FileType)

/-- `req_readsuper(fs_e, label, dev, readonly, isroot, res_nodep)`. There is nobody to send the request to if `fs_e` is
`NONE`. -/
def MountAns.reqReadsuper (a : MountAns) (fsE : Int) : Except Int (Nat × FileType) :=
  if fsE = NONE then .error EDEADSRCDST else a.readsuper

/-- `name_to_dev()`. -/
def nameToDev (p : ProcRef) (special : Except Int NodeDetails) : Prog Tables Dev := do
  match ← lookupVp p special with
  | .error _ => return NO_DEV
  | .ok vp =>
    let s ← get
    if (s.vnode vp).type ≠ .blockSpecial then
      modify fun s => { s with errCode := ENOTBLK }
      putVnode vp
      return NO_DEV
    else
      putVnode vp
      return (s.vnode vp).sdev

/-- The first vnode in use with a device number. If there is none, the code looks at what is behind the table, and takes
it that the number is not there. -/
def Tables.bspec (s : Tables) (dev : Dev) : Option VnodeRef :=
  (List.finRange 512).find? fun v => 0 < (s.vnode v).refCount ∧ (s.vnode v).sdev = dev

/-- An old root is mounted again. -/
def remount (p : ProcRef) (a : MountAns) (m : VmntRef) : Prog Tables Int := do
  let s ← get
  let vmp := s.vmnt m
  if vmp.mountedOn ≠ none ∨ vmp.mountedOn = (s.fproc 1).rd then return EBUSY
  else if s.rootDev = vmp.dev then crash
  else if a.name2 ≠ OK then return a.name2
  else
    match ← lookupVp p a.point with
    | .error r => return r
    | .ok mountedOn =>
      let s ← get
      if (s.vnode mountedOn).refCount ≠ 1 then
        putVnode mountedOn
        return EBUSY
      else if a.mountpoint ≠ OK then
        putVnode mountedOn
        return a.mountpoint
      else
        match vmp.rootNode with
        | none => crash
        | some rootNode =>
          if (s.vnode mountedOn).type ≠ .directory ∧ (s.vnode rootNode).type = .directory then
            putVnode mountedOn
            return EISDIR
          else
            modify fun s => { s.modVmnt m fun x => { x with mountedOn := some mountedOn } with allowNewroot := false }
            return OK

/-- `MAKEROOT(what)`. -/
def makeroot (rootNode : VnodeRef) (p : ProcRef) (d : Dir) : Prog Tables Unit := do
  let s ← get
  match (s.fproc p).dir d with
  | none => return
  | some old =>
    putVnode old
    dupVnode rootNode
    modify fun s => s.modFproc p fun fp => fp.setDir (some rootNode) d

/-- The root and working directory of a process are replaced. -/
def replaceDirs (rootNode : VnodeRef) (p : ProcRef) : Prog Tables Unit := do
  let s ← get
  if (s.fproc p).live = true then
    makeroot rootNode p .rd
    makeroot rootNode p .wd

/-- The mount point of a new mount, unless the root is replaced. -/
def mountPoint (p : ProcRef) (a : MountAns) (replaceRoot : Bool) : Prog Tables (Except Int (Option VnodeRef)) := do
  if replaceRoot = true then return .ok none
  else
    match ← lookupVp p a.point with
    | .error r => return .error r
    | .ok mountedOn =>
      if a.mountpoint ≠ OK then
        putVnode mountedOn
        return .error a.mountpoint
      else return .ok (some mountedOn)

/-- The superblock was read: the root node and the slot of the mount table are filled in. -/
def fillIn (rootNode : VnodeRef) (m : VmntRef) (fsE : Int) (dev : Dev) (root : Nat × FileType) : Prog Tables Unit :=
  modify fun s =>
    (s.modVnode rootNode fun vp =>
      { vp with
        fsE := fsE, inodeNr := root.1, type := root.2, sdev := NO_DEV, fsCount := 1, refCount := 1, vmnt := some m,
        dev := dev }).modVmnt m fun x => { x with fsE := fsE, dev := dev }

/-- The last part of a mount on a mount point. -/
def attach (mountedOn rootNode : VnodeRef) (m : VmntRef) (fsE : Int) (bspec : Option VnodeRef) : Prog Tables Int := do
  let s ← get
  if (s.vnode mountedOn).type ≠ .directory ∧ (s.vnode rootNode).type = .directory then
    putVnode mountedOn
    putVnode rootNode
    modify fun s => s.modVmnt m fun x => { x with dev := NO_DEV }
    return EISDIR
  else
    modify fun s =>
      { s.modVmnt m fun x => { x with mountedOn := some mountedOn, rootNode := some rootNode }
        with allowNewroot := false }
    match bspec with
    | none => return OK
    | some v =>
      modVnode v fun vp => { vp with bfsE := fsE }
      return OK

/-- The last part of a mount that replaces the root. -/
def attachRoot (rootNode : VnodeRef) (m : VmntRef) (fsE : Int) (dev : Dev) : Prog Tables Int := do
  modify fun s =>
    { s.modVmnt m fun x => { x with rootNode := some rootNode, mountedOn := none } with rootDev := dev, rootFsE := fsE }
  (List.finRange 100).forM (replaceDirs rootNode)
  return OK

/-- A device is mounted that was not mounted. There may be no slot for it. -/
def newMount (p : ProcRef) (a : MountAns) (fsE : Int) (dev : Dev) (bspec : Option VnodeRef) (m : Option VmntRef) :
    Prog Tables Int := do
  if a.name2 ≠ OK then return a.name2
  else
    let s ← get
    let replaceRoot := a.isroot && s.allowNewroot
    match ← mountPoint p a replaceRoot with
    | .error r => return r
    | .ok mountedOn =>
      match ← getFreeVnode with
      | none => return ENFILE
      | some rootNode =>
        if a.driver = false then return EINVAL
        else if a.label = false then crash
        else
          match a.reqReadsuper fsE, m with
          | .error r, _ =>
            match mountedOn with
            | none => return r
            | some v =>
              putVnode v
              return r
          | .ok _, none => crash
          | .ok root, some m =>
            fillIn rootNode m fsE dev root
            match mountedOn with
            | none => attachRoot rootNode m fsE dev
            | some v => attach v rootNode m fsE bspec

/-- `mount_fs(fs_e)`. -/
def mountFs (p : ProcRef) (fsE : Int) (a : MountAns) : Prog Tables Int := do
  let s ← get
  if s.lastLoginFsE ≠ fsE then
    modify fun s => { s with mountMIn := { fsE := fsE, source := p } }
    return SUSPEND
  else
    modify fun s => { s with lastLoginFsE := NONE, mountMIn := { s.mountMIn with fsE := NONE } }
    if a.name1 ≠ OK then return a.name1
    else
      let dev ← nameToDev p a.special
      let s ← get
      if dev = NO_DEV then return s.errCode
      else
        match s.vmntOf dev with
        | some m => remount p a m
        | none => newMount p a fsE dev (s.bspec dev) (s.vmntOf NO_DEV)

/-- `do_mount()`. -/
def doMount (p : ProcRef) (fsE : Int) (a : MountAns) : Prog Tables Int := do
  let s ← get
  if (s.fproc p).superUser = false then return EPERM
  else if fsE ≤ 0 then return EINVAL
  else mountFs p fsE a

/-- `do_fslogin()`. -/
def doFslogin (whoE : Int) (a : MountAns) : Prog Tables Int := do
  let s ← get
  modify fun s => { s with lastLoginFsE := whoE }
  if s.mountMIn.fsE ≠ whoE then return SUSPEND
  else doMount s.mountMIn.source whoE a

/-! ## Unmount -/

/-- A round of the last loop of `unmount`. `m_fs_e` of the slot is already `NONE` here. -/
def Tables.moveBack (s : Tables) (m : VmntRef) (driver : Bool) (v : VnodeRef) : Tables :=
  if (s.vnode v).type = .blockSpecial ∧ (s.vnode v).bfsE = (s.vmnt m).fsE ∧ driver = true then
    s.modVnode v fun vp => { vp with bfsE := s.rootFsE }
  else s

/-- The number of references to vnodes on a device. -/
def Tables.useCount (s : Tables) (dev : Dev) : Nat :=
  ((List.finRange 512).map fun v => if (s.vnode v).dev = dev then (s.vnode v).refCount else 0).sum

/-- The mount point is given back. -/
def putMountPoint (m : VmntRef) : Prog Tables Unit := do
  let s ← get
  match (s.vmnt m).mountedOn with
  | none => return
  | some v =>
    putVnode v
    modVnode v fun vp => { vp with fsCount := vp.fsCount - 1 }
    modify fun s => s.modVmnt m fun x => { x with mountedOn := none }

/-- The root node is given back. -/
def putRoot (m : VmntRef) (rootNode : VnodeRef) : Prog Tables Unit := do
  putVnode rootNode
  modify fun s => (s.modVnode rootNode fun vp => { vp with refCount := 0 }).modVmnt m fun x =>
    { x with rootNode := none }

/-- `unmount(dev)`. -/
def unmount (dev : Dev) (driver : Bool) : Prog Tables Int := do
  let s ← get
  match (List.finRange 8).filter fun m => (s.vmnt m).dev = dev with
  | [] => return EINVAL
  | _ :: _ :: _ => crash
  | [m] =>
    if 1 < s.useCount dev then return EBUSY
    else
      match (s.vmnt m).rootNode with
      | none => crash
      | some rootNode =>
        vnodeCleanRefs rootNode
        putMountPoint m
        putRoot m rootNode
        let s ← get
        if (s.vmnt m).fsE ≤ 0 ∨ (s.vmnt m).fsE = NONE then crash
        else
          modify fun s => s.modVmnt m fun x => { x with dev := NO_DEV, fsE := NONE }
          modify fun s => (List.finRange 512).foldl (fun s v => s.moveBack m driver v) s
          return OK

/-- `do_umount()`. -/
def doUmount (p : ProcRef) (name : Int) (special : Except Int NodeDetails) (driver : Bool) : Prog Tables Int := do
  let s ← get
  if (s.fproc p).superUser = false then return EPERM
  else if name ≠ OK then return name
  else
    let dev ← nameToDev p special
    let s ← get
    if dev = NO_DEV then return s.errCode else unmount dev driver

/-- What VFS is asked to do. -/
inductive TabOp
  | opened (p : ProcRef) (absolute : Bool) (q : OpenReq)
  | close (p : ProcRef) (fd : Fd)
  | dup (p : ProcRef) (fd : Fd) (addr : Nat)
  | change (p : ProcRef) (d : Dir) (name : Int) (res : Except Int NodeDetails) (forbidden : Int)
  | stat (p : ProcRef) (res : Except Int NodeDetails)
  | readWrite (p : ProcRef) (fd : Fd)
  | mount (p : ProcRef) (fsE : Int) (a : MountAns)
  | fslogin (whoE : Int) (a : MountAns)
  | umount (p : ProcRef) (name : Int) (special : Except Int NodeDetails) (driver : Bool)

/-- The program of an operation. -/
def TabOp.prog : TabOp → Prog Tables Int
  | .opened p absolute q => commonOpen p absolute q
  | .close p fd => closeFd p fd
  | .dup p fd addr => dupFd p fd addr
  | .change p d name res forbidden => Vfs.change p d name res forbidden
  | .stat p res => statPath p res
  | .readWrite p fd => Vfs.readWrite p fd
  | .mount p fsE a => doMount p fsE a
  | .fslogin whoE a => doFslogin whoE a
  | .umount p name special driver => doUmount p name special driver

namespace Tables

/-- The tables after `fs_init`, with the processes that the process manager has reported: the root file system of the
file server 7 on the boot RAM disk is mounted, and is the directory of all processes. -/
def start (live superUser : ProcRef → Bool) : Tables where
  vnode v :=
    if v = 0 then
      { fsE := 7, inodeNr := 1, type := .directory, dev := 0x0106, vmnt := some 0, fsCount := 1,
        refCount := 1 + 2 * (Finset.univ.filter fun p => live p = true).card }
    else {}
  filp _ := {}
  vmnt m := if m = 0 then { fsE := 7, dev := 0x0106, rootNode := some 0 } else {}
  fproc p :=
    if live p then { live := true, rd := some 0, wd := some 0, superUser := superUser p }
      else { superUser := superUser p }
  rootDev := 0x0106
  rootFsE := 7

/-- The effect of an operation, unless VFS crashes. -/
def step (s : Tables) (o : TabOp) : Option Tables := (o.prog s).map fun x => x.2

end Tables

end Minix.Vfs
