import Minix.Mfs.Path

/-!
# Path name lookup in VFS

`lookup_rel` of `vfs/path.c`: VFS sends the path buffer `user_fullpath` from one file server to the next. Each answers
with the inode that was found, or with the place in the path where another file server has to go on: on the root of a
mounted file system, on the directory that the file system is mounted on, or on the process' root after an absolute
symbolic link.
-/

namespace Minix.Vfs

open Minix.Lib Minix.Mfs

/-- A node of some file system. -/
structure Vnode where
  fsE : Nat
  inodeNr : Nat
  deriving DecidableEq

/-- An entry of the mount table. -/
structure Vmnt where
  fsE : Nat
  mountedOn : Option Vnode
  rootNode : Vnode
  deriving DecidableEq

/-- The file servers, with the devices they serve, and the mount table. -/
structure World where
  fs : Nat → Fs
  dev : Nat → Nat
  vmnt : List Vmnt

/-- The directories of a process. -/
structure Fproc where
  rd : Vnode
  wd : Vnode

/-- The result of a lookup. -/
inductive Outcome
  | ok (v : Vnode)
  | err (e : Err)
  deriving DecidableEq

/-- The variables of `lookup_rel` before a request: the directory to start from, the path buffer and the place in it,
the inode to treat as the process' root, and the number of symbolic links. `old` is what the file servers have in the
field of the reply that they do not always set. -/
structure Request where
  dir : Vnode
  pathOff : Nat
  rootIno : Nat
  symloop : Nat
  buf : List Char
  old : Nat → Nat

namespace World

variable (w : World)

/-- The mounted partition's root node. -/
def enterMount (v : Vnode) : Option Vnode :=
  (w.vmnt.find? fun m => m.mountedOn == some v).map (·.rootNode)

/-- `find_vmnt`. -/
def findVmnt (fsE : Nat) : Option Vmnt := w.vmnt.find? fun m => m.fsE == fsE

/-- The node to start the next request from. VFS panics if there is none. -/
def nextDir (fp : Fproc) (fsE : Nat) (r : LookupReply) : Option Vnode :=
  match r.code with
  | .ESYMLINK => some fp.rd
  | .EENTERMOUNT => w.enterMount ⟨fsE, r.inodeNr⟩
  | _ => (w.findVmnt fsE).bind (·.mountedOn)

/-- The root inode for a request: that of the process' root directory if it is on the same partition. -/
def rootFor (fp : Fproc) (v : Vnode) : Nat := if w.dev v.fsE = w.dev fp.rd.fsE then fp.rd.inodeNr else 0

/-- One request and the handling of its reply. -/
def lookupTurn (fp : Fproc) (retSymlink : Bool) (q : Request) : Turn Request Outcome :=
  -- the grant that goes with the request covers the whole buffer, so that copying succeeds
  match (w.fs q.dir.fsE).fsLookupS none none (q.old q.dir.fsE) q.buf q.pathOff q.dir.inodeNr q.rootIno retSymlink with
  | none => .crash
  | some r =>
    let old := Function.update q.old q.dir.fsE r.symloop2
    match r.code with
    | .ok => .done (.ok ⟨q.dir.fsE, r.inodeNr⟩)
    | .err e => .done (.err e)
    | _ =>
      let symloop := q.symloop + r.symloop2
      if symloop > symloopMax then .done (.err .ELOOP)
      else
        match w.nextDir fp q.dir.fsE r with
        | none => .crash
        | some v => .again ⟨v, r.offset, w.rootFor fp v, symloop, r.buf, old⟩

/-- The first request. Whether the process' root directory counts is decided by the working directory, whatever the
starting node is. -/
def firstRequest (fp : Fproc) (startNode : Vnode) (buf : List Char) (old : Nat → Nat) : Request where
  dir := startNode
  pathOff := 0
  rootIno := if w.dev fp.rd.fsE = w.dev fp.wd.fsE then fp.rd.inodeNr else 0
  symloop := 0
  buf := buf
  old := old

/-- Resolve the path name in `user_fullpath` relative to a starting node. -/
def lookupRel (fp : Fproc) (startNode : Vnode) (retSymlink : Bool) (buf : List Char) (old : Nat → Nat) (fuel : Nat) :
    Option Outcome :=
  if strAt buf 0 = [] then some (.err .ENOENT)
  else loop (w.lookupTurn fp retSymlink) fuel (w.firstRequest fp startNode buf old)

/-- The node that `lookup_vp` starts from. -/
def startOf (fp : Fproc) (buf : List Char) : Vnode := if buf.head? = some '/' then fp.rd else fp.wd

/-- A file system of directories with given entries. -/
def dirFs (entries : Nat → List (List Char × Nat)) (mountpoint : Nat → Bool) (isRoot : Bool) : Fs where
  node _ := .directory
  nlinks _ := 2
  entry d name := (entries d).lookup name
  mountpoint := mountpoint
  isRoot := isRoot
  inUse _ := true
  available _ := true
  searchable _ := true

/-- The path buffer with a path. -/
def pathBuf (s : String) : List Char := s.toList ++ List.replicate (pathMax + 1 - s.length) '\x00'

end World

end Minix.Vfs
