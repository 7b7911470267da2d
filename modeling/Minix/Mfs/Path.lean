import Minix.Lib.Loop

/-!
# Path name lookup in the MINIX file server

`fs_lookup_s` and `parse_path_s` of `path.c`: a request names a starting directory and gives a string; the file server
walks the string component by component until it ends, a mount point is met, or the root of the file system is left by
`..`.

* `userPath` is the buffer `user_path` up to its terminating null character, and the pointer `cp` into it is an index.
* What a lookup reads of the file system is in `Fs`. The references that the request holds are counted in `iRefs` and
  `bRefs`; a lookup changes nothing else.
* `parseTurn` is one turn of the loop of `parse_path_s`. It crashes where the source panics or writes past the end of
  `user_path`.
-/

namespace Minix.Mfs

open Minix.Lib

/-- `NAME_MAX`. -/
def nameMax : Nat := 60

/-- `PATH_MAX`. -/
def pathMax : Nat := 255

/-- `SYMLOOP_MAX`. -/
def symloopMax : Nat := 16

/-- `ROOT_INODE`. -/
def rootInode : Nat := 1

/-- The error codes of a lookup. -/
inductive Err
  | ENOENT
  | ENOTDIR
  | EACCES
  | EINVAL
  | EIO
  | ELOOP
  | ENAMETOOLONG
  | ENFILE
  | E2BIG
  deriving DecidableEq

/-- The answer to a lookup request. -/
inductive Code
  | ok
  | EENTERMOUNT
  | ELEAVEMOUNT
  | ESYMLINK
  | err (e : Err)
  deriving DecidableEq

/-- The type of an inode, with the text of a symbolic link. A link without a first block has none. -/
inductive Node
  | directory
  | symlink (text : Option (List Char))
  | other
  deriving DecidableEq

/-- What a lookup reads of a file system, for one caller. -/
structure Fs where
  node : Nat → Node
  nlinks : Nat → Nat
  /-- The entry of a directory with a given name. -/
  entry : Nat → List Char → Option Nat
  mountpoint : Nat → Bool
  isRoot : Bool
  /-- `find_inode` finds the inode in the inode table. -/
  inUse : Nat → Bool
  /-- `get_inode` finds the inode in the inode table, or a free slot for it. -/
  available : Nat → Bool
  /-- The caller may search the inode: `forbidden(rip, X_BIT) == OK`. -/
  searchable : Nat → Bool

/-- The name `..`. -/
def dot2 : List Char := ['.', '.']

/-- The path without its leading slashes. -/
def skipSlashes (path : List Char) : List Char := path.dropWhile (· == '/')

/-- The first component of a path, cut off after `NAME_MAX` characters, and the rest of the path. -/
def getNameS (pathName : List Char) : List Char × List Char :=
  let cp := skipSlashes pathName
  let string := (cp.takeWhile (· != '/')).take nameMax
  (if string = [] then ['.'] else string, cp.dropWhile (· != '/'))

namespace Fs

variable (fs : Fs)

/-- `search_dir` with `LOOK_UP`; `check` is false if the name is the array `dot2`. -/
def searchDir (dir : Nat) (string : List Char) (check : Bool) : Except Err Nat :=
  if fs.node dir ≠ .directory then .error .ENOTDIR
  else if check = true ∧ fs.searchable dir = false then .error .EACCES
  else
    match fs.entry dir string with
    | some numb => .ok numb
    | none => .error .ENOENT

/-- Look up a component in a directory and get its inode. -/
def advanceS1 (dir : Nat) (string : List Char) (check : Bool) : Except Err Nat :=
  if string = [] then .error .ENOENT
  else
    match fs.searchDir dir string check with
    | .error e => .error e
    | .ok numb => if fs.available numb = true then .ok numb else .error .ENFILE

/-- Insert the text of a symbolic link before the rest of the path. The result comes with the number of buffers that are
not released. Without a rest nothing checks that the link fits in `user_path`. -/
def ltraverseS (rip : Nat) (suffix : List Char) : Option (Except Err (List Char) × Int) :=
  match fs.node rip with
  | .symlink (some text) =>
    if suffix = [] then if text.length ≤ pathMax then some (.ok text, 0) else none
    else if suffix.head? ≠ some '/' then none
    else if text.length + suffix.length + 1 > pathMax + 1 then some (.error .ENAMETOOLONG, 1)
    else some (.ok (text ++ suffix), 0)
  | _ => some (.error Err.EIO, 0)

end Fs

/-! ## The loop of `parse_path_s` -/

/-- The variables of `parse_path_s`, with the references that the request holds. -/
structure Parse where
  rip : Nat
  userPath : List Char
  cp : Nat
  symlinks : Nat
  leavingMount : Bool
  iRefs : Int
  bRefs : Int

/-- The result of `parse_path_s`. -/
structure ParseRes where
  code : Code
  res : Option Nat
  offset : Nat
  userPath : List Char
  symlinks : Nat
  iRefs : Int
  bRefs : Int

/-- Return without an inode. The request has given back `puts` references more than it has got. -/
def Parse.ret (p : Parse) (code : Code) (offset : Nat) (puts : Int) : ParseRes :=
  ⟨code, none, offset, p.userPath, p.symlinks, p.iRefs - puts, p.bRefs⟩

/-- Return an inode, with the reference to it. -/
def Parse.retInode (p : Parse) (code : Code) (rip offset : Nat) : ParseRes :=
  ⟨code, some rip, offset, p.userPath, p.symlinks, p.iRefs, p.bRefs⟩

namespace Fs

variable (fs : Fs)

/-- The text of a symbolic link replaces the component. `next` is the rest of the path after the link in directory
`p.rip`. -/
def expand (p : Parse) (link : Nat) (next : List Char) (off : Nat) : Turn Parse ParseRes :=
  match fs.ltraverseS link next with
  | none => .crash
  | some (r, leaked) =>
    let p := { p with symlinks := p.symlinks + 1, bRefs := p.bRefs + leaked }
    if p.symlinks > symloopMax then .done (p.ret (.err .ELOOP) off 1)
    else
      match r with
      | .error e => .done (p.ret (.err e) off 1)
      | .ok path =>
        if path.head? = some '/' then .done ({ p with userPath := path }.ret .ESYMLINK 0 1)
        else .again { p with userPath := path, cp := 0, leavingMount := false }

/-- There is more path: look up the component `string`. -/
def advance (retSymlink : Bool) (off : Nat) (p : Parse) (string next : List Char) : Turn Parse ParseRes :=
  match fs.advanceS1 p.rip (if p.leavingMount then dot2 else string) (!p.leavingMount) with
  | .error e => .done (p.ret (.err e) off 1)
  | .ok rip =>
    match fs.node rip with
    | .symlink _ =>
      if next = [] ∧ retSymlink = true then .done (p.retInode .ok rip (off + p.userPath.length))
      else fs.expand p rip next off
    | _ => .again { p with rip := rip, cp := p.userPath.length - next.length, leavingMount := false }

/-- One turn of the loop of `parse_path_s`. -/
def parseTurn (rootIno : Nat) (retSymlink : Bool) (off : Nat) (p : Parse) : Turn Parse ParseRes :=
  let rest := p.userPath.drop p.cp
  if rest = [] then
    .done (p.retInode (if fs.mountpoint p.rip then .EENTERMOUNT else .ok) p.rip (off + p.cp))
  else
    let rest := skipSlashes rest
    let cp := p.userPath.length - rest.length
    let (string, next) := if rest = [] then (['.'], []) else getNameS rest
    if string = dot2 ∧ p.rip = rootIno then
      -- just ignore the '..' at a process' root
      if fs.searchable p.rip = true then .again { p with cp := p.userPath.length - next.length }
      else .done (p.ret (.err .EACCES) off 1)
    else if string = dot2 ∧ p.rip = rootInode ∧ fs.isRoot = false then
      -- climbing up mountpoint
      if fs.searchable p.rip = true then .done (p.ret .ELEAVEMOUNT (off + cp) 1)
      else .done (p.ret (.err .EACCES) off 1)
    else if string ≠ dot2 ∧ p.leavingMount = true then .done (p.ret (.err .EINVAL) off 1)
    else if p.leavingMount = false ∧ fs.mountpoint p.rip = true then
      .done (p.retInode .EENTERMOUNT p.rip (off + cp))
    else fs.advance retSymlink off p string next

/-- More turns than the loop of `parse_path_s` can take. -/
def parseFuel : Nat := (symloopMax + 2) * (pathMax + 2)

/-- The loop's first values: the reference to the starting directory is the request's. -/
def start (dirIno : Nat) (userPath : List Char) : Parse where
  rip := dirIno
  userPath := userPath
  cp := 0
  symlinks := 0
  leavingMount := fs.mountpoint dirIno
  iRefs := 1
  bRefs := 0

/-- Parse the path in `user_path`, starting at `dir_ino`. -/
def parsePathS (dirIno rootIno : Nat) (retSymlink : Bool) (off : Nat) (userPath : List Char) : Option ParseRes :=
  if fs.inUse dirIno = false then some ⟨.err .ENOENT, none, off, userPath, 0, 0, 0⟩
  else if fs.nlinks dirIno = 0 then some ⟨.err .ENOENT, none, off, userPath, 0, 0, 0⟩
  else loop (fs.parseTurn rootIno retSymlink off) parseFuel (fs.start dirIno userPath)

end Fs

/-! ## The request -/

/-- The string at a place of a buffer: up to the null character. -/
def strAt (buf : List Char) (off : Nat) : List Char := (buf.drop off).takeWhile (· != '\x00')

/-- A buffer after a string was copied to its beginning, with the null character. -/
def copyTo (buf : List Char) (s : List Char) : List Char := s ++ '\x00' :: buf.drop (s.length + 1)

/-- The reply of a file server, with the caller's path buffer and the references that the request keeps. -/
structure LookupReply where
  code : Code
  inodeNr : Nat
  offset : Nat
  /-- The field that VFS reads as the number of symbolic links. -/
  symloop2 : Nat
  symlinks : Nat
  buf : List Char
  iRefs : Int
  bRefs : Int

/-- The part of `fs_lookup_s` after `parse_path_s`. If a link was expanded and another file server has to go on, the
path goes back to the caller's buffer, at its beginning. `old` is what the field `RES_SYMLOOP2` of the last reply was:
for `ELEAVEMOUNT` and `ESYMLINK` the number of links goes to another field and this one is left as it is. -/
def ParseRes.reply (r : ParseRes) (copyBack : Option Err) (old : Nat) (buf : List Char) : Option LookupReply :=
  let back : Prop := r.symlinks ≠ 0 ∧ (r.code = .ELEAVEMOUNT ∨ r.code = .EENTERMOUNT ∨ r.code = .ESYMLINK)
  if back ∧ r.userPath.length + 1 > pathMax + 1 then
    some ⟨.err .ENAMETOOLONG, 0, r.offset, old, r.symlinks, buf, r.iRefs, r.bRefs⟩
  else
    match if back then copyBack else none with
    | some e => some ⟨.err e, 0, r.offset, old, r.symlinks, buf, r.iRefs, r.bRefs⟩
    | none =>
      let buf := if back then copyTo buf r.userPath else buf
      match r.code, r.res with
      | .ok, some rip => some ⟨.ok, rip, r.offset, r.symlinks, r.symlinks, buf, r.iRefs, r.bRefs⟩
      | .EENTERMOUNT, some rip =>
        some ⟨.EENTERMOUNT, rip, r.offset, r.symlinks, r.symlinks, buf, r.iRefs - 1, r.bRefs⟩
      | .ok, none | .EENTERMOUNT, none => none
      | code, _ => some ⟨code, 0, r.offset, old, r.symlinks, buf, r.iRefs, r.bRefs⟩

/-- `fs_lookup_s`. The path buffer has `sizeof(user_fullpath)` characters; `copyFrom` and `copyBack` are the errors of
copying from it and back, if any. -/
def Fs.fsLookupS (fs : Fs) (copyFrom copyBack : Option Err) (old : Nat) (buf : List Char) (off dirIno rootIno : Nat)
    (retSymlink : Bool) : Option LookupReply :=
  let path := strAt buf off
  if path.length + 1 > pathMax + 1 then some ⟨.err .E2BIG, 0, off, old, 0, buf, 0, 0⟩
  else
    match copyFrom with
    | some e => some ⟨.err e, 0, off, old, 0, buf, 0, 0⟩
    | none => (fs.parsePathS dirIno rootIno retSymlink off path).bind fun r => r.reply copyBack old buf

/-! ## One turn -/

theorem skipSlashes_idem (path : List Char) : skipSlashes (skipSlashes path) = skipSlashes path :=
  List.dropWhile_idempotent _ _

/-- The special case of a path of slashes only is what `get_name_s` does with it. -/
theorem getNameS_skip (path : List Char) :
    (if skipSlashes path = [] then (['.'], []) else getNameS (skipSlashes path)) = getNameS path := by
  unfold getNameS
  rw [skipSlashes_idem]
  split
  · next h => simp [h]
  · rfl

namespace Parse

variable (p : Parse)

/-- The path that is left. -/
def rest : List Char := p.userPath.drop p.cp

/-- The next component. -/
def name : List Char := (getNameS p.rest).1

/-- The path after the next component. -/
def next : List Char := (getNameS p.rest).2

/-- The place of the next component. -/
def namePos : Nat := p.userPath.length - (skipSlashes p.rest).length

end Parse

theorem Fs.parseTurn_eq (fs : Fs) (rootIno : Nat) (retSymlink : Bool) (off : Nat) (p : Parse) :
    fs.parseTurn rootIno retSymlink off p =
      if p.rest = [] then .done (p.retInode (if fs.mountpoint p.rip then .EENTERMOUNT else .ok) p.rip (off + p.cp))
      else if p.name = dot2 ∧ p.rip = rootIno then
        if fs.searchable p.rip = true then .again { p with cp := p.userPath.length - p.next.length }
        else .done (p.ret (.err .EACCES) off 1)
      else if p.name = dot2 ∧ p.rip = rootInode ∧ fs.isRoot = false then
        if fs.searchable p.rip = true then .done (p.ret .ELEAVEMOUNT (off + p.namePos) 1)
        else .done (p.ret (.err .EACCES) off 1)
      else if p.name ≠ dot2 ∧ p.leavingMount = true then .done (p.ret (.err .EINVAL) off 1)
      else if p.leavingMount = false ∧ fs.mountpoint p.rip = true then
        .done (p.retInode .EENTERMOUNT p.rip (off + p.namePos))
      else fs.advance retSymlink off p p.name p.next := by
  unfold parseTurn
  dsimp only
  rw [getNameS_skip]
  rfl

/-- What a component that is looked up turns out to be. -/
theorem Fs.advanceS1_ok {fs : Fs} {dir numb : Nat} {string : List Char} {check : Bool}
    (h : fs.advanceS1 dir string check = .ok numb) :
    fs.node dir = .directory ∧ fs.entry dir string = some numb ∧ (check = true → fs.searchable dir = true) := by
  unfold advanceS1 searchDir at h
  split at h
  · cases h
  · split at h
    · next e he => cases h
    · next n he =>
      split at he
      · cases he
      · next hdir =>
        split at he
        · cases he
        · next hx =>
          split at he
          · next m hm =>
            cases he
            split at h
            · cases h
              refine ⟨not_not.mp hdir, hm, fun hc => ?_⟩
              simpa [hc] using hx
            · cases h
          · cases he

/-- A reply that is not an error is the result of the walk. -/
theorem ParseRes.reply_code {r : ParseRes} {copyBack : Option Err} {old : Nat} {buf : List Char} {rep : LookupReply}
    (h : r.reply copyBack old buf = some rep) (hc : ∀ e, rep.code ≠ .err e) :
    rep.code = r.code ∧ (rep.code = .ok ∨ rep.code = .EENTERMOUNT → r.res = some rep.inodeNr) := by
  unfold reply at h
  dsimp only at h
  split at h
  · cases h
    exact absurd rfl (hc _)
  · split at h
    · cases h
      exact absurd rfl (hc _)
    · split at h
      · next hcode hres =>
        cases h
        exact ⟨hcode.symm, fun _ => hres⟩
      · next hcode hres =>
        cases h
        exact ⟨hcode.symm, fun _ => hres⟩
      · cases h
      · cases h
      · next h1 h2 h3 h4 =>
        cases h
        refine ⟨rfl, ?_⟩
        cases hres : r.res with
        | none => exact fun hk => (hk.elim (fun hk => h3 hk hres) fun hk => h4 hk hres).elim
        | some x => exact fun hk => (hk.elim (fun hk => h1 x hk hres) fun hk => h2 x hk hres).elim

end Minix.Mfs
