import Minix.Vfs.Lookup

/-!
# Confinement to the process' root directory

The directories of the mounted file systems form one tree: a directory's entries are below it, and the root of a file
system is below the directory that it is mounted on (`Child`). It is `..` that could lead out of the subtree of the
process' root, and the file server ignores it at the inode that VFS names as the root.

* `parseTurn_below`: no turn of a file server leaves the subtree, if VFS has told it about a root of its own.
* `lookupTurn_confined`: no request does, since VFS names the root in every later request.
* `World.confined`: all lookups of a process are confined if and only if its working directory is on the device of its
  root directory, or `..` leads nowhere from there anyway (`Harmless`).
* `lookup_escapes`: otherwise the path `/..` leads out: the first request looks at the device of the working directory.
-/

namespace Minix.Vfs

open Minix.Lib Minix.Mfs List

namespace World

variable {w : World} {fp : Fproc}

/-! ## The tree -/

/-- A node right below another one. -/
inductive Child (w : World) : Vnode → Vnode → Prop
  | entry {f x d : Nat} {name : List Char} (h1 : name ≠ ['.']) (h2 : name ≠ dot2)
      (h : (w.fs f).entry x name = some d) : Child w ⟨f, x⟩ ⟨f, d⟩
  | mount {m : Vmnt} {u : Vnode} (hm : m ∈ w.vmnt) (h : m.mountedOn = some u) : Child w u m.rootNode

/-- The subtree of a node. -/
def Below (w : World) (r v : Vnode) : Prop := Relation.ReflTransGen (Child w) r v

/-- The directories form a tree, with correct `.` and `..` entries, and every file system is mounted at most once. -/
structure Tree (w : World) : Prop where
  dot : ∀ {f d x}, (w.fs f).entry d ['.'] = some x → x = d
  parent : ∀ {f x d p name}, name ≠ ['.'] → name ≠ dot2 → (w.fs f).entry x name = some d →
    (w.fs f).entry d dot2 = some p → p = x
  rootParent : ∀ {f p}, (w.fs f).entry rootInode dot2 = some p → p = rootInode
  rootEntry : ∀ {f x name}, name ≠ ['.'] → name ≠ dot2 → (w.fs f).entry x name ≠ some rootInode
  rootNode : ∀ m ∈ w.vmnt, m.rootNode = ⟨m.fsE, rootInode⟩
  unique : ∀ m ∈ w.vmnt, ∀ m' ∈ w.vmnt, m.fsE = m'.fsE → m = m'

namespace Tree

variable (ht : w.Tree) {r : Vnode} {f x p : Nat}

include ht

/-- `..` in a directory of the subtree other than its top stays in the subtree. -/
theorem dot2_below (hb : w.Below r ⟨f, x⟩) (hr : (⟨f, x⟩ : Vnode) ≠ r) (h : (w.fs f).entry x dot2 = some p) :
    w.Below r ⟨f, p⟩ := by
  by_cases hx : x = rootInode
  · subst hx
    rw [ht.rootParent h]
    exact hb
  · rcases Relation.ReflTransGen.cases_tail hb with he | ⟨v, hv, hc⟩
    · exact absurd he.symm hr.symm
    · generalize hd : (⟨f, x⟩ : Vnode) = d at hc
      cases hc with
      | entry h1 h2 he =>
        cases hd
        rw [ht.parent h1 h2 he h]
        exact hv
      | mount hm hu =>
        rw [ht.rootNode _ hm] at hd
        exact absurd (congrArg Vnode.inodeNr hd) hx

/-- The directory that a file system is mounted on is in the subtree, if the root of the file system is in it and not
its top. -/
theorem mountedOn_below {m : Vmnt} {u : Vnode} (hb : w.Below r ⟨f, rootInode⟩) (hr : (⟨f, rootInode⟩ : Vnode) ≠ r)
    (hm : w.findVmnt f = some m) (hu : m.mountedOn = some u) : w.Below r u := by
  rcases Relation.ReflTransGen.cases_tail hb with he | ⟨v, hv, hc⟩
  · exact absurd he.symm hr.symm
  · generalize hd : (⟨f, rootInode⟩ : Vnode) = d at hc
    cases hc with
    | entry h1 h2 he =>
      cases hd
      exact absurd he (ht.rootEntry h1 h2)
    | mount hm' hu' =>
      rw [ht.rootNode _ hm'] at hd
      have hf := find?_some hm
      have hmem := mem_of_find?_eq_some hm
      have hfe : m.fsE = _ := (beq_iff_eq.mp hf).trans (congrArg Vnode.fsE hd)
      cases ht.unique _ hmem _ hm' hfe
      rw [hu] at hu'
      cases hu'
      exact hv

/-- A component of a path other than `..` at the top leads to a node of the subtree. -/
theorem entry_below {name : List Char} (hb : w.Below r ⟨f, x⟩) (hr : name = dot2 → (⟨f, x⟩ : Vnode) ≠ r)
    (h : (w.fs f).entry x name = some p) : w.Below r ⟨f, p⟩ := by
  by_cases h2 : name = dot2
  · subst h2
    exact ht.dot2_below hb (hr rfl) h
  · by_cases h1 : name = ['.']
    · subst h1
      rw [ht.dot h]
      exact hb
    · exact hb.tail (.entry h1 h2 h)

end Tree

/-! ## One request -/

section Request

variable {r : Vnode} {f rootIno off : Nat} {retSymlink : Bool} {p p' : Parse} {res : ParseRes}

/-- What the result of a lookup in file system `f` may be: an inode of the subtree, or the root of the file system if it
is to be left, but not at the top of the subtree. -/
structure ResBelow (w : World) (r : Vnode) (f : Nat) (res : ParseRes) : Prop where
  inode : ∀ x, res.res = some x → w.Below r ⟨f, x⟩
  leave : res.code = .ELEAVEMOUNT → w.Below r ⟨f, rootInode⟩ ∧ (⟨f, rootInode⟩ : Vnode) ≠ r

/-- Where the loop of a request may be. The mount that is being left is the one on the current directory. -/
structure Inside (w : World) (r : Vnode) (f : Nat) (p : Parse) : Prop where
  below : w.Below r ⟨f, p.rip⟩
  leaving : p.leavingMount = true → (w.fs f).mountpoint p.rip = true

/-- The process' root directory is a directory, with an inode number. -/
structure IsDir (w : World) (r : Vnode) : Prop where
  node : (w.fs r.fsE).node r.inodeNr = .directory
  number : r.inodeNr ≠ 0

/-- `..` leads nowhere from a process' root that the file server does not know of. It is the root of a mounted file
system and may not be searched; or nothing is mounted on it, and it may not be searched or is its own parent. -/
def Harmless (w : World) (r : Vnode) : Prop :=
  if r.inodeNr = rootInode ∧ (w.fs r.fsE).isRoot = false then (w.fs r.fsE).searchable r.inodeNr = false
  else (w.fs r.fsE).mountpoint r.inodeNr = false ∧ ((w.fs r.fsE).searchable r.inodeNr = true →
    (w.fs r.fsE).entry r.inodeNr dot2 = some r.inodeNr ∧ (w.fs r.fsE).available r.inodeNr = true)

instance (w : World) (r : Vnode) : Decidable (w.Harmless r) := inferInstanceAs (Decidable (ite _ _ _))

/-- What `..` should do at the process' root. -/
def topTurn (w : World) (f off : Nat) (p : Parse) : Turn Parse ParseRes :=
  if (w.fs f).searchable p.rip = true then .again { p with cp := p.userPath.length - p.next.length }
  else .done (p.ret (.err .EACCES) off 1)

theorem ResBelow.ret {code : Code} (h : code ≠ .ELEAVEMOUNT) (off : Nat) (puts : Int) :
    ResBelow w r f (p.ret code off puts) :=
  ⟨nofun, fun hc => absurd hc h⟩

theorem ResBelow.retInode {code : Code} {x : Nat} (h : code ≠ .ELEAVEMOUNT) (hb : w.Below r ⟨f, x⟩) (off : Nat) :
    ResBelow w r f (p.retInode code x off) := by
  refine ⟨fun y hy => ?_, fun hc => absurd hc h⟩
  cases hy
  exact hb

/-- A turn that stays in the subtree, or a result in it. -/
def TurnBelow (w : World) (r : Vnode) (f : Nat) : Turn Parse ParseRes → Prop
  | .again p => w.Inside r f p
  | .done res => ResBelow w r f res
  | .crash => True

theorem expand_below (hb : w.Below r ⟨f, p.rip⟩) (link : Nat) (next : List Char) :
    TurnBelow w r f ((w.fs f).expand p link next off) := by
  unfold Fs.expand
  split
  · exact trivial
  · dsimp only
    split
    · exact .ret (by simp) _ _
    · split
      · exact .ret (by simp) _ _
      · split
        · exact .ret (by simp) _ _
        · exact ⟨hb, nofun⟩

theorem advance_below (ht : w.Tree) (hb : w.Below r ⟨f, p.rip⟩) {string next : List Char}
    (hs : p.leavingMount = true → string = dot2) (hr : string = dot2 → (⟨f, p.rip⟩ : Vnode) ≠ r) :
    TurnBelow w r f ((w.fs f).advance retSymlink off p string next) := by
  have hstr : (if p.leavingMount = true then dot2 else string) = string := by
    split
    · next h => exact (hs h).symm
    · rfl
  unfold Fs.advance
  rw [hstr]
  split
  · exact .ret (by simp) _ _
  · next x hx =>
    have hx := ht.entry_below hb hr (Fs.advanceS1_ok hx).2.1
    split
    · split
      · exact .retInode (by simp) hx _
      · exact expand_below hb _ _
    · exact ⟨hx, nofun⟩

theorem topTurn_inside (hp : w.Inside r f p) (off : Nat) : TurnBelow w r f (w.topTurn f off p) := by
  unfold topTurn
  split
  · exact ⟨hp.below, hp.leaving⟩
  · exact .ret (by simp) _ _

/-- `..` at the process' root is skipped, if the file server knows it or `..` leads nowhere. -/
theorem parseTurn_top (hd : w.IsDir r) (hp : w.Inside r r.fsE p) (hr : p.rip = r.inodeNr)
    (hroot : rootIno = r.inodeNr ∨ w.Harmless r) (hrest : p.rest ≠ []) (hname : p.name = dot2) :
    (w.fs r.fsE).parseTurn rootIno retSymlink off p = w.topTurn r.fsE off p := by
  rw [Fs.parseTurn_eq, if_neg hrest]
  by_cases hknown : p.rip = rootIno
  · rw [if_pos ⟨hname, hknown⟩]
    rfl
  · have hh := hroot.resolve_left fun h => hknown (hr.trans h.symm)
    rw [if_neg fun h => hknown h.2]
    unfold Harmless at hh
    rw [← hr] at hh
    unfold topTurn
    split at hh
    next hm => rw [if_pos ⟨hname, hm⟩, if_neg (by simp [hh]), if_neg (by simp [hh])]
    next hm =>
      have hl : p.leavingMount = false := Bool.not_eq_true _ ▸ fun h => by simpa [hh.1] using hp.leaving h
      have hnode : (w.fs r.fsE).node p.rip = .directory := hr ▸ hd.node
      rw [if_neg fun h => hm h.2, if_neg fun h => h.1 hname, if_neg (by simp [hh.1]), Fs.advance, hl, hname]
      by_cases hs : (w.fs r.fsE).searchable p.rip = true
      · obtain ⟨he, ha⟩ := hh.2 hs
        have hok : (w.fs r.fsE).advanceS1 p.rip dot2 true = .ok p.rip := by
          rw [Fs.advanceS1, if_neg (by decide), Fs.searchDir, if_neg (not_not.mpr hnode), if_neg (by simp [hs]), he]
          exact if_pos ha
        simp only [if_pos hs, Bool.false_eq_true, if_false, Bool.not_false, hok, hnode]
      · have herr : (w.fs r.fsE).advanceS1 p.rip dot2 true = .error .EACCES := by
          simp [Fs.advanceS1, Fs.searchDir, hnode, hs, dot2]
        simp only [if_neg hs, Bool.false_eq_true, if_false, Bool.not_false, herr]

/-- No turn of a file server leaves the subtree of the process' root, which is known to the file server if it is its
own. -/
theorem parseTurn_below (retSymlink : Bool) (off : Nat) (ht : w.Tree) (hd : w.IsDir r)
    (hroot : r.fsE = f → rootIno = r.inodeNr ∨ w.Harmless r) (hp : w.Inside r f p) :
    TurnBelow w r f ((w.fs f).parseTurn rootIno retSymlink off p) := by
  by_cases htop : p.rest ≠ [] ∧ p.name = dot2 ∧ (⟨f, p.rip⟩ : Vnode) = r
  · obtain ⟨hrest, hname, rfl⟩ := htop
    rw [parseTurn_top hd hp rfl (hroot rfl) hrest hname]
    exact topTurn_inside hp off
  · have hb := hp.below
    rw [Fs.parseTurn_eq]
    split
    · exact .retInode (by split <;> simp) hb _
    · next hrest =>
      replace htop : p.name = dot2 → (⟨f, p.rip⟩ : Vnode) ≠ r := fun hn hr => htop ⟨hrest, hn, hr⟩
      split
      · exact topTurn_inside hp off
      · split
        · next hl =>
          split
          · refine ⟨nofun, fun _ => ?_⟩
            have := htop hl.1
            rw [hl.2.1] at this hb
            exact ⟨hb, this⟩
          · exact .ret (by simp) _ _
        · split
          · exact .ret (by simp) _ _
          · next hl =>
            split
            · exact .retInode (by simp) hb _
            · refine advance_below ht hb (fun h => ?_) htop
              by_contra hn
              exact hl ⟨hn, h⟩

theorem parse_below (ht : w.Tree) (hd : w.IsDir r) (hroot : r.fsE = f → rootIno = r.inodeNr ∨ w.Harmless r)
    (hp : w.Inside r f p) (h : Reaches ((w.fs f).parseTurn rootIno retSymlink off) p p') : w.Inside r f p' := by
  refine h.invariant (I := fun p => w.Inside r f p) (fun s s' hs hst => ?_) hp
  have := parseTurn_below retSymlink off ht hd hroot hs
  rwa [hst] at this

theorem start_inside {x : Nat} (hb : w.Below r ⟨f, x⟩) (path : List Char) :
    w.Inside r f ((w.fs f).start x path) := ⟨hb, id⟩

theorem parsePathS_below (ht : w.Tree) (hd : w.IsDir r) {x : Nat} {path : List Char}
    (hroot : r.fsE = f → rootIno = r.inodeNr ∨ w.Harmless r)
    (hb : w.Below r ⟨f, x⟩) (h : (w.fs f).parsePathS x rootIno retSymlink off path = some res) :
    ResBelow w r f res := by
  unfold Fs.parsePathS at h
  split at h
  · cases h
    exact ⟨nofun, nofun⟩
  · split at h
    · cases h
      exact ⟨nofun, nofun⟩
    · obtain ⟨p, hp, hdone⟩ := loop_reaches h
      have := parseTurn_below retSymlink off ht hd hroot (parse_below ht hd hroot (start_inside hb path) hp)
      rwa [hdone] at this

theorem fsLookupS_below (ht : w.Tree) (hd : w.IsDir r) {old x : Nat} {buf : List Char} {rep : LookupReply}
    (hroot : r.fsE = f → rootIno = r.inodeNr ∨ w.Harmless r) (hb : w.Below r ⟨f, x⟩)
    (h : (w.fs f).fsLookupS none none old buf off x rootIno retSymlink = some rep) :
    (rep.code = .ok ∨ rep.code = .EENTERMOUNT → w.Below r ⟨f, rep.inodeNr⟩) ∧
      (rep.code = .ELEAVEMOUNT → w.Below r ⟨f, rootInode⟩ ∧ (⟨f, rootInode⟩ : Vnode) ≠ r) := by
  by_cases hc : ∀ e, rep.code ≠ .err e
  · unfold Fs.fsLookupS at h
    dsimp only at h
    split at h
    · cases h
      exact absurd rfl (hc _)
    · obtain ⟨res, hres, hrep⟩ := Option.bind_eq_some_iff.mp h
      have hbelow := parsePathS_below ht hd hroot hb hres
      obtain ⟨hcode, hino⟩ := ParseRes.reply_code hrep hc
      exact ⟨fun hk => hbelow.inode _ (hino hk), fun hk => hbelow.leave (hcode ▸ hk)⟩
  · obtain ⟨e, he⟩ := not_forall_not.mp hc
    simp [he]

end Request

/-! ## The lookup -/

/-- VFS stands in the subtree, and has told the file server about the process' root if it is there and if that matters.
-/
structure Confined (w : World) (fp : Fproc) (q : Request) : Prop where
  below : w.Below fp.rd q.dir
  root : fp.rd.fsE = q.dir.fsE → q.rootIno = fp.rd.inodeNr ∨ w.Harmless fp.rd

/-- No request leads out of the subtree of the process' root. -/
theorem lookupTurn_confined {retSymlink : Bool} {q : Request} (ht : w.Tree) (hd : w.IsDir fp.rd)
    (hq : w.Confined fp q) :
    (∀ q', w.lookupTurn fp retSymlink q = .again q' → w.Confined fp q') ∧
      ∀ v, w.lookupTurn fp retSymlink q = .done (.ok v) → w.Below fp.rd v := by
  unfold lookupTurn
  split
  · exact ⟨nofun, nofun⟩
  · next rep hrep =>
    obtain ⟨hin, hleave⟩ := fsLookupS_below ht hd hq.root hq.below hrep
    dsimp only
    split
    · next hc =>
      refine ⟨nofun, fun v h => ?_⟩
      cases h
      exact hin (.inl hc)
    · exact ⟨nofun, nofun⟩
    · next hok herr =>
      split
      · exact ⟨nofun, nofun⟩
      · split
        · exact ⟨nofun, fun _ h => (by cases h)⟩
        · next v hv =>
          refine ⟨fun q' h => ?_, fun _ h => (by cases h)⟩
          cases h
          refine ⟨?_, fun hf => ?_⟩
          · unfold nextDir at hv
            split at hv
            · cases hv
              exact .refl
            · next hc =>
              obtain ⟨m, hm, hv⟩ := Option.map_eq_some_iff.mp hv
              cases hv
              have hmo : m.mountedOn = some ⟨q.dir.fsE, rep.inodeNr⟩ := by simpa using find?_some hm
              exact (hin (.inr hc)).tail (.mount (mem_of_find?_eq_some hm) hmo)
            · next hs he =>
              obtain ⟨m, hm, hv⟩ := Option.bind_eq_some_iff.mp hv
              have hc : rep.code = .ELEAVEMOUNT := by
                cases hcode : rep.code with
                | ok => exact absurd hcode hok
                | err e => exact absurd hcode (herr e)
                | EENTERMOUNT => exact absurd hcode he
                | ESYMLINK => exact absurd hcode hs
                | ELEAVEMOUNT => rfl
              exact ht.mountedOn_below (hleave hc).1 (hleave hc).2 hm hv
          · left
            show w.rootFor fp v = _
            rw [rootFor, ← hf, if_pos rfl]

/-- The loop of one request. -/
def RequestReaches (w : World) (retSymlink : Bool) (q : Request) : Parse → Prop :=
  Reaches ((w.fs q.dir.fsE).parseTurn q.rootIno retSymlink q.pathOff)
    ((w.fs q.dir.fsE).start q.dir.inodeNr (strAt q.buf q.pathOff))

/-- The lookup stays in the subtree of the process' root: every node it passes through is there, and so is its result;
and at the process' root itself `..` is skipped, or refused if the directory may not be searched. -/
structure Confinement (w : World) (fp : Fproc) (startNode : Vnode) (retSymlink : Bool) (buf : List Char)
    (old : Nat → Nat) : Prop where
  visits : ∀ q p, Reaches (w.lookupTurn fp retSymlink) (w.firstRequest fp startNode buf old) q →
    w.RequestReaches retSymlink q p → w.Below fp.rd ⟨q.dir.fsE, p.rip⟩
  result : ∀ fuel v, w.lookupRel fp startNode retSymlink buf old fuel = some (.ok v) → w.Below fp.rd v
  top : ∀ q p, Reaches (w.lookupTurn fp retSymlink) (w.firstRequest fp startNode buf old) q →
    w.RequestReaches retSymlink q p → (⟨q.dir.fsE, p.rip⟩ : Vnode) = fp.rd → p.rest ≠ [] → p.name = dot2 →
    (w.fs q.dir.fsE).parseTurn q.rootIno retSymlink q.pathOff p = w.topTurn q.dir.fsE q.pathOff p

theorem confinement_of_first (ht : w.Tree) (hd : w.IsDir fp.rd) {startNode : Vnode} {retSymlink : Bool}
    {buf : List Char}
    {old : Nat → Nat} (hfirst : w.Confined fp (w.firstRequest fp startNode buf old)) :
    w.Confinement fp startNode retSymlink buf old := by
  have hreach : ∀ q, Reaches (w.lookupTurn fp retSymlink) (w.firstRequest fp startNode buf old) q → w.Confined fp q :=
    fun q hq => hq.invariant (fun s s' hs hst => (lookupTurn_confined ht hd hs).1 s' hst) hfirst
  have hinside {q : Request} {p : Parse}
      (hq : Reaches (w.lookupTurn fp retSymlink) (w.firstRequest fp startNode buf old) q)
      (hp : w.RequestReaches retSymlink q p) : w.Inside fp.rd q.dir.fsE p :=
    parse_below ht hd (hreach q hq).root (start_inside (hreach q hq).below _) hp
  refine ⟨fun q p hq hp => (hinside hq hp).below, fun fuel v h => ?_, fun q p hq hp htop hrest hname => ?_⟩
  · unfold lookupRel at h
    split at h
    · cases h
    · obtain ⟨q, hq, hdone⟩ := loop_reaches h
      exact (lookupTurn_confined ht hd (hreach q hq)).2 v hdone
  · have hf : q.dir.fsE = fp.rd.fsE := by rw [← htop]
    have hin := hinside hq hp
    have hroot := (hreach q hq).root hf.symm
    rw [hf] at hin ⊢
    exact parseTurn_top hd hin (congrArg Vnode.inodeNr htop) hroot hrest hname

/-- A link starts a path of its own, and is refused for other reasons than `..` is. -/
theorem expand_outcome (fs : Fs) (p : Parse) (link off : Nat) (next : List Char) :
    (∀ p', fs.expand p link next off = .again p' → p'.leavingMount = false ∧ p'.cp = 0) ∧
      ∀ res, fs.expand p link next off = .done res → res.code ≠ .err .EACCES := by
  have herr {leaked : Int} : fs.ltraverseS link next ≠ some (.error .EACCES, leaked) := by
    unfold Fs.ltraverseS
    split
    · split_ifs <;> simp
    · simp
  unfold Fs.expand
  split
  · exact ⟨nofun, nofun⟩
  next r leaked hr =>
    dsimp only
    split
    · exact ⟨nofun, by rintro _ ⟨⟩; simp [Parse.ret]⟩
    · cases r with
      | error e =>
        refine ⟨nofun, ?_⟩
        rintro _ ⟨⟩ hc
        cases hc
        exact herr hr
      | ok path =>
        dsimp only
        split
        · exact ⟨nofun, by rintro _ ⟨⟩; simp [Parse.ret]⟩
        · exact ⟨by rintro _ ⟨⟩; exact ⟨rfl, rfl⟩, nofun⟩

/-- When a mount is left the flag is cleared, and no permission is asked for. -/
theorem advance_leaving (fs : Fs) {p : Parse} (hl : p.leavingMount = true) (off : Nat) (string next : List Char) :
    (∀ p', fs.advance false off p string next = .again p' → p'.leavingMount = false) ∧
      ∀ res, fs.advance false off p string next = .done res → res.code ≠ .err .EACCES := by
  have herr : fs.advanceS1 p.rip dot2 false ≠ .error .EACCES := by
    unfold Fs.advanceS1 Fs.searchDir
    grind
  unfold Fs.advance
  simp only [hl, if_true, Bool.not_true]
  cases hx : fs.advanceS1 p.rip dot2 false with
  | error e =>
    refine ⟨nofun, ?_⟩
    rintro _ ⟨⟩ hc
    cases hc
    exact herr hx
  | ok x =>
    dsimp only
    split
    · rw [if_neg (by simp)]
      exact ⟨fun p' h => ((expand_outcome fs p x off next).1 p' h).1, (expand_outcome fs p x off next).2⟩
    · exact ⟨by rintro _ ⟨⟩; rfl, nofun⟩

/-- `..` leads back to a directory only if it is its own parent. -/
theorem advance_self {fs : Fs} {p : Parse} {cp off : Nat} {next : List Char} (hl : p.leavingMount = false)
    (hcp : cp ≠ 0)
    (h : fs.advance false off p dot2 next = .again { p with cp := cp }) :
    fs.entry p.rip dot2 = some p.rip ∧ fs.available p.rip = true := by
  unfold Fs.advance at h
  simp only [hl, Bool.false_eq_true, if_false, Bool.not_false] at h
  cases hx : fs.advanceS1 p.rip dot2 true with
  | error e =>
    rw [hx] at h
    cases h
  | ok x =>
    rw [hx] at h
    dsimp only at h
    split at h
    · rw [if_neg (by simp)] at h
      exact absurd ((expand_outcome fs p x off next).1 _ h).2 hcp
    · have hself : x = p.rip := congrArg Parse.rip (Turn.again.inj h)
      subst hself
      refine ⟨(Fs.advanceS1_ok hx).2.1, ?_⟩
      unfold Fs.advanceS1 at hx
      grind

/-- The path `/..` at a process' root that the file server does not know of shows the fault, unless it leads nowhere. -/
theorem harmless_of_turn {r : Vnode} (hd : w.IsDir r)
    (h : (w.fs r.fsE).parseTurn 0 false 0 ((w.fs r.fsE).start r.inodeNr ['/', '.', '.']) =
      w.topTurn r.fsE 0 ((w.fs r.fsE).start r.inodeNr ['/', '.', '.'])) : w.Harmless r := by
  set p := (w.fs r.fsE).start r.inodeNr ['/', '.', '.'] with hp
  have hname : p.name = dot2 := rfl
  have hrip : p.rip = r.inodeNr := rfl
  have hl : p.leavingMount = (w.fs r.fsE).mountpoint r.inodeNr := rfl
  rw [Fs.parseTurn_eq, if_neg (show p.rest ≠ [] from cons_ne_nil _ _), if_neg fun h => hd.number (hrip ▸ h.2),
    topTurn, hrip] at h
  unfold Harmless
  split
  next hm =>
    rw [if_pos ⟨hname, hm⟩] at h
    by_contra hs
    rw [Bool.not_eq_false] at hs
    rw [if_pos hs, if_pos hs] at h
    cases h
  next hm =>
    rw [if_neg fun h => hm h.2, if_neg fun h => h.1 hname, if_neg (by rw [hl]; simp), hname] at h
    have hmount : (w.fs r.fsE).mountpoint r.inodeNr = false := by
      by_contra hmount
      rw [Bool.not_eq_false] at hmount
      obtain ⟨hagain, hdone⟩ := advance_leaving (w.fs r.fsE) (hl.trans hmount) 0 dot2 p.next
      split at h
      · have := hagain _ h
        rw [show p.leavingMount = true from hl.trans hmount] at this
        cases this
      · exact hdone _ h rfl
    refine ⟨hmount, fun hs => ?_⟩
    rw [if_pos hs] at h
    exact advance_self (hl.trans hmount) (show (3 : Nat) ≠ 0 by decide) h

/-- **Confinement.** All lookups of a process that start below its root directory stay below it, whatever is mounted
where and whatever the paths are, if and only if the working directory is on the device of the root directory, or `..`
leads nowhere from the root directory. -/
theorem confined (ht : w.Tree) (hd : w.IsDir fp.rd) :
    (∀ startNode, w.Below fp.rd startNode → ∀ retSymlink buf old, w.Confinement fp startNode retSymlink buf old) ↔
      w.dev fp.rd.fsE = w.dev fp.wd.fsE ∨ w.Harmless fp.rd := by
  constructor
  · intro h
    by_cases hdev : w.dev fp.rd.fsE = w.dev fp.wd.fsE
    · exact .inl hdev
    · refine .inr (harmless_of_turn hd ?_)
      have hq : (w.firstRequest fp fp.rd ['/', '.', '.', '\x00'] fun _ => 0).rootIno = 0 := if_neg hdev
      have := (h fp.rd .refl false ['/', '.', '.', '\x00'] fun _ => 0).top _ _ (.refl _) (.refl _) rfl
        (cons_ne_nil _ _) rfl
      rw [hq] at this
      exact this
  · intro h startNode hstart retSymlink buf old
    exact confinement_of_first ht hd ⟨hstart, fun _ => h.imp_left fun hdev => if_pos hdev⟩

/-! ## A way out -/

/-- The root file system has a directory `jail` (inode 2) with a directory `mnt` (inode 3), on which another file system
is mounted. -/
def jail : World where
  fs f :=
    if f = 0 then
      dirFs (fun
        | 1 => [(['.'], 1), (dot2, 1), ("jail".toList, 2)]
        | 2 => [(['.'], 2), (dot2, 1), ("mnt".toList, 3)]
        | 3 => [(['.'], 3), (dot2, 2)]
        | _ => []) (· == 3) true
    else dirFs (fun | 1 => [(['.'], 1), (dot2, 1)] | _ => []) (fun _ => false) false
  dev f := f + 1
  vmnt := [⟨0, none, ⟨0, rootInode⟩⟩, ⟨1, some ⟨0, 3⟩, ⟨1, rootInode⟩⟩]

theorem jail_entry {f x d : Nat} {name : List Char} (h : (jail.fs f).entry x name = some d) :
    (f, x, name, d) ∈ [(0, 1, ['.'], 1), (0, 1, dot2, 1), (0, 1, "jail".toList, 2), (0, 2, ['.'], 2), (0, 2, dot2, 1),
      (0, 2, "mnt".toList, 3), (0, 3, ['.'], 3), (0, 3, dot2, 2)] ∨ f ≠ 0 ∧ x = 1 ∧ d = 1 ∧
      (name = ['.'] ∨ name = dot2) := by
  by_cases hf : f = 0
  · subst hf
    simp only [jail, dirFs, if_true] at h
    split at h <;> grind
  · simp only [jail, dirFs, if_neg hf] at h
    split at h <;> grind

theorem jail_tree : jail.Tree := by
  constructor
  · intro f d x h
    rcases jail_entry h with h | h
    · simp [dot2] at h
      omega
    · omega
  · intro f x d p name h1 h2 h hp
    rcases jail_entry h with h | h
    · rcases jail_entry hp with hp | hp
      · simp [dot2] at h hp h1 h2
        grind
      · simp at h
        omega
    · exact absurd h.2.2.2 (by simp [h1, h2])
  · intro f p h
    rcases jail_entry h with h | h
    · simp [dot2, rootInode] at h ⊢
      omega
    · exact h.2.2.1
  · intro f x name h1 h2 h
    rcases jail_entry h with h | h
    · simp [dot2, rootInode] at h h1 h2
      grind
    · exact absurd h.2.2.2 (by simp [h1, h2])
  · simp [jail]
  · simp [jail]

/-- The parent of `jail` is not below it. -/
theorem jail_not_below : ¬ jail.Below ⟨0, 2⟩ ⟨0, rootInode⟩ := by
  intro h
  rcases Relation.ReflTransGen.cases_tail h with he | ⟨v, -, hc⟩
  · cases he
  · generalize hd : (⟨0, rootInode⟩ : Vnode) = d at hc
    cases hc with
    | entry h1 h2 he =>
      cases hd
      exact jail_tree.rootEntry h1 h2 he
    | mount hm hu =>
      simp only [jail, mem_cons, not_mem_nil, or_false] at hm
      rcases hm with rfl | rfl
      · cases hu
      · cases hd

/-- Below the root directory of a process in the jail, and below the root of everything with a working directory
elsewhere. -/
theorem confined_in_jail :
    jail.Confinement ⟨⟨0, 2⟩, ⟨0, 2⟩⟩ ⟨0, 2⟩ false (pathBuf "/mnt/../..") (fun _ => 0) ∧
      jail.lookupRel ⟨⟨0, 2⟩, ⟨0, 2⟩⟩ ⟨0, 2⟩ false (pathBuf "/mnt/../..") (fun _ => 0) 5 = some (.ok ⟨0, 2⟩) ∧
      jail.Confinement ⟨⟨0, 1⟩, ⟨1, 1⟩⟩ ⟨0, 1⟩ false (pathBuf "/..") (fun _ => 0) :=
  ⟨(confined jail_tree ⟨rfl, by decide⟩).mpr (.inl rfl) _ .refl _ _ _, by decide +kernel,
    (confined jail_tree ⟨rfl, by decide⟩).mpr (.inr (by decide)) _ .refl _ _ _⟩

/-- A process whose root directory is `jail` and whose working directory is the root of the file system mounted there
resolves `/..` to the parent of `jail`. -/
theorem lookup_escapes :
    jail.Tree ∧ jail.Below ⟨0, 2⟩ ⟨1, rootInode⟩ ∧
      startOf ⟨⟨0, 2⟩, ⟨1, rootInode⟩⟩ (pathBuf "/..") = ⟨0, 2⟩ ∧
      jail.lookupRel ⟨⟨0, 2⟩, ⟨1, rootInode⟩⟩ ⟨0, 2⟩ false (pathBuf "/..") (fun _ => 0) 1 = some (.ok ⟨0, rootInode⟩) ∧
      ¬ jail.Below ⟨0, 2⟩ ⟨0, rootInode⟩ := by
  refine ⟨jail_tree, ?_, by decide +kernel, by decide +kernel, jail_not_below⟩
  have h1 : jail.Child ⟨0, 2⟩ ⟨0, 3⟩ := by
    have h : (jail.fs 0).entry 2 "mnt".toList = some 3 := by decide
    exact .entry (by decide) (by decide) h
  have h2 : jail.Child ⟨0, 3⟩ ⟨1, rootInode⟩ :=
    .mount (m := ⟨1, some ⟨0, 3⟩, ⟨1, rootInode⟩⟩) (by simp [jail]) rfl
  exact (Relation.ReflTransGen.single h1).tail h2

end World

end Minix.Vfs
