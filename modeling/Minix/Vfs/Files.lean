import Minix.Vfs.Refs

/-!
# The owner of a block device, and calls on files

`Tables.owner dev` is the file server that has a device mounted, or the root file server. `Good skip`: the counters of
vnodes and filps are right, the mount table is in order, and every open block special file has the owner of its device,
but for the file of the filp `skip`, which is being opened.

Opening a file (`commonOpen_good`), closing and duplicating a descriptor, and changing directories keep this.
-/

namespace Minix.Vfs

open Minix.Lib Function List Option

namespace Tables

variable {s s' : Tables}

/-- The file server that a device belongs to. -/
def owner (s : Tables) (dev : Dev) : Int :=
  if dev = NO_DEV then s.rootFsE else (s.vmntOf dev).elim s.rootFsE fun m => (s.vmnt m).fsE

/-- The open block special files have the owners `own` of their devices. -/
def Owned (s : Tables) (own : Dev → Int) (skip : Option FilpRef) : Prop :=
  ∀ x v, some x ≠ skip → s.openNode x = some v → (s.vnode v).type = .blockSpecial →
    (s.vnode v).bfsE = own (s.vnode v).sdev

def fds (s : Tables) : ProcRef × Fd → Option FilpRef := fun x => (s.fproc x.1).filp x.2

def counts (s : Tables) : FilpRef → Nat := fun x => (s.filp x).count

/-- The counters of the filps count the descriptors in `t`, and the references in `fl`. -/
def FilesOk (s : Tables) (t : ProcRef × Fd → Option FilpRef) (fl : List FilpRef) : Prop := Balanced s.counts t fl

/-- What holds of the mount table. -/
structure MountsOk (s : Tables) : Prop where
  /-- The root node of a file system is on its device. -/
  root : ∀ m v, (s.vmnt m).rootNode = some v → (s.vnode v).dev = (s.vmnt m).dev
  free : ∀ m, (s.vmnt m).dev = NO_DEV → (s.vmnt m).rootNode = none ∧ (s.vmnt m).mountedOn = none
  serving : ∀ m, (s.vmnt m).dev ≠ NO_DEV → (s.vmnt m).fsE ≠ NONE
  rootServing : s.rootFsE ≠ NONE

/-- The invariant, but for the file of `skip`, and with references `xs` to vnodes that no holder has. -/
structure Good (own : Dev → Int) (skip : Option FilpRef) (xs : List VnodeRef) (s : Tables) : Prop where
  nodes : s.NodesOk xs
  files : s.FilesOk s.fds []
  mounts : s.MountsOk
  owned : s.Owned own skip

theorem vmntOf_some {dev : Dev} {m : VmntRef} (h : s.vmntOf dev = some m) : (s.vmnt m).dev = dev := by
  simpa using find?_some h

/-- The owners depend on the devices and file servers of the slots only. -/
theorem owner_congr_of (hd : ∀ m, (s'.vmnt m).dev = (s.vmnt m).dev) (hf : ∀ m, (s'.vmnt m).fsE = (s.vmnt m).fsE)
    (he : s'.rootFsE = s.rootFsE) : s'.owner = s.owner := by
  funext dev
  unfold owner vmntOf
  simp only [hd, hf, he]

theorem owner_congr (hm : s'.vmnt = s.vmnt) (he : s'.rootFsE = s.rootFsE) : s'.owner = s.owner :=
  owner_congr_of (fun _ => by rw [hm]) (fun _ => by rw [hm]) he

theorem MountsOk.owner_ne (h : s.MountsOk) (dev : Dev) : s.owner dev ≠ NONE := by
  unfold owner
  split
  · exact h.rootServing
  next hd =>
    cases hm : s.vmntOf dev with
    | none => exact h.rootServing
    | some m =>
      apply h.serving
      rw [vmntOf_some hm]
      exact hd

theorem openNode_eq_some {x : FilpRef} {v : VnodeRef} : s.openNode x = some v ↔ (s.filp x).count ≠ 0 ∧
    (s.filp x).vno = some v := by
  unfold openNode
  split
  next h => simp [h]
  next h => simp [h]

theorem MountsOk.congr (h : s.MountsOk) (hv : ∀ m v, (s.vmnt m).rootNode = some v → (s'.vnode v).dev = (s.vnode v).dev)
    (hm : s'.vmnt = s.vmnt) (he : s'.rootFsE = s.rootFsE) : s'.MountsOk where
  root m v hr := by
    rw [hm] at hr ⊢
    rw [hv m v hr]
    exact h.root m v hr
  free m hd := by
    rw [hm] at hd ⊢
    exact h.free m hd
  serving m hd := by
    rw [hm] at hd ⊢
    exact h.serving m hd
  rootServing := by
    rw [he]
    exact h.rootServing

end Tables

open Tables

variable {s s' : Tables} {own : Dev → Int} {xs ys : List VnodeRef} {v : VnodeRef} {skip : Option FilpRef}
  {w : Option VnodeRef} {q : OpenReq} {d : Dir}

namespace Quiet

section

variable (hq : Quiet s s')

include hq

theorem owner : s'.owner = s.owner := owner_congr hq.vmnt hq.rootFsE

theorem owned (h : s.Owned own skip) : s'.Owned own skip := by
  intro x v hx ho ht
  rw [hq.openNode] at ho
  have hn := hq.held (.inr (.inl x)) v ho
  rw [hn.type] at ht
  rw [hn.bfsE, hn.sdev]
  exact h x v hx ho ht

theorem fds : s'.fds = s.fds := by
  unfold Tables.fds
  rw [hq.fproc]

theorem counts : s'.counts = s.counts := funext hq.count

theorem mounts (h : s.MountsOk) : s'.MountsOk :=
  h.congr (fun m v hv => (hq.held (.inr (.inr (m, true))) v hv).dev) hq.vmnt hq.rootFsE

theorem good (h : s.Good own skip xs) (hn : s'.NodesOk ys) : s'.Good own skip ys where
  nodes := hn
  files := by
    unfold FilesOk
    rw [hq.counts, hq.fds]
    exact h.files
  mounts := hq.mounts h.mounts
  owned := hq.owned h.owned

end

end Quiet

theorem Settles.good {α : Type} {x : Prog Tables α} {ys : α → List VnodeRef} (hx : Settles x s ys)
    (h : s.Good own skip xs) :
    After x s fun a s' => s'.Good own skip (ys a) ∧ Quiet s s' :=
  After.mono hx fun _ _ h' => ⟨h'.2.good h h'.1, h'.2⟩

/-! ## Descriptors -/

@[simp] theorem modFilp_self (x : FilpRef) (f : FilpSlot → FilpSlot) : (s.modFilp x f).filp x = f (s.filp x) :=
  update_self _ _ _

theorem openNode_modFilp (x : FilpRef) (f : FilpSlot → FilpSlot) :
    (s.modFilp x f).openNode =
      update s.openNode x (if (f (s.filp x)).count = 0 then none else (f (s.filp x)).vno) :=
  comp_update (fun f : FilpSlot => if f.count = 0 then none else f.vno) s.filp x _

theorem counts_modFilp (x : FilpRef) (f : FilpSlot → FilpSlot) :
    (s.modFilp x f).counts = update s.counts x (f (s.filp x)).count :=
  comp_update FilpSlot.count s.filp x _

theorem Quiet.modFilp {f : FilpSlot → FilpSlot} (hc : (f (s.filp x)).count = (s.filp x).count)
    (hv : (s.filp x).count ≠ 0 → (f (s.filp x)).vno = (s.filp x).vno) : Quiet s (s.modFilp x f) where
  count y := by
    have := congrFun (counts_modFilp (s := s) x f) y
    rw [hc] at this
    exact this.trans (congrFun (update_eq_self x s.counts) y)
  openNode := by
    rw [openNode_modFilp, update_eq_self_iff, hc, Tables.openNode]
    split
    · rfl
    next h => exact hv h
  vmnt := rfl
  fproc := rfl
  rootFsE := rfl
  rootDev := rfl
  held _ _ _ := .refl _

theorem getFd_settles (h : s.NodesOk xs) (p : ProcRef) (start : Nat) (rBit wBit : Bool) :
    After (getFd p start rBit wBit) s fun r s' => s'.NodesOk xs ∧ Quiet s s' ∧
      ∀ fd x, r = .ok (fd, x) → s'.fds (p, fd) = none ∧ s'.counts x = 0 := by
  unfold getFd
  refine .get ?_
  dsimp only
  cases hfd : (finRange 30).find? fun i : Fd => start ≤ i ∧ (s.fproc p).filp i = none ∧
    (s.fproc p).inuse i = false with
  | none => exact .pure ⟨h, .refl s, fun _ _ hr => nomatch hr⟩
  | some fd =>
    cases hx : (finRange 512).find? fun x => (s.filp x).count = 0 with
    | none => exact .pure ⟨h, .refl s, fun _ _ hr => nomatch hr⟩
    | some x =>
      have hfd' := find?_some hfd
      simp only [decide_eq_true_eq] at hfd'
      have h0 : (s.filp x).count = 0 := by simpa using find?_some hx
      refine .set ?_
      have hq : Quiet s (s.modFilp x fun f => { f with rBit := rBit, wBit := wBit }) := .modFilp rfl fun _ => rfl
      refine .pure ⟨h.congr rfl hq.refs, hq, ?_⟩
      rintro _ _ ⟨⟩
      exact ⟨hfd'.2.1, (hq.count x).trans h0⟩

theorem getFilp2_settles (h : s.NodesOk xs) (p : ProcRef) (fd : Fd) :
    After (getFilp2 p fd) s fun r s' => s'.NodesOk xs ∧ Quiet s s' ∧ r = s'.fds (p, fd) := by
  unfold getFilp2
  refine .get ?_
  refine .bind (Q := fun _ s' => s'.NodesOk xs ∧ Quiet s s') (.modify ⟨h, .of_eq rfl rfl rfl rfl rfl rfl⟩) ?_
  rintro _ s' ⟨h', hq⟩
  refine .pure ⟨h', hq, ?_⟩
  rw [hq.fds]
  rfl

theorem refs_of_openNode (hp : ∀ p d, (s'.fproc p).dir d = (s.fproc p).dir d)
    (hm : s'.vmnt = s.vmnt) (ho : s'.openNode = update s.openNode x w) :
    s'.refs = update s.refs (.inr (.inl x)) w := by
  funext h
  match h with
  | .inl (p, d) => rw [update_of_ne (by simp), Tables.refs, Tables.refs, hp]
  | .inr (.inl y) =>
    rw [Tables.refs, ho]
    by_cases hy : y = x
    · rw [hy, update_self, update_self]
    · rw [update_of_ne hy, update_of_ne (by simpa using hy), Tables.refs]
  | .inr (.inr (m, true)) => rw [update_of_ne (by simp), Tables.refs, Tables.refs, hm]
  | .inr (.inr (m, false)) => rw [update_of_ne (by simp), Tables.refs, Tables.refs, hm]

variable {p : ProcRef} {fd : Fd}

theorem fds_of_fproc {fp : FprocSlot} {x : Option FilpRef} (hp : s'.fproc = update s.fproc p fp)
    (hf : fp.filp = update (s.fproc p).filp fd x) : s'.fds = update s.fds (p, fd) x := by
  funext ⟨p', fd'⟩
  rw [Tables.fds, hp]
  by_cases hpp : p' = p
  · subst hpp
    rw [update_self, hf]
    by_cases hfd : fd' = fd
    · rw [hfd, update_self, update_self]
    · rw [update_of_ne hfd, update_of_ne (by simpa using hfd), Tables.fds]
  · rw [update_of_ne hpp, update_of_ne (by simp [hpp]), Tables.fds]

theorem dir_of_fproc {fp : FprocSlot} (hp : s'.fproc = update s.fproc p fp)
    (hf : ∀ d, fp.dir d = (s.fproc p).dir d) (p' : ProcRef) (d : Dir) : (s'.fproc p').dir d = (s.fproc p').dir d := by
  rw [hp]
  by_cases hpp : p' = p
  · subst hpp
    rw [update_self, hf]
  · rw [update_of_ne hpp]

/-- The file of one filp changes, and descriptors. The other files that are open have their owners. -/
theorem Tables.Good.refile {x : FilpRef} {skip' : Option FilpRef} (h : s.Good own skip xs)
    (hm : s'.vmnt = s.vmnt) (hv : s'.vnode = s.vnode) (he : s'.rootFsE = s.rootFsE)
    (hp : ∀ p d, (s'.fproc p).dir d = (s.fproc p).dir d) (ho : s'.openNode = update s.openNode x w)
    (hn : Balanced s.refCounts (update s.refs (.inr (.inl x)) w) ys) (hf : Balanced s'.counts s'.fds [])
    (hs : ∀ y, some y ≠ skip' → y ≠ x → some y ≠ skip)
    (hx : some x ≠ skip' → ∀ v ∈ w, (s.vnode v).type = .blockSpecial → (s.vnode v).bfsE = own (s.vnode v).sdev) :
    s'.Good own skip' ys := by
  refine ⟨?_, hf, h.mounts.congr (fun _ _ _ => by rw [hv]) hm he, fun y v hy ho' ht => ?_⟩
  · unfold NodesOk refCounts
    rw [refs_of_openNode hp hm ho, hv]
    exact hn
  · rw [hv] at *
    rw [ho] at ho'
    by_cases hyx : y = x
    · subst hyx
      rw [update_self] at ho'
      exact hx hy v ho' ht
    · rw [update_of_ne hyx] at ho'
      exact h.owned y v (hs y hy hyx) ho' ht

/-! ## Open -/

variable {fil : FilpRef}

theorem Tables.Good.claim (h : s.Good own none (v :: xs)) (hfd : s.fds (p, fd) = none)
    (hc : s.counts fil = 0) :
    ((s.setFd p fd (some fil)).modFilp fil fun f => { f with count := 1, vno := some v }).Good own (some fil) xs := by
  set s' := (s.setFd p fd (some fil)).modFilp fil fun f => { f with count := 1, vno := some v } with hs'
  have ho : s'.openNode = update s.openNode fil (some v) := openNode_modFilp fil _
  have hnone : s.openNode fil = none := if_pos hc
  refine h.refile rfl rfl rfl (dir_of_fproc rfl fun d => by cases d <;> rfl) ho (Balanced.store h.nodes hnone) ?_
    (fun y _ _ => some_ne_none y) fun hx => absurd rfl hx
  have hfds : s'.fds = update s.fds (p, fd) (some fil) := fds_of_fproc rfl rfl
  have hcounts : s'.counts = update s.counts fil (s.counts fil + 1) := by
    rw [hs', counts_modFilp, hc]
    rfl
  rw [hfds, hcounts]
  exact (Balanced.dup h.files fil).store hfd

theorem Tables.Good.unclaim (h : s.Good own (some fil) xs) (hfd : s.fds (p, fd) = some fil)
    (hc : (s.filp fil).count = 1) (hv : (s.filp fil).vno = some v) :
    ((s.setFd p fd none).modFilp fil fun f => { f with count := 0 }).Good own none (v :: xs) := by
  set s' := (s.setFd p fd none).modFilp fil fun f => { f with count := 0 } with hs'
  have ho : s'.openNode = update s.openNode fil none := openNode_modFilp fil _
  have hsome : s.openNode fil = some v := openNode_eq_some.mpr ⟨by omega, hv⟩
  refine h.refile rfl rfl rfl (dir_of_fproc rfl fun d => by cases d <;> rfl) ho (Balanced.clear h.nodes hsome) ?_
    (fun y _ hy he => hy (some.inj he)) nofun
  have hfds : s'.fds = update s.fds (p, fd) none := fds_of_fproc rfl rfl
  have hcounts : s'.counts = update s.counts fil (s.counts fil - 1) := by
    rw [hs', counts_modFilp, show s.counts fil = 1 from hc]
    rfl
  rw [hfds, hcounts]
  exact (Balanced.clear h.files hfd).put

/-- The filp `fil` is that of the descriptor, and refers to `v`. -/
structure Claimed (p : ProcRef) (fd : Fd) (fil : FilpRef) (v : VnodeRef) (s : Tables) : Prop where
  fd : s.fds (p, fd) = some fil
  count : (s.filp fil).count = 1
  vno : (s.filp fil).vno = some v

/-- What the special processing of a file type ends with. -/
structure Typed (own : Dev → Int) (p : ProcRef) (fd : Fd) (fil : FilpRef) (v : VnodeRef) (xs : List VnodeRef) (r : Int)
    (s : Tables) : Prop where
  owner : s.owner = own
  done : r = OK ∨ r = SUSPEND → s.Good own none xs
  failed : r ≠ OK → r ≠ SUSPEND → s.Good own (some fil) xs ∧ Claimed p fd fil v s

theorem Tables.Good.other (h : s.Good own (some fil) xs) (hv : (s.filp fil).vno = some v)
    (ht : (s.vnode v).type ≠ .blockSpecial) :
    s.Good own none xs := by
  refine ⟨h.nodes, h.files, h.mounts, fun x w _ ho htw => ?_⟩
  by_cases hx : x = fil
  · subst hx
    have := (openNode_eq_some.mp ho).2
    rw [hv] at this
    cases this
    exact absurd htw ht
  · exact h.owned x w (by simpa using hx) ho htw

/-- A block special file that is opened gets the owner of its device. -/
theorem openBlock_typed (h : s.Good own (some fil) xs) (hc : Claimed p fd fil v s)
    (hown : s.owner = own) (hsusp : q.blockOpen ≠ SUSPEND) :
    After (openBlock v q) s fun r s' => Typed own p fd fil v xs r s' := by
  unfold openBlock
  refine .get (.ite (fun hr => .pure ⟨hown, ?_, fun _ _ => ⟨h, hc⟩⟩) fun hr => ?_)
  · rintro (h0 | h0)
    · exact absurd h0 hr
    · rw [OpenReq.devOpen] at h0
      split at h0
      · cases h0
      · exact absurd h0 hsusp
  · have hr : q.devOpen (s.vnode v).sdev = OK := not_not.mp hr
    have hdev : (s.vnode v).sdev ≠ NO_DEV := by
      intro h0
      rw [h0] at hr
      cases hr
    have howner : s.owner (s.vnode v).sdev = (s.vmntOf (s.vnode v).sdev).elim s.rootFsE fun m =>
        (s.vmnt m).fsE := if_neg hdev
    rw [← howner]
    set s' := s.modVnode v fun vp => { vp with bfsE := s.owner (s.vnode v).sdev } with hs'
    have hnode (w : VnodeRef) : s'.vnode w = if w = v then { s.vnode v with bfsE := s.owner (s.vnode v).sdev }
      else s.vnode w :=
      update_apply _ _ _ _
    have h' : s'.Good own none xs := by
      refine ⟨h.nodes.congr ?_ rfl, h.files, h.mounts.congr (fun _ w _ => ?_) rfl rfl, fun x w _ ho htw => ?_⟩
      · rw [hs', refCounts_modVnode]
        exact update_eq_self v s.refCounts
      · rw [hnode]
        split
        next hw => rw [hw]
        · rfl
      · rw [hnode] at htw ⊢
        by_cases hw : w = v
        · rw [if_pos hw, hown]
        · rw [if_neg hw] at htw ⊢
          refine h.owned x w ?_ ho htw
          rintro ⟨⟩
          have hvno : (s.filp fil).vno = some w := (openNode_eq_some.mp ho).2
          rw [hc.vno] at hvno
          exact hw (some.inj hvno).symm
    have htyped (r : Int) : Typed own p fd fil v xs r s' :=
      ⟨hown, fun _ => h', fun _ _ =>
        ⟨⟨h'.nodes, h'.files, h'.mounts, fun x w _ => h'.owned x w (some_ne_none x)⟩, hc.fd, hc.count, hc.vno⟩⟩
    refine .set ?_
    exact .ite (fun _ => .pure (htyped _)) fun _ => .pure (htyped _)

theorem findFilp_some {rBit wBit : Bool} (h : s.findFilp v rBit wBit = some x) :
    (s.filp x).count ≠ 0 ∧ (s.filp x).vno = some v := by
  have := find?_some h
  simp only [decide_eq_true_eq] at this
  exact ⟨this.1, this.2.1⟩

theorem pipeOpen_eq (s : Tables) (v : VnodeRef) (q : OpenReq) :
    After (pipeOpen v q) s fun r s' => s' = s ∧ (r = OK ∨ r = SUSPEND ∨ r = ENXIO) := by
  unfold pipeOpen
  refine .get (.ite (fun _ => .pure ⟨rfl, .inr (.inr rfl)⟩) fun _ => .ite (fun _ => .ite (fun _ => .pure ⟨rfl, ?_⟩)
    fun _ => .pure ⟨rfl, .inr (.inl rfl)⟩) fun _ => .pure ⟨rfl, .inl rfl⟩)
  split
  · exact .inr (.inr rfl)
  · exact .inl rfl

section

variable (h : s.Good own (some fil) xs) (hc : Claimed p fd fil v s)

include h hc

/-- The filp of another reader or writer takes the place of the new one. -/
theorem Tables.Good.share {filp2 : FilpRef} (hne : filp2 ≠ fil) (h2 : s.openNode filp2 = some v) :
    (((s.modFilp fil fun f => { f with count := 0 }).modFproc p fun fp =>
    { fp with filp := update fp.filp fd (some filp2)
    }).modFilp filp2 fun f => { f with count := f.count + 1, vno := some v }).Good own none (v :: xs) := by
  set s1 := s.modFilp fil fun f => { f with count := 0 } with hs1
  set s2 := s1.modFproc p fun fp => { fp with filp := update fp.filp fd (some filp2) } with hs2
  set s3 := s2.modFilp filp2 fun f => { f with count := f.count + 1, vno := some v } with hs3
  have ho1 : s1.openNode = update s.openNode fil none := openNode_modFilp fil _
  have ho : s3.openNode = update s.openNode fil none := by
    rw [hs3, openNode_modFilp]
    show update s1.openNode filp2 (some v) = _
    rw [ho1, update_eq_self_iff, update_of_ne hne, h2]
  have hsome : s.openNode fil = some v := openNode_eq_some.mpr ⟨by rw [hc.count]; decide, hc.vno⟩
  refine h.refile rfl rfl rfl (dir_of_fproc rfl fun d => by cases d <;> rfl) ho (Balanced.clear h.nodes hsome) ?_
    (fun y _ hy he => hy (some.inj he)) nofun
  have hfds : s3.fds = update (update s.fds (p, fd) none) (p, fd) (some filp2) := by
    rw [update_idem]
    exact fds_of_fproc rfl rfl
  have hc1 : s1.counts = update s.counts fil (s.counts fil - 1) := by
    rw [hs1, counts_modFilp, show s.counts fil = 1 from hc.count]
  have hcounts : s3.counts = update s1.counts filp2 (s1.counts filp2 + 1) := by
    rw [hs3, counts_modFilp]
    rfl
  rw [hfds, hcounts, hc1]
  exact ((Balanced.clear h.files hc.fd).put.dup filp2).store (update_self _ _ _)

theorem shareFifo_good (ht : (s.vnode v).type ≠ .blockSpecial) (q : OpenReq) :
    After (shareFifo p fd fil v q) s fun _ s' => s'.Good own none xs ∧ s'.owner = s.owner := by
  unfold shareFifo
  refine .set ?_
  refine .get ?_
  cases hf : (s.modFilp fil fun f => { f with count := 0 }).findFilp v q.rBit (!q.rBit) with
  | none =>
    -- the filp is claimed again
    refine .modify ?_
    have : (s.modFilp fil fun f => { f with count := 0 }).modFilp fil (fun f => { f with count := 1 }) = s := by
      unfold Tables.modFilp
      dsimp only
      rw [update_idem, update_self]
      have : { s.filp fil with count := 1 } = s.filp fil := by rw [← hc.count]
      rw [this, update_eq_self]
    rw [this]
    exact ⟨h.other hc.vno ht, rfl⟩
  | some filp2 =>
    obtain ⟨hcnt, hvno⟩ := findFilp_some hf
    have hne : filp2 ≠ fil := by
      rintro rfl
      apply hcnt
      rw [modFilp_self]
    have h2 : s.openNode filp2 = some v := by
      have : (s.modFilp fil fun f => { f with count := 0 }).openNode filp2 = some v := openNode_eq_some.mpr ⟨hcnt, hvno⟩
      rwa [openNode_modFilp, update_of_ne hne] at this
    refine .bind (Q := fun _ s' => s'.Good own none (v :: xs) ∧
      s'.owner = s.owner) (.modify ⟨h.share hc hne h2, rfl⟩) ?_
    rintro _ s1 ⟨h1, ho1⟩
    exact ((putVnode_settles h1.nodes).good h1).mono fun _ _ h => ⟨h.1, h.2.owner.trans ho1⟩

theorem openFifo_typed (hown : s.owner = own) (ht : (s.vnode v).type ≠ .blockSpecial) (q : OpenReq) :
    After (openFifo p fd fil v q) s fun r s' => Typed own p fd fil v xs r s' := by
  unfold openFifo
  refine .bind (pipeOpen_eq s v q) ?_
  rintro r s1 ⟨rfl, hr⟩
  refine .ite (fun _ => .pure ⟨hown, fun _ => h.other hc.vno ht, fun _ _ => ⟨h, hc⟩⟩) fun hen => ?_
  refine .bind (shareFifo_good h hc ht q) fun _ s' h' => .pure ⟨h'.2.trans hown, fun _ => h'.1, fun h1 h2 => ?_⟩
  rcases hr with hr | hr | hr
  · exact absurd hr h1
  · exact absurd hr h2
  · exact absurd hr hen

theorem openType_typed (hown : s.owner = own) (hsusp : q.blockOpen ≠ SUSPEND) :
    After (openType p fd fil v q) s fun r s' => Typed own p fd fil v xs r s' := by
  unfold openType
  refine .get ?_
  cases ht : (s.vnode v).type with
  | blockSpecial => exact openBlock_typed h hc hown hsusp
  | namedPipe => exact openFifo_typed h hc hown (by rw [ht]; decide) q
  | charSpecial | regular | directory | symlink =>
    exact .pure ⟨hown, fun _ => h.other hc.vno (by rw [ht]; decide), fun _ _ => ⟨h, hc⟩⟩

end

theorem commonOpen_good (h : s.Good s.owner none xs) (p : ProcRef) (absolute : Bool)
    (hsusp : q.blockOpen ≠ SUSPEND) : After (commonOpen p absolute q) s fun _ s' => s'.Good s.owner none xs ∧
    s'.owner = s.owner := by
  generalize hown : s.owner = own at h ⊢
  unfold commonOpen
  refine .ite (fun _ => .pure ⟨h, hown⟩) fun _ => .bind (getFd_settles h.nodes p 0 q.rBit q.wBit) ?_
  rintro r s1 ⟨hn1, hq1, hfree⟩
  have h1 := hq1.good h hn1
  match r with
  | .error r => exact .pure ⟨h1, hq1.owner.trans hown⟩
  | .ok (fd, fil) =>
    obtain ⟨hfd, hcount⟩ := hfree fd fil rfl
    refine .bind ((openNode_settles h1.nodes p absolute q).good h1) ?_
    rintro r s2 ⟨h2, hq2⟩
    match r with
    | .error r => exact .pure ⟨h2, (hq1.trans hq2).owner.trans hown⟩
    | .ok (vp, created) =>
      have hexists : After (checkOpen vp created q) s2 fun _ s' =>
          s'.Good own none (vp :: xs) ∧ Quiet s2 s' :=
        .ite (fun _ => .pure ⟨h2, .refl s2⟩) fun _ => (existsOpen_settles h2.nodes vp q).good h2
      refine .bind hexists ?_
      rintro r s3 ⟨h3, hq3⟩
      have hown3 : s3.owner = own := ((hq1.trans hq2).trans hq3).owner.trans hown
      refine .ite (fun _ => ?_) fun _ => ?_
      · exact .bind ((putVnode_settles h3.nodes).good h3) fun _ s4 h4 => .pure ⟨h4.1, h4.2.owner.trans hown3⟩
      · rw [← hq2.fds, ← hq3.fds] at hfd
        rw [← hq2.counts, ← hq3.counts] at hcount
        have hclaimed : Claimed p fd fil vp ((s3.setFd p fd (some fil)).modFilp fil fun f =>
            { f with count := 1, vno := some vp }) := by
          refine ⟨?_, ?_, ?_⟩
          · exact (congrFun (fds_of_fproc rfl rfl) (p, fd)).trans (update_self _ _ _)
          · rw [modFilp_self]
          · rw [modFilp_self]
        refine .bind (Q := fun _ s' => s'.Good own (some fil) xs ∧ Claimed p fd fil vp s' ∧ s'.owner = own)
          (.modify ⟨h3.claim hfd hcount, hclaimed, hown3⟩) ?_
        rintro _ s4 ⟨h4, hc4, hown4⟩
        refine .bind (openType_typed h4 hc4 hown4 hsusp) fun r s5 h5 => ?_
        refine .ite (fun hr => .pure ⟨h5.done (.inl hr), h5.owner⟩) fun hr =>
          .ite (fun hr' => .pure ⟨h5.done (.inr hr'), h5.owner⟩) fun hr' => ?_
        obtain ⟨h6, hc6⟩ := h5.failed hr hr'
        refine .bind (Q := fun _ s' => s'.Good own none (vp :: xs) ∧ (s'.filp fil).count = 0 ∧ s'.owner = own)
          (.modify ⟨h6.unclaim hc6.fd hc6.count hc6.vno, by rw [modFilp_self], h5.owner⟩) ?_
        rintro _ s7 ⟨h7, hc7, hown7⟩
        refine .bind ((putVnode_settles h7.nodes).good h7) ?_
        rintro _ s8 ⟨h8, hq8⟩
        refine .set (.pure ?_)
        -- the filp is not in use
        have hc8 : (s8.filp fil).count = 0 := (hq8.count fil).trans hc7
        have hq : Quiet s8 (s8.modFilp fil fun f => { f with vno := none }) := .modFilp rfl fun h0 => absurd hc8 h0
        exact ⟨hq.good h8 (h8.nodes.congr rfl hq.refs), (hq8.trans hq).owner.trans hown7⟩

/-! ## Close and duplicate -/

theorem putVnode_map {g : Tables → Tables} (hg : ∀ s, (g s).vnode = s.vnode)
    (hm : ∀ s v f, g (s.modVnode v f) = (g s).modVnode v f)
    {Q : Tables → Prop} (h : After (putVnode v) (g s) fun _ s' => Q s') :
    After (putVnode v) s fun _ s' => Q (g s') := by
  refine putVnode_after fun vp hvp => ?_
  rw [hm]
  refine h () _ ?_
  rw [putVnode_eq, hg, hvp]
  rfl

section

variable (h : s.Good own none xs)

include h

theorem Tables.Good.except (skip : Option FilpRef) : s.Good own skip xs :=
  ⟨h.nodes, h.files, h.mounts, fun x w _ => h.owned x w (some_ne_none x)⟩

/-- The counter of an open filp changes with a descriptor. -/
theorem Tables.Good.recount {fd' : Fd} {y : Option FilpRef} {g : Nat → Nat} {k : FprocSlot → FprocSlot}
    (hfd : s.fds (p, fd) = some x) (hg : g (s.filp x).count ≠ 0)
    (hk : (k (s.fproc p)).filp = update (s.fproc p).filp fd' y)
    (hd : ∀ d, (k (s.fproc p)).dir d = (s.fproc p).dir d)
    (hb : Balanced (update s.counts x (g (s.counts x))) (update s.fds (p, fd') y) []) :
    ((s.modFilp x fun f => { f with count := g f.count }).modFproc p k).Good own none xs := by
  have hpos : (s.filp x).count ≠ 0 := (Balanced.pos_of_held h.files hfd).ne'
  have ho : (s.modFilp x fun f => { f with count := g f.count }).openNode = update s.openNode x (s.openNode x) := by
    rw [openNode_modFilp, if_neg hg, Tables.openNode, if_neg hpos]
  have hrefs : Balanced s.refCounts (update s.refs (.inr (.inl x)) (s.openNode x)) xs := by
    rw [show s.openNode x = s.refs (.inr (.inl x)) from rfl, update_eq_self]
    exact h.nodes
  refine h.refile rfl rfl rfl (dir_of_fproc rfl hd) ho hrefs ?_ (fun y hy _ => hy) fun hx v hv ht =>
    h.owned x v hx hv ht
  rw [fds_of_fproc rfl hk]
  show Balanced (s.modFilp x fun f => { f with count := g f.count }).counts _ _
  rwa [counts_modFilp]

/-- A descriptor gives up its filp, which others still have. -/
theorem Tables.Good.release (hfd : s.fds (p, fd) = some x) (hc : (s.filp x).count ≠ 1) :
    ((s.setFd p fd none).modFilp x fun f => { f with count := f.count - 1 }).Good own none xs := by
  have hpos : (s.filp x).count ≠ 0 := (Balanced.pos_of_held h.files hfd).ne'
  exact h.recount (g := fun n => n - 1)
    (k := fun fp => { fp with filp := update fp.filp fd none, inuse := update fp.inuse fd false })
    hfd (by omega) rfl (fun d => by cases d <;> rfl) (Balanced.clear h.files hfd).put

/-- The filp of a descriptor is closed. The descriptor is cleared afterwards. -/
theorem closeFilp_good (hfd : s.fds (p, fd) = some x) :
    After (closeFilp x) s fun _ s' => (s'.setFd p fd none).Good own none xs ∧ s'.owner = s.owner := by
  unfold closeFilp
  refine .get (.set ?_)
  refine .ite (fun hc => ?_) fun hc => .pure ⟨h.release hfd hc, rfl⟩
  cases hv : (s.filp x).vno with
  | none => exact .crash
  | some v =>
    have hg : (((s.modFilp x fun f => { f with count := f.count - 1 })).setFd p fd none).Good own none (v :: xs) := by
      have hlast : (s.modFilp x fun f => { f with count := f.count - 1 }) = s.modFilp x fun f =>
        { f with count := 0 } := by
        simp only [Tables.modFilp, hc]
      rw [hlast]
      exact (h.except (some x)).unclaim hfd hc hv
    refine putVnode_map (g := fun s => s.setFd p fd none) (Q := fun s' => s'.Good own none xs ∧ s'.owner = s.owner)
      (fun _ => rfl)
      (fun _ _ _ => rfl) ?_
    exact ((putVnode_settles hg.nodes).good hg).mono fun _ _ h => ⟨h.1, h.2.owner⟩

theorem closeFd_good (p : ProcRef) (fd : Fd) : After (closeFd p fd) s fun _ s' => s'.Good own none xs ∧
    s'.owner = s.owner :=
    by
  unfold closeFd
  refine .bind (getFilp2_settles h.nodes p fd) ?_
  rintro r s1 ⟨hn1, hq1, hr⟩
  have h1 := hq1.good h hn1
  cases r with
  | none => exact .get (.pure ⟨h1, hq1.owner⟩)
  | some x =>
    refine .bind (closeFilp_good h1 hr.symm) ?_
    rintro _ s2 ⟨h2, ho2⟩
    exact .set (.pure ⟨h2, ho2.trans hq1.owner⟩)

theorem Tables.Good.dup {fd' : Fd} (hfd : s.fds (p, fd) = some x) (hfd' : s.fds (p, fd') = none) :
    ((s.modFilp x fun f => { f with count := f.count + 1 }).modFproc p fun fp =>
    { fp with filp := update fp.filp fd' (some x) }).Good own none xs :=
  h.recount hfd (Nat.succ_ne_zero _) rfl (fun d => by cases d <;> rfl) ((Balanced.dup h.files x).store hfd')

theorem dupFd_good (p : ProcRef) (fd : Fd) (addr : Nat) :
    After (dupFd p fd addr) s fun _ s' => s'.Good own none xs ∧ s'.owner = s.owner := by
  unfold dupFd
  refine .bind (getFilp2_settles h.nodes p fd) ?_
  rintro r s1 ⟨hn1, hq1, hr⟩
  have h1 := hq1.good h hn1
  cases r with
  | none => exact .get (.pure ⟨h1, hq1.owner⟩)
  | some x =>
    refine .ite (fun _ => .pure ⟨h1, hq1.owner⟩) fun _ => .bind (getFd_settles h1.nodes p addr false false) ?_
    rintro r s2 ⟨hn2, hq2, hfree⟩
    have h2 := hq2.good h1 hn2
    match r with
    | .error r => exact .pure ⟨h2, (hq1.trans hq2).owner⟩
    | .ok (newFd, y) =>
      have hx : s2.fds (p, fd) = some x := by rw [hq2.fds, hr]
      exact .set (.pure ⟨h2.dup hx (hfree newFd y rfl).1, (hq1.trans hq2).owner⟩)

end

/-! ## Directories -/

@[simp] theorem dir_setDir (fp : FprocSlot) (w : Option VnodeRef) (d d' : Dir) :
    (fp.setDir w d).dir d' = if d' = d then w else fp.dir d' := by
  cases d <;> cases d' <;> rfl

theorem refs_setDir (p : ProcRef) (d : Dir) (w : Option VnodeRef) :
    (s.modFproc p fun fp => fp.setDir w d).refs = update s.refs (.inl (p, d)) w := by
  funext h
  match h with
  | .inr (.inl x) => rw [update_of_ne (by simp)]; rfl
  | .inr (.inr (m, true)) => rw [update_of_ne (by simp)]; rfl
  | .inr (.inr (m, false)) => rw [update_of_ne (by simp)]; rfl
  | .inl (p', d') =>
    show (update s.fproc p _ p').dir d' = _
    by_cases hp : p' = p
    · subst hp
      rw [update_self, dir_setDir]
      by_cases hd : d' = d
      · rw [if_pos hd, hd, update_self]
      · rw [if_neg hd, update_of_ne (by simpa using hd), Tables.refs]
    · rw [update_of_ne hp, update_of_ne (by simp [hp]), Tables.refs]

theorem fds_setDir (p : ProcRef) (d : Dir) (w : Option VnodeRef) :
    (s.modFproc p fun fp => fp.setDir w d).fds = s.fds := by
  funext ⟨p', fd⟩
  show (update s.fproc p _ p').filp fd = _
  by_cases hp : p' = p
  · subst hp
    rw [update_self]
    cases d <;> rfl
  · rw [update_of_ne hp, Tables.fds]

theorem Tables.Good.setDir (h : s.Good own skip xs)
    (hn : (s.modFproc p fun fp => fp.setDir w d).NodesOk ys) :
    (s.modFproc p fun fp => fp.setDir w d).Good own skip ys := by
  refine ⟨hn, ?_, h.mounts.congr (fun _ _ _ => rfl) rfl rfl, h.owned⟩
  unfold FilesOk
  rw [fds_setDir]
  exact h.files

theorem putDir_good {old : VnodeRef} (h : s.Good own skip xs) (hd : (s.fproc p).dir d = some old) :
    After (putVnode old) s fun _ s' =>
      (s'.modFproc p fun fp => fp.setDir none d).Good own skip xs ∧ s'.vmnt = s.vmnt ∧ s'.rootFsE = s.rootFsE := by
  have hg : (s.modFproc p fun fp => fp.setDir none d).Good own skip (old :: xs) := by
    apply h.setDir
    unfold NodesOk
    rw [refs_setDir]
    exact Balanced.clear h.nodes hd
  refine putVnode_map (g := fun s => s.modFproc p fun fp => fp.setDir none d)
    (Q := fun s' => s'.Good own skip xs ∧ s'.vmnt = s.vmnt ∧ s'.rootFsE = s.rootFsE) (fun _ => rfl)
      (fun _ _ _ => rfl) ?_
  exact ((putVnode_settles hg.nodes).good hg).mono fun _ _ h => ⟨h.1, h.2.vmnt, h.2.rootFsE⟩

theorem Tables.Good.storeDir (h : (s.modFproc p fun fp => fp.setDir none d).Good own skip (v :: xs)) :
    (s.modFproc p fun fp => fp.setDir (some v) d).Good own skip xs := by
  have htwice : (s.modFproc p fun fp => fp.setDir none d).modFproc p (fun fp => fp.setDir (some v) d) =
      s.modFproc p fun fp => fp.setDir (some v) d := by
    unfold Tables.modFproc
    dsimp only
    rw [update_idem, update_self]
    congr 2
    cases d <;> rfl
  rw [← htwice]
  apply h.setDir
  unfold NodesOk
  have hnone : (s.modFproc p fun fp => fp.setDir none d).refs (.inl (p, d)) = none := by
    rw [refs_setDir, update_self]
  rw [refs_setDir]
  exact Balanced.store h.nodes hnone

theorem change_good (h : s.Good own none xs) (p : ProcRef) (d : Dir) (name : Int) (res : Except Int NodeDetails)
    (forbidden : Int) :
    After (change p d name res forbidden) s fun _ s' => s'.Good own none xs ∧ s'.owner = s.owner := by
  unfold change
  refine .ite (fun _ => .pure ⟨h, rfl⟩) fun _ => .bind ((lookupVp_settles h.nodes p res).good h) ?_
  rintro r s1 ⟨h1, hq1⟩
  cases r with
  | error r => exact .pure ⟨h1, hq1.owner⟩
  | ok vp =>
    have hput (r : Int) : After (do putVnode vp; return r) s1 fun _ s' => s'.Good own none xs ∧ s'.owner = s.owner :=
      .bind ((putVnode_settles h1.nodes).good h1) fun _ s2 h2 => .pure ⟨h2.1, (hq1.trans h2.2).owner⟩
    refine .get (.ite (fun _ => hput _) fun _ => .ite (fun _ => hput _) fun _ => ?_)
    cases hd : (s1.fproc p).dir d with
    | none => exact .crash
    | some old =>
      refine .bind (putDir_good h1 hd) ?_
      rintro _ s2 ⟨h2, hm2, he2⟩
      exact .set (.pure ⟨h2.storeDir, (owner_congr hm2 he2).trans hq1.owner⟩)

/-- `read_write` changes no table. -/
theorem readWrite_good (h : s.Good own none xs) (p : ProcRef) (fd : Fd) :
    After (readWrite p fd) s fun _ s' => s'.Good own none xs ∧ s'.owner = s.owner := by
  unfold readWrite
  refine .bind (getFilp2_settles h.nodes p fd) ?_
  rintro r s1 ⟨hn1, hq1, hr⟩
  have h1 := hq1.good h hn1
  cases r with
  | none => exact .get (.pure ⟨h1, hq1.owner⟩)
  | some x =>
    refine .get ?_
    split
    · exact .ite (fun _ => .crash) fun _ => .pure ⟨h1, hq1.owner⟩
    · exact .pure ⟨h1, hq1.owner⟩

end Minix.Vfs
