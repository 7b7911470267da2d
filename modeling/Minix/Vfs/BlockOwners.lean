import Minix.Lib.Run
import Minix.Vfs.Owners

/-!
# Owners of block devices

`blockOwners_of_run`: in every run in which no owner of a device changes while its block special files are open, but for
a mount with one such file, every open block special file has the owner of its device in `v_bfs_e`, and all requests for
blocks go to the owner. Whether owners change is said about the tables before each request (`MountOk`, `UmountOk`).

Otherwise this fails (`blockOwners_fail`): `unmount` compares `v_bfs_e` with the field `m_fs_e` that it has just set to
`NONE`, and so moves no file back to the root file server, and `mount_fs` moves only the first vnode with the device
number, and none if the root is replaced.
-/

namespace Minix.Vfs

open Minix.Lib Tables Function List

variable {s s' s0 : Tables} {own : Dev → Int} {xs : List VnodeRef} {v : VnodeRef} {m : VmntRef} {dev : Dev}

/-! ## Unmount -/

/-- A node of a mount is given back. The entry is cleared afterwards. -/
theorem Tables.Good.putNode {f : VmntSlot → VmntSlot} {b : Bool} (h : s.Good own none xs)
    (hv : s.refs (.inr (.inr (m, b))) = some v) (hrefs : (s.modVmnt m f).refs = update s.refs (.inr (.inr (m, b))) none)
    (hdev : (f (s.vmnt m)).dev = (s.vmnt m).dev) (hfs : (f (s.vmnt m)).fsE = (s.vmnt m).fsE)
    (hroot : ∀ w, (f (s.vmnt m)).rootNode = some w → (s.vmnt m).rootNode = some w)
    (hon : ∀ w, (f (s.vmnt m)).mountedOn = some w → (s.vmnt m).mountedOn = some w) : After (putVnode v) s fun _ s' =>
      (s'.modVmnt m f).Good own none xs ∧ (s'.modVmnt m f).vmnt = update s.vmnt m (f (s.vmnt m)) ∧
        s'.rootFsE = s.rootFsE ∧
        s'.refCounts = update s.refCounts v (s.refCounts v - 1) := by
  have hg : (s.modVmnt m f).Good own none (v :: xs) := by
    refine ⟨?_, h.files, h.mounts.modVmnt ?_ ?_ ?_, h.owned⟩
    · show Balanced s.refCounts (s.modVmnt m f).refs (v :: xs)
      rw [hrefs]
      exact Balanced.clear h.nodes hv
    · intro w hw
      rw [hdev]
      exact h.mounts.root m w (hroot w hw)
    · rw [hdev]
      intro h0
      obtain ⟨h1, h2⟩ := h.mounts.free m h0
      constructor
      · cases hw : (f (s.vmnt m)).rootNode with
        | none => rfl
        | some w => rw [hroot w hw] at h1; cases h1
      · cases hw : (f (s.vmnt m)).mountedOn with
        | none => rfl
        | some w => rw [hon w hw] at h2; cases h2
    · rw [hdev, hfs]
      exact h.mounts.serving m
  have hput : After (putVnode v) s fun _ s' => (s'.modVmnt m f).Good own none xs :=
    putVnode_map (g := fun s => s.modVmnt m f) (fun _ => rfl) (fun _ _ _ => rfl)
      (((putVnode_settles hg.nodes).good hg).mono fun _ _ h => h.1)
  refine ((hput.and (putVnode_tables s v)).and (putVnode_spec s v)).mono ?_
  rintro _ s1 ⟨⟨h1, hm1, he1, -⟩, hc1, -⟩
  refine ⟨h1, ?_, he1, hc1⟩
  rw [Tables.modVmnt, hm1]

theorem putMountPoint_good (h : s.Good own none xs) (m : VmntRef) : After (putMountPoint m) s fun _ s' =>
    s'.Good own none xs ∧ s'.vmnt = update s.vmnt m { s.vmnt m with mountedOn := none } ∧ s'.rootFsE = s.rootFsE ∧
      ∀ w, s'.refCounts w ≤ s.refCounts w := by
  unfold putMountPoint
  refine .get ?_
  cases hv : (s.vmnt m).mountedOn with
  | none =>
    refine .pure ⟨h, ?_, rfl, fun _ => le_rfl⟩
    rw [← hv]
    exact (update_eq_self m s.vmnt).symm
  | some v =>
    have hrefs : (s.modVmnt m fun x => { x with mountedOn := none }).refs =
      update s.refs (.inr (.inr (m, false))) none := by
      rw [refs_modVmnt]
      congr 1
      exact update_eq_self (.inr (.inr (m, true))) s.refs
    refine .bind (h.putNode (m := m) (b := false) hv hrefs rfl rfl (fun _ hw => hw) fun _ hw => nomatch hw) ?_
    rintro _ s1 ⟨h1, hm1, he1, hc1⟩
    have hsame : (s1.modVnode v fun vp => { vp with fsCount := vp.fsCount - 1 }).refCounts = s1.refCounts := by
      rw [refCounts_modVnode]
      exact update_eq_self v s1.refCounts
    refine .set (.modify ⟨?_, hm1, he1, fun w => ?_⟩)
    · have hq : Quiet (s1.modVmnt m fun x => { x with mountedOn := none })
        ((s1.modVmnt m fun x => { x with mountedOn := none }).modVnode v
          fun vp => { vp with fsCount := vp.fsCount - 1 }) := .modVnode (.inr ⟨rfl, rfl, rfl, rfl⟩)
      exact hq.good h1 (h1.nodes.congr hsame hq.refs)
    · refine (congrFun hsame w).trans_le ?_
      rw [hc1]
      by_cases hw : w = v
      · rw [hw, update_self]
        omega
      · rw [update_of_ne hw]

/-- The references to the vnodes of a device. -/
theorem Tables.refCount_le_useCount (h : (s.vnode v).dev = dev) : s.refCounts v ≤ s.useCount dev := by
  unfold useCount
  have hmem : s.refCounts v ∈ (finRange 512).map fun v =>
      if (s.vnode v).dev = dev then (s.vnode v).refCount else 0 := by
    refine mem_map.mpr ⟨v, mem_finRange v, ?_⟩
    rw [if_pos h]
    rfl
  exact le_sum_of_mem hmem

/-- A round of the last loop of `unmount` moves no open block special file. -/
theorem Tables.Good.moveBack (h : s.Good own none xs) (hown : ∀ d, own d ≠ NONE) (hm : (s.vmnt m).fsE = NONE)
    (driver : Bool) (v : VnodeRef) :
    (s.moveBack m driver v).Good own none xs ∧ (s.moveBack m driver v).vmnt = s.vmnt ∧
    (s.moveBack m driver v).rootFsE = s.rootFsE := by
  unfold Tables.moveBack
  split
  case isFalse => exact ⟨h, rfl, rfl⟩
  next hc =>
  refine ⟨?_, rfl, rfl⟩
  have hnode (w : VnodeRef) : (s.modVnode v fun vp => { vp with bfsE := s.rootFsE }).vnode w =
      if w = v then { s.vnode v with bfsE := s.rootFsE } else s.vnode w := update_apply _ _ _ _
  refine ⟨h.nodes.congr ?_ rfl, h.files, h.mounts.congr (fun _ w _ => ?_) rfl rfl, fun x w hx ho ht => ?_⟩
  · rw [refCounts_modVnode]
    exact update_eq_self v s.refCounts
  · rw [hnode]
    split
    next hw => rw [hw]
    · rfl
  · have hwv : w ≠ v := by
      rintro rfl
      have := h.owned x w hx ho hc.1
      rw [hc.2.1, hm] at this
      exact hown _ this.symm
    rw [hnode, if_neg hwv] at ht ⊢
    exact h.owned x w hx ho ht

theorem Tables.Good.moveAllBack (driver : Bool) (hown : ∀ d, own d ≠ NONE) :
    ∀ (l : List VnodeRef) {s : Tables}, s.Good own none xs → (s.vmnt m).fsE = NONE →
      (l.foldl (fun s v => s.moveBack m driver v) s).Good own none xs ∧
        (l.foldl (fun s v => s.moveBack m driver v) s).vmnt = s.vmnt ∧
        (l.foldl (fun s v => s.moveBack m driver v) s).rootFsE = s.rootFsE
  | [], _, h, _ => ⟨h, rfl, rfl⟩
  | v :: l, s, h, hm => by
    obtain ⟨h1, hm1, he1⟩ := h.moveBack hown hm driver v
    obtain ⟨h2, hm2, he2⟩ := moveAllBack driver hown l h1 (by rw [hm1]; exact hm)
    exact ⟨h2, hm2.trans hm1, he2.trans he1⟩

theorem putRoot_good {rootNode : VnodeRef} (h : s.Good own none xs) (hr : (s.vmnt m).rootNode = some rootNode)
    (hc : s.refCounts rootNode ≤ 1) : After (putRoot m rootNode) s fun _ s' => s'.Good own none xs ∧
      s'.vmnt = update s.vmnt m { s.vmnt m with rootNode := none } ∧ s'.rootFsE = s.rootFsE := by
  have hrefs : (s.modVmnt m fun x => { x with rootNode := none }).refs =
    update s.refs (.inr (.inr (m, true))) none := by
    rw [refs_modVmnt, update_eq_self_iff, update_of_ne (by simp)]
    rfl
  refine .bind (h.putNode (m := m) (b := true) hr hrefs rfl rfl (fun _ hw => nomatch hw) fun _ hw => hw) ?_
  rintro _ s1 ⟨h1, hm1, he1, hc1⟩
  refine .modify ⟨?_, hm1, he1⟩
  -- the counter is 0 already
  have h0 : (s1.vnode rootNode).refCount = 0 := by
    have := congrFun hc1 rootNode
    rw [update_self] at this
    show s1.refCounts rootNode = 0
    omega
  have hsame : s1.modVnode rootNode (fun vp => { vp with refCount := 0 }) = s1 := by
    have hvp : (fun vp : VnodeSlot => { vp with refCount := 0 }) (s1.vnode rootNode) = s1.vnode rootNode := by
      show { s1.vnode rootNode with refCount := 0 } = _
      rw [← h0]
    unfold Tables.modVnode
    rw [hvp, update_eq_self]
  rw [hsame]
  exact h1

theorem Tables.slot_unique (h : ((finRange 8).filter fun m => (s.vmnt m).dev = dev) = [m]) (k : VmntRef) :
    (s.vmnt k).dev = dev ↔ k = m := by
  have hk : k ∈ [m] ↔ (s.vmnt k).dev = dev := by
    rw [← h, mem_filter]
    simp
  rw [← hk, mem_singleton]

/-- The owners after the only slot with a device was freed. -/
theorem Tables.owner_unmounted {x : VmntSlot} (hunique : ∀ k, (s.vmnt k).dev = dev ↔ k = m) (hd : dev ≠ NO_DEV)
    (hvm : s'.vmnt = update s.vmnt m x) (hx : x.dev = NO_DEV) (hroot : s'.rootFsE = s.rootFsE) (d : Dev) :
    s'.owner d = if d = dev then s.rootFsE else s.owner d := by
  split
  next hdd =>
    have hnone : s'.vmntOf d = none := by
      refine find?_eq_none.mpr fun k _ hk => ?_
      rw [decide_eq_true_eq, hvm, update_apply, hdd] at hk
      split at hk
      · exact hd (hk.symm.trans hx)
      next hkm => exact hkm ((hunique k).mp hk)
    rw [owner, if_neg (hdd ▸ hd), hnone, Option.elim_none, hroot]
  next hdd =>
    by_cases h0 : d = NO_DEV
    · rw [owner, owner, if_pos h0, if_pos h0, hroot]
    · refine owner_of_other hvm hroot ?_ (by rw [hx]; exact Ne.symm h0)
      rw [(hunique m).mpr rfl]
      exact Ne.symm hdd

/-- The slot of the mount is free, and the files are moved back. -/
theorem Tables.Good.freeSlot {slot : VmntSlot} (h : s.Good own none xs) (hown : ∀ d, own d ≠ NONE) (driver : Bool)
    (hslot : s.vmnt m = { slot with mountedOn := none, rootNode := none }) :
    let s' := (finRange 512).foldl (fun s v => s.moveBack m driver v)
      (s.modVmnt m fun x => { x with dev := NO_DEV, fsE := NONE })
    s'.Good own none xs ∧ s'.rootFsE = s.rootFsE ∧
      s'.vmnt = update s.vmnt m { slot with mountedOn := none, rootNode := none, dev := NO_DEV, fsE := NONE } := by
  have hm4 : (s.modVmnt m fun x => { x with dev := NO_DEV, fsE := NONE }).vmnt =
      update s.vmnt m { slot with mountedOn := none, rootNode := none, dev := NO_DEV, fsE := NONE } := by
    show update s.vmnt m _ = _
    rw [hslot]
  have h4 : (s.modVmnt m fun x => { x with dev := NO_DEV, fsE := NONE }).Good own none xs := by
    refine ⟨h.nodes.congr rfl (refs_modVmnt_same rfl rfl), h.files, h.mounts.modVmnt ?_ ?_ (absurd rfl), h.owned⟩
    · rw [hslot]
      exact fun _ hv => nomatch hv
    · rw [hslot]
      exact fun _ => ⟨rfl, rfl⟩
  obtain ⟨h5, hm5, he5⟩ := h4.moveAllBack driver hown (finRange 512) (by rw [hm4, update_self])
  exact ⟨h5, he5, hm5.trans hm4⟩

/-- The device is not mounted any more, and all its files belong to the root file server. -/
theorem unmount_inv (hq : Quiet s0 s) (hs0 : s0.MountsOk) (h : s.Good s0.owner none xs) (hd : dev ≠ NO_DEV)
    (driver : Bool)
    (hok : s.useCount dev ≤ 1 → ∀ x v, s0.openNode x = some v → (s0.vnode v).type = .blockSpecial →
    (s0.vnode v).sdev = dev →
      s0.owner dev = s0.rootFsE) : After (unmount dev driver) s fun _ s' => s'.Inv := by
  unfold unmount
  refine .get ?_
  split
  · exact .pure (h.inv hq.owner)
  · exact .crash
  next m hm =>
  have hunique := slot_unique hm
  refine .ite (fun _ => .pure (h.inv hq.owner)) fun huse => ?_
  let own' : Dev → Int := fun d => if d = dev then s0.rootFsE else s0.owner d
  have hown' (d : Dev) : own' d ≠ NONE := by
    dsimp only [own']
    split
    · exact hs0.rootServing
    · exact hs0.owner_ne d
  replace h : s.Good own' none xs := by
    refine h.reown fun x v ho ht => ?_
    have ho0 : s0.openNode x = some v := hq.openNode ▸ ho
    have hsn : SameNode (s0.vnode v) (s.vnode v) := hq.held (.inr (.inl x)) v ho0
    rw [hsn.type] at ht
    rw [hsn.sdev]
    dsimp only [own']
    split
    next hdd => rw [hdd, hok (by omega) x v ho0 ht hdd]
    · rfl
  cases hr : (s.vmnt m).rootNode with
  | none => exact .crash
  | some rootNode =>
    have hle : s.refCounts rootNode ≤ 1 := by
      have := refCount_le_useCount (h.mounts.root m rootNode hr)
      rw [(hunique m).mpr rfl] at this
      omega
    have hclean : After (vnodeCleanRefs rootNode) s fun _ s' => s'.refCounts = s.refCounts := by
      refine .modify ?_
      rw [refCounts_modVnode, update_eq_self_iff]
      split <;> rfl
    refine .bind (((vnodeCleanRefs_settles h.nodes rootNode).good h).and hclean) ?_
    rintro _ s1 ⟨⟨h1, hq1⟩, hc1⟩
    refine .bind (putMountPoint_good h1 m) ?_
    rintro _ s2 ⟨h2, hm2, he2, hc2⟩
    have hslot2 : s2.vmnt m = { s.vmnt m with mountedOn := none } := by rw [hm2, update_self, hq1.vmnt]
    have hr2 : (s2.vmnt m).rootNode = some rootNode := by rw [hslot2]; exact hr
    have hle2 : s2.refCounts rootNode ≤ 1 := by
      have := hc2 rootNode
      rw [hc1] at this
      omega
    refine .bind (putRoot_good h2 hr2 hle2) ?_
    rintro _ s3 ⟨h3, hm3, he3⟩
    have hslot3 : s3.vmnt m = { s.vmnt m with mountedOn := none, rootNode := none } := by
      rw [hm3, update_self, hslot2]
    refine .get (.ite (fun _ => .crash) fun _ => .set (.set (.pure ?_)))
    obtain ⟨h5, he5, hm5⟩ := h3.freeSlot hown' driver hslot3
    generalize (finRange 512).foldl (fun s v => s.moveBack m driver v)
      (s3.modVmnt m fun x => { x with dev := NO_DEV, fsE := NONE }) = s5 at h5 hm5 he5 ⊢
    rw [hm3, hm2, hq1.vmnt, update_idem, update_idem] at hm5
    refine ⟨xs, (funext fun d => ?_ : s5.owner = own') ▸ h5⟩
    rw [owner_unmounted hunique hd hm5 rfl ((he5.trans he3).trans (he2.trans hq1.rootFsE)), hq.owner, hq.rootFsE]

/-- The request for an unmount is refused, or no owner of an open block special file changes. -/
def Tables.UmountOk (s : Tables) (p : ProcRef) (name : Int) (special : Except Int NodeDetails) : Prop :=
  (s.fproc p).superUser = true ∧ name = OK ∧ s.device special ≠ NO_DEV ∧ s.useCount (s.device special) ≤ 1 →
    ∀ x, ∀ v ∈ s.openNode x, (s.vnode v).type = .blockSpecial → (s.vnode v).sdev = s.device special →
      s.owner (s.device special) = s.rootFsE

/-- `do_umount` keeps the owners right. -/
theorem doUmount_inv (h : s.Good s.owner none xs) (p : ProcRef) (name : Int) (special : Except Int NodeDetails)
    (driver : Bool)
    (hok : s.UmountOk p name special) : After (doUmount p name special driver) s fun _ s' => s'.Inv := by
  unfold doUmount
  refine .get (.ite (fun _ => .pure ⟨xs, h⟩) fun hp => .ite (fun _ => .pure ⟨xs, h⟩) fun hname => ?_)
  refine .bind (nameToDev_spec h p special) ?_
  rintro dev s1 ⟨h1, hq1, hk1, hdev⟩
  refine .get (.ite (fun _ => .pure (h1.inv hq1.owner)) fun hd => ?_)
  obtain rfl := hdev.resolve_left hd
  refine unmount_inv hq1 h.mounts h1 hd driver fun huse x v => ?_
  rw [hk1.useCount] at huse
  exact hok ⟨by simpa using hp, not_not.mp hname, hd, huse⟩ x v

/-! ## Runs -/

namespace Tables

/-- The driver of a block device answers when it is opened. A mount or unmount leaves the open block special files with
the owners of their devices. -/
def StepOk (s : Tables) : TabOp → Prop
  | .opened _ _ q => q.blockOpen ≠ SUSPEND
  | .mount p fsE a => s.MountOk p fsE a
  | .fslogin whoE a => s.mountMIn.fsE = whoE → MountOk { s with lastLoginFsE := whoE } s.mountMIn.source whoE a
  | .umount p name special _ => s.UmountOk p name special
  | _ => True

instance (s : Tables) (fsE : Int) (a : MountAns) (v : VnodeRef) : Decidable (s.MovedBy fsE a v) :=
  inferInstanceAs (Decidable (_ ∨ _))

/-- The open block special files are finitely many. -/
instance (s : Tables) (P : VnodeRef → Prop) [DecidablePred P] :
    Decidable (∀ x, ∀ v ∈ s.openNode x, (s.vnode v).type = .blockSpecial → P v) :=
  have (x : FilpRef) : Decidable (∀ v ∈ s.openNode x, (s.vnode v).type = .blockSpecial → P v) :=
    Option.decidableForallMem _
  Nat.decidableForallFin _

instance (s : Tables) (p : ProcRef) (fsE : Int) (a : MountAns) : Decidable (s.MountOk p fsE a) :=
  have : Decidable (s.Mounts p fsE a) := inferInstanceAs (Decidable (_ ∧ _))
  inferInstanceAs (Decidable (_ → _))

instance (s : Tables) (p : ProcRef) (name : Int) (special : Except Int NodeDetails) :
    Decidable (s.UmountOk p name special) :=
  inferInstanceAs (Decidable (_ → _))

instance (s : Tables) (o : TabOp) : Decidable (s.StepOk o) :=
  match o with
  | .opened _ _ q => inferInstanceAs (Decidable (q.blockOpen ≠ SUSPEND))
  | .mount p fsE a => inferInstanceAs (Decidable (s.MountOk p fsE a))
  | .fslogin whoE a => inferInstanceAs (Decidable (s.mountMIn.fsE = whoE → MountOk _ s.mountMIn.source whoE a))
  | .umount p name special _ => inferInstanceAs (Decidable (s.UmountOk p name special))
  | .close _ _ | .dup _ _ _ | .change _ _ _ _ _ | .stat _ _ | .readWrite _ _ => isTrue trivial

/-- A request keeps the owners right. -/
theorem step_inv (hs : s.Inv) {o : TabOp} (hok : s.StepOk o) (h : s.step o = some s') : s'.Inv := by
  obtain ⟨xs, hs⟩ := hs
  obtain ⟨⟨a, t⟩, hx, rfl⟩ := Option.map_eq_some_iff.mp h
  have hfile (hx : t.Good s.owner none xs ∧ t.owner = s.owner) : t.Inv := hx.1.inv hx.2
  cases o with
  | opened p absolute q => exact hfile (commonOpen_good hs p absolute hok a t hx)
  | close p fd => exact hfile (closeFd_good hs p fd a t hx)
  | dup p fd addr => exact hfile (dupFd_good hs p fd addr a t hx)
  | change p d name res forbidden => exact hfile (change_good hs p d name res forbidden a t hx)
  | stat p res =>
    obtain ⟨h1, hq⟩ := (statPath_settles hs.nodes p res).good hs a t hx
    exact hfile ⟨h1, hq.owner⟩
  | readWrite p fd => exact hfile (readWrite_good hs p fd a t hx)
  | mount p fsE ans => exact doMount_inv hs p fsE ans hok a t hx
  | fslogin whoE ans => exact doFslogin_inv hs whoE ans hok a t hx
  | umount p name special driver => exact doUmount_inv hs p name special driver hok a t hx

theorem refs_start (live superUser : ProcRef → Bool) (h : Holder) : (start live superUser).refs h =
    match h with
    | .inl (p, _) => if live p = true then some 0 else none
    | .inr (.inl _) => none
    | .inr (.inr (m, b)) => if m = 0 ∧ b = true then some 0 else none := by
  match h with
  | .inl (p, d) =>
    show ((start live superUser).fproc p).dir d = _
    unfold start
    dsimp only
    cases d <;> split <;> rfl
  | .inr (.inl x) => rfl
  | .inr (.inr (m, true)) =>
    show ((start live superUser).vmnt m).rootNode = _
    unfold start
    dsimp only
    split <;> simp_all
  | .inr (.inr (m, false)) =>
    show ((start live superUser).vmnt m).mountedOn = _
    unfold start
    dsimp only
    split <;> simp

theorem held_start (live superUser : ProcRef → Bool) (v : VnodeRef) :
    held (start live superUser).refs v = if v = 0 then 1 +
    2 * (Finset.univ.filter fun p => live p = true).card else 0 := by
  have hdirs (p : ProcRef) (d : Dir) : (if (start live superUser).refs (.inl (p, d)) = some v then 1 else 0) =
      if v = 0 ∧ live p = true then 1 else 0 := by
    rw [refs_start]
    by_cases hp : live p = true <;> simp [hp, eq_comm]
  have hslots (m : VmntRef) (b : Bool) : (if (start live superUser).refs (.inr (.inr (m, b))) = some v then 1 else 0) =
      if v = 0 ∧ m = 0 ∧ b = true then 1 else 0 := by
    rw [refs_start]
    by_cases hm : m = 0 ∧ b = true <;> simp [hm, eq_comm]
  unfold held
  rw [Finset.card_filter, Fintype.sum_sum_type, Fintype.sum_sum_type, Fintype.sum_prod_type, Fintype.sum_prod_type]
  simp only [hdirs, hslots]
  by_cases hv : v = 0
  · have hdir : (Finset.univ : Finset Dir).card = 2 := by decide
    have hslot : (∑ m : VmntRef, ∑ b : Bool, if m = 0 ∧ b = true then 1 else 0) = 1 := by decide
    have hfile : (∑ x : FilpRef, if (start live superUser).refs (.inr (.inl x)) = some v then 1 else 0) = 0 := by
      simp [refs_start]
    rw [hfile]
    simp only [hslot, hv, true_and, if_true, Finset.sum_const, hdir, smul_eq_mul]
    rw [← Finset.mul_sum, Finset.sum_boole, Nat.cast_id]
    omega
  · simp [hv, refs_start]

theorem start_inv (live superUser : ProcRef → Bool) : (start live superUser).Inv := by
  refine ⟨[], fun v => ?_, fun x => ?_, ?_, fun x v _ ho => ?_⟩
  · rw [held_start]
    unfold refCounts start
    dsimp only
    split <;> rfl
  · have hnone : (start live superUser).fds = fun _ => none := by
      funext y
      unfold Tables.fds start
      dsimp only
      split <;> rfl
    rw [hnone]
    simp [held, counts, start]
  · refine ⟨fun m v hv => ?_, fun m hm => ?_, fun m hm => ?_, (by decide : (7 : Int) ≠ NONE)⟩
    · unfold start at hv ⊢
      dsimp only at hv ⊢
      split at hv
      next hm =>
        cases hv
        rw [if_pos rfl, if_pos hm]
      · cases hv
    · unfold start at hm ⊢
      dsimp only at hm ⊢
      split at hm
      · exact absurd hm (by decide)
      next h => rw [if_neg h]; exact ⟨rfl, rfl⟩
    · unfold start at hm ⊢
      dsimp only at hm ⊢
      split at hm
      next h => rw [if_pos h]; decide
      · exact absurd rfl hm
  · cases ho

/-- In every run whose steps meet the condition, every open block special file has the owner of its device, and the
requests for blocks go to the owners. -/
theorem blockOwners_of_run {live superUser : ProcRef → Bool} {os : List TabOp}
    (hok : AllOk step StepOk os (start live superUser))
    (hr : run step os (start live superUser) = some s) :
    (∀ x v, s.openNode x = some v → (s.vnode v).type = .blockSpecial → (s.vnode v).bfsE = s.owner (s.vnode v).sdev) ∧
      ∀ p fd e dev, s.blockRequest p fd = some (e, dev) → e = s.owner dev := by
  obtain ⟨xs, hs⟩ : s.Inv := run_invariant (fun _ _ _ h ho hs => step_inv h ho hs) (start_inv live superUser) hok hr
  have howned (x : FilpRef) (v : VnodeRef) := hs.owned x v (Option.some_ne_none x)
  refine ⟨howned, fun p fd e dev hreq => ?_⟩
  obtain ⟨x, hx, hreq⟩ := Option.bind_eq_some_iff.mp hreq
  obtain ⟨v, hv, hreq⟩ := Option.bind_eq_some_iff.mp hreq
  have hpos : (s.filp x).count ≠ 0 := (Balanced.pos_of_held hs.files (show s.fds (p, fd) = some x from hx)).ne'
  split at hreq
  next ht =>
    cases hreq
    exact howned x v (openNode_eq_some.mpr ⟨hpos, hv⟩) ht
  · cases hreq

/-! ## Samples -/

/-- Two special files in the root file system, for the same device. -/
def disk : NodeDetails := { fsE := 7, inodeNr := 5, fmode := .blockSpecial, dev := 0x0301 }

def disk' : NodeDetails := { disk with inodeNr := 6 }

/-- A disk is opened, and the only process of the sample opens it. -/
def openDisk (d : NodeDetails) : TabOp :=
  .opened 10 true { rBit := true, wBit := true, lookup := .ok d }

/-- The file server 30 logs in, and the disk is mounted. -/
def mountDisk : List TabOp :=
  let a : MountAns :=
    { special := .ok disk, point := .ok { fsE := 7, inodeNr := 9, fmode := .directory },
      readsuper := .ok (1, .directory) }
  [.fslogin 30 a, .mount 10 30 a]

def sample : Tables := start (fun p => p == 10) fun p => p == 10

theorem blockOwners_of_run_mounted : ∃ s, run step (openDisk disk :: mountDisk) sample = some s ∧
    s.blockRequest 10 0 = some (30, 0x0301) ∧
      ((∀ x v, s.openNode x = some v → (s.vnode v).type = .blockSpecial → (s.vnode v).bfsE = s.owner (s.vnode v).sdev) ∧
        ∀ p fd e dev, s.blockRequest p fd = some (e, dev) → e = s.owner dev) := by
  obtain ⟨s, hr, hs⟩ : ∃ s, run step (openDisk disk :: mountDisk) sample = some s ∧
      s.blockRequest 10 0 = some (30, 0x0301) := by decide +kernel
  refine ⟨s, hr, hs, blockOwners_of_run ?_ hr⟩
  decide +kernel

/-- (1) A disk is open when it is mounted and unmounted: its requests go to the file server that was unmounted. (2) Two
special files of a disk are open when it is mounted: the requests of the second one go to the root file server. -/
theorem blockOwners_fail :
    (∃ s, run step (openDisk disk :: mountDisk ++ [.umount 10 OK (.ok disk) true]) sample = some s ∧
    s.vmntOf 0x0301 = none ∧
      s.owner 0x0301 = 7 ∧ s.blockRequest 10 0 = some (30, 0x0301)) ∧
    ∃ s, run step (openDisk disk :: openDisk disk' :: mountDisk) sample = some s ∧ s.owner 0x0301 = 30 ∧
      s.blockRequest 10 0 = some (30, 0x0301) ∧ s.blockRequest 10 1 = some (7, 0x0301) := by
  constructor <;> decide +kernel

end Tables

end Minix.Vfs
