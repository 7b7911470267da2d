import Minix.Vfs.Files

/-!
# Mounts and the owners of block devices

What `mount_fs` leaves in the tables, on every path (`doMount_inv`, `doFslogin_inv`): the reference counts stay right,
and every open block special file has the owner of its device, if the files that should be moved to the new file server
are the one that is moved (`MountOk`).

The old owners are carried through the whole call (`Good s.owner`) and are replaced by the new ones only at its end.
-/

namespace Minix.Vfs

open Minix.Lib Tables Function Option

variable {s s' s0 s₁ : Tables} {own : Dev → Int} {xs : List VnodeRef} {v : VnodeRef} {dev : Dev} {x : VmntSlot}
  {f : VmntSlot → VmntSlot} {fsE : Int}

namespace Tables

/-- The invariant. -/
def Inv (s : Tables) : Prop := ∃ xs, s.Good s.owner none xs

theorem Good.inv (h : s'.Good s.owner none xs) (ho : s'.owner = s.owner) : s'.Inv := ⟨xs, ho ▸ h⟩

/-- Other owners, which are the same for the devices of the open block special files. -/
theorem Good.reown {own' : Dev → Int} (h : s.Good own none xs) (ho : ∀ x v, s.openNode x = some v →
    (s.vnode v).type = .blockSpecial → own' (s.vnode v).sdev = own (s.vnode v).sdev) : s.Good own' none xs :=
  ⟨h.nodes, h.files, h.mounts, fun x v hx hv ht => (h.owned x v hx hv ht).trans (ho x v hv ht).symm⟩

/-! ## Conditions -/

/-- The type and the device number of a file that a file server has found: those of its vnode, if there is one. -/
def special (s : Tables) (d : NodeDetails) : FileType × Dev :=
  (s.findVnode d.fsE d.inodeNr).elim (d.fmode, d.dev) fun v => ((s.vnode v).type, (s.vnode v).sdev)

/-- The device of a block special file. -/
def device (s : Tables) : Except Int NodeDetails → Dev
  | .error _ => NO_DEV
  | .ok d => if (s.special d).1 = .blockSpecial then (s.special d).2 else NO_DEV

/-- The root file system is replaced by a mount. -/
def replacesRoot (s : Tables) (a : MountAns) : Bool := a.isroot && s.allowNewroot

/-- A request for a mount is not refused: the caller and the file server may mount, the device is known and not mounted
yet, and the file servers and the driver answer. -/
def Mounts (s : Tables) (p : ProcRef) (fsE : Int) (a : MountAns) : Prop :=
  (s.fproc p).superUser = true ∧ s.lastLoginFsE = fsE ∧ a.name1 = OK ∧ a.name2 = OK ∧ s.device a.special ≠ NO_DEV ∧
    s.vmntOf (s.device a.special) = none ∧ a.driver = true ∧ (a.reqReadsuper fsE).isOk = true ∧
    (s.replacesRoot a = true ∨ a.mountpoint = OK)

/-- The open block special file `v` has the right owner after the mount: the new file server is the old root file
server, or the owner of its device does not change, or it is the file that is moved. -/
def MovedBy (s : Tables) (fsE : Int) (a : MountAns) (v : VnodeRef) : Prop :=
  fsE = s.rootFsE ∨
    if s.replacesRoot a = true then (s.vnode v).sdev ≠ NO_DEV ∧ s.vmntOf (s.vnode v).sdev ≠ none
    else (s.vnode v).sdev = s.device a.special → s.bspec (s.vnode v).sdev = some v

/-- If the request is not refused, all open block special files get the right owner. -/
def MountOk (s : Tables) (p : ProcRef) (fsE : Int) (a : MountAns) : Prop :=
  s.Mounts p fsE a → ∀ x, ∀ v ∈ s.openNode x, (s.vnode v).type = .blockSpecial → s.MovedBy fsE a v

/-! ## Owners after a change of the mount table -/

theorem vmntOf_none (h : s.vmntOf dev = none) (m : VmntRef) : (s.vmnt m).dev ≠ dev := by
  simpa using List.find?_eq_none.mp h m (List.mem_finRange m)

theorem vmntOf_of_unique (h : ∀ k, (s.vmnt k).dev = dev ↔ k = m) : s.vmntOf dev = some m := by
  cases hk : s.vmntOf dev with
  | none => exact absurd ((h m).mpr rfl) (vmntOf_none hk m)
  | some k => rw [(h k).mp (vmntOf_some hk)]

theorem owner_of_other {d : Dev} (hm : s'.vmnt = update s.vmnt m x)
    (he : s'.rootFsE = s.rootFsE) (h : (s.vmnt m).dev ≠ d) (hx : x.dev ≠ d) : s'.owner d = s.owner d := by
  have hfind : s'.vmntOf d = s.vmntOf d := by
    unfold vmntOf
    congr 1
    funext k
    rw [hm, update_apply]
    split
    next hk => rw [hk, decide_eq_false h, decide_eq_false hx]
    · rfl
  unfold owner
  rw [hfind, he]
  cases hk : s.vmntOf d with
  | none => rfl
  | some k =>
    have hne : k ≠ m := by
      rintro rfl
      exact h (vmntOf_some hk)
    simp only [elim_some]
    rw [hm, update_of_ne hne]

/-- The owner of a device that is mounted in a slot. -/
theorem owner_of_mount (hm : s'.vmnt = update s.vmnt m x) (hx : x.dev = dev)
    (hd : dev ≠ NO_DEV) (hnone : s.vmntOf dev = none) : s'.vmntOf dev = some m ∧ s'.owner dev = x.fsE := by
  have : s'.vmntOf dev = some m := by
    apply vmntOf_of_unique
    intro k
    rw [hm, update_apply]
    split
    next hk => simp [hk, hx]
    next hk => simp [hk, vmntOf_none hnone k]
  refine ⟨this, ?_⟩
  rw [owner, if_neg hd, this, elim_some, hm, update_self]

theorem owner_of_ne {d : Dev} (hm : s'.vmnt = update s.vmnt m x)
    (he : s'.rootFsE = s.rootFsE) (hfree : (s.vmnt m).dev = NO_DEV) (hx : x.dev ≠ d) : s'.owner d = s.owner d := by
  by_cases h0 : d = NO_DEV
  · rw [owner, owner, if_pos h0, if_pos h0, he]
  · exact owner_of_other hm he (hfree ▸ Ne.symm h0) hx

end Tables

/-! ## Looking up the device -/

/-- No vnode in use has changed its reference count or its device numbers. -/
structure NodesKept (s s' : Tables) : Prop where
  refCounts : s'.refCounts = s.refCounts
  sdev : ∀ w, 0 < s.refCounts w → (s'.vnode w).sdev = (s.vnode w).sdev
  dev : ∀ w, 0 < s.refCounts w → (s'.vnode w).dev = (s.vnode w).dev
  newroot : s'.allowNewroot = s.allowNewroot

/-- A vnode has one more reference. -/
structure NodeAdded (v : VnodeRef) (s s' : Tables) : Prop where
  refCounts : s'.refCounts = update s.refCounts v (s.refCounts v + 1)
  sdev : ∀ w, 0 < s.refCounts w → (s'.vnode w).sdev = (s.vnode w).sdev
  dev : ∀ w, 0 < s.refCounts w → (s'.vnode w).dev = (s.vnode w).dev
  newroot : s'.allowNewroot = s.allowNewroot

theorem NodesKept.bspec (h : NodesKept s s') : s'.bspec = s.bspec := by
  funext dev
  unfold Tables.bspec
  congr 1
  funext w
  have hc : (s'.vnode w).refCount = (s.vnode w).refCount := congrFun h.refCounts w
  rw [hc]
  by_cases h0 : 0 < (s.vnode w).refCount
  · rw [h.sdev w h0]
  · simp [h0]

theorem NodesKept.useCount (h : NodesKept s s') (dev : Dev) : s'.useCount dev = s.useCount dev := by
  unfold Tables.useCount
  congr 2
  funext w
  have hc : (s'.vnode w).refCount = (s.vnode w).refCount := congrFun h.refCounts w
  rw [hc]
  by_cases h0 : 0 < (s.vnode w).refCount
  · rw [h.dev w h0]
  · simp [Nat.eq_zero_of_not_pos h0]

theorem getFreeVnode_kept (s : Tables) : After getFreeVnode s fun r s' =>
    (NodesKept s s' ∧ s'.special = s.special) ∧ ∀ v ∈ r, s'.refCounts v = 0 := by
  unfold getFreeVnode
  refine .get ?_
  cases hf : s.freeVnode with
  | none =>
    refine .bind (.modify ⟨⟨rfl, fun _ _ => rfl, fun _ _ => rfl, rfl⟩, rfl⟩) fun _ s' h' => .pure ⟨h', ?_⟩
    rintro v ⟨⟩
  | some v =>
    have h0 := freeVnode_some hf
    have hc : (s.modVnode v fun vp => { vp with sdev := -1 }).refCounts = s.refCounts := by
      rw [refCounts_modVnode]
      exact update_eq_self v s.refCounts
    have hne {w : VnodeRef} (hw : 0 < (s.vnode w).refCount) : w ≠ v := by
      rintro rfl
      exact absurd h0 hw.ne'
    have hspecial : (s.modVnode v fun vp => { vp with sdev := -1 }).special = s.special := by
      have hfield (w : VnodeRef) : ((s.modVnode v fun vp => { vp with sdev := -1 }).vnode w).refCount =
        (s.vnode w).refCount ∧
          ((s.modVnode v fun vp => { vp with sdev := -1 }).vnode w).inodeNr = (s.vnode w).inodeNr ∧
          ((s.modVnode v fun vp => { vp with sdev := -1 }).vnode w).fsE = (s.vnode w).fsE := by
        by_cases hw : w = v <;> simp [Tables.modVnode, hw]
      funext d
      have hfind : (s.modVnode v fun vp => { vp with sdev := -1 }).findVnode d.fsE d.inodeNr =
        s.findVnode d.fsE d.inodeNr := by
        unfold findVnode
        simp only [fun w => (hfield w).1, fun w => (hfield w).2.1, fun w => (hfield w).2.2]
      unfold Tables.special
      rw [hfind]
      cases hw : s.findVnode d.fsE d.inodeNr with
      | none => rfl
      | some w =>
        have hpos : 0 < (s.vnode w).refCount := by
          have := List.find?_some hw
          simp only [decide_eq_true_eq] at this
          exact this.1
        simp [Tables.modVnode, hne hpos]
    refine .bind (Q := fun _ s' => (NodesKept s s' ∧ s'.special = s.special) ∧ s'.refCounts v = 0)
      (.modify ⟨⟨⟨hc, fun w hw => ?_, fun w hw => ?_, rfl⟩, hspecial⟩, ?_⟩) fun _ s' h' => .pure ⟨h'.1, ?_⟩
    · exact congrArg VnodeSlot.sdev (update_of_ne (hne hw) _ _)
    · exact congrArg VnodeSlot.dev (update_of_ne (hne hw) _ _)
    · rw [hc]
      exact h0
    · rintro w ⟨⟩
      exact h'.2

theorem claimVnode_added {new : VnodeRef} (h0 : s.refCounts new = 0) (res : NodeDetails) :
    After (claimVnode new res) s fun v s' =>
      NodeAdded v s s' ∧ ((s'.vnode v).type, (s'.vnode v).sdev) = s.special res := by
  unfold claimVnode
  refine .get ?_
  cases hf : s.findVnode res.fsE res.inodeNr with
  | some v =>
    have hsame (w : VnodeRef) :
        ((s.modVnode v fun vp => { vp with refCount := vp.refCount + 1, fsCount := vp.fsCount + 1 }).vnode
        w).sdev = (s.vnode w).sdev ∧ ((s.modVnode v fun vp =>
          { vp with refCount := vp.refCount + 1, fsCount := vp.fsCount + 1 }).vnode w).dev = (s.vnode w).dev := by
      by_cases hw : w = v <;> simp [Tables.modVnode, hw]
    refine .set (.pure ⟨⟨refCounts_modVnode _, fun w _ => (hsame w).1, fun w _ => (hsame w).2, rfl⟩, ?_⟩)
    simp [Tables.special, hf, Tables.modVnode]
  | none =>
    cases s.findVmnt res.fsE with
    | none => exact .crash
    | some m =>
      have hne {w : VnodeRef} (hw : 0 < s.refCounts w) : w ≠ new := by
        rintro rfl
        exact absurd h0 hw.ne'
      refine .set (.pure ⟨⟨?_, fun w hw => ?_, fun w hw => ?_, rfl⟩, ?_⟩)
      · rw [refCounts_modVnode, h0]
      · exact congrArg VnodeSlot.sdev (update_of_ne (hne hw) _ _)
      · exact congrArg VnodeSlot.dev (update_of_ne (hne hw) _ _)
      · simp [Tables.special, hf, Tables.modVnode]

theorem lookupVp_added (s : Tables) (p : ProcRef) (res : Except Int NodeDetails) :
    After (lookupVp p res) s fun r s' => match r with
      | .error _ => NodesKept s s'
      | .ok v => NodeAdded v s s' ∧ ∃ d, res = .ok d ∧ ((s'.vnode v).type, (s'.vnode v).sdev) = s.special d := by
  unfold lookupVp
  refine .get (.ite (fun _ => .pure ⟨rfl, fun _ _ => rfl, fun _ _ => rfl, rfl⟩) fun _ => ?_)
  unfold lookupRelVp
  refine .bind (getFreeVnode_kept s) ?_
  rintro r s1 ⟨⟨h1, hs1⟩, h0⟩
  cases r with
  | none => exact .pure h1
  | some new =>
    cases res with
    | error r => exact .pure h1
    | ok res =>
      refine .bind (claimVnode_added (h0 new rfl) res) fun v s2 ⟨h2, hs2⟩ =>
        .pure ⟨⟨?_, fun w hw => ?_, fun w hw => ?_, h2.newroot.trans h1.newroot⟩, res, rfl,
          hs2.trans (congrFun hs1 res)⟩
      · rw [h2.refCounts, h1.refCounts]
      · rw [h2.sdev w (by rw [h1.refCounts]; exact hw), h1.sdev w hw]
      · rw [h2.dev w (by rw [h1.refCounts]; exact hw), h1.dev w hw]

theorem VnodeSlot.put_dev {vp vp' : VnodeSlot} (h : vp.put = some vp') : vp'.dev = vp.dev := by
  unfold VnodeSlot.put at h
  split_ifs at h <;> cases h <;> rfl

theorem putVnode_kept (h : NodeAdded v s s₁) : After (putVnode v) s₁ fun _ s' => NodesKept s s' := by
  have hstay : After (putVnode v) s₁ fun _ s' => s'.allowNewroot = s₁.allowNewroot ∧
      ∀ w, (s'.vnode w).dev = (s₁.vnode w).dev :=
    putVnode_after fun vp hvp => ⟨rfl, fun w => by
      by_cases hw : w = v
      · rw [hw, show (s₁.modVnode v fun _ => vp).vnode v = vp from update_self ..]
        exact VnodeSlot.put_dev hvp
      · exact congrArg VnodeSlot.dev (update_of_ne hw _ _)⟩
  refine ((putVnode_spec s₁ v).and hstay).mono fun _ s' ⟨⟨hc, hne, hv⟩, hroot, hdev⟩ =>
    ⟨?_, fun w hw => ?_, fun w hw => (hdev w).trans (h.dev w hw), hroot.trans h.newroot⟩
  · rw [hc, h.refCounts, update_idem, update_self, Nat.add_sub_cancel, update_eq_self]
  · rw [← h.sdev w hw]
    by_cases hwv : w = v
    · subst hwv
      refine hv ?_
      rw [h.refCounts, update_self]
      omega
    · rw [hne w hwv]

/-- `name_to_dev` finds the device of the file, or fails. -/
theorem nameToDev_spec (h : s.Good own none xs) (p : ProcRef) (special : Except Int NodeDetails) :
    After (nameToDev p special) s fun dev s' =>
      s'.Good own none xs ∧ Quiet s s' ∧ NodesKept s s' ∧ (dev = NO_DEV ∨ dev = s.device special) := by
  unfold nameToDev
  refine .bind (((lookupVp_settles h.nodes p special).good h).and (lookupVp_added s p special)) ?_
  rintro r s1 ⟨⟨h1, hq1⟩, ha⟩
  cases r with
  | error r => exact .pure ⟨h1, hq1, ha, .inl rfl⟩
  | ok vp =>
    obtain ⟨ha, d, rfl, hfile⟩ := ha
    have hput {t : Tables} (hq : Quiet s1 t) (hn : t.NodesOk (vp :: xs)) (hadd : NodeAdded vp s t) :
        After (putVnode vp) t fun _ s' => s'.Good own none xs ∧ Quiet s s' ∧ NodesKept s s' := by
      refine (((putVnode_settles hn).good (hq.good h1 hn)).and (putVnode_kept hadd)).mono fun _ s' h' => ?_
      exact ⟨h'.1.1, (hq1.trans hq).trans h'.1.2, h'.2⟩
    refine .get (.ite (fun _ => .set ?_) fun hblock => ?_)
    · exact .bind (hput (.of_eq rfl rfl rfl rfl rfl rfl) h1.nodes ⟨ha.refCounts, ha.sdev, ha.dev, ha.newroot⟩)
        fun _ s2 h2 =>
        .pure ⟨h2.1, h2.2.1, h2.2.2, .inl rfl⟩
    · refine .bind (hput (.refl s1) h1.nodes ha) fun _ s2 h2 => .pure ⟨h2.1, h2.2.1, h2.2.2, .inr ?_⟩
      unfold device
      dsimp only
      rw [← hfile, if_pos (not_not.mp hblock)]

/-! ## Mount -/

/-- The references that the mount point adds. -/
def pointed : Except Int (Option VnodeRef) → List VnodeRef
  | .ok (some v) => [v]
  | _ => []

theorem mountPoint_settles (h : s.NodesOk xs) (p : ProcRef) (a : MountAns) (replaceRoot : Bool) :
    Settles (mountPoint p a replaceRoot) s fun r => pointed r ++ xs := by
  unfold mountPoint
  refine .ite (fun _ => .pure h) fun _ => .bind (lookupVp_settles h p a.point) fun r s1 h1 _ => ?_
  cases r with
  | error r => exact .pure h1
  | ok mountedOn =>
    exact .ite (fun _ => .bind (putVnode_settles h1) fun _ s2 h2 _ => .pure h2) fun _ => .pure h1

/-- There is a mount point unless the root is replaced. -/
theorem mountPoint_ok (s : Tables) (p : ProcRef) (a : MountAns) (replaceRoot : Bool) :
    After (mountPoint p a replaceRoot) s fun r _ => (r = .ok none → replaceRoot = true) ∧
      ∀ v, r = .ok (some v) → replaceRoot = false ∧ a.mountpoint = OK := by
  unfold mountPoint
  refine .ite (fun h => .pure ⟨fun _ => h, nofun⟩) fun h => .bind (fun _ _ _ => trivial) fun r s1 _ => ?_
  cases r with
  | error r => exact .pure ⟨nofun, nofun⟩
  | ok mountedOn =>
    exact .ite (fun _ => .bind (fun _ _ _ => trivial) fun _ s2 _ => .pure ⟨nofun, nofun⟩) fun hp =>
      .pure ⟨nofun, fun v _ => ⟨by simpa using h, not_not.mp hp⟩⟩

variable {m : VmntRef}

theorem refs_modVmnt :
    (s.modVmnt m f).refs = update (update s.refs (.inr (.inr (m, true))) (f (s.vmnt m)).rootNode)
      (.inr (.inr (m, false))) (f (s.vmnt m)).mountedOn := by
  funext h
  match h with
  | .inl (p, d) => rw [update_of_ne (by simp), update_of_ne (by simp)]; rfl
  | .inr (.inl x) => rw [update_of_ne (by simp), update_of_ne (by simp)]; rfl
  | .inr (.inr (k, true)) =>
    rw [update_of_ne (by simp)]
    show (update s.vmnt m _ k).rootNode = _
    by_cases hk : k = m
    · rw [hk, update_self, update_self]
    · rw [update_of_ne hk, update_of_ne (by simp [hk])]
      rfl
  | .inr (.inr (k, false)) =>
    show (update s.vmnt m _ k).mountedOn = _
    by_cases hk : k = m
    · rw [hk, update_self, update_self]
    · rw [update_of_ne hk, update_of_ne (by simp [hk]), update_of_ne (by simp)]
      rfl

theorem refs_modVmnt_same (h1 : (f (s.vmnt m)).rootNode = (s.vmnt m).rootNode)
    (h2 : (f (s.vmnt m)).mountedOn = (s.vmnt m).mountedOn) : (s.modVmnt m f).refs = s.refs := by
  rw [refs_modVmnt, h1, h2, update_eq_self_iff.mpr, update_eq_self_iff]
  · rfl
  · rw [update_of_ne (by simp)]
    rfl

theorem Tables.MountsOk.modVmnt (h : s.MountsOk)
    (hroot : ∀ v, (f (s.vmnt m)).rootNode = some v → (s.vnode v).dev = (f (s.vmnt m)).dev)
    (hfree : (f (s.vmnt m)).dev = NO_DEV → (f (s.vmnt m)).rootNode = none ∧ (f (s.vmnt m)).mountedOn = none)
    (hserving : (f (s.vmnt m)).dev ≠ NO_DEV → (f (s.vmnt m)).fsE ≠ NONE) : (s.modVmnt m f).MountsOk where
  root := (forall_update_iff s.vmnt fun _ x => ∀ v, x.rootNode = some v → (s.vnode v).dev = x.dev).mpr
    ⟨hroot, fun k _ => h.root k⟩
  free := (forall_update_iff s.vmnt fun _ x => x.dev = NO_DEV → x.rootNode = none ∧ x.mountedOn = none).mpr
    ⟨hfree, fun k _ => h.free k⟩
  serving := (forall_update_iff s.vmnt fun _ x => x.dev ≠ NO_DEV → x.fsE ≠ NONE).mpr ⟨hserving, fun k _ => h.serving k⟩
  rootServing := h.rootServing

theorem Tables.Good.fill {f : VnodeSlot → VnodeSlot} (h : s.Good own none xs) (h0 : (s.vnode v).refCount = 0)
    (hf : (f (s.vnode v)).refCount = 1) : (s.modVnode v f).Good own none (v :: xs) := by
  have hq : Quiet s (s.modVnode v f) := .modVnode (.inl (h.nodes.not_held h0))
  refine hq.good h ?_
  unfold NodesOk
  rw [refCounts_modVnode, hq.refs, hf]
  have := Balanced.dup h.nodes v
  rwa [show s.refCounts v = 0 from h0] at this

/-- The state after `fillIn`. -/
structure Filled (s : Tables) (rootNode : VnodeRef) (m : VmntRef) (fsE : Int) (dev : Dev) (s' : Tables) : Prop where
  vmnt : s'.vmnt = update s.vmnt m { s.vmnt m with fsE := fsE, dev := dev }
  rootFsE : s'.rootFsE = s.rootFsE
  dev : (s'.vnode rootNode).dev = dev

variable {rootNode : VnodeRef}

theorem fillIn_good (h : s.Good own none xs)
    (h0 : (s.vnode rootNode).refCount = 0) (hm : (s.vmnt m).dev = NO_DEV) (hfs : fsE ≠ NONE) (root : Nat × FileType) :
    After (fillIn rootNode m fsE dev root) s fun _ s' => s'.Good own none (rootNode :: xs) ∧
    Filled s rootNode m fsE dev s' := by
  refine .modify ⟨?_, rfl, rfl, ?_⟩
  · have h1 : (s.modVnode rootNode fun vp =>
      { vp with
        fsE := fsE, inodeNr := root.1, type := root.2, sdev := NO_DEV, fsCount := 1, refCount := 1, vmnt := some m,
        dev := dev }).Good own none (rootNode :: xs) := h.fill h0 rfl
    refine ⟨h1.nodes.congr rfl (refs_modVmnt_same rfl rfl), h1.files, h1.mounts.modVmnt ?_ ?_ fun _ => hfs, h1.owned⟩
    · intro v hv
      have := (h.mounts.free m hm).1
      rw [show (s.vmnt m).rootNode = some v from hv] at this
      cases this
    · exact fun _ => h.mounts.free m hm
  · show (update s.vnode rootNode _ rootNode).dev = dev
    rw [update_self]

theorem fillIn_same (h : s.NodesOk xs) (h0 : (s.vnode rootNode).refCount = 0) (m : VmntRef) (fsE : Int)
    (dev : Dev) (root : Nat × FileType) : After (fillIn rootNode m fsE dev root) s fun _ s' =>
      s'.openNode = s.openNode ∧ ∀ x v, s.openNode x = some v → SameNode (s.vnode v) (s'.vnode v) := by
  refine .modify ⟨rfl, fun x v ho => ?_⟩
  have hne : v ≠ rootNode := by
    rintro rfl
    exact h.not_held h0 (.inr (.inl x)) ho
  show SameNode _ (update s.vnode rootNode _ v)
  rw [update_of_ne hne]
  exact .refl _

theorem putVnode_tables (s : Tables) (v : VnodeRef) :
    After (putVnode v) s fun _ s' => s'.vmnt = s.vmnt ∧ s'.rootFsE = s.rootFsE ∧ s'.fproc = s.fproc :=
  putVnode_after fun _ _ => ⟨rfl, rfl, rfl⟩

theorem Tables.Good.attach {mountedOn : VnodeRef} (h : s.Good own none (rootNode :: mountedOn :: xs))
    (hroot : (s.vmnt m).rootNode = none) (hon : (s.vmnt m).mountedOn = none)
    (hdev : (s.vnode rootNode).dev = (s.vmnt m).dev)
    (hd : (s.vmnt m).dev ≠ NO_DEV) (b : Bool) :
    { s.modVmnt m fun x => { x with mountedOn := some mountedOn, rootNode := some rootNode }
    with allowNewroot := b }.Good own none xs := by
  set s' := s.modVmnt m fun x => { x with mountedOn := some mountedOn, rootNode := some rootNode } with hs'
  have hrefs : s'.refs = update (update s.refs (.inr (.inr (m, true))) (some rootNode)) (.inr (.inr (m, false)))
      (some mountedOn) := refs_modVmnt
  have hmounts : s'.MountsOk := by
    refine h.mounts.modVmnt ?_ (fun h0 => absurd h0 hd) (h.mounts.serving m)
    rintro v ⟨⟩
    exact hdev
  refine ⟨?_, h.files, hmounts.congr (fun _ _ _ => rfl) rfl rfl, h.owned⟩
  show Balanced s.refCounts s'.refs xs
  rw [hrefs]
  have h1 : Balanced s.refCounts (update s.refs (.inr (.inr (m, true))) (some rootNode)) (mountedOn :: xs) :=
    Balanced.store h.nodes hroot
  refine h1.store ?_
  rw [update_of_ne (by simp)]
  exact hon

/-- The owners after a mount on a mount point. -/
theorem owner_mounted (hm : s'.vmnt = update s.vmnt m x) (hx : x.dev = dev ∧ x.fsE = fsE) (he : s'.rootFsE = s.rootFsE)
    (hfree : (s.vmnt m).dev = NO_DEV) (hd : dev ≠ NO_DEV) (hnone : s.vmntOf dev = none) (d : Dev) :
    s'.owner d = if d = dev then fsE else s.owner d := by
  split
  next h => rw [h, (owner_of_mount hm hx.1 hd hnone).2, hx.2]
  next h => exact owner_of_ne hm he hfree (by rw [hx.1]; exact Ne.symm h)

section

variable {mountedOn : VnodeRef} (hfree : (s.vmnt m).rootNode = none ∧ (s.vmnt m).mountedOn = none)
  (h1 : s₁.Good own none (rootNode :: mountedOn :: xs)) (hf : Filled s rootNode m fsE dev s₁)
    (hm : (s.vmnt m).dev = NO_DEV)

include hfree h1 hf hm

/-- The types conflict: the slot is free again. -/
theorem detach_good : After (do
      putVnode mountedOn
      putVnode rootNode
      modify fun s => s.modVmnt m fun x => { x with dev := NO_DEV }
      return EISDIR) s₁ fun _ s' => s'.Good own none xs ∧ s'.owner = s.owner := by
  have h1' : s₁.Good own none (mountedOn :: rootNode :: xs) :=
    ⟨h1.nodes.perm (.swap _ _ _), h1.files, h1.mounts, h1.owned⟩
  refine .bind (((putVnode_settles h1'.nodes).good h1').and (putVnode_tables s₁ mountedOn)) ?_
  rintro _ s2 ⟨⟨h2, -⟩, hm2, he2, -⟩
  refine .bind (((putVnode_settles h2.nodes).good h2).and (putVnode_tables s2 rootNode)) ?_
  rintro _ s3 ⟨⟨h3, -⟩, hm3, he3, -⟩
  have hm3' : s3.vmnt = s₁.vmnt := hm3.trans hm2
  have hslot : s3.vmnt m = { s.vmnt m with fsE := fsE, dev := dev } := by rw [hm3', hf.vmnt, update_self]
  refine .set (.pure ⟨⟨h3.nodes.congr rfl (refs_modVmnt_same rfl rfl), h3.files, h3.mounts.modVmnt ?_ ?_ (absurd rfl),
    h3.owned⟩, ?_⟩)
  · intro v hv
    rw [hslot] at hv
    rw [show (s.vmnt m).rootNode = some v from hv] at hfree
    cases hfree.1
  · rw [hslot]
    exact fun _ => hfree
  · funext d
    have hvm : (s3.modVmnt m fun x => { x with dev := NO_DEV }).vmnt =
        update s.vmnt m { s.vmnt m with fsE := fsE, dev := NO_DEV } := by
      show update s3.vmnt m _ = _
      rw [hslot, hm3', hf.vmnt, update_idem]
    have he : (s3.modVmnt m fun x => { x with dev := NO_DEV }).rootFsE = s.rootFsE := (he3.trans he2).trans hf.rootFsE
    by_cases h0 : d = NO_DEV
    · rw [owner, owner, if_pos h0, if_pos h0, he]
    · exact owner_of_ne hvm he hm (Ne.symm h0)

end

/-- The first vnode with the device is moved to the new file server. -/
theorem moveFirst_good (own' : Dev → Int) (h : s.Good own none xs) (b : Option VnodeRef)
    (hb : ∀ x v, s.openNode x = some v → (s.vnode v).type = .blockSpecial →
      own' (s.vnode v).sdev = if b = some v then fsE else own (s.vnode v).sdev) :
    After (match b with
      | none => return OK
      | some v => do
        modVnode v fun vp => { vp with bfsE := fsE }
        return OK) s fun _ s' => s'.Good own' none xs ∧ s'.vmnt = s.vmnt ∧ s'.rootFsE = s.rootFsE := by
  cases b with
  | none => exact .pure ⟨h.reown fun x v hv ht => (hb x v hv ht).trans (if_neg nofun), rfl, rfl⟩
  | some w =>
    refine .set (.pure ⟨?_, rfl, rfl⟩)
    set s3 := s.modVnode w fun vp => { vp with bfsE := fsE } with hs3
    have hnode (u : VnodeRef) : s3.vnode u = if u = w then { s.vnode w with bfsE := fsE } else s.vnode u :=
      update_apply _ _ _ _
    have hsame (u : VnodeRef) : (s3.vnode u).sdev = (s.vnode u).sdev ∧ (s3.vnode u).type = (s.vnode u).type ∧
        (s3.vnode u).dev = (s.vnode u).dev := by
      rw [hnode]
      split
      next hu => rw [hu]; exact ⟨rfl, rfl, rfl⟩
      · exact ⟨rfl, rfl, rfl⟩
    refine ⟨h.nodes.congr ?_ rfl, h.files, h.mounts.congr (fun _ u _ => (hsame u).2.2) rfl rfl, fun x v hx ho ht => ?_⟩
    · rw [hs3, refCounts_modVnode]
      exact update_eq_self w s.refCounts
    · rw [(hsame v).2.1] at ht
      rw [(hsame v).1, hb x v ho ht, hnode]
      by_cases hvw : v = w
      · rw [if_pos hvw, if_pos (by rw [hvw])]
      · rw [if_neg hvw, if_neg fun h => hvw (some.inj h).symm]
        exact h.owned x v hx ho ht

/-- The last part of a mount. `s0` is the state at the beginning of the call, and `s` that before `fillIn`. -/
theorem attach_inv {mountedOn : VnodeRef} (hq : Quiet s0 s)
    (hfree : (s.vmnt m).rootNode = none ∧ (s.vmnt m).mountedOn = none)
    (h1 : s₁.Good s0.owner none (rootNode :: mountedOn :: xs))
    (hf : Filled s rootNode m fsE dev s₁) (hm : (s.vmnt m).dev = NO_DEV) (hd : dev ≠ NO_DEV)
    (hnone : s.vmntOf dev = none)
    (hn : s₁.openNode = s.openNode) (hsame : ∀ x v, s.openNode x = some v → SameNode (s.vnode v) (s₁.vnode v))
    (hok : ∀ x v, s0.openNode x = some v → (s0.vnode v).type = .blockSpecial →
      fsE = s0.rootFsE ∨ ((s0.vnode v).sdev = dev → s0.bspec (s0.vnode v).sdev = some v)) :
    After (attach mountedOn rootNode m fsE (s0.bspec dev)) s₁ fun _ s' => s'.Inv := by
  have hslot : s₁.vmnt m = { s.vmnt m with fsE := fsE, dev := dev } := by rw [hf.vmnt, update_self]
  unfold Vfs.attach
  refine .get (.ite (fun _ => (detach_good hfree h1 hf hm).mono fun _ s' h => h.1.inv (h.2.trans hq.owner))
    fun _ => .set ?_)
  have h2 := h1.attach (by rw [hslot]; exact hfree.1) (by rw [hslot]; exact hfree.2) (by rw [hslot]; exact hf.dev)
    (by rw [hslot]; exact hd) false
  set s2 : Tables := { s₁.modVmnt m fun x =>
    { x with mountedOn := some mountedOn, rootNode := some rootNode } with allowNewroot := false } with hs2
  have hvm : s2.vmnt = update s.vmnt m { s.vmnt m with
      fsE := fsE, dev := dev, mountedOn := some mountedOn, rootNode := some rootNode } := by
    show update s₁.vmnt m _ = _
    rw [hslot, hf.vmnt, update_idem]
  have hnone0 : s0.vmntOf dev = none := by
    unfold vmntOf
    rw [← hq.vmnt]
    exact hnone
  have hroot0 : s0.owner dev = s0.rootFsE := by rw [owner, if_neg hd, hnone0, elim_none]
  have hmoved (x : FilpRef) (v : VnodeRef) (ho : s2.openNode x = some v) (ht : (s2.vnode v).type = .blockSpecial) :
      (if (s2.vnode v).sdev = dev then fsE else s0.owner (s2.vnode v).sdev) =
        if s0.bspec dev = some v then fsE else s0.owner (s2.vnode v).sdev := by
    -- the file is as it was at the beginning of the call
    have ho' : s.openNode x = some v := hn ▸ ho
    have ho0 : s0.openNode x = some v := hq.openNode ▸ ho'
    have hsn : SameNode (s0.vnode v) (s2.vnode v) := (hq.held (.inr (.inl x)) v ho0).trans (hsame x v ho')
    rw [hsn.type] at ht
    rw [hsn.sdev]
    by_cases hb : s0.bspec dev = some v
    · have hbs : 0 < (s0.vnode v).refCount ∧ (s0.vnode v).sdev = dev := by simpa using List.find?_some hb
      rw [if_pos hb, if_pos hbs.2]
    · rw [if_neg hb]
      split
      next hdd =>
        rw [hdd, hroot0]
        exact (hok x v ho0 ht).resolve_right fun h => hb (hdd ▸ h hdd)
      · rfl
  have hmove := moveFirst_good (fun d => if d = dev then fsE else s0.owner d) h2 (s0.bspec dev) hmoved
  generalize s0.bspec dev = b at hmove ⊢
  refine hmove.mono ?_
  rintro _ s3 ⟨h3, hm3, he3⟩
  refine ⟨xs, (?_ : s3.owner = _) ▸ h3⟩
  funext d
  rw [owner_mounted (hm3.trans hvm) ⟨rfl, rfl⟩ (he3.trans hf.rootFsE) hm hd hnone, hq.owner]

theorem makeroot_good (h : s.Good own none xs) (p : ProcRef) (d : Dir) :
    After (makeroot rootNode p d) s fun _ s' => s'.Good own none xs ∧ s'.vmnt = s.vmnt ∧ s'.rootFsE = s.rootFsE := by
  unfold makeroot
  refine .get ?_
  cases hd : (s.fproc p).dir d with
  | none => exact .pure ⟨h, rfl, rfl⟩
  | some old =>
    refine .bind (putDir_good h hd) ?_
    rintro _ s1 ⟨h1, hm1, he1⟩
    have hdup : After (dupVnode rootNode) s1 fun _ s' =>
        (s'.modFproc p fun fp => fp.setDir none d).Good own none (rootNode :: xs) ∧ s'.vmnt = s1.vmnt ∧
          s'.rootFsE = s1.rootFsE :=
      .modify ⟨((dupVnode_settles h1.nodes rootNode).good h1 () _ rfl).1, rfl, rfl⟩
    refine .bind hdup ?_
    rintro _ s2 ⟨h2, hm2, he2⟩
    exact .modify ⟨h2.storeDir, hm2.trans hm1, he2.trans he1⟩

theorem replaceDirs_good (h : s.Good own none xs) (p : ProcRef) :
    After (replaceDirs rootNode p) s fun _ s' => s'.Good own none xs ∧ s'.vmnt = s.vmnt ∧ s'.rootFsE = s.rootFsE := by
  unfold replaceDirs
  refine .get (.ite (fun _ => ?_) fun _ => .pure ⟨h, rfl, rfl⟩)
  refine .bind (makeroot_good h p .rd) ?_
  rintro _ s1 ⟨h1, hm1, he1⟩
  exact (makeroot_good h1 p .wd).mono fun _ s2 ⟨h2, hm2, he2⟩ => ⟨h2, hm2.trans hm1, he2.trans he1⟩

/-- The owners after the root file system was replaced. -/
theorem owner_newRoot (hm : s'.vmnt = update s.vmnt m x) (hx : x.dev = dev ∧ x.fsE = fsE) (he : s'.rootFsE = fsE)
    (hfree : (s.vmnt m).dev = NO_DEV) (hd : dev ≠ NO_DEV) (hnone : s.vmntOf dev = none) (d : Dev) :
    s'.owner d = if d ≠ NO_DEV ∧ s.vmntOf d ≠ none then s.owner d else fsE := by
  by_cases h0 : d = NO_DEV
  · rw [if_neg fun h => h.1 h0, owner, if_pos h0, he]
  by_cases hdd : d = dev
  · rw [if_neg fun h => h.2 (hdd ▸ hnone), hdd, (owner_of_mount hm hx.1 hd hnone).2, hx.2]
  · -- the owner depends on the root file server only if the device is not mounted
    have hother : owner { s' with rootFsE := s.rootFsE } d = s.owner d :=
      owner_of_ne hm rfl hfree (by rw [hx.1]; exact Ne.symm hdd)
    have hfind : s'.vmntOf d = s.vmntOf d := by
      unfold vmntOf
      congr 1
      funext k
      rw [hm, update_apply]
      split
      next hk => rw [hk, hfree, hx.1, decide_eq_false (Ne.symm h0), decide_eq_false (Ne.symm hdd)]
      · rfl
    cases hk : s.vmntOf d with
    | none => rw [if_neg fun h => h.2 rfl, owner, if_neg h0, hfind, hk, elim_none, he]
    | some k =>
      rw [if_pos ⟨h0, nofun⟩, ← hother, owner, owner, if_neg h0, if_neg h0, hfind,
        show Tables.vmntOf { s' with rootFsE := s.rootFsE } d = s.vmntOf d from hfind, hk]
      rfl

theorem attachRoot_inv (hq : Quiet s0 s) (hfree : (s.vmnt m).rootNode = none ∧ (s.vmnt m).mountedOn = none)
    (h1 : s₁.Good s0.owner none (rootNode :: xs)) (hf : Filled s rootNode m fsE dev s₁) (hm : (s.vmnt m).dev = NO_DEV)
    (hd : dev ≠ NO_DEV) (hnone : s.vmntOf dev = none) (hfs : fsE ≠ NONE)
    (hn : s₁.openNode = s.openNode) (hsame : ∀ x v, s.openNode x = some v → SameNode (s.vnode v) (s₁.vnode v))
    (hok : ∀ x v, s0.openNode x = some v → (s0.vnode v).type = .blockSpecial →
      fsE = s0.rootFsE ∨ ((s0.vnode v).sdev ≠ NO_DEV ∧ s0.vmntOf (s0.vnode v).sdev ≠ none)) :
    After (attachRoot rootNode m fsE dev) s₁ fun _ s' => s'.Inv := by
  have hslot : s₁.vmnt m = { s.vmnt m with fsE := fsE, dev := dev } := by rw [hf.vmnt, update_self]
  have hfind : s.vmntOf = s0.vmntOf := by
    funext d
    unfold vmntOf
    rw [hq.vmnt]
  -- the owners at the end are those at the beginning, as far as open files are concerned
  let own' : Dev → Int := fun d => if d ≠ NO_DEV ∧ s.vmntOf d ≠ none then s.owner d else fsE
  have h1 : s₁.Good own' none (rootNode :: xs) := by
    refine h1.reown fun x v ho ht => ?_
    have ho' : s.openNode x = some v := hn ▸ ho
    have ho0 : s0.openNode x = some v := hq.openNode ▸ ho'
    have hsn : SameNode (s0.vnode v) (s₁.vnode v) := (hq.held (.inr (.inl x)) v ho0).trans (hsame x v ho')
    rw [hsn.type] at ht
    rw [hsn.sdev]
    dsimp only [own']
    rw [hq.owner, hfind]
    split
    · rfl
    next hmount =>
      have hroot : s0.owner (s0.vnode v).sdev = s0.rootFsE := by
        unfold owner
        split
        · rfl
        next h0 => rw [not_not.mp fun hne => hmount ⟨h0, hne⟩, elim_none]
      rw [hroot]
      exact (hok x v ho0 ht).resolve_right hmount
  set s2 := s₁.modVmnt m fun x => { x with rootNode := some rootNode, mountedOn := none } with hs2
  set s3 : Tables := { s2 with rootDev := dev, rootFsE := fsE } with hs3
  have hvm : s3.vmnt = update s.vmnt m { s.vmnt m with
      fsE := fsE, dev := dev, rootNode := some rootNode, mountedOn := none } := by
    show update s₁.vmnt m _ = _
    rw [hslot, hf.vmnt, update_idem]
  have h3 : s3.Good own' none xs := by
    have hrefs : s2.refs = update s₁.refs (.inr (.inr (m, true))) (some rootNode) := by
      rw [hs2, refs_modVmnt, update_eq_self_iff, update_of_ne (by simp)]
      show none = (s₁.vmnt m).mountedOn
      rw [hslot]
      exact hfree.2.symm
    have hmounts : s2.MountsOk := by
      refine h1.mounts.modVmnt ?_ ?_ ?_
      · rintro v ⟨⟩
        rw [hslot]
        exact hf.dev
      · rw [hslot]
        exact fun h0 => absurd h0 hd
      · exact fun _ => by rw [hslot]; exact hfs
    refine ⟨?_, h1.files, ⟨hmounts.root, hmounts.free, hmounts.serving, hfs⟩, h1.owned⟩
    show Balanced s₁.refCounts s2.refs xs
    rw [hrefs]
    refine Balanced.store h1.nodes ?_
    show (s₁.vmnt m).rootNode = none
    rw [hslot]
    exact hfree.1
  unfold attachRoot
  refine .set ?_
  have hloop : After ((List.finRange 100).forM (replaceDirs rootNode)) s3 fun _ s' =>
      s'.Good own' none xs ∧ s'.vmnt = s3.vmnt ∧ s'.rootFsE = fsE := by
    refine .forM ?_ ⟨h3, rfl, rfl⟩
    rintro p t ⟨ht, hmt, het⟩
    exact (replaceDirs_good ht p).mono fun _ t' ⟨ht', hmt', het'⟩ => ⟨ht', hmt'.trans hmt, het'.trans het⟩
  refine .bind hloop ?_
  rintro _ s4 ⟨h4, hm4, he4⟩
  refine .pure ⟨xs, (?_ : s4.owner = own') ▸ h4⟩
  funext d
  exact owner_newRoot (hm4.trans hvm) ⟨rfl, rfl⟩ he4 hm hd hnone d

section

variable (hq : Quiet s0 s) (h : s.Good s0.owner none xs)

include hq h

theorem newMount_inv (p : ProcRef) (a : MountAns) (fsE : Int) (hd : dev ≠ NO_DEV) (hnone : s.vmntOf dev = none)
    {m : Option VmntRef} (hm : ∀ k ∈ m, (s.vmnt k).dev = NO_DEV) (hdev : dev = s0.device a.special)
    (hroot : s.allowNewroot = s0.allowNewroot)
    (hok : a.name2 = OK → a.driver = true → (a.reqReadsuper fsE).isOk = true →
      s0.replacesRoot a = true ∨ a.mountpoint = OK →
      ∀ x v, s0.openNode x = some v → (s0.vnode v).type = .blockSpecial → s0.MovedBy fsE a v) :
    After (newMount p a fsE dev (s0.bspec dev) m) s fun _ s' => s'.Inv := by
  unfold newMount
  refine .ite (fun _ => .pure (h.inv hq.owner)) fun hname => .get ?_
  refine .bind (((mountPoint_settles h.nodes p a (a.isroot && s.allowNewroot)).good h).and (mountPoint_ok s p a _)) ?_
  rintro r s1 ⟨⟨h1, hq1⟩, hpoint, hpoint'⟩
  rw [hroot] at hpoint hpoint'
  have hq01 := hq.trans hq1
  cases r with
  | error r => exact .pure (h1.inv hq01.owner)
  | ok mountedOn =>
    refine .bind (getFreeVnode_settles h1.nodes) ?_
    rintro r s2 ⟨hn2, hq2, h0⟩
    have h2 := hq2.good h1 hn2
    have hq02 := hq01.trans hq2
    cases r with
    | none => exact .pure (h2.inv hq02.owner)
    | some rootNode =>
      refine .ite (fun _ => .pure (h2.inv hq02.owner)) fun hdriver => .ite (fun _ => .crash) fun _ => ?_
      cases hrs : a.reqReadsuper fsE with
      | error r =>
        cases mountedOn with
        | none => exact .pure (h2.inv hq02.owner)
        | some v =>
          refine .bind ((putVnode_settles h2.nodes).good h2) ?_
          rintro _ s3 ⟨h3, hq3⟩
          exact .pure (h3.inv (hq02.trans hq3).owner)
      | ok root =>
        have hfs : fsE ≠ NONE := by
          intro hfs
          rw [MountAns.reqReadsuper, if_pos hfs] at hrs
          cases hrs
        have hmoved := hok (not_not.mp hname) (by simpa using hdriver) (by rw [hrs]; rfl)
        cases m with
        | none => exact .crash
        | some m =>
          have hq2' := hq1.trans hq2
          have hm2 : (s2.vmnt m).dev = NO_DEV := by
            rw [hq2'.vmnt]
            exact hm m rfl
          have hnone2 : s2.vmntOf dev = none := by
            unfold vmntOf
            rw [hq2'.vmnt]
            exact hnone
          have h0 := h0 rootNode rfl
          have hfree := h2.mounts.free m hm2
          refine .bind ((fillIn_good h2 h0 hm2 hfs root).and (fillIn_same h2.nodes h0 m fsE dev root)) ?_
          rintro _ s3 ⟨⟨h3, hf3⟩, hn3, hsame3⟩
          cases mountedOn with
          | none =>
            have hr : s0.replacesRoot a = true := hpoint rfl
            refine attachRoot_inv hq02 hfree h3 hf3 hm2 hd hnone2 hfs hn3 hsame3 fun x v ho ht => ?_
            have hx := hmoved (.inl hr) x v ho ht
            rwa [MovedBy, if_pos hr] at hx
          | some v =>
            obtain ⟨hr, hp⟩ : s0.replacesRoot a = false ∧ a.mountpoint = OK := hpoint' v rfl
            refine attach_inv hq02 hfree h3 hf3 hm2 hd hnone2 hn3 hsame3 fun x v ho ht => ?_
            have hx := hmoved (.inr hp) x v ho ht
            rwa [MovedBy, if_neg (by rw [hr]; exact Bool.false_ne_true), ← hdev] at hx

theorem remount_inv (p : ProcRef) (a : MountAns) (hd : (s.vmnt m).dev ≠ NO_DEV) :
    After (remount p a m) s fun _ s' => s'.Inv := by
  unfold remount
  refine .get (.ite (fun _ => .pure (h.inv hq.owner)) fun hbusy => .ite (fun _ => .crash) fun _ =>
    .ite (fun _ => .pure (h.inv hq.owner)) fun _ => ?_)
  have hon : (s.vmnt m).mountedOn = none := by
    by_contra hon
    exact hbusy (.inl hon)
  refine .bind ((lookupVp_settles h.nodes p a.point).good h) ?_
  rintro r s1 ⟨h1, hq1⟩
  have hq01 := hq.trans hq1
  cases r with
  | error r => exact .pure (h1.inv hq01.owner)
  | ok mountedOn =>
    have hput (r : Int) : After (do putVnode mountedOn; return r) s1 fun _ s' => s'.Inv := by
      refine .bind ((putVnode_settles h1.nodes).good h1) ?_
      rintro _ s2 ⟨h2, hq2⟩
      exact .pure (h2.inv (hq01.trans hq2).owner)
    refine .get (.ite (fun _ => hput _) fun _ => .ite (fun _ => hput _) fun _ => ?_)
    cases (s.vmnt m).rootNode with
    | none => exact .crash
    | some rootNode =>
      refine .ite (fun _ => hput _) fun _ => ?_
      refine .set (.pure ?_)
      set s2 := s1.modVmnt m fun x => { x with mountedOn := some mountedOn } with hs2
      have hslot : s1.vmnt m = s.vmnt m := by rw [hq1.vmnt]
      have hrefs : s2.refs = update s1.refs (.inr (.inr (m, false))) (some mountedOn) := by
        rw [hs2, refs_modVmnt]
        congr 1
        exact update_eq_self (.inr (.inr (m, true))) s1.refs
      have hmounts : s2.MountsOk :=
        h1.mounts.modVmnt (h1.mounts.root m) (fun h0 => absurd (hslot ▸ h0) hd) (h1.mounts.serving m)
      have h2 : Good s0.owner none xs { s2 with allowNewroot := false } := by
        refine ⟨?_, h1.files, hmounts.congr (fun _ _ _ => rfl) rfl rfl, h1.owned⟩
        show Balanced s1.refCounts s2.refs xs
        rw [hrefs]
        refine Balanced.store h1.nodes ?_
        show (s1.vmnt m).mountedOn = none
        rw [hslot, hon]
      refine h2.inv (Eq.trans ?_ hq01.owner)
      have hk : ∀ k, (s2.vmnt k).dev = (s1.vmnt k).dev ∧ (s2.vmnt k).fsE = (s1.vmnt k).fsE :=
        (forall_update_iff s1.vmnt fun k x => x.dev = (s1.vmnt k).dev ∧ x.fsE = (s1.vmnt k).fsE).mpr
          ⟨⟨rfl, rfl⟩, fun _ _ => ⟨rfl, rfl⟩⟩
      exact owner_congr_of (fun k => (hk k).1) (fun k => (hk k).2) rfl

end

variable (h : s.Good s.owner none xs)

include h

/-- `mount_fs` keeps the owners right. -/
theorem mountFs_inv (p : ProcRef) (fsE : Int) (a : MountAns) (hp : (s.fproc p).superUser = true)
    (hok : s.MountOk p fsE a) :
    After (mountFs p fsE a) s fun _ s' => s'.Inv := by
  unfold mountFs
  refine .get (.ite (fun _ => ?_) fun hlogin => ?_)
  · have hq1 : Quiet s { s with mountMIn := { fsE := fsE, source := p } } := .of_eq rfl rfl rfl rfl rfl rfl
    exact .set (.pure ((hq1.good h h.nodes).inv hq1.owner))
  · have hq1 : Quiet s { s with lastLoginFsE := NONE, mountMIn := { s.mountMIn with fsE := NONE } } :=
      .of_eq rfl rfl rfl rfl rfl rfl
    refine .set ?_
    have h1 := hq1.good h h.nodes
    refine .ite (fun _ => .pure (h1.inv hq1.owner)) fun hname => .bind (nameToDev_spec h1 p a.special) ?_
    rintro dev s2 ⟨h2, hq2, hk2, hdev⟩
    have hq02 := hq1.trans hq2
    refine .get (.ite (fun _ => .pure (h2.inv hq02.owner)) fun hd => ?_)
    have hdev : dev = s.device a.special := hdev.resolve_left hd
    rw [show s2.bspec dev = s.bspec dev by rw [hk2.bspec]; rfl]
    cases hm : s2.vmntOf dev with
    | some m => exact remount_inv hq02 h2 p a (by rw [vmntOf_some hm]; exact hd)
    | none =>
      have hm0 : s.vmntOf dev = none := by
        unfold vmntOf
        rw [← hq02.vmnt]
        exact hm
      refine newMount_inv hq02 h2 p a fsE hd hm (fun k hk => vmntOf_some hk) hdev hk2.newroot
        fun hn2 hdriver hrs hpoint x v ho => ?_
      rw [hdev] at hd hm0
      exact hok ⟨hp, not_not.mp hlogin, not_not.mp hname, hn2, hd, hm0, hdriver, hrs, hpoint⟩ x v ho

theorem doMount_inv (p : ProcRef) (fsE : Int) (a : MountAns) (hok : s.MountOk p fsE a) :
    After (doMount p fsE a) s fun _ s' => s'.Inv := by
  unfold doMount
  exact .get (.ite (fun _ => .pure ⟨xs, h⟩) fun hp => .ite (fun _ => .pure ⟨xs, h⟩) fun _ =>
    mountFs_inv h p fsE a (by simpa using hp) hok)

theorem doFslogin_inv (whoE : Int) (a : MountAns)
    (hok : s.mountMIn.fsE = whoE → MountOk { s with lastLoginFsE := whoE } s.mountMIn.source whoE a) :
    After (doFslogin whoE a) s fun _ s' => s'.Inv := by
  have hq : Quiet s { s with lastLoginFsE := whoE } := .of_eq rfl rfl rfl rfl rfl rfl
  have h1 := hq.good h h.nodes
  unfold doFslogin
  refine .get (.set ?_)
  exact .ite (fun _ => .pure (h1.inv hq.owner)) fun hw =>
    doMount_inv (hq.owner.symm ▸ h1) _ whoE a (hok (not_not.mp hw))

end Minix.Vfs
