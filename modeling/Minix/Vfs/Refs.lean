import Minix.Lib.RefCount
import Minix.Vfs.Mount

/-!
# References to vnodes and filps

The holders of references to vnodes are the directories of the processes, the filps in use, and the two nodes of each
slot of the mount table. `NodesOk xs`: the counter of every vnode is the number of its holders, and of its occurrences
in `xs`.

Looking a file up and giving vnodes back is `Quiet`: no table but that of the vnodes changes, and of those only vnodes
that nobody holds.
-/

namespace Minix.Vfs

open Minix.Lib Function

/-- What can hold a vnode. -/
abbrev Holder := (ProcRef × Dir) ⊕ FilpRef ⊕ (VmntRef × Bool)

namespace Tables

variable {s s' s'' : Tables} {xs : List VnodeRef} {v : VnodeRef}

def refCounts (s : Tables) : VnodeRef → Nat := fun v => (s.vnode v).refCount

/-- What a filp in use refers to. -/
def openNode (s : Tables) (x : FilpRef) : Option VnodeRef := if (s.filp x).count = 0 then none else (s.filp x).vno

/-- What the holders refer to. -/
def refs (s : Tables) : Holder → Option VnodeRef
  | .inl (p, d) => (s.fproc p).dir d
  | .inr (.inl x) => s.openNode x
  | .inr (.inr (m, true)) => (s.vmnt m).rootNode
  | .inr (.inr (m, false)) => (s.vmnt m).mountedOn

/-- The counters of the vnodes count their holders, and the references in `xs`. -/
def NodesOk (xs : List VnodeRef) (s : Tables) : Prop := Balanced s.refCounts s.refs xs

end Tables

/-- The fields of a vnode that stay while it is held. -/
structure SameNode (a b : VnodeSlot) : Prop where
  type : b.type = a.type
  sdev : b.sdev = a.sdev
  bfsE : b.bfsE = a.bfsE
  dev : b.dev = a.dev

theorem SameNode.refl (a : VnodeSlot) : SameNode a a := ⟨rfl, rfl, rfl, rfl⟩

theorem SameNode.trans {a b c : VnodeSlot} (h : SameNode a b) (h' : SameNode b c) : SameNode a c :=
  ⟨h'.type.trans h.type, h'.sdev.trans h.sdev, h'.bfsE.trans h.bfsE, h'.dev.trans h.dev⟩

/-- Only vnodes that nobody holds, and counters, have changed. -/
structure Quiet (s s' : Tables) : Prop where
  count : ∀ x, (s'.filp x).count = (s.filp x).count
  openNode : s'.openNode = s.openNode
  vmnt : s'.vmnt = s.vmnt
  fproc : s'.fproc = s.fproc
  rootFsE : s'.rootFsE = s.rootFsE
  rootDev : s'.rootDev = s.rootDev
  held : ∀ h v, s.refs h = some v → SameNode (s.vnode v) (s'.vnode v)

namespace Quiet

variable {s s' s'' : Tables}

theorem refl (s : Tables) : Quiet s s := ⟨fun _ => rfl, rfl, rfl, rfl, rfl, rfl, fun _ _ _ => .refl _⟩

theorem refs (h : Quiet s s') : s'.refs = s.refs := by
  funext x
  match x with
  | .inl (p, d) => rw [Tables.refs, Tables.refs, h.fproc]
  | .inr (.inl x) => rw [Tables.refs, Tables.refs, h.openNode]
  | .inr (.inr (m, true)) => rw [Tables.refs, Tables.refs, h.vmnt]
  | .inr (.inr (m, false)) => rw [Tables.refs, Tables.refs, h.vmnt]

theorem trans (h : Quiet s s') (h' : Quiet s' s'') : Quiet s s'' where
  count x := (h'.count x).trans (h.count x)
  openNode := h'.openNode.trans h.openNode
  vmnt := h'.vmnt.trans h.vmnt
  fproc := h'.fproc.trans h.fproc
  rootFsE := h'.rootFsE.trans h.rootFsE
  rootDev := h'.rootDev.trans h.rootDev
  held x v hx := (h.held x v hx).trans (h'.held x v (by rw [h.refs, hx]))

theorem of_eq (hv : s'.vnode = s.vnode) (hf : s'.filp = s.filp) (hm : s'.vmnt = s.vmnt) (hp : s'.fproc = s.fproc)
    (he : s'.rootFsE = s.rootFsE) (hd : s'.rootDev = s.rootDev) : Quiet s s' where
  count x := by rw [hf]
  openNode := by unfold Tables.openNode; rw [hf]
  vmnt := hm
  fproc := hp
  rootFsE := he
  rootDev := hd
  held h v _ := by
    rw [hv]
    exact .refl _

theorem modVnode {v : VnodeRef} {f : VnodeSlot → VnodeSlot}
    (hf : (∀ h, s.refs h ≠ some v) ∨ SameNode (s.vnode v) (f (s.vnode v))) : Quiet s (s.modVnode v f) where
  count _ := rfl
  openNode := rfl
  vmnt := rfl
  fproc := rfl
  rootFsE := rfl
  rootDev := rfl
  held h w hw := by
    show SameNode _ (update s.vnode v (f (s.vnode v)) w)
    by_cases hv : w = v
    · subst hv
      rw [update_self]
      rcases hf with hf | hf
      · exact absurd hw (hf h)
      · exact hf
    · rw [update_of_ne hv]
      exact .refl _

end Quiet

namespace Tables

variable {s s' s'' : Tables} {xs : List VnodeRef} {v : VnodeRef}

theorem refCounts_modVnode (f : VnodeSlot → VnodeSlot) :
    (s.modVnode v f).refCounts = update s.refCounts v (f (s.vnode v)).refCount := by
  funext w
  show (update s.vnode v (f (s.vnode v)) w).refCount = _
  by_cases hw : w = v
  · rw [hw, update_self, update_self]
  · rw [update_of_ne hw, update_of_ne hw, refCounts]

theorem NodesOk.congr (h : s.NodesOk xs) (hc : s'.refCounts = s.refCounts) (hr : s'.refs = s.refs) : s'.NodesOk xs := by
  unfold NodesOk
  rw [hc, hr]
  exact h

theorem NodesOk.not_held (h : s.NodesOk xs) (hv : (s.vnode v).refCount = 0) (x : Holder) : s.refs x ≠ some v :=
  Balanced.not_held h hv

theorem freeVnode_some (h : s.freeVnode = some v) : (s.vnode v).refCount = 0 := by
  simpa using List.find?_some h

end Tables

open Tables

variable {s : Tables} {xs : List VnodeRef} {v : VnodeRef}

/-! ## Programs that only look and give back -/

/-- A program that ends with the references `ys`, and is quiet. -/
def Settles {α : Type} (x : Prog Tables α) (s : Tables) (ys : α → List VnodeRef) : Prop :=
  After x s fun a s' => s'.NodesOk (ys a) ∧ Quiet s s'

namespace Settles

variable {α β : Type}

variable {ys : α → List VnodeRef}

theorem pure {a : α} (h : s.NodesOk (ys a)) : Settles (Pure.pure a) s ys :=
  After.pure ⟨h, .refl s⟩

theorem bind {x : Prog Tables α} {f : α → Prog Tables β} {zs : β → List VnodeRef}
    (hx : Settles x s ys) (hf : ∀ a s', s'.NodesOk (ys a) → Quiet s s' → Settles (f a) s' zs) :
    Settles (x >>= f) s zs := by
  refine After.bind hx fun a s' h => ?_
  exact (hf a s' h.1 h.2).mono fun b s'' h' => ⟨h'.1, h.2.trans h'.2⟩

theorem get {f : Tables → Prog Tables α} (h : Settles (f s) s ys) :
    Settles (MonadState.get >>= f) s ys := After.get h

theorem ite {c : Prop} [Decidable c] {x y : Prog Tables α} (hx : c → Settles x s ys)
    (hy : ¬c → Settles y s ys) : Settles (if c then x else y) s ys := After.ite hx hy

theorem crash : Settles (Lib.crash : Prog Tables α) s ys := After.crash

end Settles

theorem modVnode_same {f : VnodeSlot → VnodeSlot} (h : s.NodesOk xs)
    (hc : (f (s.vnode v)).refCount = (s.vnode v).refCount)
    (hf : (∀ h, s.refs h ≠ some v) ∨ SameNode (s.vnode v) (f (s.vnode v))) : Settles (modVnode v f) s fun _ => xs := by
  have hq := Quiet.modVnode hf
  refine .modify ⟨h.congr ?_ hq.refs, hq⟩
  rw [refCounts_modVnode, hc]
  exact update_eq_self v s.refCounts

theorem modVnode_dup {f : VnodeSlot → VnodeSlot} (h : s.NodesOk xs)
    (hc : (f (s.vnode v)).refCount = (s.vnode v).refCount + 1)
    (hf : (∀ h, s.refs h ≠ some v) ∨ SameNode (s.vnode v) (f (s.vnode v))) :
    Settles (modVnode v f) s fun _ => v :: xs := by
  have hq := Quiet.modVnode hf
  refine .modify ⟨?_, hq⟩
  unfold NodesOk
  rw [refCounts_modVnode, hq.refs, hc]
  exact Balanced.dup h v

theorem dupVnode_settles (h : s.NodesOk xs) (v : VnodeRef) : Settles (dupVnode v) s fun _ => v :: xs :=
  modVnode_dup h rfl (.inr ⟨rfl, rfl, rfl, rfl⟩)

theorem vnodeCleanRefs_settles (h : s.NodesOk xs) (v : VnodeRef) : Settles (vnodeCleanRefs v) s fun _ => xs := by
  refine modVnode_same h ?_ (.inr ?_)
  · split <;> rfl
  · split <;> exact ⟨rfl, rfl, rfl, rfl⟩

/-- What `put_vnode` does to the slot of the vnode. -/
def VnodeSlot.put (vp : VnodeSlot) : Option VnodeSlot :=
  if 1 < vp.refCount then
    some { vp with refCount := vp.refCount - 1, fsCount := if 256 < vp.fsCount then 1 else vp.fsCount }
  else if vp.refCount = 0 then none
  else if vp.fsCount ≤ 0 then none
  else some { vp with fsCount := 0, refCount := 0, sdev := NO_DEV }

theorem VnodeSlot.put_some {vp vp' : VnodeSlot} (h : vp.put = some vp') :
    vp'.refCount = vp.refCount - 1 ∧ (vp.refCount = 1 ∨ SameNode vp vp') := by
  unfold put at h
  split at h
  · cases h
    exact ⟨rfl, .inr ⟨rfl, rfl, rfl, rfl⟩⟩
  · split_ifs at h
    cases h
    exact ⟨by dsimp only; omega, .inl (by omega)⟩

theorem putVnode_eq (v : VnodeRef) (s : Tables) :
    putVnode v s = (s.vnode v).put.map fun vp => ((), s.modVnode v fun _ => vp) := by
  unfold putVnode VnodeSlot.put
  show (if _ then _ else _ : Prog Tables Unit) s = _
  split
  · show (if _ then _ else _ : Prog Tables Unit) _ = _
    split
    next hfs =>
      have hle : ¬(s.vnode v).fsCount ≤ 1 := by omega
      show some ((), _) = some ((), _)
      simp [Tables.modVnode, hle]
    · rfl
  · show (if _ then _ else _ : Prog Tables Unit) s = _
    split
    · rfl
    · show (if _ then _ else _ : Prog Tables Unit) s = _
      split <;> rfl

theorem putVnode_after {Q : Tables → Prop} (h : ∀ vp, (s.vnode v).put = some vp → Q (s.modVnode v fun _ => vp)) :
    After (putVnode v) s fun _ s' => Q s' := by
  intro a s' hs
  rw [putVnode_eq] at hs
  obtain ⟨vp, hvp, he⟩ := Option.map_eq_some_iff.mp hs
  cases he
  exact h vp hvp

theorem putVnode_settles (h : s.NodesOk (v :: xs)) : Settles (putVnode v) s fun _ => xs := by
  refine putVnode_after fun vp hvp => ?_
  obtain ⟨hcount, hsame⟩ := VnodeSlot.put_some hvp
  have hq : Quiet s (s.modVnode v fun _ => vp) := by
    refine .modVnode (hsame.imp_left fun h1 x hx => ?_)
    -- the last reference: nobody holds the vnode
    have h1 : s.refCounts v = 1 := h1
    have := held_pos.mpr ⟨x, hx⟩
    have hb := h v
    rw [List.count_cons_self] at hb
    omega
  refine ⟨?_, hq⟩
  unfold NodesOk
  rw [refCounts_modVnode, hq.refs, hcount]
  exact Balanced.put h

/-- What `put_vnode` does to the vnodes. -/
theorem putVnode_spec (s : Tables) (v : VnodeRef) : After (putVnode v) s fun _ s' =>
    s'.refCounts = update s.refCounts v (s.refCounts v - 1) ∧ (∀ w ≠ v, s'.vnode w = s.vnode w) ∧
      (1 < s.refCounts v → (s'.vnode v).sdev = (s.vnode v).sdev) := by
  refine putVnode_after fun vp hvp => ?_
  obtain ⟨hcount, hsame⟩ := VnodeSlot.put_some hvp
  refine ⟨?_, fun w hw => update_of_ne hw _ _, fun h1 => ?_⟩
  · rw [refCounts_modVnode, hcount]
    rfl
  · rw [show (s.modVnode v fun _ => vp).vnode v = vp from update_self ..]
    exact (hsame.resolve_left (ne_of_gt h1)).sdev

theorem getFreeVnode_settles (h : s.NodesOk xs) :
    After getFreeVnode s fun r s' => s'.NodesOk xs ∧ Quiet s s' ∧ ∀ v ∈ r, (s'.vnode v).refCount = 0 := by
  unfold getFreeVnode
  refine .get ?_
  cases hf : s.freeVnode with
  | none =>
    refine .bind (Q := fun _ s' => s'.NodesOk xs ∧ Quiet s s') (.modify ⟨h, .of_eq rfl rfl rfl rfl rfl rfl⟩)
      fun _ s' h' => .pure ⟨h'.1, h'.2, ?_⟩
    rintro v ⟨⟩
  | some v =>
    have h0 := freeVnode_some hf
    have hq : Quiet s (s.modVnode v fun vp => { vp with sdev := -1 }) := .modVnode (.inl (h.not_held h0))
    refine .bind (Q := fun _ s' => s' = s.modVnode v fun vp => { vp with sdev := -1 }) (.modify rfl)
      fun _ s' h' => .pure ?_
    subst h'
    refine ⟨h.congr ?_ hq.refs, hq, ?_⟩
    · rw [refCounts_modVnode]
      exact update_eq_self v s.refCounts
    · rintro w ⟨⟩
      show (update s.vnode v _ v).refCount = 0
      rw [update_self]
      exact h0

/-- A vnode for an inode: a used one gets one more reference, or a free one is filled in. -/
theorem claimVnode_settles (h : s.NodesOk xs) {new : VnodeRef} (h0 : (s.vnode new).refCount = 0) (res : NodeDetails) :
    Settles (claimVnode new res) s fun v => v :: xs := by
  unfold claimVnode
  refine .get ?_
  cases hf : s.findVnode res.fsE res.inodeNr with
  | some v =>
    exact .bind (modVnode_dup h rfl (.inr ⟨rfl, rfl, rfl, rfl⟩)) fun _ s' h' _ => .pure h'
  | none =>
    cases s.findVmnt res.fsE with
    | none => exact .crash
    | some m => exact .bind (modVnode_dup h (by rw [h0]) (.inl (h.not_held h0))) fun _ s' h' _ => .pure h'

theorem createdVnode_settles (h : s.NodesOk xs) {new : VnodeRef} (h0 : (s.vnode new).refCount = 0) (dirVp : VnodeRef)
    (res : NodeDetails) : Settles (createdVnode new dirVp res) s fun v => v :: xs := by
  unfold createdVnode
  refine .get ?_
  cases hf : s.findVnode res.fsE res.inodeNr with
  | some v => exact .bind (modVnode_dup h rfl (.inr ⟨rfl, rfl, rfl, rfl⟩)) fun _ s' h' _ => .pure h'
  | none =>
    cases (s.vnode dirVp).vmnt with
    | none => exact .crash
    | some m => exact .bind (modVnode_dup h (by rw [h0]) (.inl (h.not_held h0))) fun _ s' h' _ => .pure h'

/-- The references that a lookup adds. -/
def found : Except Int VnodeRef → List VnodeRef
  | .error _ => []
  | .ok v => [v]

theorem lookupRelVp_settles (h : s.NodesOk xs) (res : Except Int NodeDetails) :
    Settles (lookupRelVp res) s fun r => found r ++ xs := by
  unfold lookupRelVp
  refine After.bind (getFreeVnode_settles h) fun r s' ⟨h', hq, h0⟩ => ?_
  cases r with
  | none => exact .pure ⟨h', hq⟩
  | some new =>
    cases res with
    | error r => exact .pure ⟨h', hq⟩
    | ok res =>
      refine After.bind (claimVnode_settles h' (h0 new rfl) res) fun v s'' ⟨h'', hq'⟩ => .pure ⟨h'', hq.trans hq'⟩

theorem lookupVp_settles (h : s.NodesOk xs) (p : ProcRef) (res : Except Int NodeDetails) :
    Settles (lookupVp p res) s fun r => found r ++ xs := by
  unfold lookupVp
  exact .get (.ite (fun _ => .pure h) fun _ => lookupRelVp_settles h res)

theorem lookupLastdirRel_settles (h : s.NodesOk xs) (start : VnodeRef) (l : LastDir) :
    Settles (lookupLastdirRel start l) s fun r => found r ++ xs := by
  cases l with
  | empty => exact .pure h
  | entry => exact .bind (dupVnode_settles h start) fun _ s' h' _ => .pure h'
  | lookup res => exact lookupRelVp_settles h res

/-! ## Creating and looking up for an open -/

/-- The references after a round of `create_open`. -/
def Round.refs : Round → List VnodeRef
  | .done (.error _) => []
  | .done (.ok (v, _)) => [v]
  | .again v => [v]

theorem put_done {r : Round} (h : s.NodesOk (v :: (r.refs ++ xs))) :
    Settles (do putVnode v; return r) s fun r => r.refs ++ xs :=
  .bind (putVnode_settles h) fun _ _ h' _ => .pure h'

theorem createFailed_settles {dirVp : VnodeRef} (h : s.NodesOk (dirVp :: xs)) (p : ProcRef) (excl : Bool)
    (q : CreateRound)
    (r : Int) : Settles (createFailed p excl q dirVp r) s fun r => r.refs ++ xs := by
  unfold createFailed
  refine .ite (fun _ => put_done h) fun _ => ?_
  refine .bind (lookupRelVp_settles h q.lookup) fun r1 s1 h1 _ => ?_
  cases r1 with
  | ok vp => exact put_done (h1.perm (.swap _ _ _))
  | error r1 =>
    refine .ite (fun _ => put_done h1) fun _ => .ite (fun _ => put_done h1) fun _ => ?_
    refine .bind (lookupRelVp_settles h1 q.link) fun r2 s2 h2 _ => ?_
    cases r2 with
    | error r2 => exact put_done h2
    | ok vp =>
      refine .get (.ite (fun _ => put_done (h2.perm (.swap _ _ _))) fun _ => ?_)
      refine .bind (putVnode_settles h2) fun _ s3 h3 _ => ?_
      match q.rdlink with
      | .error r => exact put_done h3
      | .ok false => exact .pure h3
      | .ok true =>
        refine .bind (putVnode_settles h3) fun _ s4 h4 _ => .get ?_
        cases (s4.fproc p).rd with
        | none => exact .crash
        | some startVp => exact .bind (dupVnode_settles h4 startVp) fun _ s5 h5 _ => .pure h5

theorem createRound_settles {startVp : VnodeRef} (h : s.NodesOk (startVp :: xs)) (p : ProcRef) (excl : Bool)
    (q : CreateRound) :
    Settles (createRound p excl q startVp) s fun r => r.refs ++ xs := by
  unfold createRound
  refine .bind (lookupLastdirRel_settles h startVp q.lastdir) fun r s1 h1 _ => ?_
  have h1 : s1.NodesOk (startVp :: (found r ++ xs)) := h1.perm List.perm_middle
  refine .bind (putVnode_settles h1) fun _ s2 h2 _ => ?_
  cases r with
  | error r => exact .pure h2
  | ok dirVp =>
    refine .ite (fun _ => put_done h2) fun _ => ?_
    refine After.bind (getFreeVnode_settles h2) fun r s3 ⟨h3, hq3, h0⟩ => ?_
    have h3 : s3.NodesOk (dirVp :: xs) := h3
    suffices Settles _ s3 fun r : Round => r.refs ++ xs from After.mono this fun _ _ h => ⟨h.1, hq3.trans h.2⟩
    cases r with
    | none => exact put_done h3
    | some newVp =>
      dsimp only
      split
      · next res _ =>
        -- the free vnode is still free when the directory has been given back
        have hput : After (putVnode dirVp) s3 fun _ s' =>
            (s'.NodesOk xs ∧ Quiet s3 s') ∧ (s'.vnode newVp).refCount = 0 := by
          intro a s' hs
          refine ⟨putVnode_settles h3 a s' hs, ?_⟩
          have hc := congrFun (putVnode_spec s3 dirVp a s' hs).1 newVp
          have h0 : s3.refCounts newVp = 0 := h0 newVp rfl
          have hne : newVp ≠ dirVp := by
            rintro rfl
            exact absurd h0 (Balanced.pos_of_mem h3 List.mem_cons_self).ne'
          rw [update_of_ne hne] at hc
          exact hc.trans h0
        refine After.bind hput fun _ s4 ⟨⟨h4, hq4⟩, h0⟩ => ?_
        refine After.bind (createdVnode_settles h4 h0 dirVp res) fun vp s5 ⟨h5, hq5⟩ => .pure ⟨h5, hq4.trans hq5⟩
      · next r _ => exact .ite (fun _ => put_done h3) fun _ => createFailed_settles h3 p excl q r

/-- The references that opening a file adds. -/
def opened : Except Int (VnodeRef × Bool) → List VnodeRef
  | .error _ => []
  | .ok (v, _) => [v]

theorem createRounds_settles (p : ProcRef) (excl : Bool) (rounds : Nat → CreateRound) :
    ∀ (n : Nat) {s : Tables} {startVp : VnodeRef}, s.NodesOk (startVp :: xs) →
      Settles (createRounds p excl rounds n startVp) s fun r => opened r ++ xs
  | 0, s, startVp, h => .bind (putVnode_settles h) fun _ _ h' _ => .pure h'
  | n + 1, s, startVp, h => by
    refine .bind (createRound_settles h p excl (rounds n)) fun r s1 h1 _ => ?_
    match r with
    | .done (.error r) => exact .pure h1
    | .done (.ok (v, b)) => exact .pure h1
    | .again startVp => exact createRounds_settles p excl rounds n h1

theorem openNode_settles (h : s.NodesOk xs) (p : ProcRef) (absolute : Bool) (q : OpenReq) :
    Settles (openNode p absolute q) s fun r => opened r ++ xs := by
  unfold openNode
  match q.creat with
  | some (excl, rounds) =>
    show Settles (createOpen p excl absolute rounds) s _
    unfold createOpen
    refine .get ?_
    split
    · exact .bind (dupVnode_settles h _) fun _ s1 h1 _ => createRounds_settles p excl rounds 16 h1
    · exact .pure h
  | none =>
    refine .bind (lookupVp_settles h p q.lookup) fun r s1 h1 _ => ?_
    cases r with
    | error r => exact .pure h1
    | ok vp => exact .pure h1

theorem existsOpen_settles (h : s.NodesOk xs) (vp : VnodeRef) (q : OpenReq) :
    Settles (existsOpen vp q) s fun _ => xs := by
  unfold existsOpen
  refine .get (.ite (fun _ => .pure h) fun _ => ?_)
  split
  · exact .pure h
  · exact .ite (fun _ => .crash) fun _ => .pure h
  · exact .ite (fun _ => .crash) fun _ => .pure h
  · exact .pure h

theorem statPath_settles (h : s.NodesOk xs) (p : ProcRef) (res : Except Int NodeDetails) :
    Settles (statPath p res) s fun _ => xs := by
  unfold statPath
  refine .bind (lookupVp_settles h p res) fun r s1 h1 _ => ?_
  cases r with
  | error r => exact .pure h1
  | ok vp => exact .bind (putVnode_settles h1) fun _ s2 h2 _ => .pure h2

end Minix.Vfs
