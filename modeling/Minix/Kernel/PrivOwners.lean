import Minix.Kernel.Boot
import Minix.Kernel.PrivOwned
import Minix.Lib.Run

/-!
# Who has which privilege structure

`privOwners_of_run`: in every run from a boot image in which a process that already has a privilege structure of its own
is not given another one, each structure in use belongs to one process, which is the one it names, and the others are
free.

Without the condition this fails (`privOwners_retry`): `SYS_PRIV_INIT` takes a structure before it checks its arguments.
When it has failed and is tried again, it takes another one, and the first is lost.
-/

namespace Minix.Kernel

open Minix.Lib List Option

namespace State

variable {k k' : State}

/-! ## Requests for privileges -/

/-- A change of privileges: flags are changed at most by a process that gets its privileges. -/
structure Grants (k k' : State) : Prop where
  same : k.OwnSame k'
  free : ∀ p, .slotFree ∈ (k'.proc p).pRtsFlags ↔ .slotFree ∈ (k.proc p).pRtsFlags
  noPriv : ∀ p, .noPriv ∈ (k'.proc p).pRtsFlags → .noPriv ∈ (k.proc p).pRtsFlags

namespace Grants

variable {k'' : State}

theorem of_proc (hs : k.OwnSame k') (hp : k'.proc = k.proc) : k.Grants k' :=
  ⟨hs, fun p => by rw [hp], fun p h => by rwa [hp] at h⟩

theorem refl (k : State) : k.Grants k := of_proc (.refl k) rfl

theorem trans (h : k.Grants k') (h' : k'.Grants k'') : k.Grants k'' where
  same := h.same.trans h'.same
  free p := (h'.free p).trans (h.free p)
  noPriv p hp := h.noPriv p (h'.noPriv p hp)

theorem rtsUnset (k : State) (p : Slot) : k.Grants (k.rtsUnset p {.noPriv}) := by
  have hproc : (k.rtsUnset p {.noPriv}).proc =
      (k.modProc p fun r => { r with pRtsFlags := r.pRtsFlags \ {.noPriv} }).proc := by
    unfold State.rtsUnset
    dsimp only
    split_ifs <;> rfl
  refine ⟨.rtsUnset k p _, fun q => ?_, fun q => ?_⟩ <;> rw [hproc] <;> by_cases hq : q = p
  all_goals simp [modProc, hq]

end Grants

namespace PrivInv

theorem grants (h : k.PrivInv) (hg : k.Grants k') : k'.PrivInv where
  owned := (h.owned.same hg.same).congr fun p => not_congr (hg.free p)
  waits p hp := mt (hg.free p).mp (h.waits p (hg.noPriv p hp))

theorem of_flags (h : k.PrivInv) (hf : ∀ p, (k'.proc p).pRtsFlags = (k.proc p).pRtsFlags) (ho : k'.Owned k.InUse) :
    k'.PrivInv where
  owned := ho.congr fun p => by rw [InUse, hf, InUse]
  waits p hp := by
    rw [hf] at hp
    rw [InUse, hf]
    exact h.waits p hp

end PrivInv

theorem setSendtoBit_proc (k : State) (rp : Slot) (id : PrivId) : (k.setSendtoBit rp id).proc = k.proc := by
  unfold setSendtoBit
  split
  · rfl
  · split_ifs <;> rfl

theorem sendMask_proc (k : State) (rp : Slot) (mask : PrivId → Bool) : (k.sendMask rp mask).proc = k.proc := by
  unfold sendMask
  generalize finRange 32 = l
  induction l generalizing k with
  | nil => rfl
  | cons i l ih =>
    rw [foldl_cons, ih]
    split
    · exact setSendtoBit_proc k rp i
    · rfl

theorem Grants.sendMask (k : State) (rp : Slot) (mask : PrivId → Bool) : k.Grants (k.sendMask rp mask) :=
  .of_proc (.sendMask k rp mask) (sendMask_proc k rp mask)

theorem Grants.copyPriv {rp caller : Slot} {i : PrivId} (hsys : .sysProc ∈ k.privFlags caller) :
    (k.takePriv rp i).Grants ((k.takePriv rp i).copyPriv rp caller) := by
  -- the structure of the caller may be the new one
  have hsys' : .sysProc ∈ (k.takePriv rp i).privFlags caller := by
    rw [privFlags, takePriv_priv, takePriv_sFlags]
    by_cases hc : caller = rp
    · simp [hc]
    · rw [if_neg hc]
      split
      · simp
      · exact hsys
  have hrp : ((k.takePriv rp i).proc rp).pPriv = i := by rw [takePriv_priv, if_pos rfl]
  refine .of_proc ?_ rfl
  unfold State.copyPriv
  refine .modPriv _ _ ?_ ?_
  · rw [hrp, takePriv_procNr, if_pos rfl]
  · have hnew : .sysProc ∈ ((k.takePriv rp i).priv i).sFlags := by
      rw [takePriv_sFlags, if_pos rfl]
      exact Finset.mem_singleton_self _
    rw [hrp]
    exact iff_of_true hsys' hnew

end State

namespace PrivState

variable {s s' : PrivState} {rp caller : Slot} {i : PrivId} {ip : BootImage}

theorem setFlag_grants (s : PrivState) (rp : Slot) {f : PrivFlag} (hf : f ≠ .sysProc) :
    s.kernel.Grants (s.setFlag rp f).kernel := by
  refine .of_proc ?_ rfl
  unfold setFlag
  dsimp only
  exact .modPriv s.kernel _ rfl (by simp [hf.symm])

theorem initDefaults_grants (hsys : .sysProc ∈ s.kernel.privFlags caller) (rp : Slot) (i : PrivId) :
    (s.kernel.takePriv rp i).Grants
      (PrivState.initDefaults { s with kernel := s.kernel.takePriv rp i } rp caller).kernel := by
  unfold initDefaults
  dsimp only
  exact (State.Grants.copyPriv hsys).trans (.sendMask _ _ _)

theorem initArg_grants (s : PrivState) (rp : Slot) (a : PrivArg) : s.kernel.Grants (s.initArg rp a).2.kernel := by
  have h1 := setFlag_grants s rp (f := .checkIrq) (by decide)
  rcases s.initArg_cases rp a with ⟨-, h⟩ | ⟨-, h⟩ | h <;> rw [h]
  · exact .refl _
  · exact h1
  · exact (h1.trans (setFlag_grants _ rp (by decide))).trans (.sendMask _ _ _)

theorem privInit_grants (hsys : .sysProc ∈ s.kernel.privFlags caller) (rp : Slot) (arg : Option (Except Int PrivArg)) :
    (s.kernel.freePriv = none ∧ (s.privInit rp caller arg).2 = s) ∨
      ∃ i, s.kernel.freePriv = some i ∧ (s.kernel.takePriv rp i).Grants (s.privInit rp caller arg).2.kernel := by
  unfold privInit
  rw [State.getPriv_true]
  cases hf : s.kernel.freePriv with
  | none => exact .inl ⟨rfl, rfl⟩
  | some i =>
    refine .inr ⟨i, rfl, ?_⟩
    have h1 := initDefaults_grants hsys rp i
    simp only [ne_eq, not_true_eq_false, if_false]
    generalize PrivState.initDefaults { s with kernel := s.kernel.takePriv rp i } rp caller = s1 at h1
    cases arg with
    | none => exact h1.trans (.rtsUnset _ _)
    | some x =>
      cases x with
      | error r => exact h1
      | ok a =>
        have h2 := h1.trans (initArg_grants s1 rp a)
        dsimp only
        split
        · exact h2
        · exact h2.trans (.rtsUnset _ _)

/-- A request does not give privileges to a process that has a structure of its own. -/
def ReqOk (s : PrivState) (rp : Slot) : PrivReq → Prop
  | .init _ => (s.kernel.proc rp).pPriv = userPrivId
  | .user => (s.kernel.proc rp).pPriv = userPrivId
  | _ => True

/-- What is required of an operation. A process whose slot is free has no other flag when a process exits or forks. -/
def StepOk (s : PrivState) : PrivOp → Prop
  | .op (.exit ..) => ∀ p, s.kernel.isemptyp p = true ∨ s.kernel.InUse p
  | .op (.fork ..) => ∀ p, s.kernel.isemptyp p = true ∨ s.kernel.InUse p
  | .op _ => True
  | .privctl whoP e q => ∀ rp ∈ s.target whoP e, .noPriv ∈ (s.kernel.proc rp).pRtsFlags → s.ReqOk rp q

theorem doPrivctl_inv (h : s.kernel.PrivInv) {whoP : Slot} {e : Endpoint} {q : PrivReq}
    (hok : s.StepOk (.privctl whoP e q)) :
    (s.doPrivctl whoP e q).2.kernel.PrivInv := by
  rcases s.doPrivctl_cases whoP e q with hs | ⟨rp, f, hf, hs⟩ | ⟨hsys, rp, hrp, hno, hs⟩
  · rwa [hs]
  · rw [hs]
    exact h.grants (setFlag_grants s rp hf)
  · have hq := hok rp hrp hno
    -- the process that gets its privileges exists
    have huse (p : Slot) : s.kernel.InUse p ↔ p = rp ∨ s.kernel.InUse p := by
      refine ⟨.inr, ?_⟩
      rintro (rfl | hp)
      · exact h.waits p hno
      · exact hp
    rcases hs with ⟨rfl, hs⟩ | ⟨arg, rfl, hs⟩ <;> rw [hs]
    · have h1 := (h.owned.sharePriv fun _ => hq).congr huse
      exact (h.of_flags (State.sharePriv_flags _ rp) h1).grants (.rtsUnset _ _)
    · rcases privInit_grants hsys rp arg with ⟨-, hs⟩ | ⟨i, hi, hg⟩
      · rwa [hs]
      · have h1 := (h.owned.takePriv (fun _ => hq) hi).congr huse
        exact (h.of_flags (State.takePriv_flags _ rp i) h1).grants hg

/-- A step keeps the owners of the structures right. -/
theorem step_inv {o : PrivOp} (h : s.kernel.PrivInv) (hok : s.StepOk o) (hs : s.step o = some s') :
    s'.kernel.PrivInv := by
  obtain ⟨he, -⟩ := filter_eq_some_iff.mp hs
  cases o with
  | op o =>
    obtain ⟨k, hk, rfl⟩ := map_eq_some_iff.mp he
    rcases State.PrivSame.exec hk with hs | ⟨whoP, e, rc, rfl, rfl⟩ | ⟨e, rpc, vm, lin, rfl, rfl⟩
    · exact h.same hs
    · exact h.clearProc (hok _)
    · exact h.doFork hok e rpc vm lin
  | privctl whoP e q =>
    cases he
    exact doPrivctl_inv h hok

/-! ## Boot -/

/-- The structure of a process of the boot image is a new one, or the shared one. -/
theorem bootPriv_cases (hs : s.bootPriv ip = some s') :
    ∃ k : State, k.proc = s.kernel.proc ∧ k.priv = s.kernel.priv ∧
      ((.sysProc ∈ ip.flags ∧ ∃ i, k.freePriv = some i ∧ s'.kernel = bootGrants (k.takePriv ip.procNr i) ip) ∨
        .sysProc ∉ ip.flags ∧ s'.kernel = bootGrants (k.sharePriv ip.procNr) ip) := by
  refine ⟨{ s.kernel with sched := bootSched s.kernel.sched ip }, rfl, rfl, ?_⟩
  unfold bootPriv at hs
  dsimp only at hs
  generalize ({ s.kernel with sched := bootSched s.kernel.sched ip } : State) = k at hs
  by_cases hsys : .sysProc ∈ ip.flags
  · rw [decide_eq_true hsys, State.getPriv_true] at hs
    refine .inl ⟨hsys, ?_⟩
    cases hi : k.freePriv with
    | none =>
      rw [hi] at hs
      simp [ENOSPC, OK] at hs
    | some i =>
      rw [hi] at hs
      simp only [ne_eq, not_true_eq_false, if_false, some.injEq] at hs
      subst hs
      exact ⟨i, rfl, rfl⟩
  · rw [decide_eq_false hsys, State.getPriv_false] at hs
    simp only [ne_eq, not_true_eq_false, if_false, some.injEq] at hs
    subst hs
    exact .inr ⟨hsys, rfl⟩

theorem foldl_sendto_proc (ip : BootImage) (l : List (Fin 16)) (k : State) :
    (l.foldl (fun k j => if ip.ipcTo j then k.setSendtoBit ip.procNr (j.castLE (by decide)) else k) k).proc =
    k.proc := by
  induction l generalizing k with
  | nil => rfl
  | cons j l ih =>
    rw [foldl_cons, ih]
    split
    · exact State.setSendtoBit_proc k ip.procNr _
    · rfl

theorem bootGrants_proc (k : State) (ip : BootImage) : (bootGrants k ip).proc = k.proc := by
  rw [bootGrants, foldl_sendto_proc]
  rfl

theorem bootGrants_same {k : State} (hf : .sysProc ∈ ip.flags ↔ .sysProc ∈ k.privFlags ip.procNr) :
    k.OwnSame (bootGrants k ip) := by
  refine .trans (.modPriv k _ rfl hf) (.foldl (fun k j => ?_) _ _)
  split
  · exact .setSendtoBit k _ _
  · exact .refl k

theorem takePriv_sys (k : State) (rp : Slot) (i : PrivId) : .sysProc ∈ (k.takePriv rp i).privFlags rp := by
  rw [State.privFlags, State.takePriv_priv, if_pos rfl, State.takePriv_sFlags, if_pos rfl]
  exact Finset.mem_singleton_self _

theorem bootPriv_spec {use : Slot → Prop} (h : s.kernel.Owned use) (hno : ¬use ip.procNr)
    (hs : s.bootPriv ip = some s') : s'.kernel.Owned (fun p => p = ip.procNr ∨ use p) ∧
      ∀ p, (s'.kernel.proc p).pRtsFlags = (s.kernel.proc p).pRtsFlags := by
  obtain ⟨k, hproc, hpriv, hk⟩ := bootPriv_cases hs
  have h0 : k.Owned use := h.same (.of_flags (fun p => by rw [hproc]) hpriv)
  rcases hk with ⟨hsys, i, hi, hs'⟩ | ⟨hsys, hs'⟩ <;> rw [hs']
  · refine ⟨(h0.takePriv (fun hu => absurd hu hno) hi).same (bootGrants_same (iff_of_true hsys (takePriv_sys k _ i))),
      fun p => ?_⟩
    rw [bootGrants_proc, State.takePriv_flags, hproc]
  · refine ⟨(h0.sharePriv fun hu => absurd hu hno).same (bootGrants_same (iff_of_false hsys ?_)), fun p => ?_⟩
    · rw [State.privFlags, State.sharePriv_priv, if_pos rfl, State.sharePriv_sFlags]
      exact h0.user
    · rw [bootGrants_proc, State.sharePriv_flags, hproc]

theorem bootReady_spec (s : PrivState) (ip : BootImage) : s.kernel.OwnSame (s.bootReady ip).kernel ∧
    ∀ p, ((s.bootReady ip).kernel.InUse p ↔ p = ip.procNr ∨ s.kernel.InUse p) ∧
      (.noPriv ∈ ((s.bootReady ip).kernel.proc p).pRtsFlags ↔ .noPriv ∈ (s.kernel.proc p).pRtsFlags) := by
  unfold bootReady
  set k1 := if .procFullvm ∈ s.kernel.privFlags ip.procNr then s.kernel.rtsSet ip.procNr {.vminhibit}
    else s.kernel with hk1
  have h1 : s.kernel.PrivSame k1 := by
    rw [hk1]
    split_ifs
    · exact .rtsSet _ _ (by simp) (by simp)
    · exact .refl _
  set k2 := if ip.procNr = HARDWARE then k1.rtsSet ip.procNr {.procStop} else k1 with hk2
  have h2 : s.kernel.PrivSame k2 := by
    rw [hk2]
    split_ifs
    · exact h1.trans (.rtsSet _ _ (by simp) (by simp))
    · exact h1
  refine ⟨h2.ownSame.trans (.rtsUnset _ _ _), fun p => ?_⟩
  have hproc : (k2.rtsUnset ip.procNr {.slotFree}).proc =
      (k2.modProc ip.procNr fun r => { r with pRtsFlags := r.pRtsFlags \ {.slotFree} }).proc := by
    unfold State.rtsUnset
    dsimp only
    split_ifs <;> rfl
  have hf := h2.free p
  have hn := h2.noPriv p
  rw [State.InUse, State.InUse, hproc, ← hf, ← hn]
  by_cases hp : p = ip.procNr <;> simp [State.modProc, hp]

/-- Some of the processes of the boot image have been set up. -/
structure Booted (done : List Slot) (s : PrivState) : Prop where
  owned : s.kernel.Owned (· ∈ done)
  inUse : ∀ p, s.kernel.InUse p ↔ p ∈ done
  noPriv : ∀ p, .noPriv ∉ (s.kernel.proc p).pRtsFlags

theorem booted_nil : Booted [] clearedTables where
  owned := ⟨fun p hp => absurd hp not_mem_nil, nofun, fun p hp => absurd hp not_mem_nil,
    Finset.notMem_empty _⟩
  inUse p := by simp [State.InUse, clearedTables]
  noPriv p := by simp [clearedTables]

theorem Booted.proc {done : List Slot} (h : s.Booted done) (hno : ip.procNr ∉ done)
    (hs : s.bootProc ip = some s') : s'.Booted (done ++ [ip.procNr]) := by
  obtain ⟨s1, hs1, rfl⟩ := map_eq_some_iff.mp hs
  obtain ⟨ho, hf⟩ := bootPriv_spec h.owned hno hs1
  obtain ⟨hsame, hready⟩ := bootReady_spec s1 ip
  have hmem (p : Slot) : p ∈ done ++ [ip.procNr] ↔ p = ip.procNr ∨ p ∈ done := by
    rw [mem_append, mem_singleton, or_comm]
  refine ⟨(ho.same hsame).congr hmem, fun p => ?_, fun p => ?_⟩
  · rw [(hready p).1, hmem, State.InUse, hf, ← h.inUse p, State.InUse]
  · rw [(hready p).2, hf]
    exact h.noPriv p

/-- So does the loop over the boot image. -/
theorem Booted.run : ∀ {image : List BootImage} {done : List Slot} {s : PrivState}, s.Booted done →
    (done ++ image.map (·.procNr)).Nodup → image.foldlM bootProc s = some s' → s'.Booted (done ++ image.map (·.procNr))
  | [], done, s, h, _, hs => by
    cases hs
    simpa using h
  | ip :: image, done, s, h, hn, hs => by
    rw [foldlM_cons] at hs
    obtain ⟨s1, hs1, hs⟩ := bind_eq_some_iff.mp hs
    rw [map_cons, append_cons] at hn ⊢
    have hno : ip.procNr ∉ done := by
      have := (nodup_append.mp (nodup_append.mp hn).1).2.2
      exact fun hd => this ip.procNr hd ip.procNr (mem_singleton_self _) rfl
    exact (h.proc hno hs1).run hn hs

theorem Booted.inv {done : List Slot} (h : s.Booted done) : s.kernel.PrivInv :=
  ⟨h.owned.congr h.inUse, fun p hp => absurd hp (h.noPriv p)⟩

end PrivState

/-! ## The property -/

namespace State

/-- Who has which privilege structure. The structure of the user processes is shared. -/
structure PrivOwners (k : State) : Prop where
  /-- A structure in use belongs to one process, which is the one it names. -/
  owner : ∀ i p, i ≠ userPrivId → (k.priv i).sProcNr = some p →
    k.InUse p ∧ (k.proc p).pPriv = i ∧ ∀ q, k.InUse q → (k.proc q).pPriv = i → q = p
  /-- No process has a structure that names another one. -/
  refers : ∀ p, k.InUse p → (k.proc p).pPriv ≠ userPrivId → (k.priv (k.proc p).pPriv).sProcNr = some p
  /-- A structure that no process has is free, and can be taken. -/
  reuse : ∀ i, i ≠ userPrivId → (∀ p, k.InUse p → (k.proc p).pPriv ≠ i) →
    (k.priv i).sProcNr = none ∧ ∀ rc, (k.getPriv rc true).1 = OK

theorem PrivInv.privOwners {k : State} (h : k.PrivInv) : k.PrivOwners where
  owner i p hi hp := by
    obtain ⟨h1, h2⟩ := h.owned.back i p hi hp
    exact ⟨h1, h2, fun q hq he => h.owned.inj h1 hq (h2 ▸ hi) (he.trans h2.symm)⟩
  refers := h.owned.own
  reuse i hi hno := by
    have hfree : (k.priv i).sProcNr = none := by
      cases hp : (k.priv i).sProcNr with
      | none => rfl
      | some p =>
        obtain ⟨h1, h2⟩ := h.owned.back i p hi hp
        exact absurd h2 (hno p h1)
    refine ⟨hfree, fun rc => ?_⟩
    obtain ⟨j, hj⟩ := freePriv_isSome hfree hi
    rw [getPriv_true, hj]

end State

namespace PrivState

/-- In every run in which no process with a structure of its own is given another one. -/
theorem privOwners_of_run {image : List BootImage} {s s' : PrivState} (hn : (image.map (·.procNr)).Nodup)
    (hb : boot image = some s) {os : List PrivOp} (hok : AllOk step StepOk os s) (hr : run step os s = some s') :
    s'.kernel.PrivOwners := by
  have h0 : s.kernel.PrivInv := (booted_nil.run hn hb).inv
  exact (run_invariant (fun _ _ _ h => step_inv h) h0 hok hr).privOwners

instance (s : PrivState) (rp : Slot) : ∀ q, Decidable (s.ReqOk rp q)
  | .init _ | .user => inferInstanceAs (Decidable (_ = _))
  | .addIo _ | .addMem _ | .addIrq _ | .queryMem .. | .other => isTrue trivial

instance (s : PrivState) : ∀ o, Decidable (s.StepOk o)
  | .op (.exit ..) | .op (.fork ..) => inferInstanceAs (Decidable (∀ p, s.kernel.isemptyp p = true ∨ s.kernel.InUse p))
  | .op (.call ..) | .op (.resume ..) | .op (.notify ..) | .op (.reply ..) | .op (.kill ..) => isTrue trivial
  | .privctl whoP e q => inferInstanceAs (Decidable (∀ rp ∈ s.target whoP e, _ → s.ReqOk rp q))

/-- VFS forks, and its child in slot 20 waits for its privileges. -/
def forked : List PrivOp := [.op (plainCall VFS RECEIVE ANY), .op (.fork (procNr VFS) 20 false 1)]

/-- The endpoint of the child. -/
def childE : Endpoint := endpoint 1 (procNr 20)

/-- The child is made a system process, and exits. -/
def bornAndDied : List PrivOp := forked ++ [.privctl PM childE (.init none), .op (.exit PM childE)]

theorem privOwners_of_run_child : ∃ s s', boot image = some s ∧ run step bornAndDied s = some s' ∧
    s'.kernel.PrivOwners := by
  obtain ⟨s, hs, hok, s', hr, -⟩ : ∃ s, boot image = some s ∧ AllOk step StepOk bornAndDied s ∧
      ∃ s', run step bornAndDied s = some s' ∧ True := by decide +kernel
  exact ⟨s, s', hs, hr, privOwners_of_run (by decide +kernel) hs hok hr⟩

/-- `SYS_PRIV_INIT` fails after it has taken a structure, and is tried again. -/
def retried : List PrivOp :=
  forked ++ [.privctl PM childE (.init (some (.error EFAULT))), .privctl PM childE (.init none)]

/-- Structure 14 names the child, which has structure 15. -/
theorem privOwners_retry : ∃ s s', boot image = some s ∧ run step retried s = some s' ∧
    (s'.kernel.priv 14).sProcNr = some 20 ∧ (s'.kernel.proc 20).pPriv = 15 ∧ ¬s'.kernel.PrivOwners := by
  obtain ⟨s, hs, s', hr, h1, h2⟩ : ∃ s, boot image = some s ∧ ∃ s', run step retried s = some s' ∧
      (s'.kernel.priv 14).sProcNr = some 20 ∧ (s'.kernel.proc 20).pPriv = 15 := by decide +kernel
  refine ⟨s, s', hs, hr, h1, h2, fun hp => ?_⟩
  have := (hp.owner 14 20 (by decide) h1).2.1
  rw [h2] at this
  exact absurd this (by decide)

end PrivState

end Minix.Kernel
