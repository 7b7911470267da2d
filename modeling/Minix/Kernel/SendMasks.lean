import Minix.Kernel.MaskEdits

/-!
# Who may send to whom

`sendMasks_of_run`: in every run in which `SYS_PRIV_INIT` does not copy the bit of the new structure itself, two system
processes may send to each other or neither may send to the other, and no process may send to itself.

Without the condition the second part fails (`sendMasks_fails`): the bits of a structure stay in the masks of the others
when its process is gone, and the next process to take the structure is given a copy of them.
-/

namespace Minix.Kernel

open Minix.Lib List

/-! ## Requests for privileges -/

/-- The request gives the process a mask without bit `i`. -/
def Clears (i : PrivId) : Option (Except Int PrivArg) → Prop
  | some (.ok a) => ¬(a.nrIrq < 0 ∨ a.nrIrq > 4) ∧ ¬(a.nrIoRange < 0 ∨ a.nrIoRange > 32) ∧ i ∉ a.ipcTo
  | _ => False

namespace PrivState

variable {s : PrivState} {rp caller : Slot} {i : PrivId}

theorem setFlag_edit (s : PrivState) (rp : Slot) {f : PrivFlag} (hf : f ≠ .sysProc) (i : PrivId) :
    s.kernel.Edit i [] (s.setFlag rp f).kernel := by
  refine .of_ipcTo (setFlag_grants s rp hf).same (fun j => ?_) i
  by_cases hj : j = (s.kernel.proc rp).pPriv <;> simp [State.ipcTo, setFlag, State.modPriv, hj]

theorem rtsUnset_edit (k : State) (rp : Slot) (i : PrivId) : k.Edit i [] (k.rtsUnset rp {.noPriv}) := by
  refine .of_ipcTo (.rtsUnset k rp _) (fun j => ?_) i
  unfold State.rtsUnset
  dsimp only
  split_ifs <;> rfl

theorem initArg_edit (hn : s.kernel.Names) (hi : (s.kernel.proc rp).pPriv = i) (a : PrivArg) :
    ∃ l, s.kernel.Edit i l (s.initArg rp a).2.kernel ∧
    (Clears i (some (.ok a)) → i ∉ (s.initArg rp a).2.kernel.ipcTo i) := by
  have h1 := setFlag_edit s rp (f := .checkIrq) (by decide) i
  rcases s.initArg_cases rp a with ⟨hirq, h⟩ | ⟨hio, h⟩ | h <;> rw [h]
  · exact ⟨[], .refl _ i, fun hc => absurd hirq hc.1⟩
  · exact ⟨[], h1, fun hc => absurd hio hc.2.1⟩
  · have h12 := h1.trans (setFlag_edit _ rp (f := .checkIoPort) (by decide) i)
    have hn' := hn.same h12.same
    have hi' := (h12.same.priv rp).trans hi
    refine ⟨_, h12.trans (.sendMask hn' hi' _), fun hc => State.sendMask_own ?_ hn' hi'⟩
    exact decide_eq_false hc.2.2

theorem privInit_edit (hn : ((s.kernel.takePriv rp i).copyPriv rp caller).Names) (hi : s.kernel.freePriv = some i)
    (arg : Option (Except Int PrivArg)) : ∃ l, (∀ j, j ∈ l) ∧
      ((s.kernel.takePriv rp i).copyPriv rp caller).Edit i l (s.privInit rp caller arg).2.kernel ∧
      (Clears i arg → i ∉ (s.privInit rp caller arg).2.kernel.ipcTo i) := by
  have hrp : (((s.kernel.takePriv rp i).copyPriv rp caller).proc rp).pPriv = i :=
    (State.takePriv_priv s.kernel rp i rp).trans (if_pos rfl)
  have h1 := State.Edit.sendMask hn hrp fun j => j ≠ userPrivId
  have hmem (j : PrivId) : j ∈ finRange 32 := mem_finRange j
  have hrts (k : State) := rtsUnset_edit k rp i
  unfold privInit
  rw [State.getPriv_true, hi]
  simp only [ne_eq, not_true_eq_false, if_false]
  have hs1 : (PrivState.initDefaults { s with kernel := s.kernel.takePriv rp i } rp caller).kernel =
      ((s.kernel.takePriv rp i).copyPriv rp caller).sendMask rp fun j => j ≠ userPrivId := rfl
  generalize PrivState.initDefaults { s with kernel := s.kernel.takePriv rp i } rp caller = s1 at hs1
  rw [← hs1] at h1
  cases arg with
  | none => exact ⟨_, fun j => mem_append_left _ (hmem j), h1.trans (hrts _), fun hc => hc.elim⟩
  | some x =>
    cases x with
    | error r => exact ⟨_, hmem, h1, fun hc => hc.elim⟩
    | ok a =>
      obtain ⟨l, h2, hown⟩ := initArg_edit (hn.same h1.same) ((h1.same.priv rp).trans hrp) a
      have h12 := h1.trans h2
      dsimp only
      split
      · exact ⟨_, fun j => mem_append_left _ (hmem j), h12, hown⟩
      · refine ⟨_, fun j => mem_append_left _ (mem_append_left _ (hmem j)), h12.trans (hrts _), fun hc => ?_⟩
        exact mt (hrts _).own (hown hc)

/-- A request that gives a process privileges of its own does not leave the process its own bit. -/
def MaskOk (s : PrivState) : PrivOp → Prop
  | .privctl whoP e (.init arg) => ∀ rp ∈ s.target whoP e, .noPriv ∈ (s.kernel.proc rp).pRtsFlags →
      rp ≠ INIT ∧ ∀ i ∈ s.kernel.freePriv, i ∉ s.kernel.ipcTo (s.kernel.proc whoP).pPriv ∨ Clears i arg
  | _ => True

theorem privInit_masks (hm : s.kernel.Masks) (hinv : s.kernel.PrivInv) (hsys : .sysProc ∈ s.kernel.privFlags caller)
    (hrp : (s.kernel.proc rp).pPriv = userPrivId) (hno : rp ≠ INIT) (hi : s.kernel.freePriv = some i)
    (arg : Option (Except Int PrivArg)) (hbit : i ∉ s.kernel.ipcTo (s.kernel.proc caller).pPriv ∨ Clears i arg) :
    (s.privInit rp caller arg).2.kernel.Masks := by
  obtain ⟨-, hiu⟩ := State.freePriv_some hi
  -- the caller has a structure of its own
  have hne : caller ≠ rp := by
    rintro rfl
    rw [State.privFlags, hrp] at hsys
    exact hinv.owned.user hsys
  set k1 := (s.kernel.takePriv rp i).copyPriv rp caller with hk1
  have hG : (s.kernel.takePriv rp i).OwnSame k1 := (State.Grants.copyPriv hsys).same
  have hnr (j : PrivId) (hj : j ≠ i) : (k1.priv j).sProcNr = (s.kernel.priv j).sProcNr := by
    rw [hG.procNr, State.takePriv_procNr, if_neg hj]
  have hinit : (k1.proc INIT).pPriv = userPrivId := by
    rw [hG.priv, State.takePriv_priv, if_neg hno.symm]
    exact hm.init
  have hnamed (p : Slot) (hp : (k1.priv userPrivId).sProcNr = some p) : p = INIT := by
    rw [hnr userPrivId hiu.symm] at hp
    exact hm.named p hp
  have hmask (j : PrivId) (hj : j ≠ i) : k1.ipcTo j = s.kernel.ipcTo j := by
    rw [hk1, State.copyPriv_ipcTo hne, if_neg hj]
  have hN : k1.Names := ((hinv.owned.takePriv (fun _ => hrp) hi).same hG).names hinit hnamed
  obtain ⟨l, hl, hedit, hown⟩ := privInit_edit hN hi arg
  refine .edit hedit hinit hnamed (fun a b ha hb hpa hpb => ?_) (fun j hj => absurd (hl j) hj) (fun j hj ht => ?_) ?_
  · rw [hmask a ha, hmask b hb]
    exact hm.sym a b ((State.peer_congr (hnr a ha)).mp hpa) ((State.peer_congr (hnr b hb)).mp hpb)
  · rw [hmask j hj]
    exact hm.irr j ((State.taken_congr (hnr j hj)).mp ht)
  · rcases hbit with hbit | hbit
    · intro ho
      have := hedit.own ho
      rw [State.copyPriv_ipcTo hne, if_pos rfl] at this
      exact hbit this
    · exact hown hbit

theorem doPrivctl_masks (h : s.kernel.Masks) (hinv : s.kernel.PrivInv) {whoP : Slot} {e : Endpoint} {q : PrivReq}
    (hok : s.StepOk (.privctl whoP e q)) (hm : s.MaskOk (.privctl whoP e q)) :
    (s.doPrivctl whoP e q).2.kernel.Masks := by
  rcases s.doPrivctl_cases whoP e q with hs | ⟨rp, f, hf, hs⟩ | ⟨hsys, rp, hrp, hno, ⟨rfl, hs⟩ | ⟨arg, rfl, hs⟩⟩ <;>
    rw [hs]
  · exact h
  · have he := setFlag_edit s rp hf userPrivId
    exact h.edit_of_masks he fun ho => h.irr userPrivId (.inl rfl) (he.own ho)
  · have h1 := h.sharePriv rp
    have he := rtsUnset_edit (s.kernel.sharePriv rp) rp userPrivId
    exact h1.edit_of_masks he fun ho => h1.irr userPrivId (.inl rfl) (he.own ho)
  · rcases privInit_grants hsys rp arg with ⟨-, hs⟩ | ⟨i, hi, -⟩
    · rwa [hs]
    · obtain ⟨hI, hbit⟩ := hm rp hrp hno
      exact privInit_masks h hinv hsys (hok rp hrp hno) hI hi arg (hbit i hi)

/-- A step keeps the masks symmetric. -/
theorem step_masks {s' : PrivState} {o : PrivOp} (h : s.kernel.Masks) (hinv : s.kernel.PrivInv) (hok : s.StepOk o)
    (hm : s.MaskOk o) (hs : s.step o = some s') : s'.kernel.Masks := by
  obtain ⟨he, -⟩ := Option.filter_eq_some_iff.mp hs
  cases o with
  | op o =>
    obtain ⟨k, hk, rfl⟩ := Option.map_eq_some_iff.mp he
    rcases State.PrivSame.exec hk with hs | ⟨whoP, e, rc, rfl, rfl⟩ | ⟨e, rpc, vm, lin, rfl, rfl⟩
    · exact h.same hs
    · exact h.clearProc rc
    · exact h.doFork hinv hok e rpc vm lin
  | privctl whoP e q =>
    cases he
    exact doPrivctl_masks h hinv hok hm

end PrivState

/-! ## Boot -/

namespace State

variable {k : State} {rp : Slot} {i : PrivId}

/-- Only structures that some process may have are in masks, or have masks that are not empty. -/
def Fresh (k : State) : Prop := ∀ a b, b ∈ k.ipcTo a → k.Taken a ∧ k.Taken b

theorem Fresh.setSendtoBit (h : k.Fresh) (hn : k.Names) (hi : (k.proc rp).pPriv = i) (hti : k.Taken i) (j : PrivId) :
    (k.setSendtoBit rp j).Fresh := by
  have hs := OwnSame.setSendtoBit k rp j
  intro a b hb
  rw [taken_congr (hs.procNr a), taken_congr (hs.procNr b)]
  cases hj : (k.priv j).sProcNr with
  | none =>
    unfold State.setSendtoBit at hb
    rw [hj] at hb
    exact h a b hb
  | some rrp =>
    have htj : k.Taken j := .inr ⟨rrp, hj⟩
    by_cases h1 : a = i ∧ b ∈ [j]
    · obtain ⟨rfl, hbj⟩ := h1
      obtain rfl := mem_singleton.mp hbj
      exact ⟨hti, htj⟩
    · by_cases h2 : b = i ∧ a ∈ [j]
      · obtain ⟨rfl, haj⟩ := h2
        obtain rfl := mem_singleton.mp haj
        exact ⟨htj, hti⟩
      · exact h a b (((Edit.setSendtoBit hn hi j).frame a b h1 h2).mp hb)

end State

namespace PrivState

variable {s : PrivState} {i : PrivId} {k : State} {ip : BootImage} {use : Slot → Prop}

theorem foldl_sendto (ip : BootImage) : ∀ (l : List (Fin 16)) {k : State}, k.Names → (k.proc ip.procNr).pPriv = i →
    k.Taken i → k.Fresh → ∃ l', k.Edit i l'
      (l.foldl (fun k j => if ip.ipcTo j then k.setSendtoBit ip.procNr (j.castLE (by decide)) else k) k) ∧
      State.Fresh (l.foldl (fun k j => if ip.ipcTo j then k.setSendtoBit ip.procNr (j.castLE (by decide)) else k) k)
  | [], k, _, _, _, hF => ⟨[], .refl k i, hF⟩
  | j :: l, k, hn, hi, ht, hF => by
    rw [foldl_cons]
    split
    · have h1 := State.Edit.setSendtoBit hn hi (j.castLE (by decide))
      obtain ⟨l', h2, hF'⟩ := foldl_sendto ip l (hn.same h1.same) ((h1.same.priv _).trans hi)
        ((State.taken_congr (h1.same.procNr i)).mpr ht) (hF.setSendtoBit hn hi ht _)
      exact ⟨_, h1.trans h2, hF'⟩
    · exact foldl_sendto ip l hn hi ht hF

theorem bootGrants_edit (hf : .sysProc ∈ ip.flags ↔ .sysProc ∈ k.privFlags ip.procNr)
    (hn : k.Names) (hi : (k.proc ip.procNr).pPriv = i) (ht : k.Taken i) (hF : k.Fresh) :
    ∃ l, k.Edit i l (bootGrants k ip) ∧ (bootGrants k ip).Fresh := by
  unfold bootGrants
  rw [hi]
  set k1 := k.modPriv i fun r => { r with sFlags := ip.flags, sTrapMask := ip.trapMask } with hk1
  have hs : k.OwnSame k1 := .modPriv k i rfl (by rw [hf, State.privFlags, hi])
  have hm (j : PrivId) : k1.ipcTo j = k.ipcTo j := by
    by_cases hj : j = i <;> simp [hk1, State.ipcTo, State.modPriv, hj]
  have h1 : k.Edit i [] k1 := .of_ipcTo hs hm i
  have hF1 : k1.Fresh := by
    intro a b hb
    rw [hm] at hb
    rw [State.taken_congr (hs.procNr a), State.taken_congr (hs.procNr b)]
    exact hF a b hb
  obtain ⟨l, h2, hF2⟩ := foldl_sendto ip (finRange 16) (hn.same hs) ((hs.priv _).trans hi)
    ((State.taken_congr (hs.procNr i)).mpr ht) hF1
  exact ⟨_, h1.trans h2, hF2⟩

/-- The masks while the processes of the boot image are set up. -/
structure BootMasks (k : State) : Prop where
  masks : k.Masks
  fresh : k.Fresh

theorem bootMasks_cleared : BootMasks clearedTables.kernel := by
  refine ⟨⟨fun a b ha => ?_, fun i _ => ?_, rfl, fun p hp => ?_⟩, fun a b hb => ?_⟩
  · obtain ⟨-, p, hp, -⟩ := ha
    cases hp
  · exact Finset.notMem_empty i
  · cases hp
  · exact absurd hb (Finset.notMem_empty b)

theorem BootMasks.take (h : BootMasks k) (ho : k.Owned use)
    (hno : ¬use ip.procNr) (hinit : ip.procNr ≠ INIT) (hsys : .sysProc ∈ ip.flags) (hi : k.freePriv = some i) :
    BootMasks (bootGrants (k.takePriv ip.procNr i) ip) := by
  obtain ⟨hfree, hiu⟩ := State.freePriv_some hi
  have hnot : ¬k.Taken i := by
    rintro (hu | ⟨p, hp⟩)
    · exact hiu hu
    · rw [hfree] at hp
      cases hp
  set k1 := k.takePriv ip.procNr i with hk1
  have hnr (j : PrivId) (hj : j ≠ i) : (k1.priv j).sProcNr = (k.priv j).sProcNr := by
    rw [hk1, State.takePriv_procNr, if_neg hj]
  have hm (j : PrivId) : k1.ipcTo j = k.ipcTo j := State.takePriv_ipcTo k ip.procNr i j
  have hi1 : (k1.proc ip.procNr).pPriv = i := by rw [hk1, State.takePriv_priv, if_pos rfl]
  have ht1 : k1.Taken i := .inr ⟨ip.procNr, by rw [hk1, State.takePriv_procNr, if_pos rfl]⟩
  have hI : (k1.proc INIT).pPriv = userPrivId := by
    rw [hk1, State.takePriv_priv, if_neg hinit.symm]
    exact h.masks.init
  have hnamed (p : Slot) (hp : (k1.priv userPrivId).sProcNr = some p) : p = INIT := by
    rw [hnr userPrivId hiu.symm] at hp
    exact h.masks.named p hp
  have hN : k1.Names := (ho.takePriv (fun hu => absurd hu hno) hi).names hI hnamed
  have hF : k1.Fresh := by
    intro a b hb
    rw [hm] at hb
    obtain ⟨ha, hb⟩ := h.fresh a b hb
    rw [State.taken_congr (hnr a fun he => hnot (he ▸ ha)), State.taken_congr (hnr b fun he => hnot (he ▸ hb))]
    exact ⟨ha, hb⟩
  -- the structure is in no mask, and its own mask is empty
  have hrow (j : PrivId) : j ∉ k1.ipcTo i := fun hj => hnot (h.fresh i j (hm i ▸ hj)).1
  have hcol (j : PrivId) : i ∉ k1.ipcTo j := fun hj => hnot (h.fresh j i (hm j ▸ hj)).2
  obtain ⟨l, hE, hF'⟩ := bootGrants_edit (iff_of_true hsys (takePriv_sys k _ i)) hN hi1 ht1 hF
  refine ⟨.edit hE hI hnamed (fun a b ha hb hpa hpb => ?_) (fun j _ _ _ _ => iff_of_false (hrow j) (hcol j))
    (fun j hj ht => ?_) (mt hE.own (hrow i)), hF'⟩
  · rw [hm, hm]
    exact h.masks.sym a b ((State.peer_congr (hnr a ha)).mp hpa) ((State.peer_congr (hnr b hb)).mp hpb)
  · rw [hm]
    exact h.masks.irr j ((State.taken_congr (hnr j hj)).mp ht)

theorem BootMasks.share (h : BootMasks k) (ho : k.Owned use)
    (hno : ¬use ip.procNr) (hsys : .sysProc ∉ ip.flags) : BootMasks (bootGrants (k.sharePriv ip.procNr) ip) := by
  have h1 := h.masks.sharePriv ip.procNr
  have hO := ho.sharePriv fun hu => absurd hu hno
  have hp1 : ((k.sharePriv ip.procNr).proc ip.procNr).pPriv = userPrivId := by rw [State.sharePriv_priv, if_pos rfl]
  have htaken (j : PrivId) (hj : k.Taken j) : (k.sharePriv ip.procNr).Taken j := by
    by_cases hu : j = userPrivId
    · exact .inl hu
    · exact (State.taken_congr (State.sharePriv_procNr k _ hu)).mpr hj
  have hF : (k.sharePriv ip.procNr).Fresh := by
    intro a b hb
    rw [State.sharePriv_ipcTo] at hb
    obtain ⟨ha, hb⟩ := h.fresh a b hb
    exact ⟨htaken a ha, htaken b hb⟩
  have hf : .sysProc ∉ (k.sharePriv ip.procNr).privFlags ip.procNr := by
    rw [State.privFlags, hp1]
    exact hO.user
  obtain ⟨l, hE, hF'⟩ := bootGrants_edit (iff_of_false hsys hf) (hO.names h1.init h1.named) hp1 (.inl rfl) hF
  exact ⟨h1.edit_of_masks hE (mt hE.own (h1.irr userPrivId (.inl rfl))), hF'⟩

theorem bootReady_priv (s : PrivState) (ip : BootImage) : (s.bootReady ip).kernel.priv = s.kernel.priv := by
  unfold bootReady State.rtsUnset State.rtsSet
  dsimp only
  split_ifs <;> rfl

theorem BootMasks.proc {s' : PrivState} (h : BootMasks s.kernel) (ho : s.kernel.Owned use)
    (hno : ¬use ip.procNr) (hinit : ip.procNr = INIT → .sysProc ∉ ip.flags) (hs : s.bootProc ip = some s') :
    BootMasks s'.kernel := by
  obtain ⟨s1, hs1, rfl⟩ := Option.map_eq_some_iff.mp hs
  obtain ⟨k, hproc, hpriv, hk⟩ := bootPriv_cases hs1
  have hm (j : PrivId) : k.ipcTo j = s.kernel.ipcTo j := by rw [State.ipcTo, hpriv, State.ipcTo]
  have hnr (j : PrivId) : (k.priv j).sProcNr = (s.kernel.priv j).sProcNr := by rw [hpriv]
  have h0 : BootMasks k := by
    refine ⟨h.masks.mono (by rw [hproc]; exact h.masks.init) (fun j p hp => (hnr j).symm.trans hp) hm, fun a b hb => ?_⟩
    rw [hm] at hb
    rw [State.taken_congr (hnr a), State.taken_congr (hnr b)]
    exact h.fresh a b hb
  have ho0 : k.Owned use := ho.same (.of_flags (fun p => by rw [hproc]) hpriv)
  have h1 : BootMasks s1.kernel := by
    rcases hk with ⟨hsys, i, hi, hs'⟩ | ⟨hsys, hs'⟩ <;> rw [hs']
    · exact h0.take ho0 hno (fun he => hinit he hsys) hsys hi
    · exact h0.share ho0 hno hsys
  have hr := bootReady_priv s1 ip
  have hm1 (j : PrivId) : (s1.bootReady ip).kernel.ipcTo j = s1.kernel.ipcTo j := by rw [State.ipcTo, hr, State.ipcTo]
  have hsame := (bootReady_spec s1 ip).1
  refine ⟨h1.masks.mono ((hsame.priv INIT).trans h1.masks.init) (fun j p hp => (hsame.procNr j).symm.trans hp) hm1,
    fun a b hb => ?_⟩
  rw [hm1] at hb
  rw [State.taken_congr (hsame.procNr a), State.taken_congr (hsame.procNr b)]
  exact h1.fresh a b hb

theorem BootMasks.run {s' : PrivState} : ∀ {image : List BootImage} {done : List Slot}
    {s : PrivState}, BootMasks s.kernel →
    s.Booted done → (done ++ image.map (·.procNr)).Nodup → (∀ ip ∈ image, ip.procNr = INIT → .sysProc ∉ ip.flags) →
    image.foldlM bootProc s = some s' → BootMasks s'.kernel
  | [], _, s, h, _, _, _, hs => by
    cases hs
    exact h
  | ip :: image, done, s, h, hb, hn, hinit, hs => by
    rw [foldlM_cons] at hs
    obtain ⟨s1, hs1, hs⟩ := Option.bind_eq_some_iff.mp hs
    rw [map_cons, append_cons] at hn
    have hno : ip.procNr ∉ done := by
      have := (nodup_append.mp (nodup_append.mp hn).1).2.2
      exact fun hd => this ip.procNr hd ip.procNr (mem_singleton_self _) rfl
    have h1 := h.proc hb.owned hno (hinit ip mem_cons_self) hs1
    exact h1.run (hb.proc hno hs1) hn (fun ip' hip => hinit ip' (mem_cons_of_mem ip hip)) hs

end PrivState

/-! ## The property -/

namespace State

/-- Who may send to whom. -/
structure SendMasks (k : State) : Prop where
  /-- Two system processes, which are not kernel tasks, may send to each other, or neither may. -/
  sym : ∀ a b, k.InUse a → k.InUse b → 0 ≤ procNr a → 0 ≤ procNr b → .sysProc ∈ k.privFlags a →
    .sysProc ∈ k.privFlags b →
    k.maySendTo a b = k.maySendTo b a
  /-- No process has its own bit. -/
  own : ∀ p, k.InUse p → (k.proc p).pPriv ∉ (k.priv (k.proc p).pPriv).sIpcTo

theorem Masks.sendMasks {k : State} (h : k.Masks) (hinv : k.PrivInv) : k.SendMasks := by
  -- a process with the flag has a structure that names it
  have hown (p : Slot) (hp : k.InUse p) (hs : .sysProc ∈ k.privFlags p) : (k.proc p).pPriv ≠ userPrivId := by
    intro hu
    rw [privFlags, hu] at hs
    exact hinv.owned.user hs
  constructor
  · intro a b ha hb hna hnb hsa hsb
    have hpa := hown a ha hsa
    have hpb := hown b hb hsb
    have hsym := h.sym _ _ ⟨hpa, a, hinv.owned.own a ha hpa, hna⟩ ⟨hpb, b, hinv.owned.own b hb hpb, hnb⟩
    exact decide_eq_decide.mpr hsym
  · intro p hp
    apply h.irr
    by_cases hu : (k.proc p).pPriv = userPrivId
    · exact .inl hu
    · exact .inr ⟨p, hinv.owned.own p hp hu⟩

end State

namespace PrivState

/-- In every run in which no process with a structure of its own is given another one, and none is given its own bit. -/
theorem sendMasks_of_run {image : List BootImage} {s s' : PrivState} (hn : (image.map (·.procNr)).Nodup)
    (hinit : ∀ ip ∈ image, ip.procNr = INIT → .sysProc ∉ ip.flags) (hb : boot image = some s) {os : List PrivOp}
    (hok : AllOk step (fun s o => s.StepOk o ∧ s.MaskOk o) os s) (hr : run step os s = some s') :
    s'.kernel.SendMasks := by
  have h0 : s.kernel.PrivInv := (booted_nil.run hn hb).inv
  have hm0 : s.kernel.Masks := (bootMasks_cleared.run booted_nil hn hinit hb).masks
  obtain ⟨hinv, hm⟩ := run_invariant (I := fun s : PrivState => s.kernel.PrivInv ∧ s.kernel.Masks)
    (fun s o s' h hok hs => ⟨step_inv h.1 hok.1 hs, step_masks h.2 h.1 hok.1 hok.2 hs⟩) ⟨h0, hm0⟩ hok hr
  exact hm.sendMasks hinv

instance (i : PrivId) : ∀ arg, Decidable (Clears i arg)
  | some (.ok _) => inferInstanceAs (Decidable (_ ∧ _ ∧ _))
  | some (.error _) | none => isFalse fun h => h

instance (s : PrivState) : ∀ o, Decidable (s.MaskOk o)
  | .privctl whoP e (.init arg) => inferInstanceAs (Decidable (∀ rp ∈ s.target whoP e, _ → rp ≠ INIT ∧
      ∀ i ∈ s.kernel.freePriv, i ∉ s.kernel.ipcTo (s.kernel.proc whoP).pPriv ∨ Clears i arg))
  | .op _ | .privctl _ _ .user | .privctl _ _ (.addIo _) | .privctl _ _ (.addMem _) | .privctl _ _ (.addIrq _)
  | .privctl _ _ (.queryMem ..) | .privctl _ _ .other => isTrue trivial

/-- The child of VFS is made a system process that may send to PM and RS. -/
def restricted : List PrivOp :=
  forked ++ [.privctl PM childE (.init (some (.ok ⟨∅, 0, fun _ => 0, 0, fun _ => {}, {5, 7}⟩)))]

theorem sendMasks_of_run_restricted : ∃ s s', boot image = some s ∧ run step restricted s = some s' ∧
    s'.kernel.SendMasks ∧
    s'.kernel.maySendTo 20 RS = true ∧ s'.kernel.maySendTo 20 VFS = false := by
  obtain ⟨s, hs, hok, s', hr, h1, h2⟩ : ∃ s, boot image = some s ∧
      AllOk step (fun s o => s.StepOk o ∧ s.MaskOk o) restricted s ∧ ∃ s', run step restricted s = some s' ∧
      s'.kernel.maySendTo 20 RS = true ∧ s'.kernel.maySendTo 20 VFS = false := by decide +kernel
  exact ⟨s, s', hs, hr, sendMasks_of_run (by decide +kernel) (by decide +kernel) hs hok hr, h1, h2⟩

/-- A child of VFS has been a system process and is gone. Another one, in slot 21, takes its structure. -/
def reused : List PrivOp :=
  bornAndDied ++ [.op (.fork (procNr VFS) 21 false 1), .privctl PM (endpoint 1 (procNr 21)) (.init none)]

/-- A process has its own bit after the second attempt to give it privileges, and also when it has taken a structure
that has been used before. -/
theorem sendMasks_fails : (∃ s s', boot image = some s ∧ run step retried s = some s' ∧ s'.kernel.InUse 20 ∧
      s'.kernel.maySendTo 20 20 = true ∧ ¬s'.kernel.SendMasks) ∧
    ∃ s s', boot image = some s ∧ run step reused s = some s' ∧ s'.kernel.InUse 21 ∧
      s'.kernel.maySendTo 21 21 = true ∧ ¬s'.kernel.SendMasks := by
  have hno {k : State} {p : Slot} (hp : k.InUse p) (h : k.maySendTo p p = true) : ¬k.SendMasks :=
    fun hs => hs.own p hp (of_decide_eq_true h)
  constructor
  · obtain ⟨s, hs, s', hr, h1, h2⟩ : ∃ s, boot image = some s ∧ ∃ s', run step retried s = some s' ∧
        s'.kernel.InUse 20 ∧ s'.kernel.maySendTo 20 20 = true := by decide +kernel
    exact ⟨s, s', hs, hr, h1, h2, hno h1 h2⟩
  · obtain ⟨s, hs, s', hr, h1, h2⟩ : ∃ s, boot image = some s ∧ ∃ s', run step reused s = some s' ∧
        s'.kernel.InUse 21 ∧ s'.kernel.maySendTo 21 21 = true := by decide +kernel
    exact ⟨s, s', hs, hr, h1, h2, hno h1 h2⟩

end PrivState

end Minix.Kernel
