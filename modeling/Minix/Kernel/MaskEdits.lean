import Minix.Kernel.PrivOwners

/-!
# Edits of send masks

`set_sendto_bit` and `unset_sendto_bit` change the masks of two processes at a time. `State.Edit i l k k'` is what a
loop of such changes over the bits of `l` does for the process with structure `i`.

* `Edit.sendMask`: the loops of `SYS_PRIV_INIT` make the masks symmetric for the process, and do not give it its own
  bit.
* `State.Masks`: the masks of all system processes are symmetric. An edit keeps this (`Masks.edit`), and so do the death
  and birth of processes.
-/

namespace Minix.Kernel

open Minix.Lib List

namespace State

variable {k k' k'' : State}

/-- The send mask of a structure. -/
def ipcTo (k : State) (i : PrivId) : Finset PrivId := (k.priv i).sIpcTo

/-- The structure of a system process that is not a kernel task. -/
def Peer (k : State) (i : PrivId) : Prop := i ≠ userPrivId ∧ ∃ p, (k.priv i).sProcNr = some p ∧ 0 ≤ procNr p

/-- A structure that some process may have. -/
def Taken (k : State) (i : PrivId) : Prop := i = userPrivId ∨ ∃ p, (k.priv i).sProcNr = some p

/-- A structure that names a process is the structure of that process. -/
def Names (k : State) : Prop := ∀ i p, (k.priv i).sProcNr = some p → (k.proc p).pPriv = i

theorem peer_congr {i : PrivId} (h : (k'.priv i).sProcNr = (k.priv i).sProcNr) : k'.Peer i ↔ k.Peer i := by
  unfold Peer
  rw [h]

theorem taken_congr {i : PrivId} (h : (k'.priv i).sProcNr = (k.priv i).sProcNr) : k'.Taken i ↔ k.Taken i := by
  unfold Taken
  rw [h]

theorem Names.same (h : k.Names) (hs : k.OwnSame k') : k'.Names := by
  intro i p hp
  rw [hs.procNr] at hp
  rw [hs.priv]
  exact h i p hp

/-! ## Edits of masks -/

/-- Bits of `l` in the mask of structure `i`, and the bit of `i` in the masks of `l`, have been changed. -/
structure Edit (i : PrivId) (l : List PrivId) (k k' : State) : Prop where
  same : k.OwnSame k'
  frame : ∀ a b, ¬(a = i ∧ b ∈ l) → ¬(b = i ∧ a ∈ l) → (b ∈ k'.ipcTo a ↔ b ∈ k.ipcTo a)
  sym : ∀ j ∈ l, j ≠ i → k.Peer j → (j ∈ k'.ipcTo i ↔ i ∈ k'.ipcTo j)
  own : i ∈ k'.ipcTo i → i ∈ k.ipcTo i

namespace Edit

variable {i : PrivId} {l l' : List PrivId} {rp : Slot}

theorem refl (k : State) (i : PrivId) : k.Edit i [] k where
  same := .refl k
  frame _ _ _ _ := Iff.rfl
  sym _ hj := absurd hj not_mem_nil
  own h := h

theorem trans (h : k.Edit i l k') (h' : k'.Edit i l' k'') : k.Edit i (l ++ l') k'' where
  same := h.same.trans h'.same
  frame a b ha hb := by
    rw [h'.frame a b (fun hab => ha ⟨hab.1, mem_append_right l hab.2⟩)
      (fun hab => hb ⟨hab.1, mem_append_right l hab.2⟩)]
    exact h.frame a b (fun hab => ha ⟨hab.1, mem_append_left l' hab.2⟩)
      (fun hab => hb ⟨hab.1, mem_append_left l' hab.2⟩)
  sym j hj hne hp := by
    by_cases hj' : j ∈ l'
    · exact h'.sym j hj' hne ((peer_congr (h.same.procNr j)).mpr hp)
    · have hl : j ∈ l := (mem_append.mp hj).resolve_right hj'
      rw [h'.frame i j (fun hij => hj' hij.2) (fun hij => hne hij.1),
        h'.frame j i (fun hji => hne hji.1) (fun hji => hj' hji.2)]
      exact h.sym j hl hne hp
  own hi := h.own (h'.own hi)

theorem of_ipcTo (hs : k.OwnSame k') (hm : ∀ j, k'.ipcTo j = k.ipcTo j) (i : PrivId) : k.Edit i [] k' where
  same := hs
  frame a b _ _ := by rw [hm]
  sym _ hj := absurd hj not_mem_nil
  own h := by rwa [hm] at h

theorem foldl {α : Type} {f : State → α → State} {g : α → List PrivId} (hf : ∀ (k : State) (x : α), k.Names →
    (k.proc rp).pPriv = i → k.Edit i (g x) (f k x)) : ∀ (l : List α) {k : State}, k.Names → (k.proc rp).pPriv = i →
      k.Edit i (l.flatMap g) (l.foldl f k)
  | [], k, _, _ => refl k i
  | x :: l, k, hn, hi => by
    have h1 := hf k x hn hi
    rw [flatMap_cons]
    exact h1.trans (foldl hf l (hn.same h1.same) ((h1.same.priv rp).trans hi))

theorem keep (k : State) (i : PrivId) {j : PrivId} (h : j ≠ i → ¬k.Peer j) : k.Edit i [j] k where
  same := .refl k
  frame _ _ _ _ := Iff.rfl
  sym a ha hne hp := by
    obtain rfl := mem_singleton.mp ha
    exact absurd hp (h hne)
  own h := h

/-- A change of bit `y` in the mask of structure `x` leaves the other bits and masks alone. -/
theorem frame_modPriv {x y a b : PrivId} {f : Priv → Priv} (hf : ∀ r b, b ≠ y → (b ∈ (f r).sIpcTo ↔ b ∈ r.sIpcTo))
    (h : ¬(a = x ∧ b = y)) : b ∈ (k.modPriv x f).ipcTo a ↔ b ∈ k.ipcTo a := by
  by_cases ha : a = x
  · subst ha
    simpa [ipcTo, modPriv] using hf _ b fun hb => h ⟨rfl, hb⟩
  · simp [ipcTo, modPriv, ha]

theorem setSendtoBit (hn : k.Names) (hi : (k.proc rp).pPriv = i) (j : PrivId) : k.Edit i [j] (k.setSendtoBit rp j) := by
  have hs := OwnSame.setSendtoBit k rp j
  unfold State.setSendtoBit at hs ⊢
  cases hj : (k.priv j).sProcNr with
  | none =>
    -- nobody has the structure
    refine keep k i fun _ hp => ?_
    obtain ⟨-, p, hp, -⟩ := hp
    rw [hj] at hp
    cases hp
  | some rrp =>
    rw [hj] at hs
    have hrrp := hn j rrp hj
    dsimp only at hs ⊢
    rw [hi] at hs ⊢
    by_cases hij : i = j
    · rw [if_pos hij] at hs ⊢
      exact keep k i fun hne => absurd hij.symm hne
    · rw [if_neg hij] at hs ⊢
      have hframe {a b : PrivId} (ha : ¬(a = i ∧ b ∈ [j])) :
          b ∈ (k.modPriv i fun r => { r with sIpcTo := insert j r.sIpcTo }).ipcTo a ↔ b ∈ k.ipcTo a :=
        frame_modPriv (y := j) (by simp +contextual) (by simpa using ha)
      split at hs
      next hneg =>
        -- the mask of a kernel task stays as it is
        rw [if_pos hneg]
        refine ⟨hs, fun a b ha _ => hframe ha, fun a ha hne hp => ?_, (hframe (by simpa using hij)).mp⟩
        obtain rfl := mem_singleton.mp ha
        obtain ⟨-, p, hp, hnn⟩ := hp
        rw [hj] at hp
        cases hp
        omega
      next hneg =>
        rw [if_neg hneg]
        have hid : ((k.modPriv i fun r => { r with sIpcTo := insert j r.sIpcTo }).proc rrp).pPriv = j := hrrp
        have hip : ((k.modPriv i fun r => { r with sIpcTo := insert j r.sIpcTo }).proc rp).pPriv = i := hi
        rw [hid] at hs ⊢
        rw [hip] at hs ⊢
        refine ⟨hs, fun a b ha hb => ?_, fun a ha hne hp => ?_, fun ho => ?_⟩
        · exact .trans (frame_modPriv (y := i) (by simp +contextual) (by simpa [and_comm] using hb)) (hframe ha)
        · obtain rfl := mem_singleton.mp ha
          simp [ipcTo, modPriv, hne, hij]
        · simpa [ipcTo, modPriv, hij] using ho

theorem unsetSendtoBit (hi : (k.proc rp).pPriv = i) (j : PrivId) : k.Edit i [j] (k.unsetSendtoBit rp j) := by
  have hs := OwnSame.unsetSendtoBit k rp j
  unfold State.unsetSendtoBit at hs ⊢
  dsimp only at hs ⊢
  rw [hi] at hs ⊢
  have hip : ((k.modPriv i fun r => { r with sIpcTo := r.sIpcTo.erase j }).proc rp).pPriv = i := hi
  rw [hip] at hs ⊢
  refine ⟨hs, fun a b ha hb => ?_, fun a ha hne hp => ?_, fun ho => ?_⟩
  · refine .trans (frame_modPriv ?_ (by simpa [and_comm] using hb)) (frame_modPriv ?_ (by simpa using ha))
    · simp +contextual
    · simp +contextual
  · obtain rfl := mem_singleton.mp ha
    simp [ipcTo, modPriv, hne, hne.symm]
  · by_cases hij : i = j
    · simp [ipcTo, modPriv, hij] at ho
    · simpa [ipcTo, modPriv, hij] using ho

theorem sendMask (hn : k.Names) (hi : (k.proc rp).pPriv = i) (mask : PrivId → Bool) :
    k.Edit i (List.finRange 32) (k.sendMask rp mask) := by
  rw [← flatMap_singleton' (List.finRange 32)]
  refine foldl (fun k j hn hi => ?_) _ hn hi
  split
  · exact setSendtoBit hn hi j
  · exact unsetSendtoBit hi j

end Edit

theorem unsetSendtoBit_own (k : State) (rp : Slot) {i : PrivId} (hi : (k.proc rp).pPriv = i) :
    i ∉ (k.unsetSendtoBit rp i).ipcTo i := by
  subst hi
  simp [ipcTo, State.unsetSendtoBit, modPriv]

theorem sendMask_own {rp : Slot} {i : PrivId} {mask : PrivId → Bool} (hm : mask i = false) (hn : k.Names)
    (hi : (k.proc rp).pPriv = i) : i ∉ (k.sendMask rp mask).ipcTo i := by
  have hedit (k : State) (j : PrivId) (hn : k.Names) (hi : (k.proc rp).pPriv = i) :
      k.Edit i [j] (if mask j then k.setSendtoBit rp j else k.unsetSendtoBit rp j) := by
    split
    · exact .setSendtoBit hn hi j
    · exact .unsetSendtoBit hi j
  have hmem : i ∈ List.finRange 32 := mem_finRange i
  unfold State.sendMask
  generalize List.finRange 32 = l at hmem
  induction l generalizing k with
  | nil => cases hmem
  | cons j l ih =>
    rw [foldl_cons]
    have h1 := hedit k j hn hi
    have hn1 := hn.same h1.same
    have hi1 := (h1.same.priv rp).trans hi
    by_cases hji : j = i
    · -- from here on the bit cannot come back
      have hgone : i ∉ (if mask j then k.setSendtoBit rp j else k.unsetSendtoBit rp j).ipcTo i := by
        rw [hji, hm, if_neg Bool.false_ne_true]
        exact unsetSendtoBit_own k rp hi
      intro ho
      exact hgone ((Edit.foldl hedit l hn1 hi1).own ho)
    · exact ih hn1 hi1 ((mem_cons.mp hmem).resolve_left fun h => hji h.symm)

/-! ## The invariant -/

/-- What holds of the masks: they are symmetric for system processes, and no structure in use has its own bit. The
structure of the user processes names `INIT`, whose structure it is. -/
structure Masks (k : State) : Prop where
  sym : ∀ a b, k.Peer a → k.Peer b → (b ∈ k.ipcTo a ↔ a ∈ k.ipcTo b)
  irr : ∀ i, k.Taken i → i ∉ k.ipcTo i
  init : (k.proc INIT).pPriv = userPrivId
  named : ∀ p, (k.priv userPrivId).sProcNr = some p → p = INIT

theorem Owned.names {use : Slot → Prop} (h : k.Owned use) (hi : (k.proc INIT).pPriv = userPrivId)
    (hn : ∀ p, (k.priv userPrivId).sProcNr = some p → p = INIT) : k.Names := by
  intro i p hp
  by_cases hu : i = userPrivId
  · subst hu
    rw [hn p hp, hi]
  · exact (h.back i p hu hp).2

namespace Masks

variable {i : PrivId} {l : List PrivId} {rp caller : Slot}

theorem mono (h : k.Masks) (hp : (k'.proc INIT).pPriv = userPrivId)
    (hn : ∀ j p, (k'.priv j).sProcNr = some p → (k.priv j).sProcNr = some p) (hm : ∀ j, k'.ipcTo j = k.ipcTo j) :
    k'.Masks where
  sym a b ha hb := by
    obtain ⟨ha, p, hap, hp⟩ := ha
    obtain ⟨hb, q, hbq, hq⟩ := hb
    rw [hm, hm]
    exact h.sym a b ⟨ha, p, hn a p hap, hp⟩ ⟨hb, q, hn b q hbq, hq⟩
  irr j hj := by
    rw [hm]
    apply h.irr j
    rcases hj with hj | ⟨p, hp⟩
    · exact .inl hj
    · exact .inr ⟨p, hn j p hp⟩
  init := hp
  named p hp := h.named p (hn _ p hp)

theorem same (h : k.Masks) (hs : k.PrivSame k') : k'.Masks := by
  refine h.mono ((hs.priv INIT).trans h.init) (fun j p hp => ?_) fun j => congrArg (fun x => x.2.2) (hs.grants j)
  exact (hs.ownSame.procNr j).symm.trans hp

/-- The masks are symmetric after an edit if they were before, apart from the bits that have been changed. -/
theorem edit (h : k.Edit i l k') (hinit : (k.proc INIT).pPriv = userPrivId)
    (hnamed : ∀ p, (k.priv userPrivId).sProcNr = some p → p = INIT)
    (hsym : ∀ a b, a ≠ i → b ≠ i → k.Peer a → k.Peer b → (b ∈ k.ipcTo a ↔ a ∈ k.ipcTo b))
    (hrest : ∀ j, j ∉ l → j ≠ i → k.Peer i → k.Peer j → (j ∈ k.ipcTo i ↔ i ∈ k.ipcTo j))
    (hirr : ∀ j, j ≠ i → k.Taken j → j ∉ k.ipcTo j) (hown : i ∉ k'.ipcTo i) : k'.Masks := by
  -- structure `i` and another one
  have hone (j : PrivId) (hj : j ≠ i) (hpi : k.Peer i) (hpj : k.Peer j) : j ∈ k'.ipcTo i ↔ i ∈ k'.ipcTo j := by
    by_cases hl : j ∈ l
    · exact h.sym j hl hj hpj
    · rw [h.frame i j (fun hij => hl hij.2) (fun hij => hj hij.1),
        h.frame j i (fun hji => hj hji.1) (fun hji => hl hji.2)]
      exact hrest j hl hj hpi hpj
  refine ⟨fun a b ha hb => ?_, fun j hj => ?_, (h.same.priv INIT).trans hinit, fun p hp => ?_⟩
  · have hpa := (peer_congr (h.same.procNr a)).mp ha
    have hpb := (peer_congr (h.same.procNr b)).mp hb
    by_cases hai : a = i
    · subst hai
      by_cases hba : b = a
      · rw [hba]
      · exact hone b hba hpa hpb
    · by_cases hbi : b = i
      · subst hbi
        exact (hone a hai hpb hpa).symm
      · rw [h.frame a b (fun hab => hai hab.1) (fun hab => hbi hab.1),
          h.frame b a (fun hab => hbi hab.1) (fun hab => hai hab.1)]
        exact hsym a b hai hbi hpa hpb
  · by_cases hji : j = i
    · rw [hji]
      exact hown
    · rw [h.frame j j (fun hj => hji hj.1) (fun hj => hji hj.1)]
      exact hirr j hji ((taken_congr (h.same.procNr j)).mp hj)
  · rw [h.same.procNr] at hp
    exact hnamed p hp

theorem edit_of_masks (hm : k.Masks) (h : k.Edit i l k') (hown : i ∉ k'.ipcTo i) : k'.Masks :=
  edit h hm.init hm.named (fun a b _ _ => hm.sym a b) (fun j _ _ hi hj => hm.sym i j hi hj) (fun j _ => hm.irr j) hown

theorem clearProc (h : k.Masks) (rc : Slot) : (k.clearProc rc).Masks := by
  unfold State.clearProc
  split
  · exact h
  have h1 := h.same (PrivSame.clearEndpoint k rc)
  generalize k.clearEndpoint rc = k1 at h1
  dsimp only
  split
  · exact h1
  have h2 : (k1.rtsSetFlags rc {.slotFree}).Masks := by
    unfold State.rtsSetFlags
    refine h1.mono (.trans ?_ h1.init) (fun j p hp => ?_) fun j => ?_
    · by_cases hrc : INIT = rc <;> split_ifs <;> simp [modProc, dequeue, hrc]
    · split_ifs at hp <;> exact hp
    · split_ifs <;> rfl
  generalize k1.rtsSetFlags rc {.slotFree} = k2 at h2
  split
  · refine h2.mono h2.init (fun j p hp => ?_) fun j => ?_
    · by_cases hj : j = (k2.proc rc).pPriv <;> simp [modPriv, hj] at hp ⊢
      exact hp
    · by_cases hj : j = (k2.proc rc).pPriv <;> simp [ipcTo, modPriv, hj]
  · exact h2

theorem doFork (h : k.Masks) (hinv : k.PrivInv) (htidy : ∀ p, k.isemptyp p = true ∨ k.InUse p)
    (e : Endpoint) (rpc : Slot)
    (vm : Bool) (lin : Nat) : (k.doFork e rpc vm lin).2.Masks := by
  rcases k.doFork_cases e rpc vm lin with heq | ⟨rpp, -, hlive, -, -, heq⟩
  · rw [heq]
    exact h
  have hs := k.withChild_privSame rpp rpc vm lin
  rw [heq]
  unfold withChild at hs
  have hchild := hinv.child_priv ((htidy rpp).resolve_left hlive) rpc (k.proc rpc).pEndpoint lin
  generalize childProc (k.proc rpp) rpc (k.proc rpc).pEndpoint (.sysProc ∈ k.privFlags rpp) lin = child at hs hchild
  refine Masks.same ?_ hs
  refine h.mono ?_ (fun _ _ hp => hp) fun _ => rfl
  by_cases hi : INIT = rpc
  · simpa [hi] using hchild
  · simpa [hi] using h.init

end Masks

theorem sharePriv_ipcTo (k : State) (rp : Slot) (j : PrivId) : (k.sharePriv rp).ipcTo j = k.ipcTo j := by
  by_cases hj : j = userPrivId <;> simp [ipcTo, sharePriv, modProc, modPriv, hj]

theorem Masks.sharePriv (h : k.Masks) (rp : Slot) : (k.sharePriv rp).Masks := by
  have hm := sharePriv_ipcTo k rp
  refine ⟨fun a b ha hb => ?_, fun j hj => ?_, ?_, fun p hp => ?_⟩
  · rw [hm, hm]
    exact h.sym a b ((peer_congr (sharePriv_procNr k rp ha.1)).mp ha) ((peer_congr (sharePriv_procNr k rp hb.1)).mp hb)
  · rw [hm]
    apply h.irr j
    by_cases hu : j = userPrivId
    · exact .inl hu
    · exact (taken_congr (sharePriv_procNr k rp hu)).mp hj
  · rw [sharePriv_priv]
    split
    · rfl
    · exact h.init
  · have hnr : ((k.sharePriv rp).priv userPrivId).sProcNr = some INIT := by simp [State.sharePriv, modProc, modPriv]
    rw [hnr] at hp
    exact (Option.some.inj hp).symm

theorem takePriv_ipcTo (k : State) (rp : Slot) (i j : PrivId) : (k.takePriv rp i).ipcTo j = k.ipcTo j := by
  by_cases hj : j = i <;> simp [ipcTo, takePriv, modProc, modPriv, hj]

theorem copyPriv_ipcTo {rp caller : Slot} (hne : caller ≠ rp) (k : State) (i j : PrivId) :
    ((k.takePriv rp i).copyPriv rp caller).ipcTo j = if j = i then k.ipcTo (k.proc caller).pPriv else k.ipcTo j := by
  have hrp : ((k.takePriv rp i).proc rp).pPriv = i := by rw [takePriv_priv, if_pos rfl]
  have hcaller : ((k.takePriv rp i).proc caller).pPriv = (k.proc caller).pPriv := by rw [takePriv_priv, if_neg hne]
  rw [← takePriv_ipcTo k rp i j, ← takePriv_ipcTo k rp i (k.proc caller).pPriv]
  unfold State.copyPriv
  rw [hrp, hcaller]
  by_cases hj : j = i <;> simp [ipcTo, modPriv, hj]

end State

end Minix.Kernel
