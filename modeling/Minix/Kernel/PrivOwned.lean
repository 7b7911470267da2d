import Minix.Kernel.PrivFrame

/-!
# Owners of privilege structures

`State.Owned use k`: the processes in `use` have privilege structures, either the shared one or one that names them, and
every structure that names a process is that process' own. Taking a structure (`Owned.takePriv`, `Owned.sharePriv`) and
the death and birth of processes (`PrivInv.clearProc`, `PrivInv.doFork`) keep this.
-/

namespace Minix.Kernel

open Minix.Lib

namespace State

variable {k k' : State}

/-! ## The invariant -/

/-- The process exists. -/
def InUse (k : State) (p : Slot) : Prop := .slotFree ∉ (k.proc p).pRtsFlags

instance (k : State) (p : Slot) : Decidable (k.InUse p) := inferInstanceAs (Decidable (¬_))

/-- The processes in `use` have privilege structures: their own, or the shared one of the user processes. -/
structure Owned (use : Slot → Prop) (k : State) : Prop where
  own : ∀ p, use p → (k.proc p).pPriv ≠ userPrivId → (k.priv (k.proc p).pPriv).sProcNr = some p
  back : ∀ i p, i ≠ userPrivId → (k.priv i).sProcNr = some p → use p ∧ (k.proc p).pPriv = i
  sys : ∀ p, use p → (k.proc p).pPriv ≠ userPrivId → .sysProc ∈ k.privFlags p
  user : .sysProc ∉ (k.priv userPrivId).sFlags

/-- Nothing has changed that says whose a structure is. -/
structure OwnSame (k k' : State) : Prop where
  priv : ∀ p, (k'.proc p).pPriv = (k.proc p).pPriv
  procNr : ∀ i, (k'.priv i).sProcNr = (k.priv i).sProcNr
  sys : ∀ i, .sysProc ∈ (k'.priv i).sFlags ↔ .sysProc ∈ (k.priv i).sFlags

theorem PrivSame.ownSame (h : k.PrivSame k') : k.OwnSame k' where
  priv := h.priv
  procNr i := congrArg Prod.fst (h.grants i)
  sys i := by rw [show (k'.priv i).sFlags = (k.priv i).sFlags from congrArg (fun x => x.2.1) (h.grants i)]

namespace OwnSame

variable {k'' : State}

theorem refl (k : State) : k.OwnSame k := (PrivSame.refl k).ownSame

theorem trans (h : k.OwnSame k') (h' : k'.OwnSame k'') : k.OwnSame k'' where
  priv p := (h'.priv p).trans (h.priv p)
  procNr i := (h'.procNr i).trans (h.procNr i)
  sys i := (h'.sys i).trans (h.sys i)

theorem of_flags (hp : ∀ p, (k'.proc p).pPriv = (k.proc p).pPriv) (hr : k'.priv = k.priv) : k.OwnSame k' :=
  ⟨hp, fun i => by rw [hr], fun i => by rw [hr]⟩

theorem modPriv (k : State) (i : PrivId) {f : Priv → Priv} (h1 : (f (k.priv i)).sProcNr = (k.priv i).sProcNr)
    (h2 : .sysProc ∈ (f (k.priv i)).sFlags ↔ .sysProc ∈ (k.priv i).sFlags) : k.OwnSame (k.modPriv i f) := by
  refine ⟨fun _ => rfl, fun j => ?_, fun j => ?_⟩ <;> by_cases hj : j = i
  all_goals simp [State.modPriv, hj, h1, h2]

theorem rtsUnset (k : State) (p : Slot) (f : Finset RtsFlag) : k.OwnSame (k.rtsUnset p f) := by
  unfold State.rtsUnset
  dsimp only
  refine of_flags (fun q => ?_) ?_
  · by_cases hq : q = p <;> split_ifs <;> simp [State.modProc, State.enqueue, hq]
  · split_ifs <;> rfl

theorem setSendtoBit (k : State) (rp : Slot) (id : PrivId) : k.OwnSame (k.setSendtoBit rp id) := by
  unfold State.setSendtoBit
  split
  · exact refl k
  · split
    · exact refl k
    · split_ifs
      · exact modPriv k _ rfl Iff.rfl
      · exact (modPriv k _ rfl Iff.rfl).trans (modPriv _ _ rfl Iff.rfl)

theorem unsetSendtoBit (k : State) (rp : Slot) (id : PrivId) : k.OwnSame (k.unsetSendtoBit rp id) := by
  unfold State.unsetSendtoBit
  exact (modPriv k _ rfl Iff.rfl).trans (modPriv _ _ rfl Iff.rfl)

theorem foldl {α : Type} {f : State → α → State} (hf : ∀ (k : State) (a : α), k.OwnSame (f k a)) :
    ∀ (l : List α) (k : State),
    k.OwnSame (l.foldl f k)
  | [], k => refl k
  | a :: l, k => (hf k a).trans (foldl hf l _)

theorem sendMask (k : State) (rp : Slot) (mask : PrivId → Bool) : k.OwnSame (k.sendMask rp mask) := by
  refine foldl (fun k i => ?_) _ k
  split_ifs
  · exact setSendtoBit k rp i
  · exact unsetSendtoBit k rp i

end OwnSame

namespace Owned

variable {use use' : Slot → Prop} {rc rp : Slot}

theorem same (h : k.Owned use) (hs : k.OwnSame k') : k'.Owned use where
  own p hp hne := by
    rw [hs.priv] at hne ⊢
    rw [hs.procNr]
    exact h.own p hp hne
  back i p hi hp := by
    rw [hs.procNr] at hp
    rw [hs.priv]
    exact h.back i p hi hp
  sys p hp hne := by
    rw [hs.priv] at hne
    rw [privFlags, hs.priv, hs.sys]
    exact h.sys p hp hne
  user := by
    rw [hs.sys]
    exact h.user

theorem congr (h : k.Owned use) (hu : ∀ p, use' p ↔ use p) : k.Owned use' := by
  rw [show use' = use from funext fun p => propext (hu p)]
  exact h

theorem inj (h : k.Owned use) {p q : Slot} (hp : use p) (hq : use q) (hne : (k.proc p).pPriv ≠ userPrivId)
    (he : (k.proc q).pPriv = (k.proc p).pPriv) : q = p := by
  have h1 := h.own p hp hne
  have h2 := h.own q hq (he ▸ hne)
  rw [he, h1] at h2
  exact (Option.some.inj h2).symm

end Owned

/-! ## Taking a structure -/

/-- The first structure that is free. -/
def freePriv (k : State) : Option PrivId := (List.finRange 32).find? fun i => (k.priv i).sProcNr = none ∧ i ≠ userPrivId

theorem freePriv_some {i : PrivId} (h : k.freePriv = some i) : (k.priv i).sProcNr = none ∧ i ≠ userPrivId := by
  simpa using List.find?_some h

theorem freePriv_isSome {i : PrivId} (h : (k.priv i).sProcNr = none) (hi : i ≠ userPrivId) :
    ∃ j, k.freePriv = some j := by
  rw [← Option.isSome_iff_exists, freePriv, List.find?_isSome]
  exact ⟨i, List.mem_finRange i, by simp [h, hi]⟩

/-- A structure is taken. -/
def takePriv (k : State) (rc : Slot) (i : PrivId) : State :=
  (k.modProc rc fun r => { r with pPriv := i }).modPriv i fun r =>
    { r with sProcNr := some rc, sFlags := {.sysProc}, sAsyntab := 2 ^ 32 - 1, sAsynsize := 0 }

/-- The process shares the structure of the user processes. -/
def sharePriv (k : State) (rc : Slot) : State :=
  (k.modProc rc fun r => { r with pPriv := userPrivId }).modPriv userPrivId fun r => { r with sProcNr := some INIT }

theorem getPriv_false (k : State) (rc : Slot) : k.getPriv rc false = (OK, k.sharePriv rc) := rfl

theorem getPriv_true (k : State) (rc : Slot) : k.getPriv rc true =
    match k.freePriv with
    | none => (ENOSPC, k)
    | some i => (OK, k.takePriv rc i) := rfl

theorem takePriv_priv (k : State) (rc : Slot) (i : PrivId) (p : Slot) :
    ((k.takePriv rc i).proc p).pPriv = if p = rc then i else (k.proc p).pPriv := by
  by_cases hp : p = rc <;> simp [takePriv, modProc, modPriv, hp]

theorem takePriv_flags (k : State) (rc : Slot) (i : PrivId) (p : Slot) :
    ((k.takePriv rc i).proc p).pRtsFlags = (k.proc p).pRtsFlags := by
  by_cases hp : p = rc <;> simp [takePriv, modProc, modPriv, hp]

theorem takePriv_procNr (k : State) (rc : Slot) (i j : PrivId) :
    ((k.takePriv rc i).priv j).sProcNr = if j = i then some rc else (k.priv j).sProcNr := by
  by_cases hj : j = i <;> simp [takePriv, modProc, modPriv, hj]

theorem takePriv_sFlags (k : State) (rc : Slot) (i j : PrivId) :
    ((k.takePriv rc i).priv j).sFlags = if j = i then {.sysProc} else (k.priv j).sFlags := by
  by_cases hj : j = i <;> simp [takePriv, modProc, modPriv, hj]

theorem sharePriv_priv (k : State) (rc p : Slot) :
    ((k.sharePriv rc).proc p).pPriv = if p = rc then userPrivId else (k.proc p).pPriv := by
  by_cases hp : p = rc <;> simp [sharePriv, modProc, modPriv, hp]

theorem sharePriv_flags (k : State) (rc p : Slot) : ((k.sharePriv rc).proc p).pRtsFlags = (k.proc p).pRtsFlags := by
  by_cases hp : p = rc <;> simp [sharePriv, modProc, modPriv, hp]

theorem sharePriv_procNr (k : State) (rc : Slot) {j : PrivId} (hj : j ≠ userPrivId) :
    ((k.sharePriv rc).priv j).sProcNr = (k.priv j).sProcNr := by
  simp [sharePriv, modProc, modPriv, hj]

theorem sharePriv_sFlags (k : State) (rc : Slot) (j : PrivId) :
    ((k.sharePriv rc).priv j).sFlags = (k.priv j).sFlags := by
  by_cases hj : j = userPrivId <;> simp [sharePriv, modProc, modPriv, hj]

namespace Owned

variable {use : Slot → Prop} {rc : Slot}

theorem takePriv (h : k.Owned use) (hrc : use rc → (k.proc rc).pPriv = userPrivId) {i : PrivId}
    (hi : k.freePriv = some i) : (k.takePriv rc i).Owned fun p => p = rc ∨ use p := by
  obtain ⟨hfree, hne⟩ := freePriv_some hi
  -- nobody has the structure
  have hno (p : Slot) (hp : use p) : (k.proc p).pPriv ≠ i := by
    intro he
    have := h.own p hp (he ▸ hne)
    rw [he, hfree] at this
    cases this
  refine ⟨fun p hp hp' => ?_, fun j p hj hp => ?_, fun p hp hp' => ?_, ?_⟩
  · rw [takePriv_priv] at hp' ⊢
    by_cases hpr : p = rc
    · simp [hpr, takePriv_procNr]
    · have hup := hp.resolve_left hpr
      rw [if_neg hpr] at hp' ⊢
      rw [takePriv_procNr, if_neg (hno p hup)]
      exact h.own p hup hp'
  · rw [takePriv_procNr] at hp
    rw [takePriv_priv]
    split at hp
    next hji =>
      cases hp
      exact ⟨.inl rfl, by rw [if_pos rfl, hji]⟩
    next hji =>
      obtain ⟨h1, h2⟩ := h.back j p hj hp
      have hpr : p ≠ rc := by
        rintro rfl
        exact hj (h2.symm.trans (hrc h1))
      exact ⟨.inr h1, by rw [if_neg hpr, h2]⟩
  · rw [privFlags, takePriv_priv, takePriv_sFlags]
    rw [takePriv_priv] at hp'
    by_cases hpr : p = rc
    · simp [hpr]
    · have hup := hp.resolve_left hpr
      rw [if_neg hpr] at hp' ⊢
      rw [if_neg (hno p hup)]
      exact h.sys p hup hp'
  · rw [takePriv_sFlags, if_neg hne.symm]
    exact h.user

theorem sharePriv (h : k.Owned use) (hrc : use rc → (k.proc rc).pPriv = userPrivId) :
    (k.sharePriv rc).Owned fun p => p = rc ∨ use p := by
  refine ⟨fun p hp hp' => ?_, fun j p hj hp => ?_, fun p hp hp' => ?_, ?_⟩
  · rw [sharePriv_priv] at hp' ⊢
    by_cases hpr : p = rc
    · rw [if_pos hpr] at hp'
      exact absurd rfl hp'
    · rw [if_neg hpr] at hp' ⊢
      rw [sharePriv_procNr k rc hp']
      exact h.own p (hp.resolve_left hpr) hp'
  · rw [sharePriv_procNr k rc hj] at hp
    obtain ⟨h1, h2⟩ := h.back j p hj hp
    have hpr : p ≠ rc := by
      rintro rfl
      exact hj (h2.symm.trans (hrc h1))
    exact ⟨.inr h1, by rw [sharePriv_priv, if_neg hpr, h2]⟩
  · rw [privFlags, sharePriv_sFlags]
    rw [sharePriv_priv] at hp' ⊢
    by_cases hpr : p = rc
    · rw [if_pos hpr] at hp'
      exact absurd rfl hp'
    · rw [if_neg hpr] at hp' ⊢
      exact h.sys p (hp.resolve_left hpr) hp'
  · rw [sharePriv_sFlags]
    exact h.user

/-! ## Death and birth -/

theorem leave (h : k.Owned use) (hrc : use rc) (hpriv : ∀ p, (k'.proc p).pPriv = (k.proc p).pPriv)
    (hnr : ∀ j, j ≠ userPrivId → (k'.priv j).sProcNr = if j = (k.proc rc).pPriv then none else (k.priv j).sProcNr)
    (hfl : ∀ j, (k'.priv j).sFlags = (k.priv j).sFlags) : k'.Owned fun p => use p ∧ p ≠ rc where
  own p hp hp' := by
    rw [hpriv] at hp' ⊢
    rw [hnr _ hp', if_neg fun he => hp.2 (h.inj hp.1 hrc hp' he.symm).symm]
    exact h.own p hp.1 hp'
  back j p hj hp := by
    rw [hnr j hj] at hp
    split at hp
    · cases hp
    next hji =>
      obtain ⟨h1, h2⟩ := h.back j p hj hp
      refine ⟨⟨h1, ?_⟩, (hpriv p).trans h2⟩
      rintro rfl
      exact hji h2.symm
  sys p hp hp' := by
    rw [hpriv] at hp'
    rw [privFlags, hpriv, hfl]
    exact h.sys p hp.1 hp'
  user := by
    rw [hfl]
    exact h.user

theorem enter (h : k.Owned use) (hrc : ¬use rc) (hpriv : ∀ p, p ≠ rc → (k'.proc p).pPriv = (k.proc p).pPriv)
    (hu : (k'.proc rc).pPriv = userPrivId) (hr : k'.priv = k.priv) : k'.Owned fun p => p = rc ∨ use p where
  own p hp hp' := by
    have hpr : p ≠ rc := fun he => hp' (he ▸ hu)
    rw [hpriv p hpr] at hp' ⊢
    rw [hr]
    exact h.own p (hp.resolve_left hpr) hp'
  back j p hj hp := by
    rw [hr] at hp
    obtain ⟨h1, h2⟩ := h.back j p hj hp
    have hpr : p ≠ rc := fun he => hrc (he ▸ h1)
    exact ⟨.inr h1, (hpriv p hpr).trans h2⟩
  sys p hp hp' := by
    have hpr : p ≠ rc := fun he => hp' (he ▸ hu)
    rw [hpriv p hpr] at hp'
    rw [privFlags, hpriv p hpr, hr]
    exact h.sys p (hp.resolve_left hpr) hp'
  user := by
    rw [hr]
    exact h.user

end Owned

/-- What holds between two operations: the processes that exist have their structures, and those that wait for their
privileges exist. -/
structure PrivInv (k : State) : Prop where
  owned : k.Owned k.InUse
  waits : ∀ p, .noPriv ∈ (k.proc p).pRtsFlags → k.InUse p

namespace PrivInv

variable {rc : Slot}

theorem same (h : k.PrivInv) (hs : k.PrivSame k') : k'.PrivInv where
  owned := (h.owned.same hs.ownSame).congr fun p => not_congr (hs.free p)
  waits p hp := mt (hs.free p).mp (h.waits p ((hs.noPriv p).mp hp))

theorem clearProc (h : k.PrivInv) (htidy : k.isemptyp rc = true ∨ k.InUse rc) : (k.clearProc rc).PrivInv := by
  unfold State.clearProc
  split
  · exact h
  next hne =>
  have hs := PrivSame.clearEndpoint k rc
  have h1 := h.same hs
  have hin : (k.clearEndpoint rc).InUse rc := mt (hs.free rc).mp (htidy.resolve_left hne)
  generalize k.clearEndpoint rc = k1 at h1 hin
  dsimp only
  split
  · exact h1
  -- the slot is free now
  have hproc : (k1.rtsSetFlags rc {.slotFree}).proc =
      (k1.modProc rc fun r => { r with pRtsFlags := {.slotFree} }).proc := by
    unfold State.rtsSetFlags
    split_ifs <;> rfl
  have hpriv : (k1.rtsSetFlags rc {.slotFree}).priv = k1.priv := by
    unfold State.rtsSetFlags
    split_ifs <;> rfl
  generalize k1.rtsSetFlags rc {.slotFree} = k2 at hproc hpriv
  have hid (p : Slot) : (k2.proc p).pPriv = (k1.proc p).pPriv := by
    rw [hproc]
    by_cases hp : p = rc <;> simp [modProc, hp]
  have huse (p : Slot) : k2.InUse p ↔ k1.InUse p ∧ p ≠ rc := by
    rw [InUse, hproc]
    by_cases hp : p = rc <;> simp [modProc, hp, InUse]
  have hwait (p : Slot) (hp : .noPriv ∈ (k2.proc p).pRtsFlags) : k2.InUse p := by
    by_cases hpr : p = rc
    · rw [hproc] at hp
      simp [modProc, hpr] at hp
    · refine (huse p).mpr ⟨h1.waits p ?_, hpr⟩
      rw [hproc] at hp
      simpa [modProc, hpr] using hp
  have hflags : k2.privFlags rc = k1.privFlags rc := by rw [privFlags, privFlags, hid, hpriv]
  rw [hflags]
  split
  · refine ⟨?_, hwait⟩
    have hL : (k2.modPriv (k2.proc rc).pPriv fun r => { r with sProcNr := none }).Owned fun p =>
      k1.InUse p ∧ p ≠ rc := by
      refine h1.owned.leave hin hid (fun j _ => ?_) fun j => ?_
      · rw [hid]
        by_cases hj : j = (k1.proc rc).pPriv <;> simp [modPriv, hpriv, hj]
      · by_cases hj : j = (k2.proc rc).pPriv <;> simp [modPriv, hpriv, hj]
    exact hL.congr huse
  next hsys =>
    -- the process has the shared structure
    have hu : (k1.proc rc).pPriv = userPrivId := by
      by_contra hno
      exact hsys (h1.owned.sys rc hin hno)
    refine ⟨(h1.owned.leave hin hid (fun j hj => ?_) fun j => by rw [hpriv]).congr huse, hwait⟩
    rw [hpriv, if_neg (hu ▸ hj)]

theorem childProc_priv (r : Proc) (rpc : Slot) (e : Endpoint) (sys : Bool) (lin : Nat) :
    (childProc r rpc e sys lin).pPriv = (if sys then userPrivId else r.pPriv) ∧
      (.slotFree ∈ (childProc r rpc e sys lin).pRtsFlags ↔ .slotFree ∈ r.pRtsFlags) := by
  cases sys <;> simp [childProc]

theorem child_priv (h : k.PrivInv) {rpp : Slot} (hin : k.InUse rpp) (rpc : Slot) (e : Endpoint) (lin : Nat) :
    (childProc (k.proc rpp) rpc e (.sysProc ∈ k.privFlags rpp) lin).pPriv = userPrivId := by
  refine (childProc_priv (k.proc rpp) rpc e (.sysProc ∈ k.privFlags rpp) lin).1.trans ?_
  split
  · rfl
  next hsys =>
    by_contra hne
    exact hsys (by simpa using h.owned.sys rpp hin hne)

end PrivInv

theorem withChild_privSame (rpp rpc : Slot) (vm : Bool) (lin : Nat) :
    (k.withChild rpp rpc lin).PrivSame (k.forked rpp rpc vm lin) := by
  refine .trans (.trans ?_ (.rtsUnset _ _ (by simp) (by simp))) (.fields _ _ rfl rfl)
  split
  · exact .rtsSet _ _ (by simp) (by simp)
  · exact .refl _

namespace PrivInv

theorem doFork (h : k.PrivInv) (htidy : ∀ p, k.isemptyp p = true ∨ k.InUse p) (e : Endpoint) (rpc : Slot) (vm : Bool)
    (lin : Nat) : (k.doFork e rpc vm lin).2.PrivInv := by
  rcases k.doFork_cases e rpc vm lin with heq | ⟨rpp, -, hlive, hempty, -, heq⟩
  · rw [heq]
    exact h
  have hs := k.withChild_privSame rpp rpc vm lin
  rw [heq]
  unfold withChild at hs
  have hin : k.InUse rpp := (htidy rpp).resolve_left hlive
  have hdead : ¬k.InUse rpc := by
    simp only [isemptyp, decide_eq_true_eq] at hempty
    simp [InUse, hempty]
  have hchild := h.child_priv hin rpc (k.proc rpc).pEndpoint lin
  have hfree := mt (childProc_priv (k.proc rpp) rpc (k.proc rpc).pEndpoint (.sysProc ∈ k.privFlags rpp) lin).2.mp hin
  generalize childProc (k.proc rpp) rpc (k.proc rpc).pEndpoint (.sysProc ∈ k.privFlags rpp) lin = child
      at hs hchild hfree
  set k1 : State := { k with proc := Function.update k.proc rpc child, sched := forkSched k.sched rpp rpc }
  have huse (p : Slot) : k1.InUse p ↔ p = rpc ∨ k.InUse p := by
    by_cases hp : p = rpc
    · simp [k1, InUse, hp, hfree]
    · simp [k1, InUse, hp]
  have h1 : k1.PrivInv := by
    have hE : k1.Owned fun p => p = rpc ∨ k.InUse p := by
      refine h.owned.enter hdead (fun p hp => ?_) ?_ rfl
      · simp [k1, hp]
      · simpa [k1] using hchild
    refine ⟨hE.congr huse, fun p hp => (huse p).mpr ?_⟩
    by_cases hpr : p = rpc
    · exact .inl hpr
    · exact .inr (h.waits p (by simpa [k1, hpr] using hp))
  exact h1.same hs

end PrivInv

end State

end Minix.Kernel
