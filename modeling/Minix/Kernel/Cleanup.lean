import Minix.Kernel.CallerQueues
import Minix.Kernel.Leaves
import Minix.Kernel.Notified
import Minix.Kernel.ReadyQ

/-!
# What `clear_endpoint` cleans up

`cleaned_of_run`: in every run in which no process forks while it has callers or is sending, `clear_endpoint(rc)`
releases exactly the processes that wait for `rc`, with the right results, takes `rc` out of the caller queues, clears
its notifications and its table, and does nothing else to the queues and the other processes.

Without the condition `rc` stays in the caller queue of a child that was born while `rc` was sending to the parent
(`cleaned_fork`).
-/

namespace Minix.Kernel

open Minix.Lib Function Finset List

/-- What the loop of `clear_endpoint` does to an entry of the process table when the process with endpoint `e` dies. -/
def Proc.release (r : Proc) (e : Endpoint) : Proc :=
  let r := if .receiving ∈ r.pRtsFlags ∧ r.pGetfromE = e then
    { r with retreg := ESRCDIED, pRtsFlags := r.pRtsFlags \ {.receiving} } else r
  if .sending ∈ r.pRtsFlags ∧ r.pSendtoE = e then { r with retreg := EDSTDIED, pRtsFlags := r.pRtsFlags \ {.sending} }
  else r

/-- An entry of the process table without its links. -/
def Proc.unlinked (r : Proc) : Proc := { r with pCallerQ := none, pQLink := none }

namespace State

variable {k k' : State}

/-! ## The loop over the process table -/

theorem wakeWith_proc (p : Slot) (f : RtsFlag) (r : Int) : (k.wakeWith p f r).proc =
    update k.proc p { k.proc p with retreg := r, pRtsFlags := (k.proc p).pRtsFlags \ {f} } := by
  unfold wakeWith
  rw [(rtsUnset_fixed _ p {f}).1]
  simp [modProc]

theorem wakeWith_priv (p : Slot) (f : RtsFlag) (r : Int) : (k.wakeWith p f r).priv = k.priv :=
  (rtsUnset_fixed _ p {f}).2.1

theorem wakeIf_proc (P : Prop) [Decidable P] (p : Slot) (f : RtsFlag) (r : Int) :
    (if P then k.wakeWith p f r else k).proc = update k.proc p
      (if P then { k.proc p with retreg := r, pRtsFlags := (k.proc p).pRtsFlags \ {f} } else k.proc p) := by
  split_ifs
  · exact wakeWith_proc p f r
  · rw [update_eq_self]

theorem wakeIf_priv (P : Prop) [Decidable P] (p : Slot) (f : RtsFlag) (r : Int) :
    (if P then k.wakeWith p f r else k).priv = k.priv := by
  split_ifs
  · exact wakeWith_priv p f r
  · rfl

theorem release_eq (rc rp : Slot) (k2 : State)
    (h2 : k2 = if k.rtsIsset rp .receiving ∧ (k.proc rp).pGetfromE = (k.proc rc).pEndpoint then
      k.wakeWith rp .receiving ESRCDIED else k) :
    (if k2.rtsIsset rp .sending ∧ (k2.proc rp).pSendtoE = (k2.proc rc).pEndpoint then k2.wakeWith rp .sending EDSTDIED
      else k2).proc = update k.proc rp ((k.proc rp).release (k.proc rc).pEndpoint) := by
  have hp := congrArg State.proc h2
  rw [wakeIf_proc] at hp
  have he : (k2.proc rc).pEndpoint = (k.proc rc).pEndpoint := by
    rw [hp]
    by_cases h : rc = rp
    · subst h
      rw [update_self]
      split_ifs <;> rfl
    · rw [update_of_ne h]
  rw [wakeIf_proc, he, rtsIsset, hp, update_self, update_idem]
  simp only [rtsIsset, decide_eq_true_eq]
  rfl

theorem clearRef_proc (rc rp : Slot) : (clearRef rc k rp).proc =
    update k.proc rp ((k.proc rp).release (k.proc rc).pEndpoint) := by
  unfold clearRef
  split
  next he =>
    have hf : (k.proc rp).pRtsFlags = {.slotFree} := by simpa [isemptyp] using he
    simp [Proc.release, hf]
  next => exact release_eq (k := k.modPriv (k.proc rp).pPriv _) rc rp _ rfl

theorem clearRef_priv (rc rp : Slot) : (clearRef rc k rp).priv = if k.isemptyp rp then k.priv else
    update k.priv (k.proc rp).pPriv { k.priv (k.proc rp).pPriv with
      sNotifyPending := (k.priv (k.proc rp).pPriv).sNotifyPending.erase (k.proc rc).pPriv } := by
  unfold clearRef
  split
  · rfl
  · rw [wakeIf_priv, wakeIf_priv]
    rfl

theorem release_endpoint (r : Proc) (e : Endpoint) : (r.release e).pEndpoint = r.pEndpoint := by
  unfold Proc.release
  dsimp only
  split_ifs <;> rfl

theorem release_priv (r : Proc) (e : Endpoint) : (r.release e).pPriv = r.pPriv := by
  unfold Proc.release
  dsimp only
  split_ifs <;> rfl

theorem clearRef_endpoint (rc rp p : Slot) : ((clearRef rc k rp).proc p).pEndpoint = (k.proc p).pEndpoint := by
  rw [clearRef_proc]
  by_cases h : p = rp
  · subst h
    rw [update_self, release_endpoint]
  · rw [update_of_ne h]

theorem clearRef_privId (rc rp p : Slot) : ((clearRef rc k rp).proc p).pPriv = (k.proc p).pPriv := by
  rw [clearRef_proc]
  by_cases h : p = rp
  · subst h
    rw [update_self, release_priv]
  · rw [update_of_ne h]

theorem foldl_clearRef_proc (rc : Slot) : ∀ (l : List Slot) (k : State), l.Nodup → ∀ p,
    (l.foldl (clearRef rc) k).proc p = if p ∈ l then (k.proc p).release (k.proc rc).pEndpoint else k.proc p
  | [], k, _, p => by simp
  | q :: l, k, hl, p => by
    obtain ⟨hq, hl⟩ := nodup_cons.mp hl
    rw [foldl_cons, foldl_clearRef_proc rc l _ hl p, clearRef_endpoint, clearRef_proc]
    by_cases h : p = q
    · subst h
      simp [hq]
    · simp [h]

theorem foldl_clearRef_pending (rc : Slot) : ∀ (l : List Slot) (k : State), l.Nodup →
    (∀ p ∈ l, k.isemptyp p = false →
    (k.proc rc).pPriv ∉ ((l.foldl (clearRef rc) k).priv (k.proc p).pPriv).sNotifyPending) ∧
      ∀ i, ((l.foldl (clearRef rc) k).priv i).sNotifyPending ⊆ (k.priv i).sNotifyPending
  | [], k, _ => ⟨fun p hp => absurd hp not_mem_nil, fun i => Finset.Subset.refl _⟩
  | q :: l, k, hl => by
    obtain ⟨hq, hl⟩ := nodup_cons.mp hl
    obtain ⟨h1, h2⟩ := foldl_clearRef_pending rc l (clearRef rc k q) hl
    have hsub : ∀ i, ((clearRef rc k q).priv i).sNotifyPending ⊆ (k.priv i).sNotifyPending := by
      intro i
      rw [clearRef_priv]
      split_ifs
      · exact Finset.Subset.refl _
      · by_cases hi : i = (k.proc q).pPriv
        · subst hi
          simpa using erase_subset _ _
        · simp [hi]
    refine ⟨fun p hp he => ?_, fun i => (h2 i).trans (hsub i)⟩
    rw [foldl_cons]
    rcases mem_cons.mp hp with rfl | hp
    · intro hmem
      have := h2 _ hmem
      rw [clearRef_priv, if_neg (by simp [he])] at this
      simp at this
    · have hne : p ≠ q := fun h => hq (h ▸ hp)
      have := h1 p hp (by simpa [isemptyp, clearRef_proc, hne] using he)
      rwa [clearRef_privId, clearRef_privId] at this

/-! ## Before the loop -/

/-- The dying process has lost its endpoint and its table, and waits for no one. -/
structure Detached (k : State) (rc : Slot) (k₃ : State) : Prop where
  others : ∀ p, p ≠ rc → (k₃.proc p).unlinked = (k.proc p).unlinked
  endpoint : (k₃.proc rc).pEndpoint = (k.proc rc).pEndpoint
  privId : (k₃.proc rc).pPriv = (k.proc rc).pPriv
  flags : (k₃.proc rc).pRtsFlags = ((k.proc rc).pRtsFlags ∪ {.noEndpoint}) \ {.sending, .receiving}
  table : ∀ i, (k₃.priv i).sAsynsize = if i = (k.proc rc).pPriv ∧
    .sysProc ∈ k.privFlags rc then 0 else (k.priv i).sAsynsize
  pending : ∀ i, (k₃.priv i).sNotifyPending = (k.priv i).sNotifyPending
  grants : ∀ i, (k₃.priv i).sFlags = (k.priv i).sFlags

theorem storeQ_unlinked (d : Slot) (x : Loc Slot) (v : Option Slot) (p : Slot) :
    ((k.storeQ d x v).proc p).unlinked = (k.proc p).unlinked := by
  cases x with
  | head =>
    by_cases h : p = d
    · subst h; simp [storeQ, modProc, Proc.unlinked]
    · simp [storeQ, modProc, h]
  | link q =>
    by_cases h : p = q
    · subst h; simp [storeQ, modProc, Proc.unlinked]
    · simp [storeQ, modProc, h]

theorem storeQ_priv (d : Slot) (x : Loc Slot) (v : Option Slot) : (k.storeQ d x v).priv = k.priv := by
  cases x <;> rfl

theorem unqueue_fixed (rc : Slot) : (∀ p, ((k.unqueue rc).proc p).unlinked = (k.proc p).unlinked) ∧
    (k.unqueue rc).priv = k.priv := by
  unfold unqueue
  split
  · exact ⟨fun _ => rfl, rfl⟩
  · split
    · exact ⟨fun _ => rfl, rfl⟩
    · split
      · exact ⟨fun _ => rfl, rfl⟩
      · exact ⟨storeQ_unlinked _ _ _, storeQ_priv _ _ _⟩

theorem clearFlag_unlinked {k0 : State} {rc : Slot} (h : ∀ p, (k.proc p).unlinked = (k0.proc p).unlinked) (f : RtsFlag)
    (p : Slot) : ((k.clearFlag rc f).proc p).unlinked = ((k0.clearFlag rc f).proc p).unlinked := by
  by_cases hp : p = rc
  · subst hp
    have := h p
    simp only [Proc.unlinked, Proc.mk.injEq] at this
    simp [clearFlag, modProc, Proc.unlinked, this]
  · simpa [clearFlag, modProc, hp] using h p

/-- What is done before the loop. -/
theorem clearEndpoint_eq {rc : Slot} (h : k.isemptyp rc = false) (hp : ¬ k.Vital rc) :
    ∃ k₃, Detached k rc k₃ ∧ k.clearEndpoint rc = allSlots.foldl (clearRef rc) k₃ := by
  unfold clearEndpoint
  rw [if_neg (by simp [h]), if_neg hp]
  refine ⟨_, ?_, rfl⟩
  set k1 := k.rtsSet rc {.noEndpoint}
  have hk1 : k1.proc = update k.proc rc { k.proc rc with pRtsFlags := (k.proc rc).pRtsFlags ∪ {.noEndpoint} } := by
    simp only [k1, rtsSet]
    split_ifs <;> rfl
  have hr1 : k1.priv = k.priv := by
    simp only [k1, rtsSet]
    split_ifs <;> rfl
  set k2 := if .sysProc ∈ k1.privFlags rc then k1.modPriv (k1.proc rc).pPriv fun r => { r with sAsynsize := 0 } else k1
    with hk2
  have hp2 : k2.proc = k1.proc := by
    rw [hk2]
    split_ifs <;> rfl
  set k3 := if k2.rtsIsset rc .sending then (k2.unqueue rc).clearFlag rc .sending else k2 with hk3
  have hp3 : ∀ p, (k3.proc p).unlinked = ((k2.clearFlag rc .sending).proc p).unlinked := by
    intro p
    rw [hk3]
    split_ifs with hs
    · exact clearFlag_unlinked (unqueue_fixed rc).1 _ p
    -- a process that is not sending keeps its flags
    · have : .sending ∉ (k2.proc rc).pRtsFlags := by simpa [rtsIsset] using hs
      by_cases hp : p = rc
      · subst hp
        simp [clearFlag, modProc, Proc.unlinked, sdiff_eq_self_of_disjoint (disjoint_singleton_right.mpr this)]
      · simp [clearFlag, modProc, hp]
  have hr3 : k3.priv = k2.priv := by
    rw [hk3]
    split_ifs
    · exact (unqueue_fixed rc).2
    · rfl
  have hp4 : ∀ p, ((k3.clearFlag rc .receiving).proc p).unlinked =
      (((k2.clearFlag rc .sending).clearFlag rc .receiving).proc p).unlinked := clearFlag_unlinked hp3 _
  have hr4 : ∀ i, (k3.clearFlag rc .receiving).priv i =
      if i = (k.proc rc).pPriv ∧ .sysProc ∈ k.privFlags rc then { k.priv i with sAsynsize := 0 } else k.priv i := by
    intro i
    have hsys : k1.privFlags rc = k.privFlags rc := by simp [privFlags, hk1, hr1]
    rw [show (k3.clearFlag rc .receiving).priv = k2.priv from hr3, hk2, hsys]
    by_cases hs : .sysProc ∈ k.privFlags rc
    · by_cases hi : i = (k.proc rc).pPriv
      · subst hi
        simp [hs, modPriv, hk1, hr1]
      · simp [hs, hi, modPriv, hk1, hr1]
    · simp [hs, hr1]
  refine ⟨fun p hp => ?_, ?_, ?_, ?_, fun i => ?_, fun i => ?_, fun i => ?_⟩
  · rw [hp4]
    simp [clearFlag, modProc, hp2, hk1, hp]
  · have := congrArg Proc.pEndpoint (hp4 rc)
    simpa [clearFlag, modProc, hp2, hk1, Proc.unlinked] using this
  · have := congrArg Proc.pPriv (hp4 rc)
    simpa [clearFlag, modProc, hp2, hk1, Proc.unlinked] using this
  · refine (congrArg Proc.pRtsFlags (hp4 rc)).trans ?_
    simp only [clearFlag, modProc, hp2, hk1, Proc.unlinked, update_self, sdiff_sdiff_left]
    rfl
  · rw [hr4]
    split_ifs <;> rfl
  · rw [hr4]
    split_ifs <;> rfl
  · rw [hr4]
    split_ifs <;> rfl

/-! ## Tables -/

/-- Only system processes have a registered table. -/
def TablesOfSystem (k : State) : Prop := ∀ i, .sysProc ∉ (k.priv i).sFlags → (k.priv i).sAsynsize = 0

theorem TablesOfSystem.of_le (h : k.TablesOfSystem) (hf : ∀ i, (k'.priv i).sFlags = (k.priv i).sFlags)
    (ht : ∀ i, (k'.priv i).sAsynsize = (k.priv i).sAsynsize ∨ (k'.priv i).sAsynsize = 0 ∨
    .sysProc ∈ (k.priv i).sFlags) :
    k'.TablesOfSystem := by
  intro i hi
  rw [hf] at hi
  rcases ht i with he | he | he
  · rw [he, h i hi]
  · exact he
  · exact absurd he hi

theorem TablesOfSystem.moves (h : k.TablesOfSystem) {c : Option Slot} (hm : Moves c k k') : k'.TablesOfSystem :=
  h.of_le (fun i => (hm.leaves.grants i).2.1) hm.leaves.table

theorem TablesOfSystem.call (h : k.TablesOfSystem) {c : Slot} (hc : Call c k k') : k'.TablesOfSystem := by
  obtain ⟨k1, k2, h1, -, hs, h2⟩ := hc
  have hk1 := h.moves h1
  have hk2 : k2.TablesOfSystem := by
    cases hs <;> exact hk1
  exact hk2.moves h2

theorem foldl_clearRef_table (rc : Slot) : ∀ (l : List Slot) (k : State) (i : PrivId),
    ((l.foldl (clearRef rc) k).priv i).sFlags = (k.priv i).sFlags ∧
      ((l.foldl (clearRef rc) k).priv i).sAsynsize = (k.priv i).sAsynsize
  | [], _, _ => ⟨rfl, rfl⟩
  | q :: l, k, i => by
    obtain ⟨h1, h2⟩ := foldl_clearRef_table rc l (clearRef rc k q) i
    rw [foldl_cons, h1, h2, clearRef_priv]
    split_ifs
    · exact ⟨rfl, rfl⟩
    · by_cases hi : i = (k.proc q).pPriv
      · subst hi; simp
      · simp [hi]

theorem TablesOfSystem.clearEndpoint (h : k.TablesOfSystem) (rc : Slot) : (k.clearEndpoint rc).TablesOfSystem := by
  by_cases he : k.isemptyp rc = true
  · rw [State.clearEndpoint, if_pos he]
    exact h
  by_cases hp : k.Vital rc
  · rw [State.clearEndpoint, if_neg he, if_pos hp]
    exact h
  obtain ⟨k3, hd, hk⟩ := clearEndpoint_eq (by simpa using he) hp
  rw [hk]
  refine h.of_le (fun i => ?_) fun i => ?_
  · rw [(foldl_clearRef_table rc _ k3 i).1, hd.grants]
  · rw [(foldl_clearRef_table rc _ k3 i).2, hd.table]
    split_ifs
    · exact .inr (.inl rfl)
    · exact .inl rfl

theorem TablesOfSystem.clearProc (h : k.TablesOfSystem) (rc : Slot) : (k.clearProc rc).TablesOfSystem := by
  have h1 := h.clearEndpoint rc
  unfold State.clearProc
  split
  · exact h
  dsimp only
  split
  · exact h1
  have h2 : ((k.clearEndpoint rc).rtsSetFlags rc {.slotFree}).TablesOfSystem := by
    unfold rtsSetFlags
    split_ifs <;> exact h1
  split
  · refine h2.of_le (fun i => ?_) fun i => .inl ?_
    all_goals
      simp only [modPriv, update_apply]
      split
      next he => rw [he]
      next => rfl
  · exact h2

theorem TablesOfSystem.doFork (h : k.TablesOfSystem) (e : Endpoint) (rpc : Slot) (vm : Bool) (lin : Nat) :
    (k.doFork e rpc vm lin).2.TablesOfSystem := by
  rcases k.doFork_cases e rpc vm lin with he | ⟨rpp, -, -, -, -, he⟩
  · rw [he]
    exact h
  · intro i
    rw [he, (k.forked_fixed rpp rpc vm lin).1]
    exact h i

/-- No step registers a table for a user process. -/
theorem step_tablesOfSystem (h : k.TablesOfSystem) {o : Op} (hs : k.step o = some k') : k'.TablesOfSystem := by
  obtain ⟨hx, -⟩ := Option.filter_eq_some_iff.mp hs
  cases exec_does hx with
  | call _ hm => exact h.call hm
  | resume _ hm => exact h.call hm
  | notify hm => exact h.moves hm
  | reply _ hm => exact h.moves hm
  | exit =>
    unfold doExit
    split
    · split
      · exact h
      · exact h.clearProc _
    · exact h.clearProc _
  | signal hm => exact h.moves hm
  | kill _ hm => exact (h.moves hm).clearEndpoint _
  | fork => exact h.doFork _ _ _ _

/-! ## What is left -/

/-- `p` is blocked receiving from the endpoint that `d` has now. -/
def ReceivesFrom (k : State) (p d : Slot) : Prop :=
  .receiving ∈ (k.proc p).pRtsFlags ∧ (k.proc p).pGetfromE = (k.proc d).pEndpoint

instance (k : State) (p d : Slot) : Decidable (k.ReceivesFrom p d) := inferInstanceAs (Decidable (_ ∧ _))

/-- The state `k'` after the endpoint of `rc` was cleared in state `k`. -/
structure Cleaned (k : State) (rc : Slot) (k' : State) : Prop where
  /-- No other process waits for `rc`. -/
  waits : ∀ p, p ≠ rc → ¬ k'.SendsTo p rc ∧ ¬ k'.ReceivesFrom p rc
  /-- Those that waited are blocked for no reason but the others that they had, and know why. -/
  flags : ∀ p, p ≠ rc →
    (k'.proc p).pRtsFlags = ((k.proc p).pRtsFlags \ if k.ReceivesFrom p rc then {.receiving} else ∅) \
    if k.SendsTo p rc then {.sending} else ∅
  sender : ∀ p, p ≠ rc → k.SendsTo p rc → (k'.proc p).retreg = EDSTDIED
  receiver : ∀ p, p ≠ rc → k.ReceivesFrom p rc → ¬ k.SendsTo p rc → (k'.proc p).retreg = ESRCDIED
  /-- The other processes are as before, except for the links of the queues. -/
  others : ∀ p, p ≠ rc → ¬ k.SendsTo p rc → ¬ k.ReceivesFrom p rc → (k'.proc p).unlinked = (k.proc p).unlinked
  /-- `rc` is gone from the caller queues, which are as before otherwise. -/
  queues : ∀ d l, k.Live d → k.QueueIs d l → k'.QueueIs d (l.filter (· ≠ rc))
  pending : ∀ p, k'.isemptyp p = false → (k.proc rc).pPriv ∉ k'.pendingOf p
  table : (k'.priv (k.proc rc).pPriv).sAsynsize = 0

theorem release_flags (r : Proc) (e : Endpoint) : (r.release e).pRtsFlags =
    (r.pRtsFlags \ if .receiving ∈ r.pRtsFlags ∧ r.pGetfromE = e then {.receiving} else ∅) \
      if .sending ∈ r.pRtsFlags ∧ r.pSendtoE = e then {.sending} else ∅ := by
  unfold Proc.release
  by_cases h1 : .receiving ∈ r.pRtsFlags ∧ r.pGetfromE = e <;> by_cases h2 : .sending ∈ r.pRtsFlags ∧ r.pSendtoE = e
  all_goals simp [h1, h2]

theorem release_waits (r : Proc) (e : Endpoint) :
    (r.release e).pGetfromE = r.pGetfromE ∧ (r.release e).pSendtoE = r.pSendtoE := by
  unfold Proc.release
  dsimp only
  split_ifs <;> exact ⟨rfl, rfl⟩

theorem release_retreg (r : Proc) (e : Endpoint) : (r.release e).retreg =
    if .sending ∈ r.pRtsFlags ∧ r.pSendtoE = e then EDSTDIED
    else if .receiving ∈ r.pRtsFlags ∧ r.pGetfromE = e then ESRCDIED else r.retreg := by
  unfold Proc.release
  by_cases h1 : .receiving ∈ r.pRtsFlags ∧ r.pGetfromE = e <;> by_cases h2 : .sending ∈ r.pRtsFlags ∧ r.pSendtoE = e
  all_goals simp [h1, h2]

theorem release_of_not {r : Proc} {e : Endpoint} (h1 : ¬ (.receiving ∈ r.pRtsFlags ∧ r.pGetfromE = e))
    (h2 : ¬ (.sending ∈ r.pRtsFlags ∧ r.pSendtoE = e)) : r.release e = r := by
  simp only [Proc.release, if_neg h1, if_neg h2]

theorem queueIs_clearEndpoint (hg : k.view.Good) {rc d : Slot} {l : List Slot} (hd : k.Live d) (hl : k.QueueIs d l)
    (he : k.isemptyp rc = false) (hp : ¬ k.Vital rc) : (k.clearEndpoint rc).QueueIs d (l.filter (· ≠ rc)) := by
  obtain ⟨f, v2, -, hu, hv⟩ := clearEndpoint_dies hg he hp
  obtain ⟨l', hl'⟩ := hg.queue d (live_iff.mpr hd)
  obtain rfl : l = l' := chain_unique hl hl'.chain
  -- the loop leaves the queues alone
  have hchain : ∀ l, Chain v2.qLink (v2.callerQ d) l → (k.clearEndpoint rc).QueueIs d l := by
    intro l hc
    have h1 : (k.clearEndpoint rc).view.qLink = v2.qLink := by rw [hv]; rfl
    have h2 : (k.clearEndpoint rc).view.callerQ = v2.callerQ := by rw [hv]; rfl
    have : Chain (k.clearEndpoint rc).view.qLink ((k.clearEndpoint rc).view.callerQ d) l := by rw [h1, h2]; exact hc
    exact this
  have hkeep : rc ∉ l → l.filter (· ≠ rc) = l := fun h =>
    filter_eq_self.mpr fun p hp => by simpa using fun he : p = rc => h (he ▸ hp)
  have hg1 := hg.eases (.dropTables _ f)
  have hl1 : (k.view.dropTables f).IsQueue d l := hl'.eases (.dropTables _ f)
  rcases hu with ⟨hs, rfl⟩ | ⟨t, a, r, hs, hq, rfl⟩
  · have hnot : rc ∉ l := fun h => by
      have := ((hl'.mem rc).mp h).1
      rw [show k.view.sending rc = false from hs] at this
      cases this
    rw [hkeep hnot]
    exact hchain l hl1.chain
  by_cases hdt : d = t
  · subst hdt
    obtain rfl : l = a ++ rc :: r := chain_unique hl1.chain hq.chain
    have hnot : rc ∉ a ++ r := (nodup_middle.mp hq.nodup).notMem
    have hfil : (a ++ rc :: r).filter (· ≠ rc) = a ++ r := by
      have h1 : (a ++ r).filter (· ≠ rc) = a ++ r :=
        filter_eq_self.mpr fun p hp => by simpa using fun he : p = rc => hnot (he ▸ hp)
      rw [filter_append] at h1 ⊢
      simpa using h1
    rw [hfil]
    exact hchain _ hq.unlink.chain
  · rw [hkeep (hl1.disjoint hg1 hq hdt · (by simp))]
    exact hchain l (hq.unlink_other hg1 hdt hl1).chain

/-- `clear_endpoint` in a state whose queues are right. -/
theorem cleaned_of_good (hg : k.view.Good) (ht : k.TablesOfSystem) {rc : Slot} (he : k.isemptyp rc = false)
    (hp : ¬ k.Vital rc) : Cleaned k rc (k.clearEndpoint rc) := by
  have hq : ∀ d l, k.Live d → k.QueueIs d l → (k.clearEndpoint rc).QueueIs d (l.filter (· ≠ rc)) :=
    fun d l hd hl => queueIs_clearEndpoint hg hd hl he hp
  obtain ⟨k3, hd, hk⟩ := clearEndpoint_eq he hp
  rw [hk] at hq ⊢
  have htab := fun i => (foldl_clearRef_table rc allSlots k3 i).2
  have hnodup : allSlots.Nodup := nodup_finRange 104
  have hpend := (foldl_clearRef_pending rc allSlots k3 hnodup).1
  have hproc := foldl_clearRef_proc rc allSlots k3 hnodup
  generalize allSlots.foldl (clearRef rc) k3 = k' at hq htab hpend hproc ⊢
  have hall : ∀ p : Slot, p ∈ allSlots := mem_finRange
  -- every entry of the process table is released
  have hrel : ∀ p, k'.proc p = (k3.proc p).release (k.proc rc).pEndpoint := by
    intro p
    rw [hproc p, if_pos (hall p), hd.endpoint]
  have hent : (k'.proc rc).pEndpoint = (k.proc rc).pEndpoint := by rw [hrel, release_endpoint, hd.endpoint]
  have hsame : ∀ p, p ≠ rc → (k3.proc p).pRtsFlags = (k.proc p).pRtsFlags ∧
      (k3.proc p).pGetfromE = (k.proc p).pGetfromE ∧
      (k3.proc p).pSendtoE = (k.proc p).pSendtoE := by
    intro p hpr
    have h := hd.others p hpr
    simp only [Proc.unlinked, Proc.mk.injEq] at h
    exact ⟨h.2.1, h.2.2.2.2.2.1, h.2.2.2.2.2.2.1⟩
  have hflags : ∀ p, p ≠ rc → (k'.proc p).pRtsFlags = ((k.proc p).pRtsFlags \
      if k.ReceivesFrom p rc then {.receiving} else ∅) \ if k.SendsTo p rc then {.sending} else ∅ := by
    intro p hpr
    obtain ⟨h1, h2, h3⟩ := hsame p hpr
    rw [hrel, release_flags, h1, h2, h3]
    rfl
  have hto : ∀ p, p ≠ rc → (k'.proc p).pGetfromE = (k.proc p).pGetfromE ∧
      (k'.proc p).pSendtoE = (k.proc p).pSendtoE := by
    intro p hpr
    obtain ⟨-, h2, h3⟩ := hsame p hpr
    rw [hrel, (release_waits _ _).1, (release_waits _ _).2, h2, h3]
    exact ⟨rfl, rfl⟩
  refine ⟨fun p hpr => ⟨fun hs => ?_, fun hs => ?_⟩, hflags, fun p hpr hs => ?_, fun p hpr hr hs => ?_,
    fun p hpr hs hr => ?_, hq, fun p hne => ?_, ?_⟩
  · obtain ⟨hf, hee⟩ := hs
    rw [hent, (hto p hpr).2] at hee
    rw [hflags p hpr] at hf
    have hfl : .sending ∈ (k.proc p).pRtsFlags := (mem_sdiff.mp (mem_sdiff.mp hf).1).1
    have := (mem_sdiff.mp hf).2
    rw [if_pos (show k.SendsTo p rc from ⟨hfl, hee⟩)] at this
    simp at this
  · obtain ⟨hf, hee⟩ := hs
    rw [hent, (hto p hpr).1] at hee
    rw [hflags p hpr] at hf
    have hfl : .receiving ∈ (k.proc p).pRtsFlags := (mem_sdiff.mp (mem_sdiff.mp hf).1).1
    have := (mem_sdiff.mp (mem_sdiff.mp hf).1).2
    rw [if_pos (show k.ReceivesFrom p rc from ⟨hfl, hee⟩)] at this
    simp at this
  · obtain ⟨h1, h2, h3⟩ := hsame p hpr
    rw [hrel, release_retreg, h1, h3]
    exact if_pos hs
  · obtain ⟨h1, h2, h3⟩ := hsame p hpr
    rw [hrel, release_retreg, h1, h2, h3]
    exact (if_neg hs).trans (if_pos hr)
  · obtain ⟨h1, h2, h3⟩ := hsame p hpr
    rw [hrel, release_of_not (by rw [h1, h2]; exact hr) (by rw [h1, h3]; exact hs)]
    exact hd.others p hpr
  · rw [pendingOf, hrel, release_priv, ← hd.privId]
    refine hpend p (hall p) ?_
    by_contra hemp
    have hf : (k3.proc p).pRtsFlags = {.slotFree} := by simpa [isemptyp] using hemp
    have : k'.isemptyp p = true := by
      rw [isemptyp, hrel, release_of_not (by simp [hf]) (by simp [hf])]
      simpa using hf
    rw [this] at hne
    cases hne
  · rw [htab, hd.table]
    split_ifs with h
    · rfl
    · exact ht _ fun hs => h ⟨rfl, hs⟩

theorem wakeWith_returns (h : k.ReadyOk) (rp : Slot) (f : RtsFlag) (r : Int) :
    (k.wakeWith rp f r).ReadyOk ∧ (k.wakeWith rp f r).sched.halted = k.sched.halted :=
  have h' : (k.modProc rp fun p => { p with retreg := r }).ReadyOk := h.modProc fun _ => rfl
  ⟨rtsUnset_ready h', rtsUnset_returns h'⟩

theorem clearRef_returns (h : k.ReadyOk) (rc rp : Slot) :
    (clearRef rc k rp).ReadyOk ∧ (clearRef rc k rp).sched.halted = k.sched.halted := by
  unfold clearRef
  split_ifs
  · exact ⟨h, rfl⟩
  dsimp only
  set k1 := k.modPriv (k.proc rp).pPriv fun r =>
    { r with sNotifyPending := r.sNotifyPending.erase (k.proc rc).pPriv }
  have h1 : k1.ReadyOk := h.same rfl fun _ => .rfl
  set k2 := if k1.rtsIsset rp .receiving ∧ (k1.proc rp).pGetfromE = (k1.proc rc).pEndpoint then
    k1.wakeWith rp .receiving ESRCDIED else k1 with hk2
  have h2 : k2.ReadyOk ∧ k2.sched.halted = k.sched.halted := by
    rw [hk2]
    split_ifs
    · exact wakeWith_returns h1 _ _ _
    · exact ⟨h1, rfl⟩
  split_ifs
  · exact (wakeWith_returns h2.1 _ _ _).imp_right fun hh => hh.trans h2.2
  · exact h2

theorem foldl_clearRef_returns (rc : Slot) : ∀ (l : List Slot) {k : State}, k.ReadyOk →
    (l.foldl (clearRef rc) k).sched.halted = k.sched.halted
  | [], _, _ => rfl
  | rp :: l, _, h =>
    (foldl_clearRef_returns rc l (clearRef_returns h rc rp).1).trans (clearRef_returns h rc rp).2

/-- `clear_endpoint` finds the process in the queue it is in, and another process to run if it has to pick one. -/
theorem clearEndpoint_returns (hg : k.view.Good) (hr : k.ReadyOk) {rc : Slot} (he : k.isemptyp rc = false)
    (hp : ¬ k.Vital rc) (hq : (k.ready \ {rc}).Nonempty) :
    (k.clearEndpoint rc).sched.halted = k.sched.halted := by
  unfold clearEndpoint
  rw [if_neg (by simp [he]), if_neg hp]
  dsimp only
  have hfree : k.view.free rc = false := (hg.free_eq rc).trans he
  have h1 : (k.rtsSet rc {.noEndpoint}).sched.halted = k.sched.halted := rtsSet_returns hr hq
  have hd1 : (k.rtsSet rc {.noEndpoint}).Dead rc := ⟨rtsSet_ready hr (by simp), by simp [rtsSet_flags]⟩
  obtain ⟨f, -, hv⟩ := dropTable_view (k.rtsSet rc {.noEndpoint}) rc
  rw [view_rtsSet_noEndpoint hfree] at hv
  set k1 := k.rtsSet rc {.noEndpoint}
  set k2 := if .sysProc ∈ k1.privFlags rc then k1.modPriv (k1.proc rc).pPriv fun r => { r with sAsynsize := 0 } else k1
    with hk2
  have h2 : k2.sched = k1.sched ∧ k2.Dead rc := by
    rw [hk2]
    split_ifs
    · exact ⟨rfl, hd1.1.same rfl fun _ => .rfl, hd1.2⟩
    · exact ⟨rfl, hd1⟩
  set k3 := if k2.rtsIsset rc .sending then (k2.unqueue rc).clearFlag rc .sending else k2 with hk3
  have h3 : k3.sched = k2.sched ∧ k3.Dead rc := by
    rw [hk3]
    split_ifs with hs
    · have hsend : (k.view.dropTables f).sending rc = true := (congrArg (View.sending · rc) hv).symm.trans hs
      exact ⟨(unqueue_view (hg.eases (.dropTables _ f)) hv hfree hsend).1,
        ((dead_clears rc).unqueue h2.2).clearFlag (by decide)⟩
    · exact ⟨rfl, h2.2⟩
  have hd4 : (k3.clearFlag rc .receiving).Dead rc := h3.2.clearFlag (by decide)
  rw [foldl_clearRef_returns rc _ hd4.1, show (k3.clearFlag rc .receiving).sched = k3.sched from rfl, h3.1, h2.1, h1]

/-- **What `clear_endpoint` cleans up** for a process in use that is not PM, VFS or VM, in every run whose forks are by
processes without callers that are not sending. It returns if the ready queues are right and another process is
ready, as IDLE is. -/
theorem cleaned_of_run {os : List Op} (h0 : k.Initial) (hok : AllOk step ForkOk os k) (hr : run step os k = some k')
    {rc : Slot} (he : k'.isemptyp rc = false) (hp : ¬ k'.Vital rc) :
    Cleaned k' rc (k'.clearEndpoint rc) ∧ (k'.ReadyOk → (k'.ready \ {rc}).Nonempty →
      (k'.clearEndpoint rc).sched.halted = k'.sched.halted) := by
  obtain ⟨hg, ht⟩ := run_invariant (I := fun k => k.view.Good ∧ k.TablesOfSystem)
    (fun _ _ _ h hok hs => ⟨step_good h.1 hok hs, step_tablesOfSystem h.2 hs⟩)
    ⟨h0.good, fun i _ => h0.asynsize i⟩ hok hr
  exact ⟨cleaned_of_good hg ht he hp, fun hready hq => clearEndpoint_returns hg hready he hp hq⟩

end State

/-- RS has notified VFS, and VFS is sending to RS. -/
def notifiedSender : List Op := [plainCall RS NOTIFY (procNr VFS), plainCall VFS SEND (procNr RS)]

/-- RS dies, and VFS is told. -/
theorem cleaned_of_run_RS : ∃ k, run State.step notifiedSender sixState = some k ∧ k.SendsTo VFS RS ∧
    k.Cleaned RS (k.clearEndpoint RS) := by
  obtain ⟨k, hk, hs, he, hp⟩ : ∃ k, run State.step notifiedSender sixState = some k ∧ k.SendsTo VFS RS ∧
      k.isemptyp RS = false ∧ ¬ k.Vital RS := by decide +kernel
  exact ⟨k, hk, hs, (State.cleaned_of_run sixState_initial (by decide +kernel) hk he hp).1⟩

/-- INIT is sending to RS when RS forks. -/
def senderOfParent : List Op :=
  [plainCall PM RECEIVE ANY, plainCall INIT SEND (procNr RS), plainCall RS SENDREC (procNr PM),
    .fork (procNr RS) 20 false 1]

/-- INIT dies and stays in the caller queue of the child of RS, in slot 20. -/
theorem cleaned_fork : ∃ k, run State.step senderOfParent sixState = some k ∧
    (k.clearEndpoint INIT).sched.halted = false ∧ (k.clearEndpoint INIT).Live 20 ∧
    ((k.clearEndpoint INIT).proc 20).pCallerQ = some INIT ∧ ¬ k.Cleaned INIT (k.clearEndpoint INIT) := by
  obtain ⟨k, hk, h1, h2, h3, h4, h5, h6⟩ : ∃ k, run State.step senderOfParent sixState = some k ∧
      (k.clearEndpoint INIT).sched.halted = false ∧ (k.clearEndpoint INIT).Live 20 ∧
      ((k.clearEndpoint INIT).proc 20).pCallerQ = some INIT ∧ k.Live 20 ∧ (k.proc 20).pCallerQ = some INIT ∧
      (k.proc INIT).pQLink = none := by decide +kernel
  refine ⟨k, hk, h1, h2, h3, fun hc => ?_⟩
  have hq : k.QueueIs 20 [INIT] := ⟨h5, h6⟩
  have : (k.clearEndpoint INIT).QueueIs 20 [] := by simpa using hc.queues 20 [INIT] h4 hq
  rw [State.QueueIs, chain_nil, h3] at this
  cases this

end Minix.Kernel
