import Minix.Kernel.SigSteps

/-!
# Delayed stops

PM stops a process with `do_runctl`. A process that is sending, or whose call is deferred, is not stopped at once: the
call answers `EBUSY` and sets `MF_SIG_DELAY`, and the kernel raises a `SIGNDELAY` when the process is done sending.

* `delayedStop_of_run`: in every run in which no process dies while a process with a delayed stop is sending to it,
  there is one `SIGNDELAY` for each delay, raised before the process can run again.
* `delayedStop_deadDestination`: `clear_endpoint` releases the callers of a dead process without `sig_delay_done`, so
  that the caller runs on, without the signal and with `MF_SIG_DELAY` set.
-/

namespace Minix.Kernel

open Minix.Lib

/-! ## Runs -/

/-- What happens to the delayed stop of a process. -/
inductive DelayEvent
  /-- `MF_SIG_DELAY` was set. -/
  | started
  /-- `SIGNDELAY` was raised. -/
  | raised
  deriving DecidableEq

namespace State

variable {k k₀ k₁ k' : State} {p : Slot}

/-- `SIGNDELAY` is pending for the process. -/
def told (k : State) (p : Slot) : Bool := (k.proc p).pPending.testBit SIGNDELAY

/-- What a step does to the delayed stop of `p`. -/
def delayEvents (p : Slot) (k : State) (_ : CtlOp) (k' : State) : List DelayEvent :=
  (if !k.mf p .sigDelay && k'.mf p .sigDelay then [.started] else []) ++
    if !k.told p && k'.told p then [.raised] else []

/-- The invariant of a run. -/
structure DelayInv (k : State) : Prop where
  good : k.view.Good
  ok : ∀ q, (k.sig q).Ok

/-- A step keeps the invariant of the delays. -/
theorem DelayInv.step (h : k.DelayInv) {o : CtlOp} (hok : k.CtlOk o) (hs : k.ctlStep o = some k') : k'.DelayInv := by
  refine ⟨ctlStep_good h.good hok hs, fun q => ?_⟩
  rcases ctlStep_change h.good h.ok hok hs q with hc | ⟨_, hv⟩
  · exact hc.ok (h.ok q)
  · exact hv

/-- A state without delayed stops and signals. -/
def NoDelays (k : State) : Prop := ∀ p, (k.proc p).pPending = 0 ∧ k.mf p .sigDelay = false

theorem Initial.delayInv (h : k.Initial) (hd : k.NoDelays) : k.DelayInv := by
  refine ⟨h.good, fun q => ⟨fun _ hq => ?_, fun _ hq => ?_, fun _ hq => ?_⟩⟩
  · have := (hd q).2
    rw [show k.mf q .sigDelay = true from hq] at this
    cases this
  · have := (h.idle q).2.2.1
    rw [show k.view.sending q = true from hq] at this
    cases this
  · have : (k.sig q).pending = 0 := (hd q).1
    rw [this] at hq
    simp at hq

/-- As many delays end as have begun, except for the one that goes on. -/
theorem delayEvents_balance (h : k.DelayInv) {o : CtlOp} (hok : k.CtlOk o) (hp : CtlOp.child o ≠ some p)
    (hs : k.ctlStep o = some k') :
    (delayEvents p k o k').count .raised + (k'.mf p .sigDelay).toNat =
      (delayEvents p k o k').count .started + (k.mf p .sigDelay).toNat := by
  have hc := (ctlStep_change h.good h.ok hok hs p).resolve_right fun hb => hp hb.1
  have hb := hc.balance (h.ok p)
  have h1 : ∀ k : State, (k.sig p).delay = k.mf p .sigDelay := fun _ => rfl
  have h2 : ∀ k : State, (k.sig p).pending.testBit SIGNDELAY = k.told p := fun _ => rfl
  simp only [h1, h2] at hb
  unfold delayEvents
  rcases hb with ⟨hd, ht⟩ | ⟨hd, hd', ht, ht'⟩
  · cases ha : k.mf p .sigDelay <;> cases hb : k'.mf p .sigDelay <;> cases hc : k.told p <;>
      cases he : k'.told p <;> simp_all
  · rw [hd, hd', ht, ht']
    rfl

/-- The delayed stop of `p` after it has begun, with what happened since. -/
structure DelayedStop (p : Slot) (T : List DelayEvent) (k : State) : Prop where
  /-- There is one `SIGNDELAY` for the delay, and one for each that began later, except for a delay that goes on. -/
  count : T.count .raised + (k.mf p .sigDelay).toNat = 1 + T.count .started
  /-- The stop is delayed only while the process is sending or its call is deferred. -/
  waits : k.Live p → k.mf p .sigDelay = true → k.rtsIsset p .sending = true ∨ k.mf p .scDefer = true
  /-- A process that runs its own instructions was told exactly once for each delay. -/
  told : k.runnable p = true → k.mf p .scDefer = false →
    k.mf p .sigDelay = false ∧ T.count .raised = 1 + T.count .started

/-- **Delayed stops**: what holds in every run after `do_runctl` has answered `EBUSY` for `p`. -/
theorem delayedStop_of_run {os₀ os : List CtlOp} {e : Endpoint} {a : RcAction} {d : Bool} (h0 : k₀.Initial)
    (hd0 : k₀.NoDelays) (hok₀ : AllOk ctlStep CtlOk os₀ k₀) (hr₀ : run ctlStep os₀ k₀ = some k)
    (hp : k.isokendpt e = some p) (hb : (k.doRunctl e a d).1 = EBUSY) (hs : k.ctlStep (.runctl e a d) = some k₁)
    (hok : AllOk ctlStep (fun k o => k.CtlOk o ∧ CtlOp.child o ≠ some p) os k₁) (hr : run ctlStep os k₁ = some k') :
    DelayedStop p (outputs ctlStep (delayEvents p) os k₁) k' := by
  have hk : k.DelayInv := run_invariant (fun _ _ _ h => h.step) (h0.delayInv hd0) hok₀ hr₀
  have hk₁ : k₁.DelayInv := hk.step (o := .runctl e a d) trivial hs
  have hd₁ : k₁.mf p .sigDelay = true := by
    obtain ⟨hx, _⟩ := Option.filter_eq_some_iff.mp hs
    cases hx
    exact doRunctl_ebusy hp hb
  have hfin := run_history (T := [])
    (I := fun T k => k.DelayInv ∧ T.count .raised + (k.mf p .sigDelay).toNat = 1 + T.count .started) (delayEvents p)
    (fun T s o s' hI ho hst => by
      obtain ⟨hinv, hc⟩ := hI
      have := delayEvents_balance hinv ho.1 ho.2 hst
      refine ⟨hinv.step ho.1 hst, ?_⟩
      rw [List.count_append, List.count_append]
      omega)
    ⟨hk₁, by rw [hd₁]; rfl⟩ hok hr
  rw [List.nil_append] at hfin
  obtain ⟨hinv, hc⟩ := hfin
  have hwaits : k'.Live p → k'.mf p .sigDelay = true → k'.rtsIsset p .sending = true ∨ k'.mf p .scDefer = true :=
    fun hl => (hinv.ok p).waits (view_live.mpr (live_iff.mpr hl))
  refine ⟨hc, hwaits, fun hrun hdef => ?_⟩
  have hfree := free_of_runnable hrun
  have hdel : k'.mf p .sigDelay = false := by
    by_contra hdel
    rcases hwaits (live_iff.mp (view_live.mp hfree.1)) (by simpa using hdel) with h | h
    · have := hfree.2.2
      rw [show (k'.sig p).sending = true from h] at this
      cases this
    · rw [hdef] at h
      cases h
  refine ⟨hdel, ?_⟩
  rw [hdel] at hc
  exact hc

end State

/-! ## Two runs -/

instance (k : State) (o : Op) : Decidable (k.DelayOk o) :=
  inferInstanceAs (Decidable (∀ rc, k.dying o = some rc → ∀ q, q ≠ rc → k.mf q .sigDelay = true → ¬ k.SendsTo q rc))

instance (k : State) : ∀ o, Decidable (k.CtlOk o)
  | .op o => inferInstanceAs (Decidable (k.ForkOk o ∧ k.DelayOk o))
  | .getksig _ | .endksig _ | .runctl .. | .trace .. => isTrue trivial

theorem sixState_noDelays : sixState.NoDelays := by
  unfold State.NoDelays
  decide +kernel

/-- VFS is sending to RS. -/
def sendToRs : List CtlOp := [.op (plainCall VFS SEND (procNr RS))]

/-- RS takes the message, and PM deals with the signal. -/
def takeAndEnd : List CtlOp :=
  [.op (plainCall RS RECEIVE ANY), .getksig ⟨NONE, 0⟩, .endksig (procNr VFS)]

theorem delayedStop_takeAndEnd : ∃ k k₁ k', run State.ctlStep sendToRs sixState = some k ∧
    (k.doRunctl (procNr VFS) .stop true).1 = EBUSY ∧ k.ctlStep (.runctl (procNr VFS) .stop true) = some k₁ ∧
    run State.ctlStep takeAndEnd k₁ = some k' ∧
    State.DelayedStop VFS (outputs State.ctlStep (State.delayEvents VFS) takeAndEnd k₁) k' ∧
    outputs State.ctlStep (State.delayEvents VFS) takeAndEnd k₁ = [.raised] ∧ k'.runnable VFS = true := by
  obtain ⟨k, hk, hv, hbusy, k₁, hk₁, hok, hout, k', hk', hrun⟩ : ∃ k, run State.ctlStep sendToRs sixState = some k ∧
      k.isokendpt (procNr VFS) = some VFS ∧ (k.doRunctl (procNr VFS) .stop true).1 = EBUSY ∧
      ∃ k₁, k.ctlStep (.runctl (procNr VFS) .stop true) = some k₁ ∧
        AllOk State.ctlStep (fun k o => k.CtlOk o ∧ CtlOp.child o ≠ some VFS) takeAndEnd k₁ ∧
        outputs State.ctlStep (State.delayEvents VFS) takeAndEnd k₁ = [.raised] ∧
        ∃ k', run State.ctlStep takeAndEnd k₁ = some k' ∧ k'.runnable VFS = true := by decide +kernel
  refine ⟨k, k₁, k', hk, hbusy, hk₁, hk', ?_, hout, hrun⟩
  exact State.delayedStop_of_run sixState_initial sixState_noDelays (by decide +kernel) hk hv hbusy hk₁ hok hk'

/-- RS dies while VFS, whose stop is delayed, is sending to it: VFS runs on and is never told. -/
theorem delayedStop_deadDestination : ∃ k k₁ k', run State.ctlStep sendToRs sixState = some k ∧
    (k.doRunctl (procNr VFS) .stop true).1 = EBUSY ∧ k.ctlStep (.runctl (procNr VFS) .stop true) = some k₁ ∧
    k₁.ctlStep (.op (.exit RS SELF)) = some k' ∧ k'.runnable VFS = true ∧ k'.mf VFS .scDefer = false ∧
    k'.mf VFS .sigDelay = true ∧ (k'.proc VFS).pPending = 0 ∧
    ¬ State.DelayedStop VFS (outputs State.ctlStep (State.delayEvents VFS) [.op (.exit RS SELF)] k₁) k' := by
  obtain ⟨k, hk, hbusy, k₁, hk₁, k', hk', h1, h2, h3, h4⟩ : ∃ k, run State.ctlStep sendToRs sixState = some k ∧
      (k.doRunctl (procNr VFS) .stop true).1 = EBUSY ∧ ∃ k₁, k.ctlStep (.runctl (procNr VFS) .stop true) = some k₁ ∧
      ∃ k', k₁.ctlStep (.op (.exit RS SELF)) = some k' ∧ k'.runnable VFS = true ∧ k'.mf VFS .scDefer = false ∧
        k'.mf VFS .sigDelay = true ∧ (k'.proc VFS).pPending = 0 := by decide +kernel
  refine ⟨k, k₁, k', hk, hbusy, hk₁, hk', h1, h2, h3, h4, fun hs => ?_⟩
  have := (hs.told h1 h2).1
  rw [h3] at this
  cases this

end Minix.Kernel
