import Minix.Kernel.SigCalls

/-!
# What a step does to signals

`SigView.Change` lists what a step of the kernel can do to what signals depend on of one process, and `ctlStep_change`
says that a step does nothing else. `SigView.Ok` is kept by every change (`Change.ok`), and `Change.balance` says when
`MF_SIG_DELAY` is cleared and `SIGNDELAY` is raised.
-/

namespace Minix.Kernel

open Minix.Lib Function Option

/-! ## What a step can do to a process -/

/-- What a step of the kernel can do to a process, unless it is the birth of the process. -/
inductive SigView.Change (v : SigView) : SigView → Prop
  | same : Change v v
  | raised {sig : Nat} (hs : sig ≠ SIGNDELAY) : Change v (v.raise sig)
  /-- A traced call of the process is deferred. -/
  | deferred (hf : v.Free) : Change v ({ v with defer := true }.raise SIGTRAP)
  /-- Its message was taken. -/
  | released (hl : v.live = true) (hs : v.sending = true) : Change v v.released
  /-- Its call blocks it. -/
  | blocked (hf : v.Free) : Change v { v with defer := false, sending := true }
  /-- Its deferred call was performed. -/
  | performed (hf : v.Free) :
      Change v (if v.delay then { v with defer := false }.done else { v with defer := false })
  | died {v' : SigView} (hl : v'.live = false) (hd : v'.delay = v.delay)
      (hp : v'.pending.testBit SIGNDELAY = true → v.pending.testBit SIGNDELAY = true) : Change v v'
  /-- The process it was sending to died. -/
  | abandoned (hd : v.delay = false) : Change v { v with sending := false }
  | fetched : Change v { v with pending := 0, signaled := false }
  | ended (b : Bool) : Change v { v with sigPending := b }
  /-- Its stop is delayed. -/
  | delayed (hw : v.sending = true ∨ v.defer = true) : Change v { v with delay := true }

namespace SigView

variable {v v' : SigView} {s : Nat}

/-- A live process with a delayed stop is sending or has a deferred call, not both, and one that was told has neither.
-/
structure Ok (v : SigView) : Prop where
  waits : v.live = true → v.delay = true → v.sending = true ∨ v.defer = true
  apart : v.live = true → v.sending = true → v.defer = false
  told : v.live = true → v.pending.testBit SIGNDELAY = true →
    v.signaled = true ∧ v.sending = false ∧ v.defer = false

@[simp] theorem sending_raise : (v.raise s).sending = v.sending := by
  unfold raise
  split_ifs <;> rfl

@[simp] theorem delay_raise : (v.raise s).delay = v.delay := by
  unfold raise
  split_ifs <;> rfl

@[simp] theorem defer_raise : (v.raise s).defer = v.defer := by
  unfold raise
  split_ifs <;> rfl

@[simp] theorem live_raise : (v.raise s).live = v.live := by
  unfold raise
  split_ifs <;> rfl

theorem signaled_raise_of (h : v.signaled = true) : (v.raise s).signaled = true := by
  unfold raise
  split_ifs
  · exact h
  · exact h

@[simp] theorem sending_done : v.done.sending = v.sending := sending_raise

@[simp] theorem delay_done : v.done.delay = false := delay_raise

@[simp] theorem defer_done : v.done.defer = v.defer := defer_raise

theorem testBit_done : v.done.pending.testBit SIGNDELAY = true := testBit_raise.mpr (.inr rfl)

theorem signaled_done (h : v.pending.testBit SIGNDELAY = true → v.signaled = true) : v.done.signaled = true :=
  signaled_raise h

theorem Ok.not_told_of_free (h : v.Ok) (hf : v.Free) : v.pending.testBit SIGNDELAY = false := by
  by_contra hb
  have := (h.told hf.1 (by simpa using hb)).1
  rw [hf.2.1] at this
  cases this

theorem Ok.raise (h : v.Ok) (hs : s ≠ SIGNDELAY) : (v.raise s).Ok where
  waits hl hd := by
    rw [live_raise] at hl
    rw [delay_raise] at hd
    rw [sending_raise, defer_raise]
    exact h.waits hl hd
  apart hl := by
    rw [live_raise] at hl
    rw [sending_raise, defer_raise]
    exact h.apart hl
  told hl hb := by
    rw [live_raise] at hl
    obtain ⟨h1, h2⟩ := h.told hl ((testBit_raise.mp hb).resolve_right hs.symm)
    rw [sending_raise, defer_raise]
    exact ⟨signaled_raise_of h1, h2⟩

/-- The process is told when it is neither sending nor has a deferred call any more. -/
theorem Ok.done (hs : v.sending = false) (hd : v.defer = false)
    (hp : v.pending.testBit SIGNDELAY = true → v.signaled = true) : v.done.Ok where
  waits _ h := by rw [delay_done] at h; cases h
  apart _ _ := by rw [defer_done]; exact hd
  told _ _ := by
    rw [sending_done, defer_done]
    exact ⟨signaled_done hp, hs, hd⟩

/-- `released` in the order in which it is easier to reason about. -/
theorem released_eq : v.released = if v.delay then { v with sending := false }.done
    else { v with sending := false } := by
  unfold released SigView.done SigView.raise
  by_cases hd : v.delay = true
  · rw [if_pos hd, if_pos hd]
    split_ifs <;> rfl
  · rw [if_neg hd, if_neg hd]

theorem Change.ok (hv : v.Ok) (h : v.Change v') : v'.Ok := by
  -- a process that can run was not told
  have hfree : v.Free → ∀ {P : Prop}, v.pending.testBit SIGNDELAY = true → P := fun hf P hb => by
    rw [hv.not_told_of_free hf] at hb
    cases hb
  cases h with
  | same => exact hv
  | raised hs => exact hv.raise hs
  | deferred hf =>
    refine Ok.raise ⟨fun _ _ => .inr rfl, fun _ hs => ?_, fun _ hb => hfree hf hb⟩ (by decide)
    have := hf.2.2
    rw [show v.sending = true from hs] at this
    cases this
  | released hl hs =>
    have hd := hv.apart hl hs
    rw [released_eq]
    split_ifs with hdel
    · exact Ok.done rfl hd fun hb => (hv.told hl hb).1
    · exact ⟨fun _ h => absurd h hdel, nofun, fun _ hb => ⟨(hv.told hl hb).1, rfl, hd⟩⟩
  | blocked hf => exact ⟨fun _ _ => .inl rfl, fun _ _ => rfl, fun _ hb => hfree hf hb⟩
  | performed hf =>
    split_ifs with hdel
    · exact Ok.done hf.2.2 rfl fun hb => hfree hf hb
    · exact ⟨fun _ h => absurd h hdel, fun _ _ => rfl, fun _ hb => hfree hf hb⟩
  | died hl _ _ => refine ⟨fun h => ?_, fun h => ?_, fun h => ?_⟩ <;> rw [hl] at h <;> cases h
  | abandoned hd =>
    refine ⟨fun _ h => ?_, nofun, fun hl hb => ?_⟩
    · rw [show v.delay = true from h] at hd
      cases hd
    · obtain ⟨h1, _, h3⟩ := hv.told hl hb
      exact ⟨h1, rfl, h3⟩
  | fetched => exact ⟨hv.waits, hv.apart, fun _ hb => by simp at hb⟩
  | ended b => exact ⟨hv.waits, hv.apart, hv.told⟩
  | delayed hw => exact ⟨fun _ _ => hw, hv.apart, hv.told⟩

theorem Change.balance (hv : v.Ok) (h : v.Change v') :
    (v.delay = true → v'.delay = true) ∧
        (v'.pending.testBit SIGNDELAY = true → v.pending.testBit SIGNDELAY = true) ∨
      v.delay = true ∧ v'.delay = false ∧ v.pending.testBit SIGNDELAY = false ∧
        v'.pending.testBit SIGNDELAY = true := by
  have hraise : ∀ (u : SigView) {s : Nat}, s ≠ SIGNDELAY → (u.raise s).pending.testBit SIGNDELAY = true →
      u.pending.testBit SIGNDELAY = true := fun u s hs h => (testBit_raise.mp h).resolve_right hs.symm
  cases h with
  | same => exact .inl ⟨id, id⟩
  | raised hs => exact .inl ⟨fun h => by rwa [delay_raise], hraise v hs⟩
  | deferred => exact .inl ⟨fun h => by rwa [delay_raise], hraise { v with defer := true } (by decide)⟩
  | released hl hs =>
    rw [released_eq]
    split_ifs with hdel
    · refine .inr ⟨hdel, delay_done, ?_, testBit_done⟩
      by_contra hb
      have := (hv.told hl (by simpa using hb)).2.1
      rw [hs] at this
      cases this
    · exact .inl ⟨id, id⟩
  | blocked => exact .inl ⟨id, id⟩
  | performed hf =>
    split_ifs with hdel
    · exact .inr ⟨hdel, delay_done, hv.not_told_of_free hf, testBit_done⟩
    · exact .inl ⟨id, id⟩
  | died _ hd hp => exact .inl ⟨fun h => by rwa [hd], hp⟩
  | abandoned => exact .inl ⟨id, id⟩
  | fetched => exact .inl ⟨id, fun h => by simp at h⟩
  | ended => exact .inl ⟨id, id⟩
  | delayed => exact .inl ⟨fun _ => rfl, id⟩

/-- Only one process is changed. -/
theorem Change.update {s : Slot → SigView} {p : Slot} {v : SigView} (h : (s p).Change v) (q : Slot) :
    (s q).Change (Function.update s p v q) := by
  by_cases hq : q = p
  · subst hq
    rwa [update_self]
  · rw [update_of_ne hq]
    exact .same

end SigView

theorem CallSig.change {s s' : Slot → SigView} {c : Slot} (hc : (s c).Free)
    (hl : ∀ q, (s q).sending = true → (s q).live = true)
    (h : CallSig (update s c { s c with defer := false }) c s') :
    (∀ q, q ≠ c → (s q).Change (s' q)) ∧
      (s' c = { s c with defer := false } ∨ s' c = { s c with defer := false, sending := true }) := by
  rcases h with _ | (rfl | ⟨_, p, hp, rfl⟩)
  · refine ⟨fun q hq => ?_, .inr ?_⟩
    · rw [update_of_ne hq, update_of_ne hq]
      exact .same
    · rw [update_self, update_self]
  · refine ⟨fun q hq => ?_, .inl (update_self ..)⟩
    rw [update_of_ne hq]
    exact .same
  · -- the sender is not the caller, which can run
    have hpc : p ≠ c := by
      rintro rfl
      rw [update_self] at hp
      have := hc.2.2
      rw [show (s p).sending = true from hp] at this
      cases this
    rw [update_of_ne hpc] at hp ⊢
    refine ⟨fun q hq => ?_, .inl ?_⟩
    · by_cases hqp : q = p
      · subst hqp
        rw [update_self]
        exact .released (hl q hp) hp
      · rw [update_of_ne hqp, update_of_ne hq]
        exact .same
    · rw [update_of_ne hpc.symm, update_self]

/-! ## Steps -/

/-- The operations of the kernel together with the calls of PM about signals, stops and traces. -/
inductive CtlOp
  | op (o : Op)
  | getksig (m : SigMsg)
  | endksig (sigEndpt : Endpoint)
  | runctl (rcEndpt : Endpoint) (action : RcAction) (rcDelay : Bool)
  | trace (e : Endpoint) (req : TraceReq)

/-- The slot in which a process is born. -/
def CtlOp.child : CtlOp → Option Slot
  | .op (.fork _ rpc _ _) => some rpc
  | _ => none

namespace State

variable {k k' : State} {p c q : Slot}

/-- The effect of an operation, if it is possible. The system task has no deferred call when it runs. -/
def ctlExec (k : State) : CtlOp → Option State
  | .op (.reply d m) => if k.mf SYSTEM .scDefer then none else k.exec (.reply d m)
  | .op o => k.exec o
  | .getksig m => some (k.doGetksig m).2.2
  | .endksig e => some (k.doEndksig e).2
  | .runctl e a d => some (k.doRunctl e a d).2
  | .trace e r => some (k.doTrace e r).2

/-- One step of the kernel, which goes on unless it has halted. -/
def ctlStep (k : State) (o : CtlOp) : Option State := (k.ctlExec o).filter fun k => !k.sched.halted

theorem view_live : (k.sig p).live = true ↔ k.view.live p := by simp [sig, Proc.sig, View.live, State.view]

theorem free_of_runnable (h : k.runnable p = true) : (k.sig p).Free := by
  have h' : (k.proc p).pRtsFlags = ∅ := by simpa [runnable] using h
  simp [SigView.Free, sig, Proc.sig, h']

/-! ### Stops and traces -/

theorem delayStop_spec : (k.delayStop p).1 = ((k.delayStop p).2.sig p).delay ∧
    ((k.delayStop p).2.sig = k.sig ∨ ((k.sig p).sending = true ∨ (k.sig p).defer = true) ∧
      (k.delayStop p).2.sig = update k.sig p { k.sig p with delay := true }) := by
  unfold delayStop
  have h1 : (k.rtsSet p {.sysLock}).sig = k.sig := sig_rtsSet_quiet (by decide)
  set k1 := k.rtsSet p {.sysLock}
  have hif : (k1.rtsIsset p .sending || k1.mf p .scDefer) = ((k.sig p).sending || (k.sig p).defer) := by
    rw [← h1]
    rfl
  dsimp only
  rw [hif, sig_rtsUnset_quiet (by decide)]
  refine ⟨rfl, ?_⟩
  split_ifs with hw
  · right
    refine ⟨by simpa using hw, ?_⟩
    rw [sig_modProc, h1]
    congr 1
    rw [← h1]
    ext1 <;> simp [sig, Proc.sig]
  · exact .inl h1

theorem setStop_sig (a : RcAction) : (k.setStop p a).2.sig = k.sig := by
  cases a with
  | stop => exact sig_rtsSet_quiet (by decide)
  | resume => exact sig_rtsUnset_quiet (by decide)
  | other => rfl

theorem setStop_ne_ebusy (a : RcAction) : (k.setStop p a).1 ≠ EBUSY := by
  cases a <;> simp [setStop, OK, EINVAL, EBUSY]

/-- `do_runctl` changes nothing that signals depend on, or delays a stop. -/
theorem doRunctl_sig (e : Endpoint) (a : RcAction) (d : Bool) : (k.doRunctl e a d).2.sig = k.sig ∨
    ∃ p, ((k.sig p).sending = true ∨ (k.sig p).defer = true) ∧
      (k.doRunctl e a d).2.sig = update k.sig p { k.sig p with delay := true } := by
  unfold doRunctl
  split
  · exact .inl rfl
  rename_i p _
  obtain ⟨_, hd⟩ := delayStop_spec
  split_ifs
  · exact .inl rfl
  · split
    next h =>
      rw [h] at hd
      exact hd.imp_right fun hd => ⟨p, hd⟩
    next h =>
      rw [h] at hd
      rw [setStop_sig]
      exact hd.imp_right fun hd => ⟨p, hd⟩
  · exact .inl (setStop_sig a)

theorem doRunctl_ebusy {e : Endpoint} {a : RcAction} {d : Bool} (hp : k.isokendpt e = some p)
    (h : (k.doRunctl e a d).1 = EBUSY) : ((k.doRunctl e a d).2.sig p).delay = true := by
  obtain ⟨hd, _⟩ := delayStop_spec
  unfold doRunctl at h ⊢
  rw [hp] at h ⊢
  dsimp only at h ⊢
  split_ifs at h ⊢ with h1 h2
  · exact absurd h (show EPERM ≠ EBUSY by decide)
  · cases hb : (k.delayStop p).1 with
    | true =>
      rw [show k.delayStop p = (true, (k.delayStop p).2) from Prod.ext hb rfl]
      exact hd.symm.trans hb
    | false =>
      rw [show k.delayStop p = (false, (k.delayStop p).2) from Prod.ext hb rfl] at h
      exact absurd h (setStop_ne_ebusy a)
  · exact absurd h (setStop_ne_ebusy a)

theorem doTrace_sig (e : Endpoint) (r : TraceReq) : (k.doTrace e r).2.sig = k.sig := by
  unfold doTrace
  split
  · rfl
  split_ifs
  · rfl
  · rfl
  cases r with
  | stop =>
    rw [sig_same (by simp [Proc.sig]), sig_rtsSet_quiet (by decide)]
  | resume => exact sig_rtsUnset_quiet (by decide)
  | step => exact sig_rtsUnset_quiet (by decide)
  | syscall =>
    rw [sig_rtsUnset_quiet (by decide), sig_same (by simp [Proc.sig])]

/-! ### The message passing of the calls of PM -/

theorem doGetksig_view (hg : k.view.Good) (m : SigMsg) : (k.doGetksig m).2.2.view = k.view := by
  unfold doGetksig
  cases hn : k.nextSignaled with
  | none => rfl
  | some p =>
    have hs := nextSignaled_some hn
    have hf : k.view.free p = false := by
      by_contra hf
      have he : k.view.empty p = true := by
        rw [← hg.free_eq]
        simpa using hf
      have he' : (k.proc p).pRtsFlags = {.slotFree} := by simpa [State.view] using he
      simp [sig, Proc.sig, he'] at hs
    have hv : (k.modProc p fun r => { r with pPending := 0 }).view = k.view := view_same ⟨rfl, by simp, by simp⟩
    rw [view_rtsUnset_quiet (by rw [hv]; exact hf) (by simp), hv]

theorem doEndksig_view (hg : k.view.Good) (e : Endpoint) : (k.doEndksig e).2.view = k.view := by
  unfold doEndksig
  cases hp : k.isokendpt e with
  | none => rfl
  | some p =>
    dsimp only
    split_ifs
    · rfl
    · exact view_rtsUnset_quiet (isokendpt_free hg hp) (by simp)
    · rfl

theorem delayStop_view (hf : k.view.free p = false) : (k.delayStop p).2.view = k.view := by
  unfold delayStop
  have h1 : (k.rtsSet p {.sysLock}).view = k.view := view_rtsSet_quiet hf (by simp)
  set k1 := k.rtsSet p {.sysLock}
  set k2 := if k1.rtsIsset p .sending || k1.mf p .scDefer then
    k1.modProc p fun r => { r with pMiscFlags := r.pMiscFlags ∪ {.sigDelay} } else k1 with hk2
  have h2 : k2.view = k.view := by
    rw [hk2]
    split_ifs
    · exact (view_same ⟨rfl, by simp, by simp⟩).trans h1
    · exact h1
  rw [view_rtsUnset_quiet (by rw [h2]; exact hf) (by simp), h2]

theorem setStop_view (hf : k.view.free p = false) (a : RcAction) : (k.setStop p a).2.view = k.view := by
  cases a with
  | stop => exact view_rtsSet_quiet hf (by simp)
  | resume => exact view_rtsUnset_quiet hf (by simp)
  | other => rfl

theorem doRunctl_view (hg : k.view.Good) (e : Endpoint) (a : RcAction) (d : Bool) :
    (k.doRunctl e a d).2.view = k.view := by
  unfold doRunctl
  cases hp : k.isokendpt e with
  | none => rfl
  | some p =>
    have hf := isokendpt_free hg hp
    have hd := delayStop_view hf
    dsimp only
    split_ifs
    · rfl
    · split
      next h => rw [h] at hd; exact hd
      next h =>
        rw [h] at hd
        rw [setStop_view (by rw [hd]; exact hf), hd]
    · exact setStop_view hf a

theorem doTrace_view (hg : k.view.Good) (e : Endpoint) (r : TraceReq) : (k.doTrace e r).2.view = k.view := by
  unfold doTrace
  cases hp : k.isokendpt e with
  | none => rfl
  | some p =>
    have hf := isokendpt_free hg hp
    dsimp only
    split_ifs
    · rfl
    · rfl
    cases r with
    | stop =>
      rw [view_same ⟨rfl, by simp, by simp⟩, view_rtsSet_quiet hf (by simp)]
    | resume => exact view_rtsUnset_quiet hf (by simp)
    | step => exact view_rtsUnset_quiet hf (by simp)
    | syscall =>
      have hv : (k.modProc p fun r => { r with pMiscFlags := r.pMiscFlags ∪ {.scTrace} }).view = k.view :=
        view_same ⟨rfl, by simp, by simp⟩
      rw [view_rtsUnset_quiet (by rw [hv]; exact hf) (by simp), hv]

/-! ### Deaths and births -/

/-- The process that dies in an operation. -/
def dying (k : State) : Op → Option Slot
  | .exit whoP e => if whoP = PM ∧ e ≠ SELF then k.isokendpt e else some whoP
  | .kill e sig => if sig = SIGKILL then k.isokendpt e else none
  | _ => none

/-- No process dies while a process with a delayed stop is sending to it. -/
def DelayOk (k : State) (o : Op) : Prop :=
  ∀ rc, k.dying o = some rc → ∀ q, q ≠ rc → k.mf q .sigDelay = true → ¬ k.SendsTo q rc

theorem change_of_dies {rc : Slot} (hd : k.view.Dies rc k'.view) (hk : k.Keeps k') (hq : q ≠ rc)
    (hok : k.mf q .sigDelay = true → ¬ k.SendsTo q rc) : (k.sig q).Change (k'.sig q) := by
  have hlive : (k'.sig q).live = (k.sig q).live := by
    rw [Bool.eq_iff_iff, view_live, view_live]
    exact hd.live_ne hq
  have hsend : (k'.sig q).sending = (k.view.sending q && k.view.sendto q != k.view.endpoint rc) := hd.sending_ne hq
  by_cases hs : k.SendsTo q rc
  · have hdelay : (k.sig q).delay = false := by
      by_contra hdel
      exact hok (by simpa [sig, Proc.sig, mf] using hdel) hs
    have : k'.sig q = { k.sig q with sending := false } := by
      ext1
      · exact hk.pending q
      · exact hk.signaled q
      · exact hk.sigPending q
      · rw [hsend, show k.view.sendto q = k.view.endpoint rc from hs.2]
        simp
      · exact hk.delay q
      · exact hk.defer q
      · exact hlive
    rw [this]
    exact .abandoned hdelay
  · have : k'.sig q = k.sig q := by
      ext1
      · exact hk.pending q
      · exact hk.signaled q
      · exact hk.sigPending q
      · rw [hsend]
        by_cases hsq : k.view.sending q = true
        · have : k.view.sendto q ≠ k.view.endpoint rc := fun he =>
            hs ⟨by simpa [State.view] using hsq, he⟩
          rw [hsq, show (k.sig q).sending = true from hsq]
          simpa using this
        · rw [Bool.not_eq_true] at hsq
          rw [hsq, show (k.sig q).sending = false from hsq]
          rfl
      · exact hk.delay q
      · exact hk.defer q
      · exact hlive
    rw [this]
    exact .same

theorem not_live_of_dies {rc : Slot} (hd : k.view.Dies rc k'.view) : (k'.sig rc).live = false := by
  rw [Bool.eq_false_iff, Ne, view_live]
  intro h
  have := hd.noEp
  rw [h.2] at this
  cases this

theorem clearProc_change (hg : k.view.Good) {rc : Slot} (hh : (k.clearProc rc).sched.halted = false)
    (hok : ∀ q, q ≠ rc → k.mf q .sigDelay = true → ¬ k.SendsTo q rc) (q : Slot) :
    (k.sig q).Change ((k.clearProc rc).sig q) := by
  unfold clearProc at hh ⊢
  by_cases he : k.isemptyp rc = true
  · rw [if_pos he]
    exact .same
  rw [if_neg he] at hh ⊢
  have hk : k.Keeps (k.clearEndpoint rc) := .clearEndpoint rc
  rcases clearEndpoint_view hg rc with h | hd
  · rw [h, if_pos (show k.halt.sched.halted = true from rfl)] at hh
    cases hh
  set k1 := k.clearEndpoint rc
  by_cases hh1 : k1.sched.halted = true
  · rw [if_pos hh1, hh1] at hh
    cases hh
  rw [if_neg hh1]
  have hset : (k1.rtsSetFlags rc {.slotFree}).sig =
      (k1.modProc rc fun r => { r with pRtsFlags := {.slotFree} }).sig := by
    unfold rtsSetFlags
    split_ifs <;> rfl
  have hsig : ∀ k2 : State, k2 = k1.rtsSetFlags rc {.slotFree} →
      (if .sysProc ∈ k2.privFlags rc then k2.modPriv (k2.proc rc).pPriv fun r => { r with sProcNr := none }
        else k2).sig = (k1.modProc rc fun r => { r with pRtsFlags := {.slotFree} }).sig := by
    rintro k2 rfl
    split_ifs <;> exact hset
  rw [hsig _ rfl, sig_flags fun _ => {.slotFree}]
  by_cases hq : q = rc
  · subst hq
    rw [update_self]
    exact .died (by simp) (hk.delay q) fun hb => by rwa [← hk.pending q]
  · rw [update_of_ne hq]
    exact change_of_dies hd hk hq (hok q hq)

/-- `do_kill` causes no `SIGNDELAY`. -/
theorem doKill_change (hg : k.view.Good) {e : Endpoint} {sig : Nat} (hh : (k.doKill e sig).2.sched.halted = false)
    (hok : k.DelayOk (.kill e sig)) (q : Slot) : (k.sig q).Change ((k.doKill e sig).2.sig q) := by
  unfold doKill at hh ⊢
  cases hp : k.isokendpt e with
  | none => exact .same
  | some p =>
    rw [hp] at hh
    dsimp only at hh ⊢
    by_cases h1 : sig > 26
    · rw [if_pos h1]
      exact .same
    rw [if_neg h1] at hh ⊢
    by_cases h2 : procNr p < 0
    · rw [if_pos h2]
      exact .same
    rw [if_neg h2] at hh ⊢
    have hs : sig ≠ SIGNDELAY := by
      rintro rfl
      exact h1 (by decide)
    have hcause : (k.causeSig p sig).sig = k.sig ∨
        (k.causeSig p sig).sig = update k.sig p ((k.sig p).raise sig) := by
      by_cases hpm : p = PM
      · left
        rw [hpm]
        rfl
      · exact .inr (causeSig_sig hpm sig)
    have hn := causeSig_view rfl hg (isokendpt_free hg hp) sig
    set k1 := k.causeSig p sig
    by_cases h3 : sig = SIGKILL
    · rw [if_pos h3] at hh ⊢
      rcases clearEndpoint_view (hg.eases hn.eases) p with h | hd
      · rw [h] at hh
        cases hh
      have hk : k1.Keeps (k1.clearEndpoint p) := .clearEndpoint p
      by_cases hq : q = p
      · subst hq
        refine .died (not_live_of_dies hd) ?_ fun hb => ?_
        · rw [hk.delay]
          rcases hcause with h | h <;> simp [h]
        · rw [hk.pending] at hb
          rcases hcause with h | h <;> rw [h] at hb
          · exact hb
          · rw [update_self] at hb
            exact (SigView.testBit_raise.mp hb).resolve_right hs.symm
      · have hsame : k1.sig q = k.sig q := by rcases hcause with h | h <;> simp [h, hq]
        rw [← hsame]
        refine change_of_dies hd hk hq fun hdel hsend => ?_
        have hdying : k.dying (.kill e sig) = some p := by simp [dying, h3, hp]
        refine hok p hdying q hq ?_ ⟨?_, ?_⟩
        · exact (congrArg SigView.delay hsame).symm.trans hdel
        · have : k1.view.sending q = true := by simpa [State.view] using hsend.1
          rw [hn.eases.sending] at this
          simpa [State.view] using this
        · have : k1.view.sendto q = k1.view.endpoint p := hsend.2
          rwa [hn.eases.sendto, hn.eases.endpoint] at this
    · rw [if_neg h3]
      rcases hcause with h | h
      · rw [h]
        exact .same
      · rw [h]
        exact .update (.raised hs) q

/-- `do_fork` fails, or the child is like the parent, without signals. -/
theorem doFork_sig (e : Endpoint) (rpc : Slot) (vm : Bool) (lin : Nat) : (k.doFork e rpc vm lin).2.sig = k.sig ∨
    ∃ rpp, k.view.receiving rpp = true ∧ (∀ q, q ≠ rpc → (k.doFork e rpc vm lin).2.sig q = k.sig q) ∧
      ((k.doFork e rpc vm lin).2.sig rpc).pending = 0 ∧
      ((k.doFork e rpc vm lin).2.sig rpc).sending = (k.sig rpp).sending ∧
      ((k.doFork e rpc vm lin).2.sig rpc).delay = (k.sig rpp).delay ∧
      ((k.doFork e rpc vm lin).2.sig rpc).defer = (k.sig rpp).defer := by
  rcases k.doFork_cases e rpc vm lin with he | ⟨rpp, -, -, -, hr, he⟩
  · rw [he]
    exact .inl rfl
  rw [he]
  refine .inr ⟨rpp, hr, fun q hq => ?_, ?_⟩
  · rw [sig, forked_proc, if_neg hq]
    rfl
  · simp only [sig, forked_proc, if_pos, Proc.sig, childProc]
    cases vm <;> split_ifs <;> simp

/-! ### System calls -/

theorem sending_live (hg : k.view.Good) (h : (k.sig q).sending = true) : (k.sig q).live = true :=
  view_live.mpr (hg.live_of_sending h)

/-- What a trap does to the signals of a process. -/
theorem trap_change (hg : k.view.Good) (hr : k.view.Ready c) (hc : (k.sig c).Free) (hd : (k.sig c).defer = false)
    {a : CallArgs} (hh : (k.trap c a).sched.halted = false) (q : Slot) :
    (k.sig q).Change ((k.trap c a).sig q) := by
  rcases trap_sig hg hr a with h | ⟨_, h⟩ | h
  · rw [h] at hh
    cases hh
  · rw [h]
    exact .update (.deferred hc) q
  · obtain ⟨h1, h2⟩ := h.change hc fun q => sending_live hg
    by_cases hq : q = c
    · subst hq
      rcases h2 with h2 | h2
      · rw [h2, ← hd]
        exact .same
      · rw [h2]
        exact .blocked hc
    · exact h1 q hq

theorem delivermsg_sig (fault : Bool) : (k.delivermsg p fault).2.sig = k.sig := by
  unfold delivermsg
  split_ifs
  · unfold vmSuspend
    have h1 : (k.rtsSet p {.vmrequest}).sig = k.sig := sig_rtsSet_quiet (by decide)
    set k1 := k.rtsSet p {.vmrequest}
    dsimp only
    set k2 := k1.modProc p fun r => { r with pVmrequest := _ } with hk2
    have h2 : k2.sig = k.sig := by
      rw [← h1]
      exact sig_same rfl
    split_ifs
    · exact (sig_miniNotify SYSTEM (procNr VM)).trans h2
    · exact h2
  · rw [sig_record, sig_same (by simp [Proc.sig])]

theorem deferred_change {k1 : State} (hp : (k.sig p).Free) (h1 : ∀ q, q ≠ p → (k.sig q).Change (k1.sig q))
    (h2 : k1.sig p = { k.sig p with defer := false } ∨ k1.sig p = { k.sig p with defer := false, sending := true })
    (hh : (if k1.mf p .sigDelay && !k1.rtsIsset p .sending then k1.sigDelayDone p else k1).sched.halted = false)
    (q : Slot) :
    (k.sig q).Change ((if k1.mf p .sigDelay && !k1.rtsIsset p .sending then k1.sigDelayDone p else k1).sig q) := by
  have hif : (k1.mf p .sigDelay && !k1.rtsIsset p .sending) = ((k1.sig p).delay && !(k1.sig p).sending) := rfl
  rw [hif] at hh ⊢
  by_cases hw : ((k1.sig p).delay && !(k1.sig p).sending) = true
  · rw [if_pos hw] at hh ⊢
    have hpm : p ≠ PM := by
      rintro rfl
      rw [sigDelayDone_halts] at hh
      cases hh
    rw [sigDelayDone_sig hpm]
    by_cases hq : q = p
    · subst hq
      rw [update_self]
      rcases h2 with h2 | h2
      · rw [h2] at hw ⊢
        have hdel : (k.sig q).delay = true := (Bool.and_eq_true_iff.mp hw).1
        have := SigView.Change.performed hp
        rwa [if_pos hdel] at this
      · rw [h2] at hw
        simp at hw
    · rw [update_of_ne hq]
      exact h1 q hq
  · rw [if_neg hw]
    by_cases hq : q = p
    · subst hq
      rcases h2 with h2 | h2
      · rw [h2] at hw ⊢
        have hdel : ¬ (k.sig q).delay = true := fun hdel => hw (by simp [hdel, hp.2.2])
        have := SigView.Change.performed hp
        rwa [if_neg hdel] at this
      · rw [h2]
        exact .blocked hp
    · exact h1 q hq

theorem schedcheckRound_change (hg : k.view.Good) (hr : k.view.Ready p) (hp : (k.sig p).Free) {a : CallArgs}
    {fault : Bool}
    (hh : (k.schedcheckRound p a fault).sched.halted = false) (q : Slot) :
    (k.sig q).Change ((k.schedcheckRound p a fault).sig q) := by
  unfold schedcheckRound at hh ⊢
  by_cases h1 : k.mf p .delivermsg = true
  · rw [if_pos h1, delivermsg_sig]
    exact .same
  rw [if_neg h1] at hh ⊢
  by_cases h2 : k.mf p .scDefer = true
  · rw [if_pos h2] at hh ⊢
    dsimp only at hh ⊢
    have hd : (k.sig p).defer = true := h2
    rcases trap_sig hg hr a with h | ⟨h, _⟩ | h
    · -- a kernel that has stopped does not go on
      split_ifs at hh
      · rw [(Mild.sigDelayDone (k.trap p a) p).halted h] at hh
        cases hh
      · rw [h] at hh
        cases hh
    · rw [hd] at h
      cases h
    · obtain ⟨h3, h4⟩ := h.change hp fun q => sending_live hg
      exact deferred_change hp h3 h4 hh q
  rw [if_neg h2] at hh ⊢
  by_cases h3 : k.mf p .scTrace = true
  · rw [if_pos h3] at hh ⊢
    split_ifs at hh ⊢
    · exact .same
    · have hpm : p ≠ PM := by
        rintro rfl
        rw [causeSig_halts] at hh
        cases hh
      set k1 := k.modProc p fun r => { r with pMiscFlags := r.pMiscFlags \ {.scTrace, .scActive} }
      have hs : k1.sig = k.sig := sig_same (by simp [Proc.sig])
      rw [causeSig_sig hpm, hs]
      exact .update (.raised (by decide)) q
  rw [if_neg h3]
  split_ifs
  · rw [sig_same (by simp [Proc.sig])]
    exact .same
  · exact .same

/-! ### All steps -/

/-- The operations of a run: forks as in `ForkOk` and deaths as in `DelayOk`. -/
def CtlOk (k : State) : CtlOp → Prop
  | .op o => k.ForkOk o ∧ k.DelayOk o
  | _ => True

theorem ctlStep_op {o : Op} (h : k.ctlStep (.op o) = some k') :
    k.step o = some k' ∧ ∀ d m, o = .reply d m → (k.sig SYSTEM).defer = false := by
  cases o with
  | reply d m =>
    simp only [ctlStep, ctlExec] at h
    split_ifs at h with hd
    · cases h
    · exact ⟨h, fun _ _ _ => by simpa [sig, Proc.sig, mf] using hd⟩
  | _ => exact ⟨h, by simp⟩

/-- What a step does to the signals of a process, unless it makes the process. -/
theorem step_change (hg : k.view.Good) (hv : ∀ q, (k.sig q).Ok) {o : Op} (hok : k.DelayOk o)
    (hrep : ∀ d m, o = .reply d m → (k.sig SYSTEM).defer = false) (h : k.step o = some k') (q : Slot) :
    (k.sig q).Change (k'.sig q) ∨ CtlOp.child (.op o) = some q ∧ (k'.sig q).Ok := by
  obtain ⟨hx, hh⟩ := exec_of_step h
  cases o with
  | call c a =>
    left
    simp only [exec] at hx
    split_ifs at hx with hc
    cases hx
    simp only [Bool.and_eq_true] at hc
    have hd : (k.sig c).defer = false := by simpa [sig, Proc.sig, mf] using hc.2
    exact trap_change (k := k.running c) hg (ready_of_runnable hc.1.1) (free_of_runnable hc.1.1) hd hh q
  | resume p a fault =>
    left
    simp only [exec] at hx
    split_ifs at hx with hp
    cases hx
    exact schedcheckRound_change (k := k.running p) hg (ready_of_runnable hp) (free_of_runnable hp) hh q
  | notify s e =>
    left
    cases hx
    rw [sig_miniNotify]
    exact .same
  | reply d m =>
    left
    simp only [exec] at hx
    split_ifs at hx with hs
    cases hx
    unfold sysReply
    split_ifs
    · rcases miniSend_sig _ ⟨0, 1, some m⟩ false with h | h
      · rw [h]
        exact .same
      · have := SigView.Change.blocked (free_of_runnable hs)
        rw [← hrep d m rfl] at this
        rw [h]
        exact this.update q
    · exact .same
  | exit p e =>
    left
    simp only [exec] at hx
    split_ifs at hx
    cases hx
    unfold doExit at hh ⊢
    split_ifs at hh ⊢ with hpm
    · cases he : k.isokendpt e with
      | none => exact .same
      | some rc =>
        rw [he] at hh
        exact clearProc_change hg hh (hok rc (by rw [dying, if_pos hpm, he])) q
    · exact clearProc_change hg hh (hok p (by rw [dying, if_neg hpm])) q
  | kill e sig =>
    cases hx
    exact .inl (doKill_change hg hh hok q)
  | fork e rpc vm lin =>
    cases hx
    rcases doFork_sig e rpc vm lin with h | ⟨rpp, hr, hsame, h1, h2, h3, h4⟩
    · rw [h]
      exact .inl .same
    · by_cases hq : q = rpc
      · subst hq
        -- the child is blocked in the same way as the parent, and has no signals
        have hl : (k.sig rpp).live = true := view_live.mpr (hg.live_of_receiving hr)
        refine .inr ⟨rfl, fun _ => ?_, fun _ => ?_, fun _ hb => ?_⟩
        · rw [h2, h3, h4]
          exact (hv rpp).waits hl
        · rw [h2, h4]
          exact (hv rpp).apart hl
        · rw [h1] at hb
          simp at hb
      · rw [hsame q hq]
        exact .inl .same

/-- **What a step does** to what signals depend on of a process. -/
theorem ctlStep_change (hg : k.view.Good) (hv : ∀ q, (k.sig q).Ok) {o : CtlOp} (hok : k.CtlOk o)
    (h : k.ctlStep o = some k') (q : Slot) :
    (k.sig q).Change (k'.sig q) ∨ CtlOp.child o = some q ∧ (k'.sig q).Ok := by
  obtain ⟨hx, _⟩ := filter_eq_some_iff.mp h
  cases o with
  | op o =>
    obtain ⟨h1, h2⟩ := ctlStep_op h
    exact step_change hg hv hok.2 h2 h1 q
  | getksig m =>
    left
    cases hx
    cases hn : k.nextSignaled with
    | none =>
      simp only [doGetksig, hn]
      exact .same
    | some p =>
      rw [doGetksig_sig m hn]
      exact .update .fetched q
  | endksig e =>
    left
    cases hx
    cases hn : k.isokendpt e with
    | none =>
      simp only [doEndksig, hn]
      exact .same
    | some p =>
      rw [doEndksig_sig hn]
      exact .update (.ended _) q
  | runctl e a d =>
    left
    cases hx
    rcases doRunctl_sig (k := k) e a d with h | ⟨p, hw, h⟩
    · rw [h]
      exact .same
    · rw [h]
      exact .update (.delayed hw) q
  | trace e r =>
    left
    cases hx
    rw [doTrace_sig]
    exact .same

theorem ctlStep_good (hg : k.view.Good) {o : CtlOp} (hok : k.CtlOk o) (h : k.ctlStep o = some k') : k'.view.Good := by
  obtain ⟨hx, _⟩ := filter_eq_some_iff.mp h
  cases o with
  | op o => exact step_good hg hok.1 (ctlStep_op h).1
  | getksig m =>
    cases hx
    rwa [doGetksig_view hg]
  | endksig e =>
    cases hx
    rwa [doEndksig_view hg]
  | runctl e a d =>
    cases hx
    rwa [doRunctl_view hg]
  | trace e r =>
    cases hx
    rwa [doTrace_view hg]

end State

end Minix.Kernel
