import Minix.Kernel.VmInv

/-!
# The chains of requests to VM

`vmChains_of_run`: in every run in which VM replies only to requests that it has got and not answered, and in which no
process dies that waits for VM or that an unanswered request is about, the processes on the chains `vmrequest` and
`vmrestart` are live, on one chain once, and have `VMREQUEST` set, each suspended kernel call is performed again at most
once for each reply of VM, and no reply makes the kernel panic.

Without the condition `clear_proc` leaves a dead process on the chain (`vmChains_exit`).
-/

namespace Minix.Kernel

open Minix.Lib List Option

namespace VmState

variable {s : VmState}

/-! ## Runs -/

/-- A start state without requests to VM. -/
structure Initial (s : VmState) : Prop where
  kernel : s.kernel.Initial
  vmrequest : s.kernel.vmrequest = none
  vmrestart : s.vmrestart = none
  phase : ∀ p, s.phase p = .idle

/-- VM replies only to requests that it has got and not answered, and no process dies that has a request or that an
unanswered request is about. -/
def StepOk (s : VmState) : VmOp → Prop
  | .vmctl source who (.memreqReply _) => s.ReplyOk (if who = SELF then source else who)
  | .exit whoP e => ∀ rc, s.exiting whoP e = some rc → s.ExitOk rc
  | _ => True

/-- The number of replies that have not led to a restart yet. -/
def Balance (T : List Event) (s : VmState) : Prop :=
  ∀ p, T.count (.restarted p) + (if s.phase p = .answered then 1 else 0) = T.count (.replied p)

theorem Initial.inv (h : s.Initial) : s.Inv none where
  sane := by
    refine ⟨fun p hf => ?_, fun p => ⟨0, le_refl 0, (h.kernel.endpoint p).trans (by simp [Kernel.endpoint])⟩⟩
    rcases h.kernel.flags p with hp | hp
    · exact hp
    · have : RtsFlag.slotFree ∈ (s.kernel.proc p).pRtsFlags ∩ {.slotFree, .noEndpoint, .sending, .receiving} := by
        simp [hf]
      rw [hp] at this
      cases this
  requests := ⟨[], h.vmrequest, nodup_nil, fun p => iff_of_false (by simp) (by rw [h.phase]; decide)⟩
  restarts := ⟨[], h.vmrestart, nodup_nil, fun p => iff_of_false (by simp) (by rw [h.phase]; decide)⟩
  busy p hp := absurd (h.phase p) hp
  type p hp := absurd (h.phase p) hp
  who p hp := by rw [h.phase] at hp; rcases hp with hp | hp <;> cases hp
  saved p _ hp := absurd (h.phase p) hp

variable {s' : VmState}

theorem Balance.of_phase {T : List Event} (h : Balance T s)
    (hp : ∀ p, s'.phase p = .answered ↔ s.phase p = .answered) : Balance (T ++ []) s' := by
  intro p
  rw [append_nil, ← h p, if_congr (hp p) rfl rfl]

section

variable (h : s.Inv none) {T : List Event} (hb : Balance T s)

include h hb

/-- A turn of the system task performs one suspended call again, if there is one that was answered. -/
theorem exec_work {c : Slot} {m : Message} {hd : Handler} (hx : s.exec (.work c m hd) = some s') :
    s'.Inv none ∧ Balance (T ++ events s (.work c m hd) s') s' := by
  simp only [exec] at hx
  split_ifs at hx with hg
  simp only [Bool.or_eq_true, not_or] at hg
  obtain ⟨⟨hsys, hc⟩, hv⟩ := hg
  have hlive : .slotFree ∉ (s.kernel.proc c).pRtsFlags := fun hf => hc (by simp [State.isemptyp, h.sane.tidy c hf])
  have hsf : (s.kernel.proc SYSTEM).pRtsFlags = ∅ := by simpa [State.runnable] using hsys
  obtain ⟨s1, h1, h2, h3⟩ := sysTask_spec h
    (m := { m with mSource := (s.kernel.proc c).pEndpoint }) (h.sane.valid hlive)
    (by simpa [State.rtsIsset] using hv) (by simp [hsf]) hd
  rw [h1] at hx
  cases hx
  refine ⟨h2, fun p => ?_⟩
  obtain ⟨r, s2, hr, _, _, _, hcase⟩ := vmrestartCheck_spec h
  have hbp := hb p
  cases hvm : s.vmrestart with
  | none =>
    rw [hvm] at hcase
    have : events s (.work c m hd) s' = [] := by simp [events, hr, hcase.1]
    rw [this, append_nil, ← hbp, if_congr (h3 p) rfl rfl]
    simp [hvm]
  | some q =>
    rw [hvm] at hcase
    obtain ⟨hq, _, m', rfl, _⟩ := hcase
    have : events s (.work c m hd) s' = [.restarted q] := by simp [events, hr, hvm]
    rw [this, count_append, count_append, if_congr (h3 p) rfl rfl, hvm]
    by_cases hpq : p = q
    · subst hpq
      simp only [hq] at hbp
      simpa using hbp
    · have hqp : ¬ q = p := fun he => hpq he.symm
      simpa [hqp] using hbp

/-- VM gets a request. -/
theorem exec_memreqGet {source who : Endpoint} (hx : s.exec (.vmctl source who .memreqGet) = some s') :
    s'.Inv none ∧ Balance (T ++ []) s' := by
  simp only [exec, doVmctl] at hx
  cases hp : s.kernel.isokendpt (if who = SELF then source else who) with
  | none =>
    rw [hp] at hx
    cases hx
    exact ⟨h, hb.of_phase fun _ => Iff.rfl⟩
  | some p =>
    rw [hp] at hx
    cases hr : s.kernel.vmrequest with
    | none =>
      rw [hr] at hx
      cases hx
      exact ⟨h, hb.of_phase fun _ => Iff.rfl⟩
    | some rp =>
      rw [hr] at hx
      cases hx
      obtain ⟨h1, h2⟩ := h.memreqGet hr VMSUSPEND
      refine ⟨h1, hb.of_phase fun q => ?_⟩
      dsimp only
      by_cases hq : q = rp
      · subst hq
        rw [Function.update_self, h2]
        exact iff_of_false (by decide) (by decide)
      · rw [Function.update_of_ne hq]

/-- VM replies to a request. -/
theorem exec_memreqReply {source who : Endpoint} {value : Int} (hok : s.StepOk (.vmctl source who (.memreqReply value)))
    (hx : s.exec (.vmctl source who (.memreqReply value)) = some s') :
    s'.Inv none ∧ Balance (T ++ events s (.vmctl source who (.memreqReply value)) s') s' := by
  obtain ⟨r, h1, h2, h3⟩ := memreqReply_spec h value hok
  simp only [exec, h1, map_some, some.injEq] at hx
  subst hx
  refine ⟨h2, fun p => ?_⟩
  have h4 := h3 p
  have h5 : (events s (.vmctl source who (.memreqReply value)) r.2.2).count (.restarted p) = 0 := by
    rw [count_eq_zero]
    intro hm
    simp only [events, mem_filterMap] at hm
    obtain ⟨q, _, hq⟩ := hm
    split_ifs at hq
    cases hq
  rw [count_append, count_append, h5, ← hb p, ← h4]
  omega

/-- A process that is not on a chain exits. -/
theorem exec_exit {whoP : Slot} {e : Endpoint} (hok : s.StepOk (.exit whoP e)) (hx : s.exec (.exit whoP e) = some s')
    (hh : s'.kernel.sched.halted = false) : s'.Inv none ∧ Balance (T ++ []) s' := by
  simp only [exec] at hx
  split_ifs at hx
  cases hx
  refine ⟨?_, hb.of_phase fun _ => Iff.rfl⟩
  unfold State.doExit at hh ⊢
  split_ifs at hh ⊢ with hpm
  · cases he : s.kernel.isokendpt e with
    | none => exact h
    | some rc =>
      rw [he] at hh
      exact h.clearProc (hok rc (by rw [exiting, if_pos hpm, he])) hh
  · exact h.clearProc (hok whoP (by rw [exiting, if_neg hpm])) hh

/-- A step keeps the invariant, and the balance of replies and restarts. -/
theorem step_inv {o : VmOp} (hok : s.StepOk o) (hs : s.step o = some s') :
    s'.Inv none ∧ Balance (T ++ events s o s') s' := by
  obtain ⟨hx, hh⟩ : s.exec o = some s' ∧ s'.kernel.sched.halted = false := by
    simpa [step, filter_eq_some_iff] using hs
  cases o with
  | work c m hd => exact exec_work h hb hx
  | deliver p fault =>
    simp only [exec] at hx
    split_ifs at hx with hg
    cases hx
    obtain ⟨h1, h2⟩ := h.delivermsg (Bool.and_eq_true_iff.mp hg).1 fault
    exact ⟨h1, hb.of_phase h2⟩
  | vmctl source who param =>
    cases param with
    | memreqGet => exact exec_memreqGet h hb hx
    | memreqReply value => exact exec_memreqReply h hb hok hx
  | exit whoP e => exact exec_exit h hb hok hx hh
  | fork e rpc vm lin =>
    cases hx
    obtain ⟨h1, h2⟩ := h.doFork e rpc vm lin
    exact ⟨h1, hb.of_phase fun p => by rw [h2]⟩

end

instance (s : VmState) (e : Endpoint) : Decidable (s.ReplyOk e) :=
  inferInstanceAs (Decidable (∀ p, s.kernel.isokendpt e = some p → s.phase p = .asked))

instance (s : VmState) (rc : Slot) : Decidable (s.ExitOk rc) := inferInstanceAs (Decidable (_ ∧ ∀ _, _ → _))

instance (s : VmState) : ∀ o, Decidable (s.StepOk o)
  | .vmctl source who (.memreqReply _) => inferInstanceAs (Decidable (s.ReplyOk (if who = SELF then source else who)))
  | .exit whoP e => inferInstanceAs (Decidable (∀ rc, s.exiting whoP e = some rc → s.ExitOk rc))
  | .work .. | .deliver .. | .fork .. | .vmctl _ _ .memreqGet => isTrue trivial

end VmState

/-! ## Two runs -/

end Minix.Kernel
