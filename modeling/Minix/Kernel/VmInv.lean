import Minix.Kernel.VmFrame

/-!
# The invariant of requests to VM

`VmState.Inv` is kept by the operations of the protocol: kernel calls that are suspended or performed again
(`sysTask_spec`), the calls of VM (`memreqReply_spec`, `Inv.memreqGet`), deliveries, deaths and forks.
-/

namespace Minix.Kernel

open Minix.Lib Function

/-! ## The invariant -/

namespace VmState

/-- What holds in every state of a good run. While `sys_task` handles a call of `ex`, the message of `ex` is not saved.
-/
structure Inv (ex : Option Slot) (s : VmState) : Prop where
  sane : s.kernel.Sane
  requests : ∃ l, Chain (fun p => (s.kernel.proc p).pVmrequest.nextrequestor) s.kernel.vmrequest l ∧ l.Nodup ∧
    ∀ p, p ∈ l ↔ s.phase p = .queued
  restarts : ∃ l, Chain s.nextrestart s.vmrestart l ∧ l.Nodup ∧ ∀ p, p ∈ l ↔ s.phase p = .answered
  busy : ∀ p, s.phase p ≠ .idle →
    .slotFree ∉ (s.kernel.proc p).pRtsFlags ∧ .vmrequest ∈ (s.kernel.proc p).pRtsFlags
  type : ∀ p, s.phase p ≠ .idle → (s.kernel.proc p).pVmrequest.type = .kernelcall ∨
    (s.kernel.proc p).pVmrequest.type = .delivermsg ∧ s.phase p ≠ .answered
  who : ∀ p, s.phase p = .queued ∨ s.phase p = .asked → ∃ t, .slotFree ∉ (s.kernel.proc t).pRtsFlags ∧
    (s.kernel.proc p).pVmrequest.who = (s.kernel.proc t).pEndpoint
  saved : ∀ p, some p ≠ ex → s.phase p ≠ .idle → (s.kernel.proc p).pVmrequest.type = .kernelcall →
    (s.reqmsg p).mSource = (s.kernel.proc p).pEndpoint ∧ validCall (s.reqmsg p).mType = true

/-- What the invariant says about one process. -/
structure Row (ex : Option Slot) (s : VmState) (p : Slot) : Prop where
  busy : s.phase p ≠ .idle → .slotFree ∉ (s.kernel.proc p).pRtsFlags ∧ .vmrequest ∈ (s.kernel.proc p).pRtsFlags
  type : s.phase p ≠ .idle → (s.kernel.proc p).pVmrequest.type = .kernelcall ∨
    (s.kernel.proc p).pVmrequest.type = .delivermsg ∧ s.phase p ≠ .answered
  who : s.phase p = .queued ∨ s.phase p = .asked → ∃ t, .slotFree ∉ (s.kernel.proc t).pRtsFlags ∧
    (s.kernel.proc p).pVmrequest.who = (s.kernel.proc t).pEndpoint
  saved : some p ≠ ex → s.phase p ≠ .idle → (s.kernel.proc p).pVmrequest.type = .kernelcall →
    (s.reqmsg p).mSource = (s.kernel.proc p).pEndpoint ∧ validCall (s.reqmsg p).mType = true

/-- The request of a process is left alone. -/
structure Still (s s' : VmState) (p : Slot) : Prop where
  phase : s'.phase p = s.phase p
  free : .slotFree ∉ (s.kernel.proc p).pRtsFlags → .slotFree ∉ (s'.kernel.proc p).pRtsFlags
  vmreq : .vmrequest ∈ (s.kernel.proc p).pRtsFlags → .vmrequest ∈ (s'.kernel.proc p).pRtsFlags
  req : (s'.kernel.proc p).pVmrequest = (s.kernel.proc p).pVmrequest
  msg : s'.reqmsg p = s.reqmsg p
  endpoint : (s'.kernel.proc p).pEndpoint = (s.kernel.proc p).pEndpoint

variable {s s' s'' : VmState} {ex : Option Slot} {c p : Slot}

theorem Inv.row (h : s.Inv ex) (p : Slot) : s.Row ex p := ⟨h.busy p, h.type p, h.who p, h.saved p⟩

theorem Inv.of_rows (hs : s.kernel.Sane)
    (h1 : Listed (fun p => (s.kernel.proc p).pVmrequest.nextrequestor) s.kernel.vmrequest fun p => s.phase p = .queued)
    (h2 : Listed s.nextrestart s.vmrestart fun p => s.phase p = .answered) (h : ∀ p, s.Row ex p) : s.Inv ex :=
  ⟨hs, h1, h2, fun p => (h p).busy, fun p => (h p).type, fun p => (h p).who, fun p => (h p).saved⟩

theorem Row.idle (h : s.phase p = .idle) : s.Row ex p := by
  constructor <;> simp [h]

theorem Row.still (h : s.Row ex p) (hp : s.Still s' p) (ht : s.phase p = .queued ∨ s.phase p = .asked → ∀ t,
    .slotFree ∉ (s.kernel.proc t).pRtsFlags → (s.kernel.proc p).pVmrequest.who = (s.kernel.proc t).pEndpoint →
    .slotFree ∉ (s'.kernel.proc t).pRtsFlags ∧ (s'.kernel.proc t).pEndpoint = (s.kernel.proc t).pEndpoint) :
    s'.Row ex p where
  busy hb := by
    rw [hp.phase] at hb
    exact ⟨hp.free (h.busy hb).1, hp.vmreq (h.busy hb).2⟩
  type hb := by
    rw [hp.phase] at hb ⊢
    rw [hp.req]
    exact h.type hb
  who hb := by
    rw [hp.phase] at hb
    obtain ⟨t, hlive, he⟩ := h.who hb
    obtain ⟨h1, h2⟩ := ht hb t hlive he
    exact ⟨t, h1, by rw [hp.req, h2, he]⟩
  saved hx hb hk := by
    rw [hp.phase] at hb
    rw [hp.req] at hk
    rw [hp.msg, hp.endpoint]
    exact h.saved hx hb hk

theorem Inv.same {k : State} (h : s.Inv ex) (hs : s.kernel.VmSame k) : { s with kernel := k }.Inv ex := by
  refine .of_rows (h.sane.same hs) ?_ h.restarts fun p =>
    (h.row p).still ⟨rfl, mt (hs.free p).mp, (hs.vmreq p).mpr, hs.req p, rfl,
    hs.endpoint p⟩ fun _ t ht _ => ⟨mt (hs.free t).mp ht, hs.endpoint t⟩
  rw [hs.chain]
  exact Listed.congr h.requests (fun p _ => by rw [hs.req]) fun _ => Iff.rfl

theorem Inv.idle_of_vmrequest (h : s.Inv ex) (hc : .vmrequest ∉ (s.kernel.proc c).pRtsFlags) : s.phase c = .idle := by
  by_contra hp
  exact hc (h.busy c hp).2

theorem Inv.vmSuspend (h : s.Inv none) (hc : .slotFree ∉ (s.kernel.proc c).pRtsFlags) (hp : s.phase c = .idle)
    {t : Slot} (ht : .slotFree ∉ (s.kernel.proc t).pRtsFlags) (lin len : Nat) {type : VmsType}
    (hty : type ≠ .sysNone) (hex : type = .kernelcall → ex = some c) : (s.vmSuspend c t lin len type).Inv ex := by
  have hk : s.kernel.Suspended c t type (s.vmSuspend c t lin len type).kernel :=
    State.vmSuspend_suspended hc t lin len type
  have hphase : ∀ p, (s.vmSuspend c t lin len type).phase p = if p = c then .queued else s.phase p := fun p =>
    update_apply ..
  refine .of_rows ⟨fun p hf => hk.empty p (h.sane.tidy p ((hk.free p).mp hf)), fun p => ?_⟩ ?_ ?_ fun p => ?_
  · rw [hk.endpoint]
    exact h.sane.ep p
  · rw [hk.chain]
    refine Listed.push h.requests (by simp [hp]) hk.next (fun p hq => ?_) fun p => ?_
    · rw [hk.req p]
      rintro rfl
      rw [hp] at hq
      cases hq
    · rw [hphase]
      split_ifs with hpc <;> simp [hpc]
  · refine Listed.congr h.restarts (fun _ _ => rfl) fun p => ?_
    rw [hphase]
    split_ifs with hpc
    · simp [hpc, hp]
    · rfl
  · by_cases hpc : p = c
    · subst hpc
      refine ⟨fun _ => ⟨by rwa [hk.free], (hk.vmreq p).mpr (.inl rfl)⟩, fun _ => ?_, fun _ => ⟨t, by rwa [hk.free], ?_⟩,
        fun hx _ hk' => ?_⟩
      · rw [hk.type, hphase, if_pos rfl]
        cases type with
        | sysNone => exact absurd rfl hty
        | kernelcall => exact .inl rfl
        | delivermsg => exact .inr ⟨rfl, by decide⟩
      · rw [hk.who, hk.endpoint]
      · rw [hk.type] at hk'
        exact absurd (hex hk').symm hx
    · have hrow : s.Row ex p := ⟨h.busy p, h.type p, h.who p, fun _ => h.saved p nofun⟩
      refine hrow.still ⟨by rw [hphase, if_neg hpc], mt (hk.free p).mp, fun hv => (hk.vmreq p).mpr (.inr hv),
        hk.req p hpc, rfl,
        hk.endpoint p⟩ fun _ t ht _ => ⟨mt (hk.free t).mp ht, hk.endpoint t⟩

theorem Inv.forget (h : s.Inv (some c)) (hp : s.phase c = .idle) : s.Inv none := by
  refine .of_rows h.sane h.requests h.restarts fun p => ?_
  by_cases hpc : p = c
  · exact .idle (hpc ▸ hp)
  · exact ⟨h.busy p, h.type p, h.who p, fun _ => h.saved p fun he => hpc (Option.some.inj he)⟩

theorem Inv.weaken (h : s.Inv none) : s.Inv ex := { h with saved := fun p _ => h.saved p nofun }

theorem Inv.rtsUnset (h : s.Inv ex) (hp : s.phase c = .idle) :
    VmState.Inv ex { s with kernel := s.kernel.rtsUnset c {.vmrequest} } := by
  have hproc := s.kernel.rtsUnset_proc c {RtsFlag.vmrequest}
  have hreq : ∀ p, ((s.kernel.rtsUnset c {.vmrequest}).proc p).pVmrequest = (s.kernel.proc p).pVmrequest := by
    intro p
    rw [hproc]
    split_ifs <;> rfl
  have hend : ∀ p, ((s.kernel.rtsUnset c {.vmrequest}).proc p).pEndpoint = (s.kernel.proc p).pEndpoint := by
    intro p
    rw [hproc]
    split_ifs <;> rfl
  have hfree : ∀ p, .slotFree ∈ ((s.kernel.rtsUnset c {.vmrequest}).proc p).pRtsFlags ↔
      .slotFree ∈ (s.kernel.proc p).pRtsFlags := by
    intro p
    rw [hproc]
    split_ifs <;> simp
  refine .of_rows ⟨fun p hf => ?_, fun p => ?_⟩ ?_ h.restarts fun p => ?_
  · have := h.sane.tidy p ((hfree p).mp hf)
    rw [hproc]
    split_ifs
    · simp only [this]
      decide
    · exact this
  · rw [hend]
    exact h.sane.ep p
  · have hv : (s.kernel.rtsUnset c {.vmrequest}).vmrequest = s.kernel.vmrequest := by
      unfold State.rtsUnset
      dsimp only
      split_ifs <;> rfl
    rw [hv]
    exact Listed.congr h.requests (fun p _ => by rw [hreq]) fun _ => Iff.rfl
  · by_cases hpc : p = c
    · exact .idle (hpc ▸ hp)
    · refine (h.row p).still ⟨rfl, mt (hfree p).mp, fun hv => ?_, hreq p, rfl, hend p⟩ fun _ t ht _ =>
        ⟨mt (hfree t).mp ht, hend t⟩
      rwa [hproc, if_neg hpc]

/-! ## Kernel calls -/

/-- What a part of a kernel call of `c` with result `r` does. -/
structure Handled (s : VmState) (c : Slot) (r : Int) (s' : VmState) : Prop where
  inv : s'.Inv (some c)
  done : r ≠ VMSUSPEND → s'.phase c = .idle
  free : ∀ p, .slotFree ∈ (s'.kernel.proc p).pRtsFlags ↔ .slotFree ∈ (s.kernel.proc p).pRtsFlags
  endpoint : ∀ p, (s'.kernel.proc p).pEndpoint = (s.kernel.proc p).pEndpoint
  answered : ∀ p, s'.phase p = .answered ↔ s.phase p = .answered

theorem Handled.refl (h : s.Inv none) (hp : s.phase c = .idle) (r : Int) : s.Handled c r s :=
  ⟨h.weaken, fun _ => hp, fun _ => Iff.rfl, fun _ => rfl, fun _ => Iff.rfl⟩

theorem Handled.trans {r r' : Int} (h : s.Handled c r s') (h' : s'.Handled c r' s'') : s.Handled c r' s'' where
  inv := h'.inv
  done := h'.done
  free p := (h'.free p).trans (h.free p)
  endpoint p := (h'.endpoint p).trans (h.endpoint p)
  answered p := (h'.answered p).trans (h.answered p)

theorem copyOrSuspend_handled (h : s.Inv none) (hc : .slotFree ∉ (s.kernel.proc c).pRtsFlags) (hp : s.phase c = .idle)
    {a b : Slot} (ha : .slotFree ∉ (s.kernel.proc a).pRtsFlags) (hb : .slotFree ∉ (s.kernel.proc b).pRtsFlags)
    (t : CopyTry) : s.Handled c (s.copyOrSuspend c a b t).1 (s.copyOrSuspend c a b t).2 := by
  unfold copyOrSuspend
  by_cases h1 : (!t.srcFaults && !t.dstFaults) = true
  · rw [if_pos h1]
    exact .refl h hp _
  rw [if_neg h1]
  by_cases h2 : (!t.vmcheck) = true
  · rw [if_pos h2]
    exact .refl h hp _
  rw [if_neg h2]
  have ht : .slotFree ∉ (s.kernel.proc (if t.srcFaults then a else b)).pRtsFlags := by
    split_ifs
    · exact ha
    · exact hb
  have hk := State.vmSuspend_suspended hc (if t.srcFaults then a else b) t.lin t.len .kernelcall
  refine ⟨h.vmSuspend hc hp ht _ _ (by decide) fun _ => rfl, fun hne => absurd rfl hne, hk.free,
    hk.endpoint, fun p => ?_⟩
  change update s.phase c .queued p = .answered ↔ _
  by_cases hpc : p = c
  · subst hpc
    simp [hp]
  · rw [update_of_ne hpc]

theorem virtualCopy_handled (h : s.Inv none) (hc : .slotFree ∉ (s.kernel.proc c).pRtsFlags) (hp : s.phase c = .idle)
    (t : CopyTry) : s.Handled c (s.virtualCopy c t).1 (s.virtualCopy c t).2 := by
  unfold virtualCopy
  cases t.refusal with
  | some r => exact .refl h hp _
  | none =>
    cases ha : s.kernel.isokendpt t.src with
    | none => exact .refl h hp _
    | some a =>
      cases hb : s.kernel.isokendpt t.dst with
      | none => exact .refl h hp _
      | some b =>
        have ha' := (h.sane.of_valid ha).1
        have hb' := (h.sane.of_valid hb).1
        dsimp only
        by_cases hv : s.kernel.rtsIsset c .vmrequest = true
        · rw [if_pos hv]
          -- the call is performed again, after the reply of VM
          set s1 : VmState := { s with kernel := s.kernel.rtsUnset c {.vmrequest} } with hs1
          have hfree : ∀ p, .slotFree ∈ (s1.kernel.proc p).pRtsFlags ↔ .slotFree ∈ (s.kernel.proc p).pRtsFlags := by
            intro p
            rw [hs1]
            rw [State.rtsUnset_proc]
            split_ifs <;> simp
          have hend : ∀ p, (s1.kernel.proc p).pEndpoint = (s.kernel.proc p).pEndpoint := by
            intro p
            rw [hs1]
            rw [State.rtsUnset_proc]
            split_ifs <;> rfl
          have h1 : s1.Inv none := h.rtsUnset hp
          have hh : ∀ r, s.Handled c r s1 := fun r => ⟨h1.weaken, fun _ => hp, hfree, hend, fun _ => Iff.rfl⟩
          split_ifs
          · exact hh _
          · refine (hh OK).trans (copyOrSuspend_handled h1 ?_ hp ?_ ?_ t)
            · rwa [hfree]
            · rwa [hfree]
            · rwa [hfree]
        · rw [if_neg hv]
          exact copyOrSuspend_handled h hc hp ha' hb' t

/-- A kernel call that makes copies ends, or is suspended at one of them. -/
theorem handler_handled (result : Int) : ∀ (ts : List CopyTry) {s : VmState}, s.Inv none →
    .slotFree ∉ (s.kernel.proc c).pRtsFlags → s.phase c = .idle →
    s.Handled c (handler c result ts s).1 (handler c result ts s).2
  | [], s, h, _, hp => .refl h hp _
  | t :: ts, s, h, hc, hp => by
    have ht := virtualCopy_handled h hc hp t
    unfold handler
    dsimp only
    by_cases hr : (s.virtualCopy c t).1 = VMSUSPEND
    · rw [if_pos hr]
      rw [hr] at ht
      exact ht
    · rw [if_neg hr]
      have hp' := ht.done hr
      exact ht.trans (handler_handled result ts (ht.inv.forget hp') (by rwa [ht.free]) hp')

/-- A kernel call that was received or is performed again. -/
theorem perform_spec (h : s.Inv none) {m : Message} (hm : s.kernel.isokendpt m.mSource = some c)
    (hp : s.phase c = .idle)
    (hs : .slotFree ∉ (s.kernel.proc SYSTEM).pRtsFlags) (hd : Handler) :
    ∃ s', s.perform m hd = some s' ∧ s'.Inv none ∧ ∀ p, s'.phase p = .answered ↔ s.phase p = .answered := by
  obtain ⟨hc, he⟩ := h.sane.of_valid hm
  unfold perform
  rw [hm]
  dsimp only
  set rs := if !validCall m.mType then (EBADREQUEST, s) else if !hd.permitted then (ECALLDENIED, s)
    else handler c hd.result hd.tries s with hrs
  have hh : s.Handled c rs.1 rs.2 ∧ (rs.1 = VMSUSPEND → validCall m.mType = true) := by
    rw [hrs]
    split_ifs with h1 h2
    · exact ⟨.refl h hp _, fun hx => absurd hx (show EBADREQUEST ≠ VMSUSPEND by decide)⟩
    · exact ⟨.refl h hp _, fun hx => absurd hx (show ECALLDENIED ≠ VMSUSPEND by decide)⟩
    · exact ⟨handler_handled _ _ h hc hp, fun _ => by simpa using h1⟩
  obtain ⟨hh, hv⟩ := hh
  by_cases hr : rs.1 = VMSUSPEND
  · rw [if_pos hr]
    refine ⟨_, rfl, .of_rows hh.inv.sane hh.inv.requests hh.inv.restarts fun p => ?_, hh.answered⟩
    have hrow := hh.inv.row p
    refine ⟨hrow.busy, hrow.type, hrow.who, fun _ hb ht => ?_⟩
    dsimp only
    by_cases hpc : p = c
    · subst hpc
      rw [update_self]
      exact ⟨by rw [hh.endpoint, he], hv hr⟩
    · rw [update_of_ne hpc]
      exact hrow.saved (fun hx => hpc (Option.some.inj hx)) hb ht
  · have hinv := hh.inv.forget (hh.done hr)
    rw [if_neg hr]
    split_ifs
    · exact ⟨_, rfl, hinv.same (.sysReply (by rwa [hh.free]) _ _), hh.answered⟩
    · exact ⟨_, rfl, hinv, hh.answered⟩

/-- `vmrestart_check` does not panic, and takes the first process of the chain. -/
theorem vmrestartCheck_spec (h : s.Inv none) : ∃ r s', s.vmrestartCheck = some (r, s') ∧ s'.Inv none ∧
    (∀ p, .slotFree ∈ (s'.kernel.proc p).pRtsFlags ↔ .slotFree ∈ (s.kernel.proc p).pRtsFlags) ∧
    (∀ e, s'.kernel.isokendpt e = s.kernel.isokendpt e) ∧
    match s.vmrestart with
    | none => r = none ∧ s' = s
    | some p => s.phase p = .answered ∧ s'.phase = update s.phase p .idle ∧
      ∃ m, r = some m ∧ s.kernel.isokendpt m.mSource = some p := by
  unfold vmrestartCheck
  cases hr : s.vmrestart with
  | none => exact ⟨none, s, rfl, h, fun _ => Iff.rfl, fun _ => rfl, rfl, rfl⟩
  | some p =>
    have hlist := h.restarts
    rw [hr] at hlist
    obtain ⟨hph, hlist⟩ := Listed.pop hlist
    have hbusy : s.phase p ≠ .idle := by rw [hph]; decide
    have htype : (s.kernel.proc p).pVmrequest.type = .kernelcall := by
      rcases h.type p hbusy with ht | ⟨_, ht⟩
      · exact ht
      · exact absurd hph ht
    obtain ⟨hsrc, hval⟩ := h.saved p nofun hbusy htype
    dsimp only
    rw [htype]
    set k := s.kernel.modProc p fun r => { r with pVmrequest := { r.pVmrequest with type := .sysNone } } with hk
    have hproc : ∀ q, k.proc q = if q = p then
        { s.kernel.proc q with pVmrequest := { (s.kernel.proc q).pVmrequest with type := .sysNone } }
        else s.kernel.proc q := by
      intro q
      by_cases hq : q = p <;> simp [hk, State.modProc, hq]
    have hflags : ∀ q, (k.proc q).pRtsFlags = (s.kernel.proc q).pRtsFlags := by
      intro q
      rw [hproc]
      split_ifs <;> rfl
    have hend : ∀ q, (k.proc q).pEndpoint = (s.kernel.proc q).pEndpoint := by
      intro q
      rw [hproc]
      split_ifs <;> rfl
    have hok : ∀ e, k.isokendpt e = s.kernel.isokendpt e := by
      intro e
      unfold State.isokendpt State.isemptyp
      simp only [hflags, hend]
    have hmsg : s.kernel.isokendpt (s.reqmsg p).mSource = some p := by
      rw [hsrc]
      exact h.sane.valid (h.busy p hbusy).1
    rw [hok, hmsg, Option.isNone_some, if_neg Bool.false_ne_true, if_pos hval]
    refine ⟨_, _, rfl, ?_, fun q => by rw [hflags], hok, hph, rfl, _, rfl, hmsg⟩
    refine .of_rows ⟨fun q => by rw [hflags]; exact h.sane.tidy q,
      fun q => by rw [hend]; exact h.sane.ep q⟩ ?_ ?_ fun q => ?_
    · refine Listed.congr h.requests (fun q _ => ?_) fun q => ?_
      · rw [hproc]
        split_ifs <;> rfl
      · by_cases hqp : q = p <;> simp [hqp, hph]
    · refine Listed.congr hlist (fun _ _ => rfl) fun q => ?_
      by_cases hqp : q = p <;> simp [hqp]
    · by_cases hqp : q = p
      · exact .idle (by simp [hqp])
      · refine (h.row q).still ⟨by simp [hqp], by simp [hflags], by simp [hflags], by simp [hproc, hqp],
          by simp [hqp], hend q⟩
          fun _ t ht _ => ⟨by simpa [hflags] using ht, hend t⟩

/-- An iteration of `sys_task`: the first process of the chain `vmrestart`, if there is one, leaves it. -/
theorem sysTask_spec (h : s.Inv none) {m : Message} (hm : s.kernel.isokendpt m.mSource = some c)
    (hp : .vmrequest ∉ (s.kernel.proc c).pRtsFlags) (hs : .slotFree ∉ (s.kernel.proc SYSTEM).pRtsFlags) (hd : Handler) :
    ∃ s', s.sysTask m hd = some s' ∧ s'.Inv none ∧
      ∀ p, s'.phase p = .answered ↔ s.phase p = .answered ∧ s.vmrestart ≠ some p := by
  obtain ⟨r, s1, hr, h1, hfree, hok, hcase⟩ := vmrestartCheck_spec h
  unfold sysTask
  rw [hr]
  have hs1 : .slotFree ∉ (s1.kernel.proc SYSTEM).pRtsFlags := by rwa [hfree]
  cases hv : s.vmrestart with
  | none =>
    rw [hv] at hcase
    obtain ⟨rfl, rfl⟩ := hcase
    obtain ⟨s2, h2, h3, h4⟩ := perform_spec h1 hm (h.idle_of_vmrequest hp) hs1 hd
    exact ⟨s2, h2, h3, fun p => by rw [h4]; simp⟩
  | some q =>
    rw [hv] at hcase
    obtain ⟨_, hph, m', rfl, hm'⟩ := hcase
    obtain ⟨s2, h2, h3, h4⟩ := perform_spec h1 (by rw [hok]; exact hm') (by rw [hph, update_self]) hs1 hd
    refine ⟨s2, h2, h3, fun p => ?_⟩
    rw [h4, hph]
    by_cases hpq : p = q
    · subst hpq
      rw [update_self]
      exact iff_of_false (by decide) fun hx => hx.2 rfl
    · rw [update_of_ne hpq]
      exact ⟨fun hx => ⟨hx, fun he => hpq (Option.some.inj he).symm⟩, fun hx => hx.1⟩

/-! ## The calls of VM -/

/-- VM replies only to a request that it has got and not answered. -/
def ReplyOk (s : VmState) (e : Endpoint) : Prop := ∀ p, s.kernel.isokendpt e = some p → s.phase p = .asked

theorem doVmctl_dead {source who : Endpoint} (param : VmctlParam)
    (h : s.kernel.isokendpt (if who = SELF then source else who) = none) :
    s.doVmctl source who param = some (EINVAL, none, s) := by
  unfold doVmctl
  rw [h]

theorem Inv.memreqGet (h : s.Inv none) {rp : Slot} (hr : s.kernel.vmrequest = some rp) (v : Int) :
    VmState.Inv none { s with
      kernel := { s.kernel with vmrequest := (s.kernel.proc rp).pVmrequest.nextrequestor }
      vmresult := update s.vmresult rp v
      phase := update s.phase rp .asked } ∧ s.phase rp = .queued := by
  have hlist := h.requests
  rw [hr] at hlist
  obtain ⟨hph, hlist⟩ := Listed.pop hlist
  refine ⟨.of_rows ⟨h.sane.tidy, h.sane.ep⟩ ?_ ?_ fun p => ?_, hph⟩
  · refine Listed.congr hlist (fun _ _ => rfl) fun p => ?_
    by_cases hp : p = rp <;> simp [hp]
  · refine Listed.congr h.restarts (fun _ _ => rfl) fun p => ?_
    by_cases hp : p = rp <;> simp [hp, hph]
  · have hrow := h.row p
    by_cases hp : p = rp
    · subst hp
      have hbusy : s.phase p ≠ .idle := by rw [hph]; decide
      refine ⟨fun _ => hrow.busy hbusy, fun _ => ?_, fun _ => hrow.who (.inl hph), fun hx _ => hrow.saved hx hbusy⟩
      refine (hrow.type hbusy).imp id fun ht => ⟨ht.1, ?_⟩
      simp
    · exact hrow.still ⟨by simp [hp], id, id, rfl, rfl, rfl⟩ fun _ t ht _ => ⟨ht, rfl⟩

theorem Inv.answer (h : s.Inv none) {p : Slot} (hp : s.phase p = .asked)
    (ht : (s.kernel.proc p).pVmrequest.type = .kernelcall) (v : Int) :
    VmState.Inv none { s with
      vmresult := update s.vmresult p v
      nextrestart := update s.nextrestart p s.vmrestart
      vmrestart := some p
      phase := update s.phase p .answered } := by
  refine .of_rows h.sane ?_ ?_ fun q => ?_
  · refine Listed.congr h.requests (fun _ _ => rfl) fun q => ?_
    by_cases hqp : q = p <;> simp [hqp, hp]
  · refine Listed.push h.restarts (by simp [hp]) (update_self ..) (fun q hq => update_of_ne ?_ _ _) fun q => ?_
    · rintro rfl
      rw [hp] at hq
      cases hq
    · by_cases hqp : q = p <;> simp [hqp]
  · have hrow := h.row q
    by_cases hqp : q = p
    · subst hqp
      have hbusy : s.phase q ≠ .idle := by rw [hp]; decide
      exact ⟨fun _ => hrow.busy hbusy, fun _ => .inl ht, fun hq => by simp at hq, fun hx _ => hrow.saved hx hbusy⟩
    · exact hrow.still ⟨by simp [hqp], id, id, rfl, rfl, rfl⟩ fun _ t ht _ => ⟨ht, rfl⟩

theorem Inv.finish (h : s.Inv none) {p : Slot} (hp : s.phase p = .asked) (v : Int) :
    VmState.Inv none { s with
      vmresult := update s.vmresult p v
      phase := update s.phase p .idle } := by
  refine .of_rows h.sane (Listed.congr h.requests (fun _ _ => rfl) fun q => ?_)
    (Listed.congr h.restarts (fun _ _ => rfl) fun q => ?_)
    fun q => ?_
  · by_cases hqp : q = p <;> simp [hqp, hp]
  · by_cases hqp : q = p <;> simp [hqp, hp]
  · by_cases hqp : q = p
    · exact .idle (by simp [hqp])
    · exact (h.row q).still ⟨by simp [hqp], id, id, rfl, rfl, rfl⟩ fun _ t ht _ => ⟨ht, rfl⟩

/-- What happens in a run. -/
inductive Event
  /-- VM has replied to the request of a kernel call of `p`. -/
  | replied (p : Slot)
  /-- The kernel call of `p` is performed again. -/
  | restarted (p : Slot)
  deriving DecidableEq

/-- The event of an operation. -/
def events (s : VmState) (o : VmOp) (_ : VmState) : List Event :=
  match o with
  | .work .. =>
    match s.vmrestartCheck with
    | some (some _, _) => s.vmrestart.toList.map .restarted
    | _ => []
  | .vmctl source who (.memreqReply _) =>
    (s.kernel.isokendpt (if who = SELF then source else who)).toList.filterMap fun p =>
      if (s.kernel.proc p).pVmrequest.type = .kernelcall then some (.replied p) else none
  | _ => []

/-- A reply of VM to a request that it has got does not panic. -/
theorem memreqReply_spec (h : s.Inv none) {source who : Endpoint} (value : Int)
    (hok : s.ReplyOk (if who = SELF then source else who)) :
    ∃ r, s.doVmctl source who (.memreqReply value) = some r ∧ r.2.2.Inv none ∧
      ∀ p, (events s (.vmctl source who (.memreqReply value)) r.2.2).count (.replied p) +
        (if s.phase p = .answered then 1 else 0) = if r.2.2.phase p = .answered then 1 else 0 := by
  cases hp : s.kernel.isokendpt (if who = SELF then source else who) with
  | none =>
    refine ⟨_, doVmctl_dead _ hp, h, fun p => ?_⟩
    simp [events, hp]
  | some p =>
    have hph := hok p hp
    have hbusy : s.phase p ≠ .idle := by rw [hph]; decide
    obtain ⟨t, ht, he⟩ := h.who p (.inr hph)
    have hwho : s.kernel.isokendpt (s.kernel.proc p).pVmrequest.who = some t := by
      rw [he]
      exact h.sane.valid ht
    unfold doVmctl
    rw [hp]
    dsimp only
    rw [hwho]
    rcases h.type p hbusy with hty | ⟨hty, _⟩
    · rw [hty]
      refine ⟨_, rfl, h.answer hph hty value, fun q => ?_⟩
      by_cases hqp : q = p
      · subst hqp
        simp [events, hp, hty, hph]
      · simp [events, hp, hty, update_of_ne hqp, Ne.symm hqp]
    · rw [hty]
      refine ⟨_, rfl, (h.finish hph value).rtsUnset (update_self ..), fun q => ?_⟩
      by_cases hqp : q = p
      · subst hqp
        simp [events, hp, hty, hph]
      · simp [events, hp, hty, update_of_ne hqp]

/-! ## Deliveries, deaths and births -/

theorem Inv.delivermsg (h : s.Inv none) {p : Slot} (hp : s.kernel.runnable p = true) (fault : Bool) :
    (s.delivermsg p fault).Inv none ∧ ∀ q, (s.delivermsg p fault).phase q = .answered ↔ s.phase q = .answered := by
  have hflags : (s.kernel.proc p).pRtsFlags = ∅ := by simpa [State.runnable] using hp
  have hlive : .slotFree ∉ (s.kernel.proc p).pRtsFlags := by simp [hflags]
  have hidle : s.phase p = .idle := h.idle_of_vmrequest (by simp [hflags])
  unfold VmState.delivermsg
  split_ifs
  · refine ⟨h.vmSuspend hlive hidle hlive _ _ (by decide) nofun, fun q => ?_⟩
    change update s.phase p .queued q = .answered ↔ _
    by_cases hq : q = p
    · subst hq
      rw [update_self, hidle]
      exact iff_of_false (by decide) (by decide)
    · rw [update_of_ne hq]
  · refine ⟨h.same ?_, fun _ => Iff.rfl⟩
    exact .trans (.modProc rfl rfl rfl) (.record _)

/-- The process that an `exit` is about. -/
def exiting (s : VmState) (whoP : Slot) (e : Endpoint) : Option Slot :=
  if whoP = PM ∧ e ≠ SELF then s.kernel.isokendpt e else some whoP

/-- The process has no request, and there is no unanswered request about it. -/
def ExitOk (s : VmState) (rc : Slot) : Prop := s.phase rc = .idle ∧
  ∀ q, s.phase q = .queued ∨ s.phase q = .asked → (s.kernel.proc q).pVmrequest.who ≠ (s.kernel.proc rc).pEndpoint

theorem Inv.clearProc (h : s.Inv none) {rc : Slot} (hok : s.ExitOk rc)
    (hh : (s.kernel.clearProc rc).sched.halted = false) :
    VmState.Inv none { s with kernel := s.kernel.clearProc rc } := by
  unfold State.clearProc at hh ⊢
  by_cases he : s.kernel.isemptyp rc = true
  · rw [if_pos he]
    exact h
  rw [if_neg he] at hh ⊢
  have hlive : .slotFree ∉ (s.kernel.proc rc).pRtsFlags := fun hf => he (by simp [State.isemptyp, h.sane.tidy rc hf])
  have hk : s.kernel.VmSame (s.kernel.clearEndpoint rc) := .clearEndpoint hlive
  set k1 := s.kernel.clearEndpoint rc
  by_cases hh1 : k1.sched.halted = true
  · rw [if_pos hh1, hh1] at hh
    cases hh
  rw [if_neg hh1]
  have h1 := h.same hk
  set k2 := k1.rtsSetFlags rc {.slotFree} with hk2
  have hproc2 : ∀ p, k2.proc p = if p = rc then { k1.proc p with pRtsFlags := {.slotFree} } else k1.proc p := by
    intro p
    have : k2.proc = (k1.modProc rc fun r => { r with pRtsFlags := {.slotFree} }).proc := by
      rw [hk2]
      unfold State.rtsSetFlags
      split_ifs <;> rfl
    rw [this]
    by_cases hp : p = rc <;> simp [State.modProc, hp]
  have hv2 : k2.vmrequest = k1.vmrequest := by
    rw [hk2]
    unfold State.rtsSetFlags
    split_ifs <;> rfl
  set k3 := if .sysProc ∈ k2.privFlags rc then k2.modPriv (k2.proc rc).pPriv fun r => { r with sProcNr := none } else k2
    with hk3
  have hproc3 : k3.proc = k2.proc := by
    rw [hk3]
    split_ifs <;> rfl
  have hv3 : k3.vmrequest = k1.vmrequest := by
    rw [← hv2, hk3]
    split_ifs <;> rfl
  have hproc : ∀ p, k3.proc p = if p = rc then { k1.proc p with pRtsFlags := {.slotFree} } else k1.proc p := by
    intro p
    rw [hproc3]
    exact hproc2 p
  have hreq : ∀ p, (k3.proc p).pVmrequest = (k1.proc p).pVmrequest := by
    intro p
    rw [hproc]
    split_ifs <;> rfl
  have hend : ∀ p, (k3.proc p).pEndpoint = (k1.proc p).pEndpoint := by
    intro p
    rw [hproc]
    split_ifs <;> rfl
  refine .of_rows ⟨fun p hf => ?_, fun p => by rw [hend]; exact h1.sane.ep p⟩ ?_ h.restarts fun p => ?_
  · dsimp only at hf ⊢
    rw [hproc] at hf ⊢
    split_ifs with hp
    · rfl
    · rw [if_neg hp] at hf
      exact h1.sane.tidy p hf
  · rw [hv3]
    exact Listed.congr h1.requests (fun p _ => by rw [hreq]) fun _ => Iff.rfl
  · by_cases hp : p = rc
    · exact .idle (hp ▸ hok.1)
    · have hpp : k3.proc p = k1.proc p := by rw [hproc, if_neg hp]
      refine (h1.row p).still ⟨rfl, by simp [hpp], by simp [hpp], hreq p, rfl, hend p⟩ fun hph t ht hw => ⟨?_, hend t⟩
      have htrc : t ≠ rc := by
        rintro rfl
        refine hok.2 p hph ?_
        rwa [hk.req, hk.endpoint] at hw
      rw [hproc, if_neg htrc]
      exact ht

end VmState

/-- A fork that succeeds: only the entry of the child changes, whose slot was empty. -/
theorem State.doFork_proc {k : State} (h : k.Sane) {e : Endpoint} {rpc : Slot} {vm : Bool} {lin : Nat}
    (hr : (k.doFork e rpc vm lin).1 = OK) :
    k.isemptyp rpc = true ∧ (∀ p, p ≠ rpc → (k.doFork e rpc vm lin).2.proc p = k.proc p) ∧
      (k.doFork e rpc vm lin).2.vmrequest = k.vmrequest ∧
      .slotFree ∉ ((k.doFork e rpc vm lin).2.proc rpc).pRtsFlags ∧
      ∃ g, 0 ≤ g ∧ ((k.doFork e rpc vm lin).2.proc rpc).pEndpoint = Kernel.endpoint g (procNr rpc) := by
  rcases k.doFork_cases e rpc vm lin with he | ⟨rpp, hp, -, hempty, -, he⟩
  · rw [he] at hr
    exact absurd hr (show EINVAL ≠ OK by decide)
  have hproc := k.forked_proc rpp rpc vm lin
  rw [he]
  refine ⟨hempty, fun q hq => by rw [hproc, if_neg hq], (k.forked_fixed rpp rpc vm lin).2, ?_,
    nextGen (k.proc rpc).pEndpoint, ?_, ?_⟩
  · have hlive := (h.of_valid hp).1
    rw [hproc, if_pos rfl]
    cases vm <;> simp only [childProc] <;> split_ifs <;> simp [hlive]
  · obtain ⟨g, hg, he⟩ := h.ep rpc
    unfold nextGen
    rw [he, endpointG_endpoint hg]
    split_ifs
    · decide
    · omega
  · rw [hproc, if_pos rfl]
    rfl

namespace VmState

variable {s : VmState}

theorem Inv.doFork (h : s.Inv none) (e : Endpoint) (rpc : Slot) (vm : Bool) (lin : Nat) :
    (s.doFork e rpc vm lin).Inv none ∧ (s.doFork e rpc vm lin).phase = s.phase := by
  unfold VmState.doFork
  cases s.kernel.isokendpt e with
  | none => exact ⟨h, rfl⟩
  | some rpp =>
    dsimp only
    by_cases hr : (s.kernel.doFork e rpc vm lin).1 ≠ OK
    · rw [if_pos hr]
      exact ⟨h, rfl⟩
    rw [if_neg hr]
    obtain ⟨hempty, hother, hchain, hlive, hgen⟩ := State.doFork_proc h.sane (not_not.mp hr)
    set k := (s.kernel.doFork e rpc vm lin).2
    refine ⟨?_, rfl⟩
    have hfree : .slotFree ∈ (s.kernel.proc rpc).pRtsFlags := by
      have : (s.kernel.proc rpc).pRtsFlags = {.slotFree} := by simpa [State.isemptyp] using hempty
      simp [this]
    have hidle : s.phase rpc = .idle := by
      by_contra hp
      exact (h.busy rpc hp).1 hfree
    have hne {p : Slot} {x : Phase} (hp : s.phase p = x) (hx : x ≠ .idle) : p ≠ rpc := fun he => hx (hp ▸ he ▸ hidle)
    refine .of_rows ⟨fun p hf => ?_, fun p => ?_⟩ ?_ ?_ fun p => ?_
    · by_cases hp : p = rpc
      · rw [hp] at hf
        exact absurd hf hlive
      · dsimp only at hf ⊢
        rw [hother p hp] at hf ⊢
        exact h.sane.tidy p hf
    · by_cases hp : p = rpc
      · rw [hp]
        exact hgen
      · rw [hother p hp]
        exact h.sane.ep p
    · rw [hchain]
      exact Listed.congr h.requests (fun p hp => by rw [hother p (hne hp (by decide))]) fun _ => Iff.rfl
    · exact Listed.congr h.restarts (fun p hp => update_of_ne (hne hp (by decide)) _ _) fun _ => Iff.rfl
    · by_cases hp : p = rpc
      · exact .idle (hp ▸ hidle)
      · have hpp := hother p hp
        refine (h.row p).still ⟨rfl, by simp [hpp], by simp [hpp], by simp [hpp], by simp [hp], by simp [hpp]⟩
          fun _ t ht _ => ?_
        have htr : t ≠ rpc := fun he => ht (he ▸ hfree)
        exact ⟨by simpa [hother t htr] using ht, by simp [hother t htr]⟩

end VmState

end Minix.Kernel
