import Minix.Kernel.Death

/-!
# What a step of the kernel does

`step_view` describes every step of the kernel by what it does to the view, `View.StepRes`, and `StepRes.good` concludes
that a step keeps the invariant of message passing, if the parent of a fork is `Forkable`.
-/

namespace Minix.Kernel

open Minix.Lib Function

namespace View

variable {v w : View}

/-! ## System calls keep the invariant -/

variable {c : Slot}

theorem RecvRes.sameSlots {e : Endpoint} {src : Option Slot} {io : TableIo} (h : v.RecvRes c e src io w) :
    v.SameSlots w := by
  cases h with
  | stopped => exact ⟨rfl, rfl, rfl, rfl⟩
  | whileSending => exact ⟨rfl, rfl, rfl, rfl⟩
  | notified => exact ⟨rfl, rfl, rfl, rfl⟩
  | taken _ _ _ _ hw =>
    have hw := hw.eases.sameSlots
    exact ⟨hw.endpoint, hw.empty, hw.free, hw.noEp⟩
  | asyn _ hw => exact hw.eases.sameSlots
  | listening _ _ hw =>
    rcases hw with rfl | ⟨_, _, hw⟩
    · exact ⟨rfl, rfl, rfl, rfl⟩
    · exact hw.eases.sameSlots.trans ⟨rfl, rfl, rfl, rfl⟩

theorem Received.sameSlots {a : CallArgs} (h : v.Received c a w) : v.SameSlots w := by
  rcases h with rfl | ⟨_, _, h⟩
  · exact ⟨rfl, rfl, rfl, rfl⟩
  · exact h.sameSlots

theorem CallRes.sameSlots (hg : v.Good) {a : CallArgs} (h : v.CallRes c a w) : v.SameSlots w := by
  cases h with
  | notify hw => exact hw.eases.sameSlots
  | senda _ hk => subst hk; exact (State.miniSenda_eases hg ..).sameSlots
  | sendnb _ _ hs => exact hs.sameSlots
  | send _ _ _ hs => exact hs.sameSlots
  | receive _ _ hw => exact hw.sameSlots
  | sendrec _ _ _ hs hw =>
    rcases hw with ⟨_, rfl⟩ | ⟨_, hw⟩
    · exact hs.sameSlots
    · exact hs.sameSlots.trans hw.sameSlots

/-- A caller that is sending waits only for the process it is sending to. -/
theorem RecvRes.good (hg : v.Good) {e : Endpoint} {src : Option Slot} {io : TableIo} (hc : v.live c)
    (he : v.Source e src) (hs : v.sending c = true → e = v.sendto c) (h : v.RecvRes c e src io w) : w.Good := by
  have hsrc : e ≠ ANY → ∃ d, v.live d ∧ e = v.endpoint d := by
    rcases he with ⟨he, _⟩ | ⟨q, he, hq, _⟩
    · exact fun h => absurd he h
    · exact fun _ => ⟨q, hq, he⟩
  cases h with
  | stopped => exact hg
  | whileSending => exact hg.listen hc hsrc hs
  | notified => exact hg.handTo ..
  | taken _ hq _ _ hw => exact ((hg.handTo ..).unlink (hq.handTo ..)).eases hw.eases
  | asyn _ hw => exact hg.eases hw.eases
  | @listening u hsc _ hw =>
    have hu : v.Eases u := by
      rcases hw with rfl | ⟨_, _, hw⟩
      · exact .refl _
      · exact hw.eases
    refine (hg.eases hu).listen ((hu.live c).mpr hc) (fun ha => ?_) (fun h => ?_)
    · obtain ⟨d, hd, he⟩ := hsrc ha
      exact ⟨d, (hu.live d).mpr hd, by rw [hu.endpoint]; exact he⟩
    · rw [hu.sending, hsc] at h
      cases h

theorem Received.good (hg : v.Good) {a : CallArgs} (hc : v.live c)
    (hs : v.sending c = true → a.srcDstE = v.sendto c) (h : v.Received c a w) : w.Good := by
  rcases h with rfl | ⟨src, he, h⟩
  · exact hg
  · exact h.good hg hc he hs

/-- A process that is not blocked. -/
def Ready (v : View) (p : Slot) : Prop := v.live p ∧ v.sending p = false ∧ v.receiving p = false

/-- After `mini_send` the caller is sending only if it was put into the queue of the destination. -/
theorem SendRes.sendto {d : Slot} (hc : v.Ready c) {data : Option Message} {nb : Bool} {r : Int}
    (h : v.SendRes c d data nb r w) (hs : w.sending c = true) : w.sendto c = v.endpoint d := by
  cases h with
  | failed => rw [hc.2.1] at hs; cases hs
  | direct =>
    have : v.sending c = true := hs
    rw [hc.2.1] at this
    cases this
  | queued => simp [View.block, View.storeQ, View.send]

theorem CallRes.good (hg : v.Good) {a : CallArgs} (hc : v.Ready c) (h : v.CallRes c a w) : w.Good := by
  cases h with
  | notify hw => exact hg.eases hw.eases
  | senda _ hk => subst hk; exact hg.eases (State.miniSenda_eases hg ..)
  | sendnb _ _ hs => exact hs.good hg hc.1 hc.2.1 hc.2.2
  | send _ _ _ hs => exact hs.good hg hc.1 hc.2.1 hc.2.2
  | receive _ _ hw =>
    refine hw.good hg hc.1 fun h => ?_
    rw [hc.2.1] at h
    cases h
  | sendrec _ he _ hs hw =>
    have hg' := hs.good hg hc.1 hc.2.1 hc.2.2
    rcases hw with ⟨_, rfl⟩ | ⟨_, hw⟩
    · exact hg'
    · exact hw.good hg' ((hs.sameSlots.live c).mpr hc.1) fun h => by rw [hs.sendto hc h, he]

/-! ## Messages that are not copied yet -/

/-- No process waits for a message while it has one. -/
def Inbox (v : View) : Prop := ∀ p, v.receiving p = true → v.deliver p = false

theorem Inbox.wake (h : v.Inbox) {via : Via} {p q : Slot} {m : Message} : (v.wake via p q m).Inbox := by
  intro r hr
  simp only [View.wake, View.unrecv, View.handTo] at hr ⊢
  by_cases hrq : r = q
  · rw [hrq, update_self] at hr
    cases hr
  · rw [update_of_ne hrq] at hr ⊢
    exact h r hr

theorem Inbox.listen (h : v.Inbox) (hc : v.deliver c = false) (e : Endpoint) : (v.listen c e).Inbox := by
  intro p hp
  by_cases hpc : p = c
  · rw [hpc]
    exact hc
  · simp only [View.listen, update_of_ne hpc] at hp
    exact h p hp

theorem Inbox.handTo (h : v.Inbox) {via : Via} {p : Slot} {m : Message} (hc : v.receiving c = false) :
    (v.handTo via p c m).Inbox := by
  intro q hq
  have hqc : q ≠ c := by
    rintro rfl
    rw [show v.receiving q = true from hq] at hc
    cases hc
  simp only [View.handTo, update_of_ne hqc]
  exact h q hq

/-- `mini_send` neither gives its caller a message nor makes it wait for one. -/
theorem SendRes.self {d : Slot} {data : Option Message} {nb : Bool} {r : Int} (h : v.SendRes c d data nb r w)
    (hr : v.receiving c = false) : w.receiving c = false ∧ w.deliver c = v.deliver c := by
  cases h with
  | failed => exact ⟨hr, rfl⟩
  | direct _ _ hw =>
    have hcd : c ≠ d := by
      rintro rfl
      have := hw.1
      rw [hr] at this
      cases this
    simp only [View.wake, View.unrecv, View.handTo, View.record, update_of_ne hcd]
    exact ⟨hr, trivial⟩
  | queued => exact ⟨hr, rfl⟩

/-! ## Steps -/

/-- The message that was handed to `p` is copied to its buffer. -/
def delivered (v : View) (p : Slot) : View :=
  { v with
    deliver := update v.deliver p false
    log := v.log ++ [.received p (v.delivermsg p)] }

theorem Eases.delivered (v : View) (p : Slot) : v.Eases (v.delivered p) :=
  .of_log rfl rfl rfl fun x hx => by rw [List.mem_singleton.mp hx]; rfl

/-- What a round of `schedcheck` for `p` can do: deliver its message, suspend it because of a page fault, or perform a
deferred call. -/
inductive RoundRes (v : View) (p : Slot) (a : CallArgs) : View → Prop
  | delivered (hd : v.deliver p = true) : RoundRes v p a (v.delivered p)
  | notify {e : Endpoint} {w : View} (hw : v.Notifies SYSTEM e w) (he : e = procNr VM ∨ e = v.endpoint PM) :
    RoundRes v p a w
  | called {w u : View} (hd : v.deliver p = false) (hw : v.CallRes p a w) (hu : w.Notifies SYSTEM (w.endpoint PM) u) :
      RoundRes v p a u

/-- What a step can do. -/
inductive StepRes (v : View) : Op → View → Prop
  | call {c : Slot} {a : CallArgs} {w : View} (hc : v.Ready c) (hd : v.deliver c = false) (hw : v.CallRes c a w) :
      StepRes v (.call c a) w
  | resume {p : Slot} {a : CallArgs} {fault : Bool} {w : View} (hp : v.Ready p) (hw : v.RoundRes p a w) :
      StepRes v (.resume p a fault) w
  | notify {s : Slot} {e : Endpoint} {w : View} (hw : v.Notifies s e w) : StepRes v (.notify s e) w
  | noReply {d : Slot} {m : Message} : StepRes v (.reply d m) v
  | reply {d : Slot} {m : Message} {r : Int} {w : View} (hs : v.Ready SYSTEM) (hw : v.Waits d (procNr SYSTEM))
      (hr : v.SendRes SYSTEM d (some m) false r w) : StepRes v (.reply d m) w
  | noExit {p : Slot} {e : Endpoint} : StepRes v (.exit p e) v
  | exit {p rc : Slot} {e : Endpoint} {w : View} {f : PrivId → Option Slot}
      (ht : if p = PM ∧ e ≠ SELF then v.endpoint rc = e else rc = p) (hw : v.Dies rc w) :
      StepRes v (.exit p e) ((w.gone rc).setProcOf f)
  | signal {e : Endpoint} {sig : Nat} {w : View} (hw : v.Notifies SYSTEM (v.endpoint PM) w) : StepRes v (.kill e sig) w
  | kill {e : Endpoint} {sig : Nat} {rc : Slot} {w u : View} (hk : sig = SIGKILL) (he : v.endpoint rc = e)
      (hw : v.Notifies SYSTEM (v.endpoint PM) w) (hu : w.Dies rc u) : StepRes v (.kill e sig) u
  | noFork {e : Endpoint} {rpc : Slot} {vm : Bool} {lin : Nat} : StepRes v (.fork e rpc vm lin) v
  | fork {e : Endpoint} {rpp rpc : Slot} {vm : Bool} {lin : Nat} {i : PrivId} {g : Int} (he : v.endpoint rpp = e)
      (hr : v.receiving rpp = true) (hc : v.empty rpc = true) (hg : 0 ≤ g) :
      StepRes v (.fork e rpc vm lin) (v.fork rpp rpc (Kernel.endpoint g (procNr rpc)) i)

end View

namespace State

variable {k : State}

theorem ready_of_runnable {p : Slot} (h : k.runnable p = true) : k.view.Ready p := by
  have h' : (k.proc p).pRtsFlags = ∅ := by simpa [runnable] using h
  simp [View.Ready, View.live, State.view, h']

section

variable (hg : k.view.Good)

include hg

/-- A trap is a step of the machine of views. -/
theorem trap_view {c : Slot} (hc : k.view.Ready c) (a : CallArgs) : k.view.CallRes c a (k.trap c a).view := by
  have h := sysCall_view hg hc.1 hc.2.1 hc.2.2 a
  unfold trap
  rw [view_same ⟨rfl, by simp, by simp⟩]
  exact h

theorem vmSuspend_view {c : Slot} (hc : k.view.free c = false) (t : Slot) (lin len : Nat) (ty : VmsType) :
    k.view.Notifies SYSTEM (procNr VM) (k.vmSuspend c t lin len ty).view := by
  unfold vmSuspend
  have hv1 : (k.rtsSet c {.vmrequest}).view = k.view := view_rtsSet_quiet hc (by simp)
  set k1 := k.rtsSet c {.vmrequest}
  dsimp only
  set k2 := k1.modProc c fun p => { p with pVmrequest := _ } with hk2
  have hv2 : k2.view = k.view := by
    rw [← hv1]
    exact view_same ⟨rfl, by simp, by simp⟩
  split_ifs
  · have := miniNotify_view (by rwa [hv2]) SYSTEM (procNr VM)
    rwa [hv2] at this
  · exact .inl hv2

theorem delivermsg_view {p : Slot} (hp : k.view.free p = false) (fault : Bool) :
    k.view.Notifies SYSTEM (procNr VM) (k.delivermsg p fault).2.view ∨
    (k.delivermsg p fault).2.view = k.view.delivered p := by
  unfold delivermsg
  split_ifs
  · exact .inl (vmSuspend_view hg hp ..)
  · right
    simp only [State.view, modProc, record, View.delivered]
    congr 1 <;> funext q <;> by_cases hq : q = p <;> simp [hq]

theorem schedcheckRound_view {p : Slot} (hp : k.view.Ready p) (a : CallArgs) (fault : Bool) :
    k.view.RoundRes p a (k.schedcheckRound p a fault).view := by
  unfold schedcheckRound
  by_cases hd : k.mf p .delivermsg = true
  · rw [if_pos hd]
    rcases delivermsg_view hg hp.1.1 fault with h | h
    · exact .notify h (.inl rfl)
    · rw [h]
      exact .delivered hd
  rw [if_neg hd]
  have hd' : k.view.deliver p = false := Bool.not_eq_true _ ▸ hd
  by_cases h1 : k.mf p .scDefer = true
  · rw [if_pos h1]
    have ht := trap_view hg hp a
    have hf := (ht.sameSlots hg).free
    dsimp only
    split_ifs
    · exact .called hd' ht (sigDelayDone_view (ht.good hg hp) (by rw [hf]; exact hp.1.1))
    · exact .called hd' ht (.inl rfl)
  rw [if_neg h1]
  split_ifs
  · exact .notify (.inl rfl) (.inl rfl)
  · exact .notify (causeSig_view (view_same ⟨rfl, by simp, by simp⟩) hg hp.1.1 SIGTRAP) (.inr rfl)
  · exact .notify (.inl (view_same ⟨rfl, by simp, by simp⟩)) (.inl rfl)
  · exact .notify (.inl rfl) (.inl rfl)

theorem sysReply_view (hs : k.view.Ready SYSTEM) (d : Slot) (m : Message) :
    k.view.StepRes (.reply d m) (k.sysReply d m).view := by
  unfold sysReply
  split_ifs with h
  · have hw := willReceive_iff.mp h
    have hd := isokendpt_endpoint hg (hg.live_of_receiving hw.1).1
    exact .reply hs hw (miniSend_view hg hs.1 hd ⟨0, 1, some m⟩ false)
  · exact .noReply

theorem nextGen_nonneg (p : Slot) : 0 ≤ nextGen (k.view.endpoint p) := by
  obtain ⟨g, hg, he⟩ := hg.ep p
  unfold nextGen
  rw [he, endpointG_endpoint hg]
  split_ifs
  · decide
  · omega

end

theorem view_child (k : State) (rpp rpc : Slot) (sys : Bool) (lin : Nat) (s : Sched)
    (hr : k.view.receiving rpp = true) :
    ({ k with
        proc := update k.proc rpc (childProc (k.proc rpp) rpc (k.proc rpc).pEndpoint sys lin)
        sched := s } : State).view =
      k.view.fork rpp rpc (endpoint (nextGen (k.view.endpoint rpc)) (procNr rpc))
        (if sys then userPrivId else k.view.privId rpp) := by
  have hr' : RtsFlag.receiving ∈ (k.proc rpp).pRtsFlags := by simpa [State.view] using hr
  have hne : (k.proc rpp).pRtsFlags ≠ {.slotFree} := fun h => by simp [h] at hr'
  have hne' : insert .noPriv (k.proc rpp).pRtsFlags ≠ {.slotFree} := fun h => by
    have : RtsFlag.receiving ∈ insert .noPriv (k.proc rpp).pRtsFlags := Finset.mem_insert_of_mem hr'
    simp [h] at this
  simp only [State.view, View.fork]
  cases sys <;> congr 1 <;> funext q <;> by_cases hq : q = rpc <;> simp [hq, childProc, hne, hne']

/-- `do_fork` fails, or it adds a child with the next endpoint of its slot. -/
theorem doFork_fork (hg : k.view.Good) (e : Endpoint) (rpc : Slot) (vm : Bool) (lin : Nat) :
    (k.doFork e rpc vm lin).2 = k ∨ ∃ rpp i, k.view.endpoint rpp = e ∧ k.view.receiving rpp = true ∧
      k.view.empty rpp = false ∧ k.view.empty rpc = true ∧ (k.doFork e rpc vm lin).2.view =
        k.view.fork rpp rpc (Kernel.endpoint (nextGen (k.view.endpoint rpc)) (procNr rpc)) i := by
  rcases k.doFork_cases e rpc vm lin with he | ⟨rpp, hp, -, hc, hr, he⟩
  · exact .inl (congrArg Prod.snd he)
  set k1 := k.withChild rpp rpc lin with hk1
  have hv1 : k1.view = _ := view_child k rpp rpc _ lin _ hr
  have hf1 : k1.view.free rpc = false := by
    rw [hv1]
    simpa [View.fork] using isokendpt_free hg hp
  set k2 := if vm = true then k1.rtsSet rpc {.vminhibit} else k1 with hk2
  have hv2 : k2.view = k1.view := by
    by_cases h : vm = true
    · rw [hk2, if_pos h, view_rtsSet_quiet hf1 (by simp)]
    · rw [hk2, if_neg h]
  have hv3 : (k.forked rpp rpc vm lin).view = k1.view := by
    rw [forked, ← hk1, ← hk2, view_same ⟨rfl, by simp, by simp⟩,
      view_rtsUnset_quiet (by rw [hv2]; exact hf1) (by simp), hv2]
  exact .inr ⟨rpp, _, (isokendpt_some hp).2, hr, (isokendpt_some hp).1, hc, by rw [he, hv3, hv1]⟩

theorem doFork_view (hg : k.view.Good) (e : Endpoint) (rpc : Slot) (vm : Bool) (lin : Nat) :
    k.view.StepRes (.fork e rpc vm lin) (k.doFork e rpc vm lin).2.view := by
  rcases doFork_fork hg e rpc vm lin with h | ⟨rpp, i, he, hr, -, hc, h⟩
  · rw [h]
    exact .noFork
  · rw [h]
    exact .fork he hr hc (nextGen_nonneg hg rpc)

/-- **What a step does to the view.** -/
theorem step_view (hg : k.view.Good) {o : Op} {k' : State} (h : k.step o = some k') : k.view.StepRes o k'.view := by
  obtain ⟨hx, hh⟩ := exec_of_step h
  cases o with
  | call c a =>
    simp only [exec] at hx
    split_ifs at hx with hc
    cases hx
    simp only [Bool.and_eq_true] at hc
    have hr := ready_of_runnable hc.1.1
    exact .call hr (by simpa [State.view, mf] using hc.1.2) (trap_view (k := k.running c) hg hr a)
  | resume p a fault =>
    simp only [exec] at hx
    split_ifs at hx with hp
    cases hx
    have hr := ready_of_runnable hp
    exact .resume hr (schedcheckRound_view (k := k.running p) hg hr a fault)
  | notify s e =>
    cases hx
    exact .notify (miniNotify_view hg s e)
  | reply d m =>
    simp only [exec] at hx
    split_ifs at hx with hs
    cases hx
    exact sysReply_view (k := k.running SYSTEM) hg (ready_of_runnable hs) d m
  | exit p e =>
    simp only [exec] at hx
    split_ifs at hx
    cases hx
    have key : ∀ rc, (if p = PM ∧ e ≠ SELF then k.view.endpoint rc = e else rc = p) →
        (k.clearProc rc).sched.halted = false → k.view.StepRes (.exit p e) (k.clearProc rc).view := by
      intro rc ht hh
      rcases clearProc_view hg rc with h | ⟨h, _⟩ | ⟨w, f, hw, h⟩
      · rw [h]
        exact .noExit
      · rw [h] at hh
        cases hh
      · rw [h]
        exact .exit ht hw
    unfold doExit at hh ⊢
    split_ifs at hh ⊢ with hpm
    · cases he : k.isokendpt e with
      | none => exact .noExit
      | some rc => rw [he] at hh; exact key rc (by rw [if_pos hpm]; exact (isokendpt_some he).2) hh
    · exact key p (by rw [if_neg hpm]) hh
  | kill e sig =>
    cases hx
    unfold doKill at hh ⊢
    cases he : k.isokendpt e with
    | none => exact .signal (.inl rfl)
    | some p =>
      rw [he] at hh
      dsimp only at hh ⊢
      split_ifs at hh ⊢ with h1 h2 h3
      · exact .signal (.inl rfl)
      · exact .signal (.inl rfl)
      · have hn := causeSig_view rfl hg (isokendpt_free hg he) sig
        rcases clearEndpoint_view (hg.eases hn.eases) p with h | h
        · rw [h] at hh
          cases hh
        · exact .kill h3 (isokendpt_some he).2 hn h
      · exact .signal (causeSig_view rfl hg (isokendpt_free hg he) sig)
  | fork e rpc vm lin =>
    cases hx
    exact doFork_view hg e rpc vm lin

end State

namespace View

variable {v w : View}

theorem RoundRes.good (hg : v.Good) {p : Slot} {a : CallArgs} (hp : v.Ready p) (h : v.RoundRes p a w) : w.Good := by
  cases h with
  | delivered => exact hg.eases (.delivered v p)
  | notify hw => exact hg.eases hw.eases
  | called _ hw hu => exact (hw.good hg hp).eases hu.eases

/-- A step keeps the invariant, if the parent of a fork has no callers and is not sending. -/
theorem StepRes.good (hg : v.Good) {o : Op} (h : v.StepRes o w)
    (hf : ∀ e rpc vm lin, o = .fork e rpc vm lin → ∀ rpp, v.endpoint rpp = e → v.Forkable rpp) : w.Good := by
  cases h with
  | call hc _ hw => exact hw.good hg hc
  | resume hp hw => exact hw.good hg hp
  | notify hw => exact hg.eases hw.eases
  | noReply => exact hg
  | reply hs _ hr => exact hr.good hg hs.1 hs.2.1 hs.2.2
  | noExit => exact hg
  | exit _ hw => exact ((hw.good hg).gone hw.noEp).eases (.setProcOf _ _)
  | signal hw => exact hg.eases hw.eases
  | kill _ _ hw hu => exact hu.good (hg.eases hw.eases)
  | noFork => exact hg
  | fork he hr hc hgen => exact hg.fork hc (hf _ _ _ _ rfl _ he) hr hgen _

end View

end Minix.Kernel
