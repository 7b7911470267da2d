import Minix.Kernel.Boot
import Minix.Kernel.Steps
import Minix.Lib.Run

/-!
# The caller queues in every run

`callerQueues_of_run`: in every run from a start state in which no process forks while it has callers or is sending, the
caller queue of each live process has exactly the processes that are sending to it, once each and in order of arrival,
and no process is in two queues. `refines_of_run`: each step of such a run is a step of the machine of views,
`View.StepRes`.

Without the condition this fails: `do_fork` copies `p_caller_q` of the parent, so that the callers of the parent are in
the queue of the child as well (`callerQueues_fork`).
-/

namespace Minix.Kernel

open Minix.Lib

namespace State

variable {k k' : State}

theorem Initial.idle (h : k.Initial) (p : Slot) : k.view.free p = k.view.empty p ∧ k.view.noEp p = false ∧
    k.view.sending p = false ∧ k.view.receiving p = false := by
  rcases h.flags p with hf | hf
  · simp [State.view, hf]
  · have hn : ∀ x ∈ ({.slotFree, .noEndpoint, .sending, .receiving} : Finset RtsFlag), x ∉ (k.proc p).pRtsFlags := by
      intro x hx hm
      have : x ∈ (k.proc p).pRtsFlags ∩ {.slotFree, .noEndpoint, .sending, .receiving} := Finset.mem_inter.mpr ⟨hm, hx⟩
      rw [hf] at this
      cases this
    have hne : (k.proc p).pRtsFlags ≠ {.slotFree} := fun he => hn .slotFree (by simp) (by simp [he])
    simp [State.view, hne, hn]

theorem Initial.good (h : k.Initial) : k.view.Good where
  free_eq p := (h.idle p).1
  idle p _ := (h.idle p).2.2
  ep p := ⟨0, le_refl 0, (h.endpoint p).trans (by simp [Kernel.endpoint])⟩
  sendTo p hp := by rw [(h.idle p).2.2.1] at hp; cases hp
  recvFrom p hp := by rw [(h.idle p).2.2.2] at hp; cases hp
  sendRec p hp := by rw [(h.idle p).2.2.1] at hp; cases hp
  queue d _ := by
    refine ⟨[], h.callerQ d, List.nodup_nil, fun p => ⟨by simp, fun hp => ?_⟩, List.Pairwise.nil⟩
    rw [(h.idle p).2.2.1] at hp
    cases hp.1

/-! ## The property -/

/-- The process exists and can be sent messages. -/
def Live (k : State) (p : Slot) : Prop := .slotFree ∉ (k.proc p).pRtsFlags ∧ .noEndpoint ∉ (k.proc p).pRtsFlags

instance (k : State) (p : Slot) : Decidable (k.Live p) := inferInstanceAs (Decidable (_ ∧ _))

/-- `p` is blocked sending to the endpoint that `d` has now. -/
def SendsTo (k : State) (p d : Slot) : Prop :=
  .sending ∈ (k.proc p).pRtsFlags ∧ (k.proc p).pSendtoE = (k.proc d).pEndpoint

instance (k : State) (p d : Slot) : Decidable (k.SendsTo p d) := inferInstanceAs (Decidable (_ ∧ _))

/-- The caller queue of `d` ends, and has the processes `l`. -/
def QueueIs (k : State) (d : Slot) (l : List Slot) : Prop := Chain (fun p => (k.proc p).pQLink) (k.proc d).pCallerQ l

/-- The callers of every live process are in its queue, once each and in order of arrival, and in no other queue. -/
structure CallerQueues (k : State) : Prop where
  queue : ∀ d, k.Live d → ∃ l, k.QueueIs d l ∧ (∀ p, l.count p = if k.SendsTo p d then 1 else 0) ∧
    (∀ p ∈ l, k.Live p) ∧ l.Pairwise fun p q => lastCall k.log p < lastCall k.log q
  disjoint : ∀ d d' l l', k.Live d → k.Live d' → d ≠ d' → k.QueueIs d l → k.QueueIs d' l' → l.Disjoint l'

theorem live_iff {p : Slot} : k.view.live p ↔ k.Live p := by simp [View.live, Live, State.view]

theorem callerQueues_of_good (hg : k.view.Good) : k.CallerQueues where
  queue d hd := by
    obtain ⟨l, hl⟩ := hg.queue d (live_iff.mpr hd)
    have hmem : ∀ p, p ∈ l ↔ k.SendsTo p d := fun p => (hl.mem p).trans (by simp [SendsTo, State.view])
    refine ⟨l, hl.chain, fun p => ?_, fun p hp => ?_, hl.order⟩
    · rw [hl.nodup.count, if_congr (hmem p) rfl rfl]
    · exact live_iff.mp (hg.live_of_sending ((hl.mem p).mp hp).1)
  disjoint d d' l l' hd hd' hne hl hl' p hp hp' := by
    obtain ⟨q, hq⟩ := hg.queue d (live_iff.mpr hd)
    obtain ⟨q', hq'⟩ := hg.queue d' (live_iff.mpr hd')
    rw [chain_unique hl hq.chain] at hp
    rw [chain_unique hl' hq'.chain] at hp'
    exact hq.disjoint hg hq' hne hp hp'

/-! ## Runs -/

/-- A process that forks has no callers in its queue and is not sending. -/
def ForkOk (k : State) : Op → Prop
  | .fork e _ _ _ =>
    ∀ rpp, (k.proc rpp).pEndpoint = e → (k.proc rpp).pCallerQ = none ∧ .sending ∉ (k.proc rpp).pRtsFlags
  | _ => True

instance (k : State) : ∀ o, Decidable (k.ForkOk o)
  | .fork e _ _ _ => inferInstanceAs (Decidable (∀ rpp, (k.proc rpp).pEndpoint = e → _ ∧ _))
  | .call .. | .resume .. | .notify .. | .reply .. | .exit .. | .kill .. => isTrue trivial

/-- A step keeps the caller queues right. -/
theorem step_good (hg : k.view.Good) {o : Op} (hok : k.ForkOk o) (h : k.step o = some k') : k'.view.Good := by
  refine (step_view hg h).good hg ?_
  rintro e rpc vm lin rfl rpp he
  have := hok rpp he
  exact ⟨this.1, by simpa [State.view] using this.2⟩

/-- **The caller queues in every run** whose forks are by processes without callers that are not sending. -/
theorem callerQueues_of_run {os : List Op} (h0 : k.Initial) (hok : AllOk step ForkOk os k)
    (hr : run step os k = some k') : k'.CallerQueues :=
  callerQueues_of_good (run_invariant (fun _ _ _ h => step_good h) h0.good hok hr)

/-- **The kernel refines the machine of views**, step by step. -/
theorem refines_of_run {os : List Op} {o : Op} {k'' : State} (h0 : k.Initial) (hok : AllOk step ForkOk os k)
    (hr : run step os k = some k') (hs : k'.step o = some k'') : k'.view.StepRes o k''.view :=
  step_view (run_invariant (fun _ _ _ h => step_good h) h0.good hok hr) hs

end State

/-- RS forks first, and VFS is sending to RS afterwards. -/
def forkThenSend : List Op :=
  [plainCall PM RECEIVE ANY, plainCall RS SENDREC (procNr PM), .fork (procNr RS) 20 false 1,
    plainCall VFS SEND (procNr RS)]

theorem callerQueues_forkThenSend : ∃ k, run State.step forkThenSend sixState = some k ∧ k.CallerQueues ∧
    (k.proc RS).pCallerQ = some VFS := by
  obtain ⟨k, hk, hq⟩ : ∃ k, run State.step forkThenSend sixState = some k ∧ (k.proc RS).pCallerQ = some VFS := by
    decide +kernel
  exact ⟨k, hk, State.callerQueues_of_run sixState_initial (by decide +kernel) hk, hq⟩

theorem refines_forkThenSend : ∃ k k', run State.step forkThenSend sixState = some k ∧
    k.view.StepRes (.exit PM (procNr RS)) (State.view k') := by
  obtain ⟨k, hk, k', hs, _⟩ : ∃ k, run State.step forkThenSend sixState = some k ∧
      ∃ k', k.step (.exit PM (procNr RS)) = some k' ∧ True := by decide +kernel
  exact ⟨k, k', hk, State.refines_of_run sixState_initial (by decide +kernel) hk hs⟩

/-- VFS is sending to RS when RS forks. -/
def sendThenFork : List Op :=
  [plainCall PM RECEIVE ANY, plainCall VFS SEND (procNr RS), plainCall RS SENDREC (procNr PM),
    .fork (procNr RS) 20 false 1]

/-- The child of RS, in slot 20, has VFS in its caller queue, although VFS is sending to RS. -/
theorem callerQueues_fork : ∃ k, run State.step sendThenFork sixState = some k ∧ k.Live 20 ∧
    (k.proc 20).pCallerQ = some VFS ∧ (k.proc RS).pCallerQ = some VFS ∧ ¬ k.SendsTo VFS 20 ∧ ¬ k.CallerQueues := by
  obtain ⟨k, hk, h1, h2, h3, h4⟩ : ∃ k, run State.step sendThenFork sixState = some k ∧ k.Live 20 ∧
      (k.proc 20).pCallerQ = some VFS ∧ (k.proc RS).pCallerQ = some VFS ∧ ¬ k.SendsTo VFS 20 := by decide +kernel
  refine ⟨k, hk, h1, h2, h3, h4, fun hq => ?_⟩
  obtain ⟨l, hl, hc, _⟩ := hq.queue 20 h1
  cases l with
  | nil => rw [State.QueueIs, h2] at hl; cases hl
  | cons a l =>
    have ha : a = VFS := by
      have := hl.1
      rw [h2] at this
      exact (Option.some.inj this).symm
    have := hc VFS
    rw [if_neg h4, ha] at this
    simp at this

end Minix.Kernel
