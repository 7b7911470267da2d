import Minix.Kernel.ReadyQ
import Minix.Lib.Run

/-!
# Quanta

The counters `p_ticks_left` in runs of the scheduler. `sched` gives a process a new quantum if it has no time left
(`Refreshed`), `balance_queues` also if it has, and `clock_handler` charges the running process and the process that is
billed.

- `quantum_of_run`: in every run in which no charge takes a counter below the least value of a `char`, no process has
  more than its quantum, and counters only go down until there is a new quantum;
- `quantum_wraps`: a process that is billed for 137 ticks has 127 ticks left of a quantum of 8.
-/

namespace Minix.Kernel

open Minix.Lib Function

/-- Processes without time left may have a new quantum. -/
structure Refreshed (s s' : Sched) : Prop where
  size : s'.pQuantumSize = s.pQuantumSize
  ticks : ∀ p, s'.pTicksLeft p = s.pTicksLeft p ∨ s.pTicksLeft p ≤ 0 ∧ s'.pTicksLeft p = s.pQuantumSize p

namespace Refreshed

variable {s s' s'' : Sched}

theorem same (hq : s'.pQuantumSize = s.pQuantumSize) (ht : s'.pTicksLeft = s.pTicksLeft) : Refreshed s s' :=
  ⟨hq, fun p => .inl (congrFun ht p)⟩

theorem refl (s : Sched) : Refreshed s s := same rfl rfl

theorem trans (h : Refreshed s s') (h' : Refreshed s' s'') : Refreshed s s'' := by
  refine ⟨h'.size.trans h.size, fun p => ?_⟩
  have h1 := h.ticks p
  have h2 := h'.ticks p
  rw [h.size] at h2
  rcases h2 with h2 | ⟨h2, h3⟩
  · rw [h2]
    exact h1
  · rcases h1 with h1 | ⟨h1, -⟩
    · exact .inr ⟨h1 ▸ h2, h3⟩
    · exact .inr ⟨h1, h3⟩

end Refreshed

/-! ## The ready queues -/

namespace Sched

variable {pf : Slot → Finset PrivFlag} {s : Sched} {rp : Slot}

theorem pickProc_refreshed : Refreshed s (s.pickProc pf) := by
  unfold pickProc
  split <;> exact .same rfl rfl

theorem sched_refreshed : Refreshed s (s.sched rp).1 := by
  unfold sched
  split
  · exact .refl s
  next h =>
    refine ⟨rfl, fun p => ?_⟩
    by_cases hp : p = rp
    · subst hp
      exact .inr ⟨not_lt.mp h, update_self _ _ _⟩
    · exact .inl (update_of_ne hp _ _)

theorem insert_refreshed (q : Nat) (front : Bool) : Refreshed s (s.insert rp q front) := by
  unfold insert
  split
  · exact .same rfl rfl
  · split
    · exact .same rfl rfl
    · split <;> exact .same rfl rfl

theorem enqueue_refreshed : Refreshed s (s.enqueue pf rp) := by
  have h0 : Refreshed s { s with picked := false } := .same rfl rfl
  have h : Refreshed s (sched { s with picked := false } rp).1 := h0.trans sched_refreshed
  unfold enqueue
  dsimp only
  split
  · exact (h.trans (insert_refreshed _ _)).trans pickProc_refreshed
  · exact h.trans (insert_refreshed _ _)

theorem dequeue_refreshed : Refreshed s (s.dequeue pf rp) := by
  unfold dequeue
  dsimp only
  split
  · exact .same rfl rfl
  next x _ =>
    split
    · exact .same rfl rfl
    · have hx : Refreshed s (remove { s with picked := false } rp (s.pPriority rp) x) := .same rfl rfl
      split
      · exact hx.trans pickProc_refreshed
      · exact hx

end Sched

namespace State

variable {k k' : State} {p : Slot} {f : Finset RtsFlag}

/-- The counters of two states. -/
abbrev Renews (k k' : State) : Prop := Refreshed k.sched k'.sched

theorem Renews.ite {c : Prop} [Decidable c] {k1 k2 : State} (h1 : k.Renews k1) (h2 : k.Renews k2) :
    k.Renews (if c then k1 else k2) := by
  split
  · exact h1
  · exact h2

section

variable (h : k.Renews k')

include h

theorem Renews.modProc (g : Proc → Proc) : k.Renews (k'.modProc p g) := h

theorem Renews.enqueue : k.Renews (k'.enqueue p) := h.trans Sched.enqueue_refreshed

theorem Renews.dequeue : k.Renews (k'.dequeue p) := h.trans Sched.dequeue_refreshed

theorem Renews.rtsSet : k.Renews (k'.rtsSet p f) := (Renews.ite h.dequeue h).modProc _

theorem Renews.rtsUnset : k.Renews (k'.rtsUnset p f) := .ite (h.modProc (p := p) _).enqueue (h.modProc _)

theorem Renews.rtsSetFlags : k.Renews (k'.rtsSetFlags p f) := (Renews.ite h.dequeue h).modProc _

end

theorem doClocktick_renews : k.Renews k.doClocktick :=
  .ite (Renews.enqueue (.dequeue (.refl k.sched))) (.refl k.sched)

theorem schedcheckPick_renews : k.Renews k.schedcheckPick := by
  unfold schedcheckPick
  split <;> exact .same rfl rfl

theorem doNice_renews (e : Endpoint) (pri : Int) : k.Renews (k.doNice e pri).2 := by
  unfold doNice
  split
  · exact .refl k.sched
  · split
    · exact .refl k.sched
    · split
      · exact .refl k.sched
      · exact Renews.rtsUnset (.trans (Renews.rtsSet (.refl k.sched)) (.same rfl rfl))

theorem Renews.clears (rc : Slot) : Clears rc Renews where
  refl k := .refl k.sched
  trans := Refreshed.trans
  halt _ := .same rfl rfl
  modPriv k _ _ _ := .refl k.sched
  modProc k _ _ _ := .refl k.sched
  rtsUnset k _ _ _ := Renews.rtsUnset (.refl k.sched)
  clearFlag k _ _ := .refl k.sched

theorem clearEndpoint_renews (rc : Slot) : k.Renews (k.clearEndpoint rc) := by
  rcases (Renews.clears rc).clearEndpoint (k := k) with h | h
  · rw [h]
    exact .same rfl rfl
  · exact (Renews.rtsSet (.refl k.sched)).trans h

theorem doExit_renews (whoP : Slot) (e : Endpoint) : k.Renews (k.doExit whoP e).2 := by
  have hclear : ∀ rc, k.Renews (k.clearProc rc) := by
    intro rc
    have h1 := clearEndpoint_renews (k := k) rc
    unfold clearProc
    exact .ite (.refl k.sched) (.ite h1 (.ite h1.rtsSetFlags h1.rtsSetFlags))
  unfold doExit
  split
  · split
    · exact .refl k.sched
    · exact hclear _
  · exact hclear whoP

/-! ## Charges -/

/-- No process has more than its quantum, which is a `char`. -/
structure Credits (k : State) : Prop where
  pos : ∀ p, 0 < k.sched.pQuantumSize p
  char : ∀ p, k.sched.pQuantumSize p ≤ 127
  ticks : ∀ p, k.sched.pTicksLeft p ≤ k.sched.pQuantumSize p

theorem Credits.renews (h : k.Credits) (hr : k.Renews k') : k'.Credits := by
  refine ⟨fun p => hr.size ▸ h.pos p, fun p => hr.size ▸ h.char p, fun p => ?_⟩
  rw [hr.size]
  rcases hr.ticks p with ht | ⟨-, ht⟩
  · rw [ht]
    exact h.ticks p
  · exact ht.le

/-- What `clock_handler` charges a process. -/
def charge (k : State) (ticks : Nat) (p : Slot) : Int :=
  (if .preemptible ∈ k.privFlags k.sched.procPtr ∧ p = k.sched.procPtr then (ticks : Int) else 0) +
    if .billable ∉ k.privFlags k.sched.procPtr ∧ p = k.sched.billPtr then (ticks : Int) else 0

theorem toChar_eq {n : Int} (h1 : -128 ≤ n) (h2 : n ≤ 127) : toChar n = n := by
  unfold toChar
  exact Int.bmod_eq_of_le (by omega) (by omega)

theorem charge_apply {c : Prop} [Decidable c] {t : Slot → Int} {q p : Slot} {n : Nat}
    (hfit : -128 ≤ t p - if c ∧ p = q then (n : Int) else 0) (hle : t p ≤ 127) :
    (if c then update t q (toChar (t q - n)) else t) p = t p - if c ∧ p = q then (n : Int) else 0 := by
  by_cases hc : c
  · rw [if_pos hc]
    by_cases hp : p = q
    · subst hp
      rw [if_pos ⟨hc, rfl⟩] at hfit ⊢
      rw [update_self, toChar_eq hfit (by omega)]
    · rw [update_of_ne hp, if_neg fun h => hp h.2, sub_zero]
  · rw [if_neg hc, if_neg fun h => hc h.1, sub_zero]

theorem charge_nonneg (ticks : Nat) (p : Slot) : 0 ≤ k.charge ticks p := by
  unfold charge
  split <;> split <;> omega

/-- A charge that fits is exact. -/
theorem clockHandler_ticks (h : k.Credits) {ticks : Nat} {p : Slot}
    (hfit : -128 ≤ k.sched.pTicksLeft p - k.charge ticks p)
    (due : Bool) : (k.clockHandler ticks due).sched.pTicksLeft p = k.sched.pTicksLeft p - k.charge ticks p := by
  have hle : k.sched.pTicksLeft p ≤ 127 := (h.ticks p).trans (h.char p)
  unfold charge at *
  unfold clockHandler
  dsimp only
  rw [← ite_not]
  generalize ha : (if .preemptible ∈ k.privFlags k.sched.procPtr ∧ p = k.sched.procPtr then (ticks : Int) else 0) =
      a at *
  generalize hb : (if .billable ∉ k.privFlags k.sched.procPtr ∧ p = k.sched.billPtr then (ticks : Int) else 0) = b at *
  have h0 : 0 ≤ a ∧ 0 ≤ b := by
    rw [← ha, ← hb]
    constructor <;> split <;> omega
  have hfit1 : -128 ≤ k.sched.pTicksLeft p - if .preemptible ∈ k.privFlags k.sched.procPtr ∧
      p = k.sched.procPtr then (ticks : Int) else 0 := by
    rw [ha]
    omega
  have h1 := charge_apply hfit1 hle
  rw [ha] at h1
  rw [charge_apply (by rw [h1, hb]; omega) (by rw [h1]; omega), h1, hb]
  omega

/-! ## Fork and the balance of the queues -/

theorem tdiv_two_le {t q : Int} (hq : 0 < q) (ht : t ≤ q + 1) : t.tdiv 2 ≤ q := by
  by_cases h : 0 ≤ t
  · rw [Int.tdiv_eq_ediv_of_nonneg h]
    omega
  · rw [← neg_neg t, Int.neg_tdiv, Int.tdiv_eq_ediv_of_nonneg (by omega)]
    omega

theorem Credits.fork (h : k.Credits) (e : Endpoint) (rpc : Slot) (vm : Bool) (lin : Nat) :
    (k.doFork e rpc vm lin).2.Credits := by
  have hsched : ∀ (rpp : Slot) (g : Slot → Proc), Credits { k with proc := g, sched := forkSched k.sched rpp rpc } := by
    intro rpp g
    have hsize : ∀ p, (forkSched k.sched rpp rpc).pQuantumSize p =
        k.sched.pQuantumSize (if p = rpc then rpp else p) := by
      intro p
      by_cases hp : p = rpc
      · rw [if_pos hp, hp]
        exact update_self _ _ _
      · rw [if_neg hp]
        exact update_of_ne hp _ _
    refine ⟨fun p => hsize p ▸ h.pos _, fun p => hsize p ▸ h.char _, fun p => ?_⟩
    have hpos := h.pos rpp
    have hticks := h.ticks rpp
    rw [hsize]
    unfold forkSched
    dsimp only
    by_cases hp : p = rpp
    · rw [hp, update_self, ite_self]
      exact tdiv_two_le hpos (by omega)
    · rw [update_of_ne hp]
      by_cases hc : p = rpc
      · rw [hc, update_self, if_pos rfl]
        exact tdiv_two_le hpos (by omega)
      · rw [update_of_ne hc, if_neg hc]
        exact h.ticks p
  rcases k.doFork_cases e rpc vm lin with he | ⟨rpp, -, -, -, -, he⟩
  · rw [he]
    exact h
  · rw [he]
    have h1 : (k.withChild rpp rpc lin).Credits := hsched rpp _
    exact h1.renews (Renews.modProc (.rtsUnset (.ite (Renews.rtsSet (.refl _)) (.refl _))) _)

/-- Processes may have a new quantum, whatever time they have left. -/
structure Topped (s s' : Sched) : Prop where
  size : s'.pQuantumSize = s.pQuantumSize
  ticks : ∀ p, s'.pTicksLeft p = s.pTicksLeft p ∨ s'.pTicksLeft p = s.pQuantumSize p

theorem Topped.trans {s s' s'' : Sched} (h : Topped s s') (h' : Topped s' s'') : Topped s s'' := by
  refine ⟨h'.size.trans h.size, fun p => ?_⟩
  rcases h'.ticks p with h2 | h2
  · rw [h2]
    exact h.ticks p
  · rw [h2, h.size]
    exact .inr rfl

theorem Renews.topped (h : k.Renews k') : Topped k.sched k'.sched := ⟨h.size, fun p => (h.ticks p).imp_right And.right⟩

theorem balance_topped (p : Slot) : Topped k.sched (k.balance p).sched := by
  have h : k.Renews k := .refl k.sched
  unfold balance
  split
  · exact h.topped
  · split
    · have h1 : k.Renews (if (k.proc p).pRtsFlags = ∅ then k.dequeue p else k) := .ite h.dequeue h
      generalize (if (k.proc p).pRtsFlags = ∅ then k.dequeue p else k) = k1 at h1
      refine Renews.topped (.ite (Renews.enqueue ?_) ?_) <;> exact h1.trans (.same rfl rfl)
    · refine ⟨rfl, fun q => ?_⟩
      by_cases hq : q = p
      · subst hq
        exact .inr (update_self _ _ _)
      · exact .inl (update_of_ne hq _ _)

theorem balanceQueues_topped : Topped k.sched k.balanceQueues.sched :=
  List.foldlRecOn (motive := fun k' : State => Topped k.sched k'.sched) allSlots balance (Renews.topped (.refl k.sched))
    fun _ hk _ _ =>
    hk.trans (balance_topped _)

/-! ## Runs -/

/-- Counters go down, or there is a new quantum: if there is no time left, or whatever time there is. -/
structure Spends (renew : Prop) (s s' : Sched) : Prop where
  size : s'.pQuantumSize = s.pQuantumSize
  ticks : ∀ p, s'.pTicksLeft p ≤ s.pTicksLeft p ∨ s'.pTicksLeft p = s.pQuantumSize p ∧ (s.pTicksLeft p ≤ 0 ∨ renew)

theorem Renews.spends (h : k.Renews k') (renew : Prop) : Spends renew k.sched k'.sched :=
  ⟨h.size, fun p => (h.ticks p).imp le_of_eq fun ht => ⟨ht.2, .inl ht.1⟩⟩

theorem Topped.spends {s s' : Sched} (h : Topped s s') {renew : Prop} (hr : renew) : Spends renew s s' :=
  ⟨h.size, fun p => (h.ticks p).imp le_of_eq fun ht => ⟨ht, .inr hr⟩⟩

theorem Credits.spends (h : k.Credits) {renew : Prop} (hs : Spends renew k.sched k'.sched) : k'.Credits := by
  refine ⟨fun p => hs.size ▸ h.pos p, fun p => hs.size ▸ h.char p, fun p => ?_⟩
  rw [hs.size]
  rcases hs.ticks p with ht | ⟨ht, -⟩
  · exact ht.trans (h.ticks p)
  · exact ht.le

/-- No charge takes a counter below the least value of a `char`. -/
def QuantumOk (k : State) : SchedOp → Prop
  | .clockHandler ticks _ => ∀ p, -128 ≤ k.sched.pTicksLeft p - k.charge ticks p
  | _ => True

instance (k : State) : ∀ o, Decidable (k.QuantumOk o)
  | .clockHandler ticks _ => inferInstanceAs (Decidable (∀ p, -128 ≤ k.sched.pTicksLeft p - k.charge ticks p))
  | .rtsSet .. | .rtsUnset .. | .rtsSetFlags .. | .doClocktick | .balanceQueues | .schedcheck | .doNice .. | .doExit ..
  | .doFork .. => isTrue trivial

/-- What a step other than a fork does to the counters. -/
theorem spends_step (h : k.Credits) {o : SchedOp} (hok : k.QuantumOk o)
    (hfork : ∀ e rpc vm lin, o ≠ .doFork e rpc vm lin) :
    Spends (o = .balanceQueues) k.sched (k.schedStep o).sched := by
  have hk : k.Renews k := .refl k.sched
  cases o with
  | rtsSet p f => exact hk.rtsSet.spends _
  | rtsUnset p f => exact hk.rtsUnset.spends _
  | rtsSetFlags p f => exact hk.rtsSetFlags.spends _
  | clockHandler ticks due =>
    refine ⟨rfl, fun p => .inl ?_⟩
    rw [schedStep, clockHandler_ticks h (hok p)]
    have := charge_nonneg (k := k) ticks p
    omega
  | doClocktick => exact doClocktick_renews.spends _
  | balanceQueues => exact balanceQueues_topped.spends rfl
  | schedcheck => exact schedcheckPick_renews.spends _
  | doNice e pri => exact (doNice_renews e pri).spends _
  | doExit whoP e => exact (doExit_renews whoP e).spends _
  | doFork e rpc vm lin => exact absurd rfl (hfork e rpc vm lin)

/-- A step keeps the ticks within the quantum. -/
theorem Credits.step (h : k.Credits) {o : SchedOp} (hok : k.QuantumOk o) : (k.schedStep o).Credits := by
  by_cases hfork : ∀ e rpc vm lin, o ≠ .doFork e rpc vm lin
  · exact h.spends (spends_step h hok hfork)
  · push Not at hfork
    obtain ⟨e, rpc, vm, lin, rfl⟩ := hfork
    exact h.fork e rpc vm lin

/-- The operations of the scheduler do not fail. -/
def quantumStep (k : State) (o : SchedOp) : Option State := some (k.schedStep o)

/-- **Nobody has more than a quantum.** In every run of the scheduler in which no charge takes a counter below the least
value of a `char`, no process has more than its quantum, and the next operation takes counters down, or gives a new
quantum to a process that has no time left, or it is `balance_queues` and gives new quanta, or a fork. -/
theorem quantum_of_run {os : List SchedOp} (h0 : k.Credits) (hok : AllOk quantumStep QuantumOk os k)
    (hr : run quantumStep os k = some k') :
    (∀ p, k'.sched.pTicksLeft p ≤ k'.sched.pQuantumSize p) ∧
    ∀ o, k'.QuantumOk o → (∀ p, (k'.schedStep o).sched.pTicksLeft p ≤ (k'.schedStep o).sched.pQuantumSize p) ∧
      ((∀ e rpc vm lin, o ≠ .doFork e rpc vm lin) → Spends (o = .balanceQueues) k'.sched (k'.schedStep o).sched) := by
  have hk : k'.Credits := by
    refine run_invariant (fun k o k'' hk ho hs => ?_) h0 hok hr
    cases hs
    exact hk.step ho
  exact ⟨hk.ticks, fun o ho => ⟨(hk.step ho).ticks, spends_step hk ho⟩⟩

end State

/-- VM cannot be preempted, as the table of the boot image says. -/
def vmState : State :=
  { blankState with priv := fun i => if i = (blankState.proc VM).pPriv
    then { blankState.priv i with sFlags := {.sysProc} } else blankState.priv i }

/-- A user process is started and runs, VM is started, and the user process waits for it. -/
def waitForVm : List SchedOp :=
  [.rtsUnset IDLE ⟨{.slotFree}, Finset.singleton_nonempty _⟩,
    .rtsUnset 40 ⟨{.slotFree}, Finset.singleton_nonempty _⟩, .schedcheck,
    .rtsUnset VM ⟨{.slotFree}, Finset.singleton_nonempty _⟩,
      .rtsSet 40 ⟨{.receiving}, Finset.singleton_nonempty _⟩, .schedcheck]

theorem vmState_credits : vmState.Credits := ⟨by decide, by decide, by decide⟩

/-- VM runs for two ticks, for which the user process is billed. -/
theorem quantum_of_run_billed :
    ∃ k, run State.quantumStep (waitForVm ++ [.clockHandler 1 false, .clockHandler 1 false]) vmState = some k ∧
    k.sched.pTicksLeft 40 = 6 ∧ k.sched.pTicksLeft 40 ≤ k.sched.pQuantumSize 40 := by
  have h : ∃ k, run State.quantumStep (waitForVm ++ [.clockHandler 1 false, .clockHandler 1 false]) vmState = some k ∧
      k.sched.pTicksLeft 40 = 6 := by decide +kernel
  obtain ⟨k, hk, h6⟩ := h
  exact ⟨k, hk, h6, (State.quantum_of_run vmState_credits (by decide +kernel) hk).1 40⟩

/-- The user process is billed for 137 ticks while VM runs, and has more than 15 quanta left. -/
theorem quantum_wraps : ∃ k, run State.quantumStep (waitForVm ++ List.replicate 137 (.clockHandler 1 false)) vmState =
    some k ∧
    k.sched.procPtr = VM ∧ k.sched.pTicksLeft VM = 8 ∧ k.sched.pTicksLeft 40 = 127 ∧ k.sched.pQuantumSize 40 = 8 := by
    decide +kernel

end Minix.Kernel
