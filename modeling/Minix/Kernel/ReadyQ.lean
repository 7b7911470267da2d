import Minix.Kernel.Boot
import Minix.Kernel.Frame
import Minix.Lib.Queues

/-!
# The ready queues

`readyQueues_of_run`: after any sequence of scheduling operations a process is linked on a ready queue exactly if its
runtime flags are zero, once and on the queue of its priority; the tails point at the last processes, and `next_ptr` is
the first process of the first queue that is not empty, if it was recomputed by the last `enqueue` or `dequeue`.

`enqueue_ok` and `dequeue_ok` are about the lists. All other operations are made of the two, and of changes of the flags
of processes that stay blocked.
-/

namespace Minix.Kernel

open Minix.Lib Function Finset

namespace Sched

variable {s s' : Sched} {R : Set Slot} {l : Nat → List Slot} {pf : Slot → Finset PrivFlag} {rp : Slot}

/-- Queue `q` has the processes `l q`, which are those of `R` with priority `q`. -/
structure Linked (s : Sched) (R : Set Slot) (l : Nat → List Slot) : Prop where
  queues : Queues s.pNextready s.rdyHead s.rdyTail l
  mem : ∀ q p, p ∈ l q ↔ p ∈ R ∧ s.pPriority p = q
  prio : ∀ p, s.pPriority p < nrSchedQueues

/-- The processes of `R` are on the ready queues, and `next_ptr` is right if it was just recomputed. -/
structure Ok (s : Sched) (R : Set Slot) : Prop where
  linked : ∃ l, s.Linked R l
  picks : s.picked = true → s.nextPtr = s.firstReady

/-- The links of the ready queues. -/
def links (s : Sched) : (Slot → Option Slot) × (Nat → Option Slot) × (Nat → Option Slot) :=
  (s.pNextready, s.rdyHead, s.rdyTail)

theorem queues_of_links (h : Queues s.pNextready s.rdyHead s.rdyTail l) (hn : s'.links = s.links) :
    Queues s'.pNextready s'.rdyHead s'.rdyTail l := by
  obtain ⟨h1, h2, h3⟩ : s'.pNextready = s.pNextready ∧ s'.rdyHead = s.rdyHead ∧ s'.rdyTail = s.rdyTail := by
    simpa [links] using hn
  rwa [h1, h2, h3]

section

variable (h : s.Linked R l)

include h

theorem Linked.same (hn : s'.links = s.links) (hp : s'.pPriority = s.pPriority) : s'.Linked R l :=
  ⟨queues_of_links h.queues hn, by rw [hp]; exact h.mem, by rw [hp]; exact h.prio⟩

theorem Linked.setPriority (hr : rp ∉ R) {n : Nat} (hlt : n < nrSchedQueues) (hn : s'.links = s.links)
    (hp : s'.pPriority = update s.pPriority rp n) : s'.Linked R l := by
  refine ⟨queues_of_links h.queues hn, fun q p => ?_, fun p => ?_⟩
  · rw [h.mem q p]
    refine and_congr_right fun hpr => ?_
    have hne : p ≠ rp := fun e => hr (e ▸ hpr)
    rw [hp, update_of_ne hne]
  · rw [hp]
    by_cases hpr : p = rp
    · rwa [hpr, update_self]
    · rw [update_of_ne hpr]
      exact h.prio p

theorem pickProc_ok (hp : s.picked = false) : (s.pickProc pf).Ok R := by
  unfold pickProc
  cases hf : s.firstReady with
  | none =>
    refine ⟨⟨l, h.same rfl rfl⟩, fun he => ?_⟩
    rw [show s.picked = true from he] at hp
    cases hp
  | some p => exact ⟨⟨l, h.same rfl rfl⟩, fun _ => hf.symm⟩

/-- `pick_proc` does not panic if a process is ready. -/
theorem pickProc_returns (hR : R.Nonempty) : (s.pickProc pf).halted = s.halted := by
  obtain ⟨p, hp⟩ := hR
  unfold pickProc
  cases hf : s.firstReady with
  | none =>
    have hhead := List.findSome?_eq_none_iff.mp hf _ (List.mem_range.mpr (h.prio p))
    rw [h.queues.head?, List.head?_eq_none_iff] at hhead
    have hm := (h.mem _ p).mpr ⟨hp, rfl⟩
    rw [hhead] at hm
    cases hm
  | some p => rfl

/-! ## Adding a process -/

/-- `sched` only changes the priority of the process that is about to be added, and keeps it in range. -/
theorem sched_linked (hr : rp ∉ R) : (s.sched rp).1.Linked R l := by
  unfold sched
  split_ifs with h1 h2
  · exact h
  · refine h.setPriority hr ?_ rfl rfl
    simp only [idleQ, nrSchedQueues] at h2 ⊢
    omega
  · exact h.same rfl rfl

theorem not_mem_of_not_ready (hr : rp ∉ R) (q : Nat) : rp ∉ l q :=
  fun hm => hr ((h.mem q rp).mp hm).1

theorem Linked.add {m : List Slot} (hp : s'.pPriority = s.pPriority) (hm : ∀ p, p ∈ m ↔ p = rp ∨ p ∈ l (s.pPriority rp))
    (hq : Queues s'.pNextready s'.rdyHead s'.rdyTail (update l (s.pPriority rp) m)) :
    ∃ l', s'.Linked (R ∪ {rp}) l' := by
  refine ⟨_, hq, fun q p => ?_, fun p => by rw [hp]; exact h.prio p⟩
  rw [hp, Set.mem_union, Set.mem_singleton_iff]
  by_cases hqq : q = s.pPriority rp
  · subst hqq
    rw [update_self, hm, h.mem]
    constructor
    · rintro (rfl | ⟨h1, h2⟩)
      · exact ⟨.inr rfl, rfl⟩
      · exact ⟨.inl h1, h2⟩
    · rintro ⟨h1 | rfl, h2⟩
      · exact .inr ⟨h1, h2⟩
      · exact .inl rfl
  · rw [update_of_ne hqq, h.mem]
    refine ⟨fun h => ⟨.inl h.1, h.2⟩, ?_⟩
    rintro ⟨h1 | rfl, h2⟩
    · exact ⟨h1, h2⟩
    · exact absurd h2.symm hqq

theorem insert_linked (hr : rp ∉ R) (front : Bool) : (∃ l', (s.insert rp (s.pPriority rp) front).Linked (R ∪ {rp}) l') ∧
    (s.insert rp (s.pPriority rp) front).halted = s.halted := by
  have hc := not_mem_of_not_ready h hr
  unfold insert
  cases hh : s.rdyHead (s.pPriority rp) with
  | none => exact ⟨h.add rfl (fun p => List.mem_cons) (h.queues.pushOnly hc hh), rfl⟩
  | some x =>
    dsimp only
    by_cases hf : front = true
    · rw [if_pos hf, ← hh]
      exact ⟨h.add rfl (fun p => List.mem_cons) (h.queues.pushFront hc (by rw [hh]; simp)), rfl⟩
    · -- a queue that has a head has a tail
      have ht : s.rdyTail (s.pPriority rp) ≠ none := by
        rw [h.queues.last, ne_eq, List.getLast?_eq_none_iff, ← List.head?_eq_none_iff, ← h.queues.head?, hh]
        simp
      obtain ⟨t, ht⟩ := Option.ne_none_iff_exists'.mp ht
      rw [if_neg hf, ht]
      refine ⟨h.add rfl (fun p => ?_) (h.queues.pushBack hc ht), rfl⟩
      rw [List.mem_append, List.mem_singleton, or_comm]

end

theorem insert_picked (q : Nat) (front : Bool) : (s.insert rp q front).picked = s.picked := by
  unfold insert
  cases s.rdyHead q with
  | none => rfl
  | some x => cases front <;> cases s.rdyTail q <;> rfl

/-- A process was added to the ready queues or taken from them, and the next one is picked if need be. -/
structure Queued (s : Sched) (R : Set Slot) (s' : Sched) : Prop where
  ok : s'.Ok R
  returns : R.Nonempty → s'.halted = s.halted

theorem Queued.of_linked {s₁ : Sched} (hl : s₁.Linked R l) (hp : s₁.picked = false) (hh : s₁.halted = s.halted)
    (c : Prop) [Decidable c] : Queued s R (if c then s₁.pickProc pf else s₁) := by
  split_ifs
  · exact ⟨pickProc_ok hl hp, fun hR => (pickProc_returns hl hR).trans hh⟩
  · exact ⟨⟨⟨l, hl⟩, fun he => by rw [hp] at he; cases he⟩, fun _ => hh⟩

/-- **`enqueue`** adds a process that was not ready. -/
theorem enqueue_ok (h : s.Ok R) (hr : rp ∉ R) : Queued s (R ∪ {rp}) (s.enqueue pf rp) := by
  obtain ⟨l, hl⟩ := h.linked
  have h1 := sched_linked (s := { s with picked := false }) (hl.same rfl rfl) hr
  have h2 : (sched { s with picked := false } rp).1.picked = false ∧
      (sched { s with picked := false } rp).1.halted = s.halted := by
    unfold sched
    split_ifs <;> exact ⟨rfl, rfl⟩
  unfold enqueue
  dsimp only
  set r := sched { s with picked := false } rp
  obtain ⟨⟨l', h3⟩, h4⟩ := insert_linked h1 hr r.2
  exact .of_linked h3 ((insert_picked _ _).trans h2.1) (h4.trans h2.2) _

/-- **`dequeue`** takes a ready process from its queue. -/
theorem dequeue_ok (h : s.Ok R) (hr : rp ∈ R) : Queued s (R \ {rp}) (s.dequeue pf rp) := by
  obtain ⟨l, hl⟩ := h.linked
  obtain ⟨m, r, hm⟩ := List.append_of_mem ((hl.mem (s.pPriority rp) rp).mpr ⟨hr, rfl⟩)
  have hd : (m ++ rp :: r).Nodup := hm ▸ hl.queues.nodup _
  have hc : Chain s.pNextready (s.rdyHead (s.pPriority rp)) (m ++ rp :: r) := hm ▸ hl.queues.chain _
  have hlen : m.length < loopFuel := by
    have := (hd.sublist (List.sublist_append_left m _)).length_le_card
    rw [Fintype.card_fin] at this
    exact Nat.lt_succ_of_le this
  have hscan : scan (s.rdyHead (s.pPriority rp)) s.pNextready (fun p => p = rp) loopFuel .head =
      some (Loc.after m) := by
    refine scan_head hc (fun a ha => ?_) (by simp) hlen
    have : a ≠ rp := by
      rintro rfl
      exact (List.nodup_append.mp hd).2.2 a ha a List.mem_cons_self rfl
    simpa using this
  have hl' : (Sched.remove { s with picked := false } rp (s.pPriority rp) (Loc.after m)).Linked (R \ {rp})
      (update l (s.pPriority rp) (m ++ r)) := by
    refine ⟨hl.queues.remove hm, fun q p => ?_, hl.prio⟩
    rw [Set.mem_sdiff, Set.mem_singleton_iff]
    by_cases hq : q = s.pPriority rp
    · subst hq
      have := hl.mem (s.pPriority rp) p
      rw [hm, List.mem_append, List.mem_cons] at this
      rw [update_self, List.mem_append]
      have hne : p = rp → ¬ (p ∈ m ∨ p ∈ r) := by
        rintro rfl
        exact List.mem_append.not.mp (List.nodup_middle.mp hd).notMem
      tauto
    · rw [update_of_ne hq, hl.mem]
      refine ⟨fun h => ⟨⟨h.1, ?_⟩, h.2⟩, fun h => ⟨h.1.1, h.2⟩⟩
      rintro rfl
      exact hq h.2.symm
  unfold dequeue
  dsimp only
  rw [hscan]
  dsimp only
  rw [(chain_after m hc).1]
  exact .of_linked (s := s) hl' rfl rfl (rp = s.procPtr ∨ some rp = s.nextPtr)

end Sched

/-! ## The operations -/

namespace State

variable {k k' : State} {p : Slot} {f : Finset RtsFlag} {g : Proc → Proc} {s : Sched}

/-- The processes whose runtime flags are zero. -/
def ready (k : State) : Set Slot := {p | (k.proc p).pRtsFlags = ∅}

/-- Exactly the processes whose runtime flags are zero are on the ready queues. -/
def ReadyOk (k : State) : Prop := k.sched.Ok k.ready

theorem ReadyOk.same (h : k.ReadyOk) (hs : k'.sched = k.sched)
    (hf : ∀ q, (k'.proc q).pRtsFlags = ∅ ↔ (k.proc q).pRtsFlags = ∅) : k'.ReadyOk := by
  unfold ReadyOk
  rwa [hs, show k'.ready = k.ready from Set.ext hf]

theorem ReadyOk.halt (h : k.ReadyOk) : k.halt.ReadyOk := ⟨h.linked.imp fun _ hl => hl.same rfl rfl, h.picks⟩

theorem modProc_proc (k : State) (p : Slot) (g : Proc → Proc) : (k.modProc p g).proc p = g (k.proc p) := by
  simp [modProc]

theorem modProc_proc_ne (k : State) {q : Slot} (g : Proc → Proc) (h : q ≠ p) : (k.modProc p g).proc q = k.proc q := by
  simp [modProc, h]

theorem ReadyOk.modProc (h : k.ReadyOk) (hg : ∀ r, (g r).pRtsFlags = r.pRtsFlags) : (k.modProc p g).ReadyOk := by
  refine h.same rfl fun q => ?_
  by_cases hq : q = p
  · subst hq
    rw [modProc_proc, hg]
  · rw [modProc_proc_ne _ _ hq]

theorem mem_ready : p ∈ k.ready ↔ (k.proc p).pRtsFlags = ∅ := Iff.rfl

theorem ready_add (h : (g (k.proc p)).pRtsFlags = ∅) : (k.modProc p g).ready = k.ready ∪ {p} := by
  ext q
  by_cases hq : q = p
  · subst hq
    simp [mem_ready, modProc_proc, h]
  · simp [mem_ready, modProc_proc_ne _ _ hq, hq]

theorem ready_remove (h : (g (k.proc p)).pRtsFlags ≠ ∅) : (k.modProc p g).ready = k.ready \ {p} := by
  ext q
  by_cases hq : q = p
  · subst hq
    simp [mem_ready, modProc_proc, h]
  · simp [mem_ready, modProc_proc_ne _ _ hq, hq]

theorem ReadyOk.blocked (h : k.ReadyOk) (hp : (k.proc p).pRtsFlags ≠ ∅)
    (hg : (g (k.proc p)).pRtsFlags ≠ ∅) : (k.modProc p g).ReadyOk := by
  unfold ReadyOk
  rw [ready_remove hg, Set.sdiff_singleton_eq_self (mem_ready.not.mpr hp)]
  exact h

theorem enqueue_ready (h : k.sched.Ok (k.ready \ {p})) (hp : (k.proc p).pRtsFlags = ∅) : (k.enqueue p).ReadyOk := by
  have h1 : (k.sched.enqueue k.privFlags p).Ok _ := (Sched.enqueue_ok h fun hm => hm.2 rfl).ok
  rwa [Set.sdiff_union_of_subset (Set.singleton_subset_iff.mpr (mem_ready.mpr hp))] at h1

section

variable (h : k.ReadyOk)

include h

theorem rtsSet_ready (hf : f.Nonempty) : (k.rtsSet p f).ReadyOk := by
  have hne : ∀ x : Finset RtsFlag, x ∪ f ≠ ∅ := fun x he => hf.ne_empty (union_eq_empty.mp he).2
  unfold rtsSet
  split_ifs with hp
  · unfold ReadyOk
    rw [ready_remove (hne _)]
    exact (Sched.dequeue_ok h hp).ok
  · exact h.blocked hp (hne _)

theorem rtsUnset_ready : (k.rtsUnset p f).ReadyOk := by
  unfold rtsUnset
  dsimp only
  rw [modProc_proc]
  by_cases hp : (k.proc p).pRtsFlags = ∅
  · rw [if_neg (fun hc => hc.1 hp)]
    refine h.same rfl fun q => ?_
    by_cases hq : q = p
    · subst hq
      rw [modProc_proc, hp, empty_sdiff]
    · rw [modProc_proc_ne _ _ hq]
  · by_cases hp' : (k.proc p).pRtsFlags \ f = ∅
    · rw [if_pos ⟨hp, hp'⟩]
      refine enqueue_ready ?_ (by rw [modProc_proc]; exact hp')
      rw [ready_add hp', Set.union_sdiff_cancel_right fun q hq => hp (by rw [← hq.2]; exact hq.1)]
      exact h
    · rw [if_neg (fun hc => hp' hc.2)]
      exact h.blocked hp hp'

theorem rtsSet_returns (hq : (k.ready \ {p}).Nonempty) : (k.rtsSet p f).sched.halted = k.sched.halted := by
  unfold rtsSet
  split_ifs with hp
  · exact (Sched.dequeue_ok h hp).returns hq
  · rfl

theorem rtsUnset_returns : (k.rtsUnset p f).sched.halted = k.sched.halted := by
  unfold rtsUnset
  dsimp only
  split_ifs with hp
  · exact (Sched.enqueue_ok h hp.1).returns ⟨p, .inr rfl⟩
  · rfl

theorem rtsSetFlags_ready (hf : f.Nonempty) : (k.rtsSetFlags p f).ReadyOk := by
  unfold rtsSetFlags
  split_ifs with hp
  · unfold ReadyOk
    rw [ready_remove hf.ne_empty]
    exact (Sched.dequeue_ok h hp.1).ok
  · exact h.blocked (fun hr => hp ⟨hr, hf.ne_empty⟩) hf.ne_empty

/-! ## Clock and priorities -/

theorem clockHandler_ready (ticks : Nat) (due : Bool) : (k.clockHandler ticks due).ReadyOk :=
  ⟨h.linked.imp fun _ hl => hl.same rfl rfl, h.picks⟩

theorem schedcheckPick_ready : k.schedcheckPick.ReadyOk := by
  unfold schedcheckPick
  cases k.sched.nextPtr with
  | none => exact h
  | some p => exact ⟨h.linked.imp fun _ hl => hl.same rfl rfl, nofun⟩

theorem doClocktick_ready : k.doClocktick.ReadyOk := by
  unfold doClocktick
  dsimp only
  split_ifs with hp
  · exact enqueue_ready (Sched.dequeue_ok h hp.2.2).ok hp.2.2
  · exact h

end

theorem setPriority_ok {s' : Sched} {R : Set Slot} (h : s.Ok R) (hp : p ∉ R) {n : Nat} (hn : n < nrSchedQueues)
    (hs : s' = { s with pPriority := update s.pPriority p n, pMaxPriority := s'.pMaxPriority }) : s'.Ok R := by
  rw [hs]
  exact ⟨h.linked.imp fun _ hl => hl.setPriority hp hn rfl rfl, h.picks⟩

theorem balance_ready (h : k.ReadyOk) : (k.balance p).ReadyOk := by
  have hlt : ∀ {s : Sched} {R : Set Slot}, s.Ok R → s.pPriority p - 1 < nrSchedQueues := fun hs =>
    let ⟨_, hl⟩ := hs.linked
    Nat.lt_of_le_of_lt (Nat.sub_le _ 1) (hl.prio p)
  unfold balance
  by_cases h1 : k.isemptyp p = true
  · rw [if_pos h1]
    exact h
  rw [if_neg h1]
  by_cases h2 : k.sched.pPriority p > k.sched.pMaxPriority p
  · rw [if_pos h2]
    by_cases hp : (k.proc p).pRtsFlags = ∅
    · have hd : (k.sched.dequeue k.privFlags p).Ok _ := (Sched.dequeue_ok h hp).ok
      rw [if_pos hp, if_pos (show ((k.dequeue p).proc p).pRtsFlags = ∅ from hp)]
      exact enqueue_ready (setPriority_ok hd (fun hm => hm.2 rfl) (hlt hd) rfl) hp
    · rw [if_neg hp, if_neg hp]
      exact setPriority_ok h (mem_ready.not.mpr hp) (hlt h) rfl
  · rw [if_neg h2]
    exact ⟨h.linked.imp fun _ hl => hl.same rfl rfl, h.picks⟩

theorem balanceQueues_ready (h : k.ReadyOk) : k.balanceQueues.ReadyOk :=
  List.foldlRecOn allSlots balance h fun _ hk _ _ => balance_ready hk

theorem rtsSet_flags (k : State) (p : Slot) (f : Finset RtsFlag) :
    ((k.rtsSet p f).proc p).pRtsFlags = (k.proc p).pRtsFlags ∪ f := by
  rw [rtsSet_proc, if_pos rfl]

theorem locked_ready (h : k.ReadyOk) {n : Nat} (hn : n < nrSchedQueues)
    (hs : s = { (k.rtsSet p {.sysLock}).sched with
      pPriority := update (k.rtsSet p {.sysLock}).sched.pPriority p n, pMaxPriority := s.pMaxPriority }) :
    (State.rtsUnset { k.rtsSet p {.sysLock} with sched := s } p {.sysLock}).ReadyOk := by
  have h1 : (k.rtsSet p {.sysLock}).ReadyOk := rtsSet_ready h (by simp)
  have hp : p ∉ (k.rtsSet p {.sysLock}).ready := by
    rw [mem_ready, rtsSet_flags]
    simp
  exact rtsUnset_ready (setPriority_ok h1 hp hn hs)

theorem doNice_ready (h : k.ReadyOk) (e : Endpoint) (pri : Int) : (k.doNice e pri).2.ReadyOk := by
  unfold doNice
  cases k.isokendpt e with
  | none => exact h
  | some rp =>
    dsimp only
    by_cases h1 : procNr rp < 0
    · rw [if_pos h1]
      exact h
    by_cases h2 : pri < -20 ∨ pri > 20
    · rw [if_neg h1, if_pos h2]
      exact h
    rw [if_neg h1, if_neg h2]
    refine locked_ready h ?_ rfl
    simp only [maxUserQ, minUserQ, nrSchedQueues]
    split_ifs <;> omega

/-! ## Death and fork -/

theorem ReadyOk.ite {c : Prop} [Decidable c] (h : k.ReadyOk) (h' : k'.ReadyOk) : (if c then k else k').ReadyOk := by
  split_ifs
  · exact h
  · exact h'

/-- The process is blocked because it has lost its endpoint. -/
def Dead (k : State) (rc : Slot) : Prop := k.ReadyOk ∧ .noEndpoint ∈ (k.proc rc).pRtsFlags

theorem Dead.clearFlag {rc : Slot} (h : k.Dead rc) {f : RtsFlag} (hf : f ≠ .noEndpoint) :
    (k.clearFlag rc f).Dead rc := by
  have hm : .noEndpoint ∈ (k.proc rc).pRtsFlags \ {f} := by simp [h.2, hf.symm]
  exact ⟨h.1.blocked (ne_empty_of_mem h.2) (ne_empty_of_mem hm), by
    rw [State.clearFlag, modProc_proc]
    exact hm⟩

/-- Nothing that `clear_endpoint` does makes the process ready again. -/
theorem dead_clears (rc : Slot) : Clears rc fun k k' => k.Dead rc → k'.Dead rc where
  refl _ := id
  trans h h' := h' ∘ h
  halt _ h := ⟨h.1.halt, h.2⟩
  modPriv _ _ _ _ h := ⟨h.1.same rfl fun _ => .rfl, h.2⟩
  modProc k p f hf h := by
    have hflags : ∀ r, (f r).pRtsFlags = r.pRtsFlags := by
      intro r
      have hr := congrArg Proc.pRtsFlags (hf r)
      exact hr
    refine ⟨h.1.modProc hflags, ?_⟩
    by_cases hp : rc = p
    · subst hp
      rw [modProc_proc, hflags]
      exact h.2
    · rw [modProc_proc_ne _ _ hp]
      exact h.2
  rtsUnset k p f hf h := by
    refine ⟨rtsUnset_ready h.1, ?_⟩
    rw [rtsUnset_proc]
    split
    · rcases hf with rfl | rfl <;> simp [h.2]
    · exact h.2
  clearFlag _ _ hf h := h.clearFlag (by rcases hf with rfl | rfl <;> decide)

theorem clearEndpoint_ready (h : k.ReadyOk) (rc : Slot) : (k.clearEndpoint rc).ReadyOk := by
  rcases (dead_clears rc).clearEndpoint (k := k) with he | hd
  · rw [he]
    exact h.halt
  · exact (hd ⟨rtsSet_ready h (by simp), by simp [rtsSet_flags]⟩).1

theorem clearProc_ready (h : k.ReadyOk) (rc : Slot) : (k.clearProc rc).ReadyOk := by
  have h1 := clearEndpoint_ready h rc
  have h2 : ((k.clearEndpoint rc).rtsSetFlags rc {.slotFree}).ReadyOk := rtsSetFlags_ready h1 (by simp)
  unfold clearProc
  exact h.ite (h1.ite (.ite (h2.same rfl fun _ => .rfl) h2))

theorem doExit_ready (h : k.ReadyOk) (p : Slot) (e : Endpoint) : (k.doExit p e).2.ReadyOk := by
  unfold doExit
  split_ifs
  · cases k.isokendpt e with
    | none => exact h
    | some q => exact clearProc_ready h q
  · exact clearProc_ready h p

/-- The child's place in the process table is not on a queue, so its links and its priority do not matter. -/
theorem forkSched_ok {R : Set Slot} (h : s.Ok R) (rpp : Slot) {rpc : Slot} (hc : rpc ∉ R) :
    (forkSched s rpp rpc).Ok R := by
  obtain ⟨l, hl⟩ := h.linked
  have h1 : Sched.Linked { s with pNextready := update s.pNextready rpc (s.pNextready rpp) } R l :=
    ⟨hl.queues.congr fun _ _ => Queues.update_of_mem (Sched.not_mem_of_not_ready hl hc) _, hl.mem, hl.prio⟩
  exact ⟨⟨l, h1.setPriority hc (hl.prio rpp) rfl rfl⟩, h.picks⟩

theorem doFork_ready (h : k.ReadyOk) (e : Endpoint) (rpc : Slot) (vm : Bool) (lin : Nat) :
    (k.doFork e rpc vm lin).2.ReadyOk := by
  rcases k.doFork_cases e rpc vm lin with he | ⟨rpp, -, -, hempty, hr, he⟩
  · rw [he]
    exact h
  rw [he]
  have hc : (k.proc rpc).pRtsFlags ≠ ∅ := by
    rw [isemptyp, decide_eq_true_eq] at hempty
    simp [hempty]
  -- the child is blocked, since the parent is waiting for a message
  have hchild : (childProc (k.proc rpp) rpc (k.proc rpc).pEndpoint (.sysProc ∈ k.privFlags rpp) lin).pRtsFlags ≠ ∅ := by
    have hr : .receiving ∈ (k.proc rpp).pRtsFlags := by simpa [rtsIsset] using hr
    refine ne_empty_of_mem (a := .receiving) ?_
    simp only [childProc]
    split_ifs
    · exact mem_union_left _ hr
    · exact hr
  have h4 : (k.withChild rpp rpc lin).ReadyOk :=
    forkSched_ok (h.blocked (g := fun _ => childProc _ _ _ _ _) hc hchild) rpp
      (by rw [mem_ready, modProc_proc]; exact hchild)
  exact (rtsUnset_ready ((rtsSet_ready h4 (by simp)).ite h4)).modProc fun _ => rfl

end State

/-! ## Runs -/

/-- The flags that a macro is called with: at least one. -/
abbrev Mask := {f : Finset RtsFlag // f.Nonempty}

/-- The operations of the scheduler. `enqueue` and `dequeue` are called only by these: by the macros, by the clock and
by `balance_queues`. -/
inductive SchedOp
  | rtsSet (p : Slot) (f : Mask)
  | rtsUnset (p : Slot) (f : Mask)
  | rtsSetFlags (p : Slot) (f : Mask)
  | clockHandler (ticks : Nat) (due : Bool)
  | doClocktick
  | balanceQueues
  | schedcheck
  | doNice (prEndpt : Endpoint) (pri : Int)
  | doExit (whoP : Slot) (prEndpt : Endpoint)
  | doFork (prEndpt : Endpoint) (rpc : Slot) (vminhibit : Bool) (lin : Nat)

namespace State

variable {k : State}

/-- The effect of an operation. -/
def schedStep (k : State) : SchedOp → State
  | .rtsSet p f => k.rtsSet p f
  | .rtsUnset p f => k.rtsUnset p f
  | .rtsSetFlags p f => k.rtsSetFlags p f
  | .clockHandler ticks due => k.clockHandler ticks due
  | .doClocktick => k.doClocktick
  | .balanceQueues => k.balanceQueues
  | .schedcheck => k.schedcheckPick
  | .doNice e pri => (k.doNice e pri).2
  | .doExit p e => (k.doExit p e).2
  | .doFork e rpc vm lin => (k.doFork e rpc vm lin).2

theorem schedStep_ready (h : k.ReadyOk) (o : SchedOp) : (k.schedStep o).ReadyOk := by
  cases o with
  | rtsSet p f => exact rtsSet_ready h f.2
  | rtsUnset p f => exact rtsUnset_ready h
  | rtsSetFlags p f => exact rtsSetFlags_ready h f.2
  | clockHandler ticks due => exact clockHandler_ready h ticks due
  | doClocktick => exact doClocktick_ready h
  | balanceQueues => exact balanceQueues_ready h
  | schedcheck => exact schedcheckPick_ready h
  | doNice e pri => exact doNice_ready h e pri
  | doExit p e => exact doExit_ready h p e
  | doFork e rpc vm lin => exact doFork_ready h e rpc vm lin

/-- The process table before the first process is started. -/
structure NoProcs (k : State) : Prop where
  flags : ∀ p, (k.proc p).pRtsFlags = {.slotFree}
  rdyHead : ∀ q, k.sched.rdyHead q = none
  rdyTail : ∀ q, k.sched.rdyTail q = none
  prio : ∀ p, k.sched.pPriority p < nrSchedQueues
  picked : k.sched.picked = false

theorem NoProcs.ready (h : k.NoProcs) : k.ReadyOk := by
  refine ⟨⟨fun _ => [], .empty h.rdyHead h.rdyTail, fun q p => ⟨nofun, fun hp => ?_⟩, h.prio⟩, fun hp => ?_⟩
  · rw [mem_ready, h.flags] at hp
    simp at hp
  · rw [h.picked] at hp
    cases hp

/-- Every process is on the queue of its priority, once, if its flags are zero, and on no queue otherwise. -/
structure ReadyQueues (k : State) : Prop where
  queues : ∃ l : Nat → List Slot,
    (∀ q, Chain k.sched.pNextready (k.sched.rdyHead q) (l q) ∧ k.sched.rdyTail q = (l q).getLast?) ∧
      ∀ q p, (l q).count p = if (k.proc p).pRtsFlags = ∅ ∧ k.sched.pPriority p = q then 1 else 0
  prio : ∀ p, k.sched.pPriority p < nrSchedQueues
  next : k.sched.picked = true → k.sched.nextPtr = (List.range nrSchedQueues).findSome? k.sched.rdyHead

theorem ReadyOk.readyQueues (h : k.ReadyOk) : k.ReadyQueues := by
  obtain ⟨l, hl⟩ := h.linked
  refine ⟨⟨l, fun q => ⟨hl.queues.chain q, hl.queues.last q⟩, fun q p => ?_⟩, hl.prio, h.picks⟩
  rw [(hl.queues.nodup q).count]
  exact if_congr (hl.mem q p) rfl rfl

/-- **The ready queues in every run** of the scheduler. -/
theorem readyQueues_of_run (h0 : k.NoProcs) (os : List SchedOp) : (os.foldl schedStep k).ReadyQueues :=
  (List.foldlRecOn os schedStep h0.ready fun _ hk o _ => schedStep_ready hk o).readyQueues

end State

/-- The idle task, the system task and RS are started, RS is given a lower priority, and the system task blocks. -/
def startThree : List SchedOp :=
  [.rtsUnset IDLE ⟨{.slotFree}, by simp⟩, .rtsUnset SYSTEM ⟨{.slotFree}, by simp⟩, .rtsUnset RS ⟨{.slotFree}, by simp⟩,
    .doNice (procNr RS) 10, .rtsSet SYSTEM ⟨{.receiving}, by simp⟩]

theorem readyQueues_startThree : (startThree.foldl State.schedStep blankState).ReadyQueues ∧
    (startThree.foldl State.schedStep blankState).sched.picked = true ∧
    (startThree.foldl State.schedStep blankState).sched.nextPtr = some RS := by
  refine ⟨State.readyQueues_of_run ⟨?_, fun _ => rfl, fun _ => rfl, ?_, rfl⟩ _, ?_, ?_⟩ <;> decide +kernel

end Minix.Kernel
