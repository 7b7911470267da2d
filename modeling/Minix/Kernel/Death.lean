import Minix.Kernel.Effects

/-!
# Death and birth of processes

What `clear_endpoint`, `do_exit`, `do_kill` and `do_fork` do to the view (`clearEndpoint_view`, `doFork_view`), and that
they keep the invariant of message passing. For `do_fork` this needs a condition on the parent, `View.Forkable`: the
child's entry is a copy of the parent's, its caller queue included.
-/

namespace Minix.Kernel

open Minix.Lib Function List

namespace View

variable {v w : View}

/-! ## Death -/

/-- `rp` no longer waits for `rc`. -/
def clearOne (rc : Slot) (v : View) (rp : Slot) : View :=
  { v with
    receiving := update v.receiving rp (v.receiving rp && v.getfrom rp != v.endpoint rc)
    sending := update v.sending rp (v.sending rp && v.sendto rp != v.endpoint rc) }

/-- No process waits for `rc` any more. -/
def clearAll (rc : Slot) (v : View) : View :=
  { v with
    receiving := fun p => v.receiving p && v.getfrom p != v.endpoint rc
    sending := fun p => v.sending p && v.sendto p != v.endpoint rc }

theorem foldl_clearOne (rc : Slot) (l : List Slot) (v : View) : l.foldl (clearOne rc) v =
    { v with
      receiving := fun p => if p ∈ l then v.receiving p && v.getfrom p != v.endpoint rc else v.receiving p
      sending := fun p => if p ∈ l then v.sending p && v.sendto p != v.endpoint rc else v.sending p } := by
  induction l generalizing v with
  | nil => simp
  | cons a l ih =>
    rw [foldl_cons, ih]
    simp only [clearOne]
    congr 1 <;> funext p <;> by_cases hp : p = a <;> by_cases hl : p ∈ l <;> simp [hp, hl]

theorem foldl_clearOne_all (rc : Slot) (v : View) : allSlots.foldl (clearOne rc) v = clearAll rc v := by
  rw [foldl_clearOne]
  simp [clearAll, allSlots]

/-- `rc` loses its endpoint. -/
def lose (rc : Slot) (v : View) : View := { v with noEp := update v.noEp rc true }

/-- `rc` loses its endpoint, and no process waits for it any more. -/
def forget (rc : Slot) (v : View) : View := lose rc (clearAll rc v)

theorem Good.forget (hg : v.Good) {rc : Slot} (hs : v.sending rc = false) (hr : v.receiving rc = false) :
    (v.forget rc).Good := by
  have hlive : ∀ p, (v.forget rc).live p → p ≠ rc ∧ v.live p := by
    rintro p ⟨h1, h2⟩
    by_cases hp : p = rc
    · subst hp
      simp [View.forget, View.lose] at h2
    · simp only [View.forget, View.lose, View.clearAll, update_of_ne hp] at h2
      exact ⟨hp, h1, h2⟩
  have hlive' : ∀ p, p ≠ rc → v.live p → (v.forget rc).live p := by
    rintro p hp ⟨h1, h2⟩
    refine ⟨h1, ?_⟩
    simpa only [View.forget, View.lose, View.clearAll, update_of_ne hp] using h2
  have hsend : ∀ p, (v.forget rc).sending p = true → v.sending p = true ∧ v.sendto p ≠ v.endpoint rc := by
    intro p hp
    simpa [View.forget, View.lose, View.clearAll] using hp
  have hrecv : ∀ p, (v.forget rc).receiving p = true → v.receiving p = true ∧ v.getfrom p ≠ v.endpoint rc := by
    intro p hp
    simpa [View.forget, View.lose, View.clearAll] using hp
  refine ⟨hg.free_eq, fun p hp => ?_, hg.ep, fun p hp => ?_, fun p hp ha => ?_, fun p hp hp' => ?_, fun d hd => ?_⟩
  · by_cases h : p = rc
    · subst h
      simp [View.forget, View.lose, View.clearAll, hs, hr]
    · have hi := hg.idle p fun hl => hp (hlive' p h hl)
      simp [View.forget, View.lose, View.clearAll, hi]
  · obtain ⟨d, hd, he⟩ := hg.sendTo p (hsend p hp).1
    refine ⟨d, hlive' d ?_ hd, he⟩
    rintro rfl
    exact (hsend p hp).2 he
  · obtain ⟨d, hd, he⟩ := hg.recvFrom p (hrecv p hp).1 ha
    refine ⟨d, hlive' d ?_ hd, he⟩
    rintro rfl
    exact (hrecv p hp).2 he
  · exact hg.sendRec p (hsend p hp).1 (hrecv p hp').1
  · obtain ⟨hd1, hd2⟩ := hlive d hd
    obtain ⟨l, hl⟩ := hg.queue d hd2
    refine ⟨l, hl.chain, hl.nodup, fun p => ?_, hl.order⟩
    have hne : v.endpoint d ≠ v.endpoint rc := fun h => hd1 (hg.endpoint_inj.mp h)
    rw [hl.mem p]
    simp only [View.forget, View.lose, View.clearAll, Bool.and_eq_true, bne_iff_ne, and_assoc]
    exact ⟨fun h => ⟨h.1, by rw [h.2]; exact hne, h.2⟩, fun h => ⟨h.1, h.2.2⟩⟩

/-- What `clear_endpoint` does first: the dying process leaves the queue it is in. -/
def Unqueued (v : View) (rc : Slot) (w : View) : Prop :=
  (v.sending rc = false ∧ w = v) ∨
    ∃ t l r, v.sending rc = true ∧ v.IsQueue t (l ++ rc :: r) ∧ w = v.unlink t rc (Loc.after l)

theorem Unqueued.good (hg : v.Good) {rc : Slot} (h : v.Unqueued rc w) : w.Good ∧ w.sending rc = false := by
  rcases h with ⟨hs, rfl⟩ | ⟨t, l, r, _, hq, rfl⟩
  · exact ⟨hg, hs⟩
  · exact ⟨hg.unlink hq, by simp [View.unlink, View.storeQ, View.unsend]⟩

/-- Some tables of asynchronous messages are dropped. -/
def dropTables (v : View) (f : PrivId → Nat) : View := { v with asynsize := f }

theorem Eases.dropTables (v : View) (f : PrivId → Nat) : v.Eases (v.dropTables f) :=
  .quiet rfl rfl rfl

/-- The view after `clear_endpoint`. -/
def Dies (v : View) (rc : Slot) (w : View) : Prop :=
  ∃ f v₂, (∀ i, f i = v.asynsize i ∨ f i = 0) ∧ (v.dropTables f).Unqueued rc v₂ ∧ w = (v₂.unrecv rc).forget rc

theorem Dies.good (hg : v.Good) {rc : Slot} (h : v.Dies rc w) : w.Good := by
  obtain ⟨f, v2, _, hu, rfl⟩ := h
  obtain ⟨hg2, hs⟩ := hu.good (hg.eases (.dropTables v f))
  exact (hg2.eases (.unrecv _ rc)).forget hs (by simp [View.unrecv])

theorem Dies.noEp {rc : Slot} (h : v.Dies rc w) : w.noEp rc = true := by
  obtain ⟨f, v2, _, _, rfl⟩ := h
  simp [View.forget, View.lose]

/-- The slot of `rc` becomes free. -/
def gone (rc : Slot) (v : View) : View :=
  { v with
    empty := update v.empty rc true
    free := update v.free rc true
    noEp := update v.noEp rc false
    sending := update v.sending rc false
    receiving := update v.receiving rc false }

/-- Privilege structures get other owners. -/
def setProcOf (v : View) (f : PrivId → Option Slot) : View := { v with procOf := f }

theorem Eases.setProcOf (v : View) (f : PrivId → Option Slot) : v.Eases (v.setProcOf f) :=
  .quiet rfl rfl rfl

theorem Good.gone (hg : v.Good) {rc : Slot} (hrc : v.noEp rc = true) : (v.gone rc).Good := by
  have hlive : ∀ p, (v.gone rc).live p ↔ v.live p := by
    intro p
    by_cases hp : p = rc
    · subst hp
      simp [View.live, View.gone, hrc]
    · simp [View.live, View.gone, hp]
  have hdead : ¬ v.live rc := fun h => by
    rw [h.2] at hrc
    cases hrc
  have hi := hg.idle rc hdead
  have hs : (v.gone rc).sending = v.sending := by
    simp only [View.gone]
    rw [← hi.1, update_eq_self]
  have hr : (v.gone rc).receiving = v.receiving := by
    simp only [View.gone]
    rw [← hi.2, update_eq_self]
  refine ⟨fun p => ?_, fun p hp => ?_, hg.ep, fun p hp => ?_, fun p hp ha => ?_, fun p hp hp' => ?_, fun d hd => ?_⟩
  · by_cases hp : p = rc
    · simp [View.gone, hp]
    · simpa [View.gone, hp] using hg.free_eq p
  · rw [hs, hr]
    exact hg.idle p fun h => hp ((hlive p).mpr h)
  · rw [hs] at hp
    obtain ⟨d, hd, he⟩ := hg.sendTo p hp
    exact ⟨d, (hlive d).mpr hd, he⟩
  · rw [hr] at hp
    obtain ⟨d, hd, he⟩ := hg.recvFrom p hp ha
    exact ⟨d, (hlive d).mpr hd, he⟩
  · rw [hs] at hp
    rw [hr] at hp'
    exact hg.sendRec p hp hp'
  · obtain ⟨l, hl⟩ := hg.queue d ((hlive d).mp hd)
    exact ⟨l, hl.chain, hl.nodup, fun p => by rw [hl.mem p, hs]; rfl, hl.order⟩

/-! ## Fork -/

/-- The child `rpc` is a copy of the parent `rpp` with a new endpoint. -/
def fork (v : View) (rpp rpc : Slot) (e : Endpoint) (i : PrivId) : View :=
  { v with
    endpoint := update v.endpoint rpc e
    privId := update v.privId rpc i
    empty := update v.empty rpc false
    free := update v.free rpc (v.free rpp)
    noEp := update v.noEp rpc (v.noEp rpp)
    sending := update v.sending rpc (v.sending rpp)
    receiving := update v.receiving rpc (v.receiving rpp)
    getfrom := update v.getfrom rpc (v.getfrom rpp)
    sendto := update v.sendto rpc (v.sendto rpp)
    callerQ := update v.callerQ rpc (v.callerQ rpp)
    qLink := update v.qLink rpc (v.qLink rpp)
    sendmsg := update v.sendmsg rpc (v.sendmsg rpp)
    delivermsg := update v.delivermsg rpc (v.delivermsg rpp)
    deliver := update v.deliver rpc (v.deliver rpp)
    asyn := update v.asyn rpc (v.asyn rpp) }

/-- The parent of a fork has no callers in its queue and is not sending. -/
def Forkable (v : View) (rpp : Slot) : Prop := v.callerQ rpp = none ∧ v.sending rpp = false

section

variable (hg : v.Good) {rpp rpc : Slot} (hc : v.empty rpc = true)

include hg hc

/-- The slot of the child was free. -/
theorem Good.not_live_child : ¬ v.live rpc := fun h => by
  rw [← hg.free_eq, h.1] at hc
  cases hc

theorem Good.live_fork {d : Slot} (hd : v.live d) (rpp : Slot) (e : Endpoint) (i : PrivId) : d ≠ rpc ∧
    (v.fork rpp rpc e i).live d := by
  have hne : d ≠ rpc := fun h => hg.not_live_child hc (h ▸ hd)
  exact ⟨hne, by simpa [View.live, View.fork, hne] using hd⟩

/-- Nobody waits for the slot of the child, so the processes that are waited for are still there. -/
theorem Good.wait_fork {d : Slot} (hd : v.live d) (rpp : Slot) (e : Endpoint) (i : PrivId) :
    ∃ d', (v.fork rpp rpc e i).live d' ∧ v.endpoint d = (v.fork rpp rpc e i).endpoint d' := by
  obtain ⟨hne, hlive⟩ := hg.live_fork hc hd rpp e i
  exact ⟨d, hlive, by simp [View.fork, hne]⟩

variable (hf : v.Forkable rpp)

include hf

/-- The queue of the child is empty: no process is sending to its new endpoint. -/
theorem Good.queue_child {g : Int} (hgen : 0 ≤ g) (i : PrivId) :
    (v.fork rpp rpc (Kernel.endpoint g (procNr rpc)) i).IsQueue rpc [] := by
  refine ⟨by simpa [View.fork] using hf.1, nodup_nil, fun p => ⟨nofun, ?_⟩, List.Pairwise.nil⟩
  rintro ⟨hs, he⟩
  by_cases hp : p = rpc
  · subst hp
    simp [View.fork, hf.2] at hs
  · simp only [View.fork, update_of_ne hp, update_self] at hs he
    obtain ⟨d, hd, he'⟩ := hg.sendTo p hs
    have h1 := hg.endpointP d
    rw [← he', he, endpointP_endpoint hgen, procNr_inj] at h1
    exact absurd (h1 ▸ hd) (hg.not_live_child hc)

/-- The other queues are as before. -/
theorem Good.queue_fork {d : Slot} (hd : d ≠ rpc) {l : List Slot} (hl : v.IsQueue d l) (e : Endpoint) (i : PrivId) :
    (v.fork rpp rpc e i).IsQueue d l := by
  have hnot : rpc ∉ l := fun hm => by
    have := ((hl.mem rpc).mp hm).1
    rw [(hg.idle rpc (hg.not_live_child hc)).1] at this
    cases this
  refine ⟨?_, hl.nodup, fun p => ?_, hl.order⟩
  · simp only [View.fork, update_of_ne hd]
    refine chain_congr (fun a ha => update_of_ne ?_ _ _) hl.chain
    rintro rfl
    exact hnot ha
  · by_cases hp : p = rpc
    · subst hp
      simp [View.fork, hf.2, hnot]
    · simpa [View.fork, hp, hd] using hl.mem p

/-- A fork of a process without callers that is not sending keeps the invariant. -/
theorem Good.fork (hr : v.receiving rpp = true) {g : Int} (hgen : 0 ≤ g) (i : PrivId) :
    (v.fork rpp rpc (Kernel.endpoint g (procNr rpc)) i).Good := by
  have hp := hg.live_of_receiving hr
  refine ⟨fun p => ?_, fun p hl => ?_, fun p => ?_, fun p hs => ?_, fun p hs ha => ?_, fun p hs hs' => ?_,
    fun d hd => ?_⟩
  · by_cases h : p = rpc
    · simp [View.fork, h, hp.1]
    · simpa [View.fork, h] using hg.free_eq p
  · by_cases h : p = rpc
    · subst h
      exact absurd (by simpa [View.live, View.fork] using hp) hl
    · have hi := hg.idle p fun hp => hl (hg.live_fork hc hp _ _ _).2
      simpa [View.fork, h] using hi
  · by_cases h : p = rpc
    · subst h
      exact ⟨g, hgen, by simp [View.fork]⟩
    · simpa [View.fork, h] using hg.ep p
  · by_cases h : p = rpc
    · subst h
      simp [View.fork, hf.2] at hs
    · simp only [View.fork, update_of_ne h] at hs
      obtain ⟨d, hd, he⟩ := hg.sendTo p hs
      have := hg.wait_fork hc hd rpp (Kernel.endpoint g (procNr rpc)) i
      simpa [View.fork, h, he] using this
  · by_cases h : p = rpc
    · subst h
      simp only [View.fork, update_self] at ha
      obtain ⟨d, hd, he⟩ := hg.recvFrom rpp hr ha
      have := hg.wait_fork hc hd rpp (Kernel.endpoint g (procNr p)) i
      simpa [View.fork, he] using this
    · simp only [View.fork, update_of_ne h] at hs ha
      obtain ⟨d, hd, he⟩ := hg.recvFrom p hs ha
      have := hg.wait_fork hc hd rpp (Kernel.endpoint g (procNr rpc)) i
      simpa [View.fork, h, he] using this
  · by_cases h : p = rpc
    · subst h
      simp [View.fork, hf.2] at hs
    · simp only [View.fork, update_of_ne h] at hs hs' ⊢
      exact hg.sendRec p hs hs'
  · by_cases h : d = rpc
    · subst h
      exact ⟨[], hg.queue_child hc hf hgen i⟩
    · obtain ⟨l, hl⟩ := hg.queue d (by simpa [View.live, View.fork, h] using hd)
      exact ⟨l, hg.queue_fork hc hf h hl _ _⟩

end

end View

namespace State

variable {k : State}

theorem wakeWith_receiving_view {p : Slot} (hp : k.view.free p = false) (r : Int) :
    (k.wakeWith p .receiving r).view = k.view.unrecv p := by
  unfold wakeWith
  have hv : (k.modProc p fun q => { q with retreg := r }).view = k.view := view_same ⟨rfl, by simp, by simp⟩
  rw [view_rtsUnset_receiving (by rwa [hv]), hv]

theorem wakeWith_sending_view {p : Slot} (hp : k.view.free p = false) (r : Int) :
    (k.wakeWith p .sending r).view = k.view.unsend p := by
  unfold wakeWith
  have hv : (k.modProc p fun q => { q with retreg := r }).view = k.view := view_same ⟨rfl, by simp, by simp⟩
  rw [view_rtsUnset_sending (by rwa [hv]), hv]

/-- What the loop of `clear_endpoint` needs of a process. -/
def Tidy (v : View) : Prop :=
  ∀ p, v.free p = v.empty p ∧ (v.empty p = true → v.sending p = false ∧ v.receiving p = false)

theorem update_of_not_waiting {f : Slot → Bool} {p : Slot} {e e' : Endpoint} (h : ¬ (f p = true ∧ e = e')) :
    Function.update f p (f p && e != e') = f := by
  rw [update_eq_self_iff]
  cases hf : f p with
  | false => rfl
  | true => simpa using fun he => h ⟨hf, he⟩

theorem clearReceiving_view {rp : Slot} (hp : k.view.free rp = false) (rc : Slot) (r : Int) :
    (if k.rtsIsset rp .receiving ∧ (k.proc rp).pGetfromE = (k.proc rc).pEndpoint then k.wakeWith rp .receiving r
      else k).view =
      { k.view with receiving :=
          Function.update k.view.receiving rp (k.view.receiving rp && k.view.getfrom rp != k.view.endpoint rc) } := by
  split_ifs with h
  · have he : k.view.getfrom rp = k.view.endpoint rc := h.2
    rw [wakeWith_receiving_view hp]
    simp [he, View.unrecv]
  · rw [update_of_not_waiting h]

theorem clearSending_view {rp : Slot} (hp : k.view.free rp = false) (rc : Slot) (r : Int) :
    (if k.rtsIsset rp .sending ∧ (k.proc rp).pSendtoE = (k.proc rc).pEndpoint then k.wakeWith rp .sending r
      else k).view =
      { k.view with sending :=
          Function.update k.view.sending rp (k.view.sending rp && k.view.sendto rp != k.view.endpoint rc) } := by
  split_ifs with h
  · have he : k.view.sendto rp = k.view.endpoint rc := h.2
    rw [wakeWith_sending_view hp]
    simp [he, View.unsend]
  · rw [update_of_not_waiting h]

theorem clearRef_view (h : Tidy k.view) (rc rp : Slot) : (clearRef rc k rp).view = View.clearOne rc k.view rp := by
  unfold clearRef
  by_cases he : k.isemptyp rp = true
  · rw [if_pos he]
    have hi := (h rp).2 he
    simp only [View.clearOne, hi.1, hi.2, Bool.false_and]
    rw [← hi.1, update_eq_self, hi.1, ← hi.2, update_eq_self]
  rw [if_neg he]
  have hp : k.view.free rp = false := by
    rw [(h rp).1]
    exact Bool.not_eq_true _ ▸ he
  set k' := k.modPriv (k.proc rp).pPriv fun r => { r with sNotifyPending := r.sNotifyPending.erase (k.proc rc).pPriv }
  have hv : k'.view = k.view := view_same_priv rfl
  have h1 := clearReceiving_view (by rwa [hv] : k'.view.free rp = false) rc ESRCDIED
  rw [clearSending_view (by rw [h1, hv]; exact hp), h1, hv]
  rfl

theorem tidy_clearOne {v : View} (h : Tidy v) (rc rp : Slot) : Tidy (View.clearOne rc v rp) := by
  intro p
  refine ⟨(h p).1, fun he => ?_⟩
  have hi := (h p).2 he
  by_cases hp : p = rp
  · subst hp
    simp [View.clearOne, hi]
  · simpa [View.clearOne, hp] using hi

theorem foldl_clearRef_view (rc : Slot) :
    ∀ (l : List Slot) (k : State), Tidy k.view → (l.foldl (clearRef rc) k).view = l.foldl (View.clearOne rc) k.view
  | [], _, _ => rfl
  | rp :: l, k, h => by
    have h1 := clearRef_view h rc rp
    rw [foldl_cons, foldl_cons, foldl_clearRef_view rc l _ (by rw [h1]; exact tidy_clearOne h rc rp), h1]

theorem unqueue_view {w : View} (hg : w.Good) {rc : Slot} (hv : k.view = w.lose rc) (hp : w.free rc = false)
    (hs : w.sending rc = true) : (k.unqueue rc).sched = k.sched ∧
    ∃ u, w.Unqueued rc u ∧ ((k.unqueue rc).clearFlag rc .sending).view = u.lose rc := by
  obtain ⟨t, ht, he⟩ := hg.sendTo rc hs
  obtain ⟨q, hq⟩ := hg.queue t ht
  obtain ⟨l, r, rfl⟩ := append_of_mem ((hq.mem rc).mpr ⟨hs, he⟩)
  have hok : k.isokendpt (k.proc rc).pSendtoE = some t := by
    have hsend : (k.proc rc).pSendtoE = w.endpoint t := by
      rw [← he]
      exact congrArg (View.sendto · rc) hv
    refine isokendpt_iff.mpr ⟨by rw [hsend, hg.endpointP, procAddr_procNr], ?_, by rw [hv, hsend]; rfl⟩
    rw [hv]
    exact (hg.free_eq t).symm.trans ht.1
  have hch : Chain k.qLink (k.proc t).pCallerQ (l ++ rc :: r) := by
    have h : Chain k.view.qLink (k.view.callerQ t) (l ++ rc :: r) := by rw [hv]; exact hq.chain
    exact h
  have hscan : scan (k.proc t).pCallerQ k.qLink (fun p => p = rc) loopFuel .head = some (Loc.after l) := by
    refine scan_head hch (fun p hpl => ?_) (fun p hpl => ?_) ?_
    · have hne : p ≠ rc := by
        rintro rfl
        have := (nodup_middle.mp hq.nodup).notMem
        exact this (mem_append_left _ hpl)
      simpa using hne
    · cases hpl
      simp
    · have := hq.length_lt
      rw [length_append] at this
      omega
  have hget : (Loc.after l).get (k.proc t).pCallerQ k.qLink = some rc := chain_head? (chain_after l hch)
  have hun : k.unqueue rc = k.storeQ t (Loc.after l) (k.qLink rc) := by
    unfold unqueue
    rw [hok]
    dsimp only
    rw [hscan]
    dsimp only
    rw [hget]
  rw [hun]
  refine ⟨by unfold storeQ; split <;> rfl, _, .inr ⟨t, l, r, hs, hq, rfl⟩, ?_⟩
  unfold clearFlag
  rw [view_clear_sending (by rw [view_storeQ, hv]; exact hp), view_storeQ]
  have hl : k.qLink rc = k.view.qLink rc := rfl
  rw [hl, hv]
  rfl

/-- The kernel panics when the process dies. -/
abbrev Vital (k : State) (rc : Slot) : Prop :=
  (k.proc rc).pEndpoint = procNr PM ∨ (k.proc rc).pEndpoint = procNr VFS ∨ (k.proc rc).pEndpoint = procNr VM

/-- The table of a system process is dropped. -/
theorem dropTable_view (k : State) (rc : Slot) : ∃ f, (∀ i, f i = k.view.asynsize i ∨ f i = 0) ∧
    (if .sysProc ∈ k.privFlags rc then k.modPriv (k.proc rc).pPriv fun r => { r with sAsynsize := 0 } else k).view =
    k.view.dropTables f := by
  split_ifs with h
  · refine ⟨update k.view.asynsize (k.proc rc).pPriv 0, fun i => ?_, view_asynsize _ _⟩
    by_cases hi : i = (k.proc rc).pPriv
    · exact .inr (by rw [hi, update_self])
    · exact .inl (update_of_ne hi _ _)
  · exact ⟨_, fun _ => .inl rfl, rfl⟩

/-- The process is dead. -/
theorem clearEndpoint_dies (hg : k.view.Good) {rc : Slot} (he : k.isemptyp rc = false)
    (hpm : ¬ k.Vital rc) : k.view.Dies rc (k.clearEndpoint rc).view := by
  unfold clearEndpoint
  rw [if_neg (by simp [he]), if_neg hpm]
  dsimp only
  have hp : k.view.free rc = false := (hg.free_eq rc).trans he
  have hv1 : (k.rtsSet rc {.noEndpoint}).view = k.view.lose rc := view_rtsSet_noEndpoint hp
  set k1 := k.rtsSet rc {.noEndpoint}
  set k2 := if .sysProc ∈ k1.privFlags rc then k1.modPriv (k1.proc rc).pPriv fun r => { r with sAsynsize := 0 } else k1
  obtain ⟨f, hf, hv2⟩ : ∃ f, (∀ i, f i = k.view.asynsize i ∨ f i = 0) ∧ k2.view = (k.view.dropTables f).lose rc := by
    obtain ⟨f, hf, hv⟩ := dropTable_view k1 rc
    rw [hv1] at hf hv
    exact ⟨f, hf, hv⟩
  set w := k.view.dropTables f
  have hgw : w.Good := hg.eases (.dropTables _ f)
  have hpw : w.free rc = false := hp
  set k3 := if k2.rtsIsset rc .sending then (k2.unqueue rc).clearFlag rc .sending else k2
  -- it leaves the queue it is in
  obtain ⟨u, hu, hv3⟩ : ∃ u, w.Unqueued rc u ∧ k3.view = u.lose rc := by
    have hsv : k2.rtsIsset rc .sending = w.sending rc := congrArg (View.sending · rc) hv2
    by_cases h : k2.rtsIsset rc .sending = true
    · rw [show k3 = _ from if_pos h]
      exact (unqueue_view hgw hv2 hpw (hsv ▸ h)).2
    · rw [show k3 = k2 from if_neg h]
      refine ⟨w, .inl ⟨?_, rfl⟩, hv2⟩
      rw [← hsv]
      simpa using h
  have hgu := (hu.good hgw).1
  have hpu : u.free rc = false := by
    rcases hu with ⟨_, rfl⟩ | ⟨t, l, r, _, _, rfl⟩
    · exact hpw
    · exact hpw
  have hv4 : (k3.clearFlag rc .receiving).view = (u.unrecv rc).lose rc := by
    unfold clearFlag
    rw [view_clear_receiving (by rw [hv3]; exact hpu), hv3]
    rfl
  -- and no one waits for it
  have htidy : Tidy (k3.clearFlag rc .receiving).view := by
    intro p
    rw [hv4]
    refine ⟨hgu.free_eq p, fun h => ?_⟩
    have hl : ¬ u.live p := fun hl => by
      have hf : u.free p = true := (hgu.free_eq p).trans h
      rw [hl.1] at hf
      cases hf
    have hi := hgu.idle p hl
    refine ⟨hi.1, ?_⟩
    simp only [View.lose, View.unrecv, update_apply]
    split
    · rfl
    · exact hi.2
  refine ⟨f, u, hf, hu, ?_⟩
  rw [foldl_clearRef_view rc _ _ htidy, View.foldl_clearOne_all, hv4]
  rfl

/-- `clear_endpoint` panics, or the process is dead. -/
theorem clearEndpoint_view (hg : k.view.Good) (rc : Slot) :
    k.clearEndpoint rc = k.halt ∨ k.view.Dies rc (k.clearEndpoint rc).view := by
  by_cases he : k.isemptyp rc = true
  · exact .inl (if_pos he)
  by_cases hpm : k.Vital rc
  · exact .inl ((if_neg he).trans (if_pos hpm))
  · exact .inr (clearEndpoint_dies hg (Bool.not_eq_true _ ▸ he) hpm)

theorem clearEndpoint_good (hg : k.view.Good) (rc : Slot) : (k.clearEndpoint rc).view.Good := by
  rcases clearEndpoint_view hg rc with h | h
  · rw [h]
    exact hg
  · exact h.good hg

theorem view_procNr (i : PrivId) (n : Option Slot) : (k.modPriv i fun r => { r with sProcNr := n }).view =
    k.view.setProcOf (update k.view.procOf i n) := by
  simp only [State.view, modPriv, View.setProcOf]
  congr 1 <;> funext q <;> by_cases hq : q = i <;> simp [hq]

theorem rtsSetFlags_view (rc : Slot) : (k.rtsSetFlags rc {.slotFree}).view = k.view.gone rc := by
  have h : (k.rtsSetFlags rc {.slotFree}).view = (k.modProc rc fun r => { r with pRtsFlags := {.slotFree} }).view := by
    unfold rtsSetFlags
    split_ifs <;> rfl
  rw [h, view_flags fun _ => {.slotFree}]
  simp [View.gone]

theorem clearProc_view (hg : k.view.Good) (rc : Slot) :
    k.clearProc rc = k ∨ (k.clearProc rc).sched.halted = true ∧ (k.clearProc rc).view.Good ∨
      ∃ w f, k.view.Dies rc w ∧ (k.clearProc rc).view = (w.gone rc).setProcOf f := by
  unfold clearProc
  by_cases he : k.isemptyp rc = true
  · rw [if_pos he]
    exact .inl rfl
  rw [if_neg he]
  right
  dsimp only
  by_cases hh : (k.clearEndpoint rc).sched.halted = true
  · rw [if_pos hh]
    exact .inl ⟨hh, clearEndpoint_good hg rc⟩
  · rw [if_neg hh]
    rcases clearEndpoint_view hg rc with h | h
    · rw [h] at hh
      exact absurd rfl hh
    · split_ifs
      · exact .inr ⟨_, _, h, by rw [view_procNr, rtsSetFlags_view]⟩
      · exact .inr ⟨_, _, h, rtsSetFlags_view rc⟩

end State

end Minix.Kernel
