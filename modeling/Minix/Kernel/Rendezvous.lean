import Minix.Kernel.CallerQueues
import Minix.Kernel.Flows

/-!
# The rendezvous

`rendezvous_of_run`: in every run without asynchronous messages, without the death of the sender `s` or the receiver
`d`, and in which no process forks while it has callers or is sending,

* the messages of `s` that were handed to `d` are those of the calls of `s` that returned `OK`, in order, less the one
  with which `s` is still blocked, and what was handed to `d` reaches its buffer in order;
* a step releases the blocked sender `s` exactly when it hands over its message;
* of the blocked senders that a `RECEIVE` accepts, the one that blocked first is served.

`rendezvous_fork`: if a third process forks while it has callers, a message for `d` may be handed to the child.
-/

namespace Minix.Kernel

open Minix.Lib List

/-! ## The calls that were accepted -/

/-- A message was accepted by `mini_send`. -/
def Event.isCalled : Event → Bool
  | .called .. => true
  | _ => false

namespace View

variable {v w u : View} {c : Slot} {a : CallArgs} {r : Int}

/-- The accepted calls so far. -/
def calls (v : View) : List Event := v.log.filter Event.isCalled

theorem calls_append (ev : List Event) (h : w.log = v.log ++ ev) : w.calls = v.calls ++ ev.filter Event.isCalled := by
  rw [calls, h, filter_append]
  rfl

theorem Eases.calls (h : v.Eases w) : w.calls = v.calls := by
  obtain ⟨ev, hl, hn⟩ := h.log
  rw [calls_append ev hl, filter_eq_nil_iff.mpr, append_nil]
  intro e he hc
  have := hn e he
  cases e <;> cases hc
  cases this

theorem RecvRes.calls {e : Endpoint} {src : Option Slot} {io : TableIo} (h : v.RecvRes c e src io w) :
    w.calls = v.calls := by
  cases h with
  | stopped => rfl
  | whileSending => rfl
  | notified => exact (Eases.handTo v (by simp) _ _ _).calls
  | @taken p l _ _ _ _ _ _ hw =>
    rw [hw.eases.calls]
    exact (calls_append [_] rfl).trans (append_nil _)
  | asyn _ hw => exact hw.eases.calls
  | listening _ _ hw =>
    rcases hw with rfl | ⟨_, _, hw⟩
    · rfl
    · exact hw.eases.calls

theorem Received.calls (h : v.Received c a w) : w.calls = v.calls := by
  rcases h with rfl | ⟨_, _, h⟩
  · rfl
  · exact h.calls

theorem SendRes.calls {d : Slot} {data : Option Message} {nb : Bool} (h : v.SendRes c d data nb r w) :
    (r ≠ OK ∧ w.calls = v.calls) ∨
      (r = OK ∧ v.live d ∧ ∃ m, data = some m ∧ w.calls = v.calls ++ [.called c d m]) := by
  cases h with
  | failed hr => exact .inl ⟨hr, rfl⟩
  | @direct m hm hd _ =>
    exact .inr ⟨rfl, hd, m, hm, calls_append [.called c d m, .handed ..] (append_assoc ..)⟩
  | @queued m _ hm _ hd _ _ => exact .inr ⟨rfl, hd, m, hm, calls_append [.called c d m] rfl⟩

/-- What is known of the accepted calls after a call of `c` that ends with `r`; `deferred` when the call is traced and
performed later. -/
inductive Called (v : View) (c : Slot) (a : CallArgs) (deferred : Bool) : Int → View → Prop
  | quiet {r : Int} {w : View} (hr : a.callNr = SEND ∨ a.callNr = SENDREC → deferred = false → r ≠ OK)
      (hw : w.calls = v.calls) : Called v c a deferred r w
  | sent {d : Slot} {m : Message} {w : View} (hn : a.callNr = SEND ∨ a.callNr = SENDREC) (ht : deferred = false)
      (he : v.endpoint d = a.srcDstE) (hm : a.buf.data = some m) (hw : w.calls = v.calls ++ [.called c d m]) :
      Called v c a deferred OK w

theorem Called.refused {deferred : Bool} (hr : r ≠ OK) :
    v.Called c a deferred r v := .quiet (fun _ _ => hr) rfl

theorem Called.of_calls {deferred : Bool} (h : v.Called c a deferred r w)
    (hu : u.calls = w.calls) : v.Called c a deferred r u := by
  cases h with
  | quiet hr hw => exact .quiet hr (hu.trans hw)
  | sent hn ht he hm hw => exact .sent hn ht he hm (hu.trans hw)

theorem CallRes.calls (hg : v.Good) (h : v.CallRes c a w) (h1 : a.callNr ≠ SEND)
    (h2 : a.callNr ≠ SENDREC) (h3 : a.callNr ≠ SENDNB) : w.calls = v.calls := by
  cases h with
  | notify hw => exact hw.eases.calls
  | senda _ hk => subst hk; exact (State.miniSenda_eases hg ..).calls
  | sendnb hn => exact absurd hn h3
  | send hn => exact absurd hn h1
  | receive _ _ hw => exact hw.calls
  | sendrec hn => exact absurd hn h2

end View

namespace State

variable {k k' : State} {c : Slot} {e : Endpoint} {buf : MsgBuf} {a : CallArgs}

theorem receiveBlock_ok (c : Slot) (e : Endpoint) : (k.receiveBlock c e false).1 = OK := rfl

theorem receiveAsyn_ok (c : Slot) (e : Endpoint) (src : Option Slot) (io : TableIo) :
    (k.receiveAsyn c e src io false).1 = OK := by
  unfold receiveAsyn
  split_ifs
  · exact receiveBlock_ok c e
  · cases src with
    | none =>
      dsimp only
      split_ifs
      · rfl
      · exact receiveBlock_ok c e
    | some q =>
      dsimp only
      split_ifs
      · rfl
      · exact receiveBlock_ok c e

theorem receiveFrom_ok (c : Slot) (e : Endpoint) (src : Option Slot) (io : TableIo) :
    (k.receiveFrom c e src io false).1 = OK := by
  unfold receiveFrom
  by_cases hs : k.rtsIsset c .sending = true
  · rw [if_pos hs]
    exact receiveBlock_ok c e
  rw [if_neg hs]
  split
  · rfl
  · split
    · rfl
    · split
      · rfl
      · exact receiveAsyn_ok ..

theorem miniReceive_ok {q : Slot} (hb : buf.lin ≠ 0) (hg : k.view.Good)
    (hq : k.view.live q) (he : k.view.endpoint q = e) (io : TableIo) : (k.miniReceive c e buf io false).1 = OK := by
  unfold miniReceive
  rw [if_neg hb]
  set k' := k.modProc c fun r => { r with pDelivermsgLin := buf.lin, pDelivermsgVir := buf.vir }
  have hv : k'.view = k.view := view_same ⟨rfl, by simp, by simp⟩
  have hok : k'.isokendpt e = some q := by
    rw [isokendpt_congr hv, ← he]
    exact isokendpt_endpoint hg hq.1
  have hne : k'.rtsIsset q .noEndpoint = false := by
    rw [← hv] at hq
    simpa [State.view, rtsIsset] using hq.2
  dsimp only
  rw [hok]
  dsimp only
  rw [hne, if_neg Bool.false_ne_true]
  split_ifs
  · exact receiveFrom_ok ..
  · exact receiveFrom_ok ..

theorem miniSend_lin {nb : Bool} (h : (k.miniSend c e buf nb).1 = OK) : buf.lin ≠ 0 := by
  intro h0
  unfold miniSend at h
  rw [if_pos h0] at h
  cases h

theorem miniSend_ok {d : Slot} {m : Message} (hg : k.view.Good) (hb : buf.lin ≠ 0)
    (hm : buf.data = some m) (hd : k.view.live d) (he : k.view.endpoint d = e) : (k.miniSend c e buf false).1 = OK := by
  have hok := isokendpt_endpoint hg hd.1
  rw [he] at hok
  have hne : k.rtsIsset d .noEndpoint = false := by simpa [State.view, rtsIsset] using hd.2
  unfold miniSend
  rw [if_neg hb, (isokendpt_iff.mp hok).1]
  dsimp only
  rw [hne, hm, if_neg Bool.false_ne_true]
  dsimp only
  split_ifs with h1 h2
  · rfl
  · cases h2
  · split <;> rfl

/-- `SEND` and `SENDREC` return `OK` if and only if the message was accepted. -/
theorem performCall_called (hg : k.view.Good) {d : Slot} (hc : k.view.Ready c)
    (hn : a.callNr = SEND ∨ a.callNr = SENDREC) (hd : k.isokendpt a.srcDstE = some d) :
    k.view.Called c a false (k.performCall c a).1 (k.performCall c a).2.view := by
  have he := (isokendpt_some hd).2
  unfold performCall
  rcases hn with h1 | h1
  · rw [if_neg (by rw [h1]; decide), if_pos h1]
    rcases (miniSend_view hg hc.1 hd a.buf false).calls with ⟨h2, h3⟩ | ⟨h2, _, m, h3, h4⟩
    · exact .quiet (fun _ _ => h2) h3
    · rw [h2]
      exact .sent (.inl h1) rfl he h3 h4
  · rw [if_pos h1]
    have hs := miniSend_ask hg hc.1 hd a.buf
    dsimp only
    rcases hs.calls with ⟨h2, h3⟩ | ⟨h2, hl, m, h3, h4⟩
    · rw [if_pos h2]
      exact .quiet (fun _ _ => h2) h3
    · rw [if_neg (not_not.mpr h2)]
      -- the buffer and the endpoint were checked by `mini_send`, so the receive part cannot fail
      have hg' := hs.good hg hc.1 hc.2.1 hc.2.2
      have hl' := (hs.sameSlots.live d).mpr hl
      have he' := (congrFun hs.sameSlots.endpoint d).trans he
      rw [miniReceive_ok (miniSend_lin h2) hg' hl' he']
      refine .sent (.inr h1) rfl he h3 ?_
      rw [← h4]
      have hd' := isokendpt_endpoint hg' hl'.1
      rw [he'] at hd'
      exact View.Received.calls (miniReceive_view hg' ((hs.sameSlots.live c).mpr hc.1) (.inr ⟨d, hd'⟩) a.buf a.io)

theorem checkedCall_called (hg : k.view.Good) (hc : k.view.Ready c)
    (hn : a.callNr = SEND ∨ a.callNr = SENDREC) (hh : (k.checkedCall c a).2.sched.halted = false) :
    k.view.Called c a false (k.checkedCall c a).1 (k.checkedCall c a).2.view := by
  rcases k.checkedCall_cases c a with ⟨r, hr, h⟩ | h | ⟨h, hd, -⟩
  · rw [h]
    exact .refused hr
  · rw [h] at hh
    cases hh
  · rw [h]
    rcases hd with h | ⟨h, -⟩ | ⟨d, hd⟩
    · rcases hn with h' | h' <;> rw [h'] at h <;> exact absurd h (by decide)
    · rcases hn with h' | h' <;> rw [h'] at h <;> exact absurd h (by decide)
    · exact performCall_called hg hc hn hd

theorem sysCall_called (hg : k.view.Good) (hc : k.view.Ready c) (ha : a.callNr ≠ SENDNB)
    (hh : (k.sysCall c a).2.sched.halted = false) :
    k.view.Called c a (k.mf c .scTrace && !k.mf c .scDefer) (k.sysCall c a).1 (k.sysCall c a).2.view := by
  by_cases hn : a.callNr = SEND ∨ a.callNr = SENDREC
  · unfold sysCall at hh ⊢
    split_ifs at hh ⊢ with h1 h2
    · refine .quiet (fun _ h => ?_) (causeSig_view (view_same ⟨rfl, by simp, by simp⟩) hg hc.1.1 SIGTRAP).eases.calls
      rw [h1] at h
      cases h
    · set k' := k.modProc c fun r => { r with pMiscFlags := r.pMiscFlags \ {.scDefer} ∪ {.scActive} }
      have hv : k'.view = k.view := view_same ⟨rfl, by simp, by simp⟩
      have := checkedCall_called (by rwa [hv]) (by rwa [hv]) hn hh
      rw [hv] at this
      rwa [Bool.eq_false_iff.mpr h1]
    · rw [Bool.eq_false_iff.mpr h1]
      exact checkedCall_called hg hc hn hh
  · obtain ⟨h1, h2⟩ := not_or.mp hn
    exact .quiet (fun h => absurd h hn) ((sysCall_view hg hc.1 hc.2.1 hc.2.2 a).calls hg h1 h2 ha)

end State

/-! ## The calls of a sender -/

namespace Event

theorem filterMap_sent (s d : Slot) (e : Endpoint) (l : List Event) :
    l.filterMap (sent s d e) = (l.filter isCalled).filterMap (sent s d e) := by
  rw [filterMap_filter]
  congr 1
  funext x
  cases x <;> rfl

end Event

namespace View

variable {v w u : View} {s d : Slot}

/-- The messages for `d` of the accepted calls of `s`. -/
def sent (v : View) (s d : Slot) : List Message := v.log.filterMap (Event.sent s d (v.endpoint s))

theorem sent_of_calls (he : w.endpoint s = v.endpoint s) (ev : List Event) (h : w.calls = v.calls ++ ev) :
    w.sent s d = v.sent s d ++ ev.filterMap (Event.sent s d (v.endpoint s)) := by
  unfold sent
  rw [Event.filterMap_sent, Event.filterMap_sent s d _ v.log, he, ← filterMap_append]
  exact congrArg _ h

theorem sent_same (he : w.endpoint s = v.endpoint s) (h : w.calls = v.calls) : w.sent s d = v.sent s d := by
  have := sent_of_calls (d := d) he [] (by rw [h, append_nil])
  simpa using this

theorem Dies.log {rc : Slot} (h : v.Dies rc w) : w.log = v.log := by
  obtain ⟨f, v2, _, hu, rfl⟩ := h
  rcases hu with ⟨_, rfl⟩ | ⟨t, l, r, _, _, rfl⟩ <;> rfl

theorem StepRes.calls {o : Op} (h : v.StepRes o w) (ho : o.caller = none) : w.calls = v.calls := by
  cases h with
  | call => cases ho
  | resume => cases ho
  | notify hw => exact hw.eases.calls
  | noReply => rfl
  | reply => cases ho
  | noExit => rfl
  | exit _ hw => exact congrArg (List.filter _) hw.log
  | signal hw => exact hw.eases.calls
  | kill _ _ hw hu => exact (congrArg (List.filter _) hu.log).trans hw.eases.calls
  | noFork => rfl
  | fork => rfl

end View

namespace State

variable {k k' : State} {a : CallArgs}

/-- The message of a call from `s` to `d` that returned `OK`, with the sender's endpoint in it. -/
def okSend (s d : Slot) (a : CallArgs) (k' : State) : List Message :=
  if (a.callNr = SEND ∨ a.callNr = SENDREC) ∧ a.srcDstE = (k'.proc d).pEndpoint ∧ (k'.proc s).retreg = OK then
    (a.buf.data.map fun m => { m with mSource := (k'.proc s).pEndpoint }).toList
  else []

/-- What `s` sends to `d` in a step from `k` to `k'`: with a call that is not deferred, with a deferred call that is
performed, or with a reply of the system task. -/
def okSends (s d : Slot) (k : State) (o : Op) (k' : State) : List Message :=
  match o with
  | .call c a => if c = s ∧ k.mf s .scTrace = false then okSend s d a k' else []
  | .resume p a _ => if p = s ∧ k.mf s .delivermsg = false ∧ k.mf s .scDefer = true then okSend s d a k' else []
  | .reply q m =>
    if s = SYSTEM ∧ q = d ∧ k.willReceive d (procNr SYSTEM) then [{ m with mSource := (k'.proc s).pEndpoint }] else []
  | .notify .. | .exit .. | .kill .. | .fork .. => []

/-- A call adds its message if and only if it was performed and returned `OK`. -/
theorem sent_of_called {v : View} (hg : v.Good) {c : Slot} {deferred : Bool} {r : Int}
    (hr : (k'.proc c).retreg = r) (h : v.Called c a deferred r k'.view) (he : k'.view.endpoint = v.endpoint)
    (s d : Slot) :
    k'.view.sent s d = v.sent s d ++ if c = s ∧ deferred = false then okSend s d a k' else [] := by
  cases h with
  | quiet hn hw =>
    rw [View.sent_same (congrFun he s) hw]
    split_ifs with h
    · obtain ⟨rfl, hdef⟩ := h
      rw [okSend, if_neg, append_nil]
      rintro ⟨h1, _, h2⟩
      exact hn h1 hdef (hr.symm.trans h2)
    · rw [append_nil]
  | @sent d' m _ hn hdef hd hm hw =>
    rw [View.sent_of_calls (congrFun he s) _ hw]
    congr 1
    have hep : ∀ p, (k'.proc p).pEndpoint = v.endpoint p := fun p => congrFun he p
    by_cases hcs : c = s
    · subst hcs
      simp only [hdef, and_self, ↓reduceIte, okSend, hn, hr, and_true, true_and, hep, ← hd, hm]
      by_cases hdd : d' = d
      · subst hdd
        simp [Event.sent]
      · have hne : v.endpoint d' ≠ v.endpoint d := fun h => hdd (hg.endpoint_inj.mp h)
        simp [Event.sent, hdd, hne]
    · simp [Event.sent, hcs]

/-! ## The result of a call -/

/-- The return registers are as before, and a kernel that has halted stays so. -/
structure Mild (k k' : State) : Prop where
  retreg : ∀ p, (k'.proc p).retreg = (k.proc p).retreg
  halted : k.sched.halted = true → k'.sched.halted = true

namespace Mild

theorem refl (k : State) : k.Mild k := ⟨fun _ => rfl, id⟩

theorem trans {k'' : State} (h : k.Mild k') (h' : k'.Mild k'') : k.Mild k'' :=
  ⟨fun p => (h'.retreg p).trans (h.retreg p), fun hk => h'.halted (h.halted hk)⟩

theorem modProc (k : State) (p : Slot) {f : Proc → Proc} (hf : ∀ r, (f r).retreg = r.retreg) :
    k.Mild (k.modProc p f) := by
  refine ⟨fun q => ?_, id⟩
  by_cases hq : q = p <;> simp [State.modProc, hq, hf]

theorem pickProc_halted {pf : Slot → Finset PrivFlag} {s : Sched} (h : s.halted = true) :
    (s.pickProc pf).halted = true := by
  unfold Sched.pickProc
  split
  · rfl
  · exact h

section

variable (k)

theorem dequeue (p : Slot) : k.Mild (k.dequeue p) := by
  refine ⟨fun _ => rfl, fun h => ?_⟩
  unfold State.dequeue Sched.dequeue
  dsimp only
  split
  · rfl
  · split
    · exact h
    · split_ifs
      · exact pickProc_halted h
      · exact h

theorem enqueue (p : Slot) : k.Mild (k.enqueue p) := by
  have hsched : ∀ s : Sched, s.halted = true → (s.sched p).1.halted = true := by
    intro s h
    unfold Sched.sched
    split_ifs <;> exact h
  have hins : ∀ (s : Sched) (q : Nat) (front : Bool), s.halted = true → (s.insert p q front).halted = true := by
    intro s q front h
    unfold Sched.insert
    split
    · exact h
    · split_ifs
      · exact h
      · split
        · rfl
        · exact h
  refine ⟨fun _ => rfl, fun h => ?_⟩
  unfold State.enqueue Sched.enqueue
  dsimp only
  split_ifs
  · exact pickProc_halted (hins _ _ _ (hsched _ h))
  · exact hins _ _ _ (hsched _ h)

theorem rtsSet (p : Slot) (f : Finset RtsFlag) : k.Mild (k.rtsSet p f) := by
  unfold State.rtsSet
  split_ifs
  · exact (dequeue k p).trans (modProc _ p fun _ => rfl)
  · exact modProc k p fun _ => rfl

theorem rtsUnset (p : Slot) (f : Finset RtsFlag) : k.Mild (k.rtsUnset p f) := by
  have h : k.Mild (k.modProc p fun r => { r with pRtsFlags := r.pRtsFlags \ f }) := modProc k p fun _ => rfl
  unfold State.rtsUnset
  dsimp only
  split_ifs
  · exact h.trans (enqueue _ p)
  · exact h

theorem hand (via : Via) (s d : Slot) (m : Message) : k.Mild (k.hand via s d m) := by
  have h : k.Mild (k.queueMess (k.proc s).pEndpoint m d) := by
    unfold queueMess
    exact modProc k d fun _ => rfl
  exact ⟨h.retreg, h.halted⟩

theorem miniNotify (c : Slot) (e : Endpoint) : k.Mild (k.miniNotify c e).2 := by
  unfold State.miniNotify
  split
  · exact refl k
  · rename_i d _
    split_ifs
    · have h : k.Mild (k.buildNotifyMessage c d).2 := by
        unfold buildNotifyMessage
        split_ifs <;> exact ⟨fun _ => rfl, id⟩
      exact (h.trans (hand _ _ _ _ _)).trans (rtsUnset _ _ _)
    · exact ⟨fun _ => rfl, id⟩

theorem sigDelayDone (p : Slot) : k.Mild (k.sigDelayDone p) := by
  unfold State.sigDelayDone causeSig
  set k1 := k.modProc p fun r => { r with pMiscFlags := r.pMiscFlags \ {.sigDelay} }
  have h1 : k.Mild k1 := modProc k p fun _ => rfl
  split_ifs
  · exact ⟨h1.retreg, fun _ => rfl⟩
  · exact h1
  · dsimp only
    set k2 := k1.modProc p fun r => { r with pPending := r.pPending ||| 2 ^ SIGNDELAY }
    have h2 : k1.Mild k2 := modProc k1 p fun _ => rfl
    split_ifs
    · exact h1.trans h2
    · have h3 := (h1.trans h2).trans (rtsSet k2 p {.signaled, .sigPending})
      unfold sendSig
      split_ifs
      · exact ⟨h3.retreg, fun _ => rfl⟩
      · refine h3.trans (.trans ?_ (miniNotify _ _ _))
        exact ⟨fun _ => rfl, id⟩

end

end Mild

theorem trap_retreg (k : State) (c : Slot) (a : CallArgs) : ((k.trap c a).proc c).retreg = (k.sysCall c a).1 := by
  simp [trap, modProc]

section

variable (hg : k.view.Good)

include hg

theorem trap_called {c : Slot} (hc : k.view.Ready c) (ha : a.callNr ≠ SENDNB) (hh : (k.trap c a).sched.halted = false) :
    k.view.Called c a (k.mf c .scTrace && !k.mf c .scDefer) ((k.trap c a).proc c).retreg (k.trap c a).view := by
  have h := sysCall_called hg hc ha hh
  rw [trap_retreg]
  unfold trap
  rwa [view_same ⟨rfl, by simp, by simp⟩]

/-! ## A step adds what it sends -/

theorem sysReply_sent (hs : k.view.Ready SYSTEM) (q : Slot) (m : Message) (s d : Slot) :
    (k.sysReply q m).view.sent s d = k.view.sent s d ++ okSends s d k (.reply q m) (k.sysReply q m) := by
  by_cases hw : k.willReceive q (procNr SYSTEM) = true
  · have hl := hg.live_of_receiving (willReceive_iff.mp hw).1
    have hres := miniSend_view hg hs.1 (isokendpt_endpoint hg hl.1) ⟨0, 1, some m⟩ false
    have hok : (k.miniSend SYSTEM (k.view.endpoint q) ⟨0, 1, some m⟩ false).1 = OK :=
      miniSend_ok hg Nat.one_ne_zero rfl hl rfl
    have hk : k.sysReply q m = (k.miniSend SYSTEM (k.view.endpoint q) ⟨0, 1, some m⟩ false).2 := if_pos hw
    rcases hres.calls with ⟨h, _⟩ | ⟨_, _, m', hm, hc⟩
    · exact absurd hok h
    · cases hm
      have hep : ∀ p, ((k.sysReply q m).proc p).pEndpoint = k.view.endpoint p := by
        rw [hk]
        exact fun p => congrFun hres.sameSlots.endpoint p
      rw [hk, View.sent_of_calls (congrFun hres.sameSlots.endpoint s) _ hc, ← hk]
      congr 1
      by_cases h : s = SYSTEM ∧ q = d
      · obtain ⟨rfl, rfl⟩ := h
        simp [okSends, Event.sent, hw, hep]
      · rw [okSends, if_neg fun h' => h ⟨h'.1, h'.2.1⟩]
        have h' : ¬ (SYSTEM = s ∧ q = d) := fun h' => h ⟨h'.1.symm, h'.2⟩
        simp [Event.sent, h']
  · have hk : k.sysReply q m = k := if_neg hw
    rw [hk, okSends, if_neg, append_nil]
    rintro ⟨_, rfl, h⟩
    exact hw h

theorem round_calls {p : Slot} (hp : k.view.Ready p) (a : CallArgs) (fault : Bool)
    (h : ¬ (k.mf p .delivermsg = false ∧ k.mf p .scDefer = true)) :
    k.view.Eases (k.schedcheckRound p a fault).view := by
  unfold schedcheckRound
  by_cases h1 : k.mf p .delivermsg = true
  · rw [if_pos h1]
    rcases delivermsg_view hg hp.1.1 fault with h | h
    · exact h.eases
    · rw [h]
      exact .delivered _ p
  rw [if_neg h1, if_neg fun h2 => h ⟨Bool.eq_false_iff.mpr h1, h2⟩]
  split_ifs
  · exact .refl _
  · exact (causeSig_view (view_same ⟨rfl, by simp, by simp⟩) hg hp.1.1 SIGTRAP).eases
  · exact .of_eq (view_same ⟨rfl, by simp, by simp⟩)
  · exact .refl _

theorem round_sent {p : Slot} (hp : k.view.Ready p) (ha : a.callNr ≠ SENDNB) (fault : Bool)
    (hh : (k.schedcheckRound p a fault).sched.halted = false) (s d : Slot) :
    (k.schedcheckRound p a fault).view.sent s d =
      k.view.sent s d ++ okSends s d k (.resume p a fault) (k.schedcheckRound p a fault) := by
  by_cases h : k.mf p .delivermsg = false ∧ k.mf p .scDefer = true
  · -- the deferred call is performed, and possibly a delayed signal is caused
    have ht := trap_view hg hp a
    have hround : (k.trap p a).Mild (k.schedcheckRound p a fault) ∧
        (k.trap p a).view.Notifies SYSTEM ((k.trap p a).view.endpoint PM) (k.schedcheckRound p a fault).view := by
      unfold schedcheckRound
      rw [if_neg (by simp [h.1]), if_pos h.2]
      dsimp only
      split_ifs
      · exact ⟨.sigDelayDone _ p, sigDelayDone_view (ht.good hg hp) (by rw [(ht.sameSlots hg).free]; exact hp.1.1)⟩
      · exact ⟨.refl _, .inl rfl⟩
    have hh' : (k.trap p a).sched.halted = false :=
      Bool.eq_false_iff.mpr fun hk => by rw [hround.1.halted hk] at hh; cases hh
    have hc := trap_called hg hp ha hh'
    rw [h.2, Bool.not_true, Bool.and_false] at hc
    have hc' := hc.of_calls hround.2.eases.calls
    rw [sent_of_called hg (hround.1.retreg p) hc' (hround.2.eases.endpoint.trans (ht.sameSlots hg).endpoint)]
    congr 1
    by_cases hps : p = s
    · subst hps
      simp [okSends, h]
    · simp [okSends, hps]
  · have he := round_calls hg hp a fault h
    rw [View.sent_same (congrFun he.endpoint s) he.calls, okSends, if_neg, append_nil]
    rintro ⟨rfl, h'⟩
    exact h h'

/-- **A step adds what it sends** to the accepted messages. -/
theorem step_sent {s d : Slot} {o : Op} (hu : k.view.Undisturbed s d o) (h : k.step o = some k')
    (he : k'.view.endpoint s = k.view.endpoint s) : k'.view.sent s d = k.view.sent s d ++ okSends s d k o k' := by
  have hv := step_view hg h
  obtain ⟨hx, hh⟩ := exec_of_step h
  cases o with
  | call c a =>
    simp only [exec] at hx
    split_ifs at hx with hc
    cases hx
    simp only [Bool.and_eq_true, Bool.not_eq_true'] at hc
    have hr := ready_of_runnable hc.1.1
    have hcalled := trap_called (k := k.running c) hg hr hu.2 hh
    have hep := ((trap_view (k := k.running c) hg hr a).sameSlots hg).endpoint
    rw [sent_of_called hg rfl hcalled hep]
    have hdef : ((k.running c).mf c .scTrace && !(k.running c).mf c .scDefer) = k.mf c .scTrace := by
      change (k.mf c .scTrace && !k.mf c .scDefer) = _
      rw [hc.2, Bool.not_false, Bool.and_true]
    rw [hdef]
    congr 1
    by_cases hcs : c = s
    · subst hcs
      simp [okSends]
    · simp [okSends, hcs]
  | resume p a fault =>
    simp only [exec] at hx
    split_ifs at hx with hp
    cases hx
    exact round_sent (k := k.running p) hg (ready_of_runnable hp) hu.2 fault hh s d
  | reply q m =>
    simp only [exec] at hx
    split_ifs at hx with hs
    cases hx
    exact sysReply_sent (k := k.running SYSTEM) hg (ready_of_runnable hs) q m s d
  | notify => exact (View.sent_same he (hv.calls rfl)).trans (append_nil _).symm
  | exit => exact (View.sent_same he (hv.calls rfl)).trans (append_nil _).symm
  | kill => exact (View.sent_same he (hv.calls rfl)).trans (append_nil _).symm
  | fork => exact (View.sent_same he (hv.calls rfl)).trans (append_nil _).symm

end

end State

/-! ## The order of service -/

namespace View

variable {v w u : View} {s d q c : Slot}

/-- `p` is blocked sending to `d`. -/
def Sends (v : View) (p d : Slot) : Prop := v.sending p = true ∧ v.sendto p = v.endpoint d

theorem Source.accepts_iff (hg : v.Good) {e : Endpoint} {src : Option Slot} (h : v.Source e src) :
    Accepts src q ↔ e = ANY ∨ e = v.endpoint q := by
  rcases h with ⟨rfl, rfl⟩ | ⟨p, rfl, _, rfl⟩
  · exact iff_of_true (.inl rfl) (.inl rfl)
  · constructor
    · rintro (h | h)
      · cases h
      · cases h
        exact .inr rfl
    · rintro (h | h)
      · exact absurd h (hg.endpoint_ne_ANY p)
      · rw [hg.endpoint_inj.mp h]
        exact .inr rfl

/-- A receive by `c` from `e` serves the sender `s` that is blocked sending to `d`: it is acceptable, and called no
later than any other that is. -/
structure Serves (v : View) (c : Slot) (e : Endpoint) (s d : Slot) : Prop where
  receiver : c = d
  accepts : e = ANY ∨ e = v.endpoint s
  first : ∀ q, v.Sends q d → e = ANY ∨ e = v.endpoint q → lastCall v.log s ≤ lastCall v.log q

/-- A sender that `mini_receive` releases is served. -/
theorem RecvRes.serves (hg : v.Good) {e : Endpoint} {src : Option Slot} {io : TableIo} (hsrc : v.Source e src)
    (h : v.RecvRes c e src io w) (hs : v.Sends s d) (hs' : w.sending s = false) : v.Serves c e s d := by
  have still : w.sending = v.sending → v.Serves c e s d := by
    intro h
    rw [h, hs.1] at hs'
    cases hs'
  cases h with
  | stopped => exact still rfl
  | whileSending => exact still rfl
  | notified => exact still rfl
  | @taken p l r _ _ hl hp hn hw =>
    have hsp : s = p := by
      by_contra hne
      rw [hw.eases.sending] at hs'
      simp only [View.take, View.unlink, View.storeQ, View.unsend, View.handTo, Function.update_of_ne hne] at hs'
      rw [hs.1] at hs'
      cases hs'
    subst hsp
    have hcd : c = d := hg.endpoint_inj.mp (((hl.mem s).mp (by simp)).2.symm.trans hs.2)
    subst hcd
    refine ⟨rfl, (hsrc.accepts_iff hg).mp hp, fun q hq ha => ?_⟩
    -- the other is acceptable too, so it is not before the one that is served
    rcases mem_append.mp ((hl.mem q).mpr hq) with hm | hm
    · exact absurd ((hsrc.accepts_iff hg).mpr ha) (hn q hm)
    · rcases mem_cons.mp hm with rfl | hm
      · exact le_rfl
      · exact ((pairwise_cons.mp (pairwise_append.mp hl.order).2.1).1 q hm).le
  | asyn _ hw => exact still hw.eases.sending
  | listening _ _ hw =>
    rcases hw with rfl | ⟨_, _, hw⟩
    · exact still rfl
    · exact still hw.eases.sending

theorem Received.serves (hg : v.Good) {a : CallArgs} (h : v.Received c a w) (hs : v.Sends s d)
    (hs' : w.sending s = false) : v.Serves c a.srcDstE s d := by
  rcases h with rfl | ⟨src, hsrc, h⟩
  · rw [hs.1] at hs'
    cases hs'
  · exact h.serves hg hsrc hs hs'

theorem SendRes.others {t p : Slot} {data : Option Message} {nb : Bool} {r : Int} (h : v.SendRes c t data nb r w)
    (hp : p ≠ c) : w.sending p = v.sending p ∧ w.sendto p = v.sendto p ∧ lastCall w.log p = lastCall v.log p := by
  have hcall : ∀ m, (Event.called c t m).isCallOf p = false := fun m => decide_eq_false fun h => hp h.symm
  cases h with
  | failed => exact ⟨rfl, rfl, rfl⟩
  | direct =>
    refine ⟨rfl, rfl, ?_⟩
    simp only [View.wake, View.unrecv, View.handTo, View.record, lastCall_concat, hcall]
    rfl
  | queued =>
    simp only [View.block, View.storeQ, View.send, Function.update_of_ne hp, lastCall_concat, hcall, true_and]
    rfl

theorem SendRes.sends {t p : Slot} (hc : v.Ready c) {data : Option Message} {nb : Bool} {r : Int}
    (h : v.SendRes c t data nb r w) (hp : v.Sends p d) : w.Sends p d ∧ lastCall w.log p = lastCall v.log p := by
  have hpc : p ≠ c := by
    rintro rfl
    have := hc.2.1
    rw [hp.1] at this
    cases this
  obtain ⟨h1, h2, h3⟩ := h.others hpc
  exact ⟨⟨h1.trans hp.1, by rw [h2, hp.2, h.sameSlots.endpoint]⟩, h3⟩

theorem CallRes.serves (hg : v.Good) (hc : v.Ready c) {a : CallArgs} (h : v.CallRes c a w) (hs : v.Sends s d)
    (hs' : w.sending s = false) : (a.callNr = RECEIVE ∨ a.callNr = SENDREC) ∧ v.Serves c a.srcDstE s d := by
  have still : w.sending s = true → (a.callNr = RECEIVE ∨ a.callNr = SENDREC) ∧ v.Serves c a.srcDstE s d := by
    intro h
    rw [h] at hs'
    cases hs'
  cases h with
  | notify hw => exact still (by rw [hw.eases.sending]; exact hs.1)
  | senda _ hk => subst hk; exact still (by rw [(State.miniSenda_eases hg ..).sending]; exact hs.1)
  | sendnb _ _ hr => exact still (hr.sends hc hs).1.1
  | send _ _ _ hr => exact still (hr.sends hc hs).1.1
  | receive hn _ hw => exact ⟨.inl hn, hw.serves hg hs hs'⟩
  | sendrec hn _ _ hr hw =>
    obtain ⟨h1, h2⟩ := hr.sends hc hs
    rcases hw with ⟨_, rfl⟩ | ⟨_, hw⟩
    · exact still h1.1
    · obtain ⟨h3, h4, h5⟩ := hw.serves (hr.good hg hc.1 hc.2.1 hc.2.2) h1 hs'
      rw [hr.sameSlots.endpoint] at h4 h5
      refine ⟨.inr hn, h3, h4, fun q hq ha => ?_⟩
      obtain ⟨h6, h7⟩ := hr.sends hc hq
      rw [← h2, ← h7]
      exact h5 q h6 ha

end View

/-- The receiver and the source of a step that receives. -/
def Op.receive : Op → Option (Slot × Endpoint)
  | .call c a | .resume c a _ => if a.callNr = RECEIVE ∨ a.callNr = SENDREC then some (c, a.srcDstE) else none
  | .notify .. | .reply .. | .exit .. | .kill .. | .fork .. => none

namespace View

variable {v w u : View} {s d q : Slot}

/-- A blocked sender makes no call. -/
theorem StepRes.caller_ne {o : Op} (h : v.StepRes o w) (hs : v.sending s = true) (hw : w ≠ v) : o.caller ≠ some s := by
  have hr : ∀ c, v.Ready c → some c ≠ some s := by
    rintro c hc ⟨⟩
    have := hc.2.1
    rw [hs] at this
    cases this
  cases h with
  | call hc => exact hr _ hc
  | resume hp => exact hr _ hp
  | noReply => exact absurd rfl hw
  | reply hc => exact hr _ hc
  | notify => exact nofun
  | noExit => exact nofun
  | exit => exact nofun
  | signal => exact nofun
  | kill => exact nofun
  | noFork => exact nofun
  | fork => exact nofun

/-- The message of a blocked sender is handed over exactly when it is released. -/
theorem StepRes.released (hg : v.Good) (hc : v.Calm) {o : Op} (hu : v.Undisturbed s d o) (h : v.StepRes o w)
    (hs : v.Sends s d) : w.log.filterMap (Event.handedBy s d) = v.log.filterMap (Event.handedBy s d) ++
      if w.sending s = true then [] else v.waiting s d := by
  by_cases hwv : w = v
  · rw [hwv, if_pos hs.1, append_nil]
  obtain ⟨_, ev, hev⟩ := h.flows hg hc hu
  rw [hev.log, filterMap_append]
  congr 1
  rcases hev.others with ho | ⟨h1, h2⟩
  · exact absurd ho (h.caller_ne hs.1 hwv)
  have hm := hev.rendezvous
  rw [h1, Moves, append_nil] at hm
  split_ifs with hw
  · have hlen := congrArg List.length hm
    have hw' : (w.waiting s d).length = 1 := by
      simp [waiting, hw, (h2 hw).2, hs.2, hev.endpoint.2]
    have hv' : (v.waiting s d).length = 1 := by simp [waiting, hs.1, hs.2]
    rw [length_append, hw', hv'] at hlen
    exact eq_nil_of_length_eq_zero (by omega)
  · rw [hm, waiting_of_not_sending (Bool.eq_false_iff.mpr hw), append_nil]

theorem Eases.handedBy (h : v.Eases w) :
    w.log.filterMap (Event.handedBy s d) = v.log.filterMap (Event.handedBy s d) := by
  obtain ⟨ev, hl, hn⟩ := h.log
  have hnil : ev.filterMap (Event.handedBy s d) = [] := by
    refine filterMap_eq_nil_iff.mpr fun e he => ?_
    have := hn e he
    cases e with
    | handed via =>
      cases via with
      | send => cases this
      | notify => rfl
      | asyn => rfl
    | _ => rfl
  rw [hl, filterMap_append, hnil, append_nil]

/-- A step that releases a blocked sender is a receive that serves it. -/
theorem StepRes.serves (hg : v.Good) (hc : v.Calm) {o : Op} (hu : v.Undisturbed s d o) (h : v.StepRes o w)
    (hs : v.Sends s d) (hs' : w.sending s = false) : ∃ e, o.receive = some (d, e) ∧ v.Serves d e s d := by
  have hcall : ∀ {c : Slot} {a : CallArgs}, (a.callNr = RECEIVE ∨ a.callNr = SENDREC) ∧ v.Serves c a.srcDstE s d →
      ∃ e, (if a.callNr = RECEIVE ∨ a.callNr = SENDREC then some (c, a.srcDstE) else none) = some (d, e) ∧
        v.Serves d e s d := by
    rintro c a ⟨hn, hsv⟩
    obtain rfl := hsv.receiver
    exact ⟨a.srcDstE, if_pos hn, hsv⟩
  have still : w.sending s = true → ∃ e, o.receive = some (d, e) ∧ v.Serves d e s d := by
    intro h
    rw [h] at hs'
    cases hs'
  -- a step that hands over nothing releases nobody
  have quiet : w.log.filterMap (Event.handedBy s d) = v.log.filterMap (Event.handedBy s d) →
      ∃ e, o.receive = some (d, e) ∧ v.Serves d e s d := by
    intro hlog
    have hrel := h.released hg hc hu hs
    rw [if_neg (by rw [hs']; exact Bool.false_ne_true), hlog] at hrel
    have hnil := append_right_eq_self.mp hrel.symm
    simp [waiting, hs.1, hs.2] at hnil
  cases h with
  | call hc _ hw => exact hcall (hw.serves hg hc hs hs')
  | resume hp hw =>
    cases hw with
    | delivered => exact still hs.1
    | notify hw => exact still (by rw [hw.eases.sending]; exact hs.1)
    | called _ hw hu => exact hcall (hw.serves hg hp hs (by rw [← hu.eases.sending, hs']))
  | notify hw => exact still (by rw [hw.eases.sending]; exact hs.1)
  | noReply => exact still hs.1
  | reply hr _ hw => exact still (hw.sends hr hs).1.1
  | noExit => exact still hs.1
  | exit _ hw => exact quiet (congrArg (List.filterMap _) hw.log)
  | signal hw => exact still (by rw [hw.eases.sending]; exact hs.1)
  | kill _ _ hw hu => exact quiet ((congrArg (List.filterMap _) hu.log).trans hw.eases.handedBy)
  | noFork => exact still hs.1
  | fork => exact quiet rfl

end View

/-! ## Runs -/

namespace State

variable {k k' : State} {s d : Slot}

/-- The messages of the calls of `s` that were handed to `d`. -/
def handed (k : State) (s d : Slot) : List Message := k.log.filterMap (Event.handedBy s d)

/-- The message with which `s` is blocked sending to `d`. -/
def blockedWith (k : State) (s d : Slot) : List Message :=
  if k.SendsTo s d then [{ (k.proc s).pSendmsg with mSource := (k.proc s).pEndpoint }] else []

/-- The message for `d` that is not copied to its buffer yet. -/
def inbox (k : State) (d : Slot) : List Message :=
  if .delivermsg ∈ (k.proc d).pMiscFlags then [(k.proc d).pDelivermsg] else []

/-- The steps of the runs of interest: neither `s` nor `d` dies, nobody sends asynchronously or without blocking, and a
process that forks has no callers. -/
def Undisturbed (s d : Slot) (k : State) (o : Op) : Prop := k.view.Undisturbed s d o ∧ k.ForkOk o

/-- The rendezvous between `s` and `d` after the calls with the messages `sends` returned `OK`. -/
structure Rendezvous (s d : Slot) (sends : List Message) (k : State) : Prop where
  /-- Every message is handed over once and in order, or `s` is still blocked with it. -/
  handed : sends = k.handed s d ++ k.blockedWith s d
  /-- What is handed to `d`, by whomever, is copied to its buffer once and in order. -/
  received : k.log.filterMap (Event.handedTo d) = k.log.filterMap (Event.receivedBy d) ++ k.inbox d
  /-- A step hands over the message of the blocked sender exactly when it releases it. -/
  released : ∀ o k', k.Undisturbed s d o → k.step o = some k' → k.SendsTo s d →
    k'.handed s d = k.handed s d ++ if .sending ∈ (k'.proc s).pRtsFlags then [] else k.blockedWith s d
  /-- A blocked sender is released by a receive of `d` that accepts it, and not before another that is acceptable and
  blocked earlier. -/
  first : ∀ o k', k.Undisturbed s d o → k.step o = some k' → k.SendsTo s d → .sending ∉ (k'.proc s).pRtsFlags →
    ∃ e, o.receive = some (d, e) ∧ (e = ANY ∨ e = (k.proc s).pEndpoint) ∧
      ∀ q, k.SendsTo q d → e = ANY ∨ e = (k.proc q).pEndpoint → lastCall k.log s ≤ lastCall k.log q

/-- The invariant of a run: the channels have what went in and did not come out. -/
structure Channels (s d : Slot) (k : State) : Prop where
  good : k.view.Good
  calm : k.view.Calm
  rendezvous : k.view.sent s d = k.log.filterMap (Event.handedBy s d) ++ k.view.waiting s d
  delivery : k.log.filterMap (Event.handedTo d) = k.log.filterMap (Event.receivedBy d) ++ k.view.pending d

theorem Initial.channels (h : k.Initial) (s d : Slot) : k.Channels s d where
  good := h.good
  calm := by
    refine ⟨fun p hp => ?_, h.asynsize⟩
    rw [(h.idle p).2.2.2] at hp
    cases hp
  rendezvous := by
    rw [View.waiting_of_not_sending (h.idle s).2.2.1]
    simp [View.sent, State.view, h.log]
  delivery := by simp [View.pending, State.view, h.deliver, h.log]

/-- A step keeps the channel right, and records the call of `s` that it answers with `OK`. -/
theorem step_channels {o : Op} (h : k.Channels s d) (hu : k.Undisturbed s d o) (hs : k.step o = some k') :
    k'.Channels s d ∧ k'.view.sent s d = k.view.sent s d ++ okSends s d k o k' := by
  obtain ⟨hcalm, ev, hev⟩ := (step_view h.good hs).flows h.good h.calm hu.1
  have hsent : k'.view.sent s d = k.view.sent s d ++ ev.filterMap (Event.sent s d (k.view.endpoint s)) := by
    rw [View.sent, hev.log, filterMap_append, hev.endpoint.1]
    rfl
  refine ⟨⟨step_good h.good hu.2 hs, hcalm, ?_, ?_⟩, step_sent h.good hu.1 hs hev.endpoint.1⟩
  · change _ = k'.view.log.filterMap _ ++ _
    rw [hsent, hev.log, filterMap_append]
    exact hev.rendezvous.total h.rendezvous
  · change k'.view.log.filterMap _ = k'.view.log.filterMap _ ++ _
    rw [hev.log, filterMap_append, filterMap_append]
    exact hev.delivery.total h.delivery

theorem sends_iff {p : Slot} : k.view.Sends p d ↔ k.SendsTo p d := by simp [View.Sends, SendsTo, State.view]

theorem waiting_eq (k : State) (s d : Slot) : k.view.waiting s d = k.blockedWith s d := if_congr sends_iff rfl rfl

theorem pending_eq (k : State) (d : Slot) : k.view.pending d = k.inbox d := by simp [View.pending, inbox, State.view]

theorem sending_iff {p : Slot} : k.view.sending p = true ↔ .sending ∈ (k.proc p).pRtsFlags := by simp [State.view]

/-- **The rendezvous**, in every run without asynchronous messages and without the death of `s` or `d` in which no
process forks while it has callers or is sending. -/
theorem rendezvous_of_run {os : List Op} (s d : Slot) (h0 : k.Initial) (hok : AllOk step (Undisturbed s d) os k)
    (hr : run step os k = some k') : k'.Rendezvous s d (outputs step (okSends s d) os k) := by
  have h : k'.Channels s d :=
    run_invariant (fun _ _ _ h hu hs => (step_channels h hu hs).1) (h0.channels s d) hok hr
  have hsent := run_outputs (okSends s d) (fun k => k.view.sent s d)
    (fun _ _ _ h hu hs => step_channels h hu hs) (h0.channels s d) hok hr
  have hnil : k.view.sent s d = [] := by simp [View.sent, State.view, h0.log]
  rw [hnil, nil_append] at hsent
  refine ⟨?_, ?_, fun o k'' hu hs hsd => ?_, fun o k'' hu hs hsd hrel => ?_⟩
  · rw [← hsent, h.rendezvous, waiting_eq]
    rfl
  · rw [h.delivery, pending_eq]
  · have := (step_view h.good hs).released h.good h.calm hu.1 (sends_iff.mpr hsd)
    rw [waiting_eq, if_congr sending_iff rfl rfl] at this
    exact this
  · obtain ⟨e, ho, hsv⟩ := (step_view h.good hs).serves h.good h.calm hu.1 (sends_iff.mpr hsd)
      (Bool.eq_false_iff.mpr fun h => hrel (sending_iff.mp h))
    exact ⟨e, ho, hsv.accepts, fun q hq => hsv.first q (sends_iff.mpr hq)⟩

end State

/-! ## A run -/

instance (s d : Slot) (v : View) : ∀ o, Decidable (v.Undisturbed s d o)
  | .call _ a | .resume _ a _ => inferInstanceAs (Decidable (a.callNr ≠ SENDA ∧ a.callNr ≠ SENDNB))
  | .exit p e =>
    inferInstanceAs (Decidable (∀ rc, (if p = PM ∧ e ≠ SELF then v.endpoint rc = e else rc = p) → rc ≠ s ∧ rc ≠ d))
  | .kill e sig => inferInstanceAs (Decidable (sig = SIGKILL → e ≠ v.endpoint s ∧ e ≠ v.endpoint d))
  | .fork _ rpc _ _ => inferInstanceAs (Decidable (rpc ≠ s ∧ rpc ≠ d))
  | .notify .. | .reply .. => isTrue trivial

instance (s d : Slot) (k : State) (o : Op) : Decidable (k.Undisturbed s d o) := inferInstanceAs (Decidable (_ ∧ _))

/-- Process `c` sends the word `n`. -/
def sendWord (c : Slot) (callNr : Int) (e : Endpoint) (n : Nat) : Op :=
  .call c { callNr := callNr, srcDstE := e, buf := ⟨0, 1, some { body := n }⟩ }

/-- RS and INIT are blocked sending to VFS, which receives one message and is about to receive another; then RS sends
again. -/
def twoSenders : List Op :=
  [sendWord RS SEND (procNr VFS) 1, sendWord INIT SENDREC (procNr VFS) 2, plainCall VFS RECEIVE ANY,
    .resume VFS { callNr := 0, srcDstE := 0, buf := ⟨0, 1, none⟩ } false, sendWord RS SEND (procNr VFS) 3]

theorem rendezvous_twoSenders : ∃ k, run State.step twoSenders sixState = some k ∧
    k.Rendezvous RS VFS [{ mSource := procNr RS, body := 1 }, { mSource := procNr RS, body := 3 }] ∧
    k.handed RS VFS = [{ mSource := procNr RS, body := 1 }] ∧ k.SendsTo RS VFS ∧ k.SendsTo INIT VFS := by
  obtain ⟨k, hk, key⟩ : ∃ k, run State.step twoSenders sixState = some k ∧
      k.handed RS VFS = [{ mSource := procNr RS, body := 1 }] ∧ k.SendsTo RS VFS ∧ k.SendsTo INIT VFS := by
        decide +kernel
  have hout : outputs State.step (State.okSends RS VFS) twoSenders sixState =
      [{ mSource := procNr RS, body := 1 }, { mSource := procNr RS, body := 3 }] := by decide +kernel
  have h := State.rendezvous_of_run RS VFS sixState_initial (by decide +kernel) hk
  rw [hout] at h
  exact ⟨k, hk, h, key⟩

/-- The idle task, the system task, PM, VFS and two processes that share their privileges. -/
def twoUsers : State := startState [IDLE, SYSTEM, PM, VFS, 40, 41]

/-- A process takes the message that was handed to it. -/
def takeMessage (p : Slot) : Op := .resume p { callNr := 0, srcDstE := 0, buf := ⟨0, 1, none⟩ } false

/-- Process 41 is sending to 40 when that forks. It is served by 40 and then sends to VFS. The child, in slot 42,
receives. -/
def forkOfThird : List Op :=
  [plainCall PM RECEIVE ANY, sendWord 41 SEND (procNr 40) 1, plainCall 40 SENDREC (procNr PM), takeMessage PM,
    .fork (procNr 40) 42 false 1, plainCall PM SEND (procNr 40), plainCall PM SEND (endpoint 1 (procNr 42)),
      takeMessage 40,
    plainCall 40 RECEIVE ANY, sendWord 41 SEND (procNr VFS) 2, takeMessage 42, plainCall 42 RECEIVE ANY]

/-- The message of 41 for VFS is handed to the child of 40. Neither 41 nor VFS forked or died. -/
theorem rendezvous_fork : twoUsers.Initial ∧
    AllOk State.step (fun k o => k.view.Undisturbed 41 VFS o) forkOfThird twoUsers ∧
    ∃ k, run State.step forkOfThird twoUsers = some k ∧
      k.handed 41 42 = [{ mSource := procNr 41, body := 2 }] ∧ k.handed 41 VFS = [] ∧ ¬ k.SendsTo 41 VFS ∧
      outputs State.step (State.okSends 41 VFS) forkOfThird twoUsers = [{ mSource := procNr 41, body := 2 }] ∧
      ¬ k.Rendezvous 41 VFS (outputs State.step (State.okSends 41 VFS) forkOfThird twoUsers) := by
  have h0 : twoUsers.Initial := by
    constructor <;> decide +kernel
  obtain ⟨k, hk, h1, h2, h3⟩ : ∃ k, run State.step forkOfThird twoUsers = some k ∧
      k.handed 41 42 = [{ mSource := procNr 41, body := 2 }] ∧ k.handed 41 VFS = [] ∧ ¬ k.SendsTo 41 VFS := by
        decide +kernel
  have hout : outputs State.step (State.okSends 41 VFS) forkOfThird twoUsers =
      [{ mSource := procNr 41, body := 2 }] := by
    decide +kernel
  refine ⟨h0, by decide +kernel, k, hk, h1, h2, h3, hout, fun h => ?_⟩
  have := h.handed
  rw [hout, h2, State.blockedWith, if_neg h3] at this
  cases this

end Minix.Kernel
