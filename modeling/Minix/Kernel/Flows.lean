import Minix.Kernel.Steps
import Minix.Lib.Channel

/-!
# The channels between two processes

For a sender `s` and a receiver `d` the kernel is a pair of channels: the messages of the calls of `s` wait in
`p_sendmsg` of `s` until they are handed over, and the messages handed to `d` wait in `p_delivermsg` of `d` until `d`
runs. `View.Flows` is what happens to both, and `StepRes.flows` says that every step keeps to it, if neither `s` nor `d`
dies and nobody sends asynchronously.
-/

namespace Minix.Kernel

open Minix.Lib Function List

/-! ## Events of the two channels -/

namespace Event

/-- The message of an accepted call from `s`, with endpoint `e`, to `d`. -/
def sent (s d : Slot) (e : Endpoint) : Event → Option Message
  | .called s' d' m => if s' = s ∧ d' = d then some { m with mSource := e } else none
  | _ => none

/-- The message of a call from `s` that was handed to `d`. -/
def handedBy (s d : Slot) : Event → Option Message
  | .handed .send s' d' m => if s' = s ∧ d' = d then some m else none
  | _ => none

/-- Any message that was handed to `d`. -/
def handedTo (d : Slot) : Event → Option Message
  | .handed _ _ d' m => if d' = d then some m else none
  | _ => none

/-- The message that was copied to the buffer of `d`. -/
def receivedBy (d : Slot) : Event → Option Message
  | .received d' m => if d' = d then some m else none
  | _ => none

end Event

namespace View

variable {v w u : View} {s d p q : Slot} {c : Option Slot} {m : Message}

/-- The message with which `s` is blocked sending to `d`. -/
def waiting (v : View) (s d : Slot) : List Message :=
  if v.sending s = true ∧ v.sendto s = v.endpoint d then [{ v.sendmsg s with mSource := v.endpoint s }] else []

/-- The message for `d` that is not copied to its buffer yet. -/
def pending (v : View) (d : Slot) : List Message := if v.deliver d = true then [v.delivermsg d] else []

/-- What a step does to the channels between `s` and `d`, when `c` is the process that makes a call. -/
structure Flows (s d : Slot) (c : Option Slot) (v w : View) (ev : List Event) : Prop where
  endpoint : w.endpoint s = v.endpoint s ∧ w.endpoint d = v.endpoint d
  log : w.log = v.log ++ ev
  rendezvous : Moves (v.waiting s d) (ev.filterMap (Event.sent s d (v.endpoint s))) (ev.filterMap (Event.handedBy s d))
    (w.waiting s d)
  delivery : Moves (v.pending d) (ev.filterMap (Event.handedTo d)) (ev.filterMap (Event.receivedBy d)) (w.pending d)
  others : c = some s ∨ (ev.filterMap (Event.sent s d (v.endpoint s)) = [] ∧
    (w.sending s = true → v.sending s = true ∧ w.sendto s = v.sendto s))

theorem Flows.trans {ev ev' : List Event} (h : Flows s d c v w ev) (h' : Flows s d c w u ev') :
    Flows s d c v u (ev ++ ev') where
  endpoint := ⟨h'.endpoint.1.trans h.endpoint.1, h'.endpoint.2.trans h.endpoint.2⟩
  log := by rw [h'.log, h.log, append_assoc]
  rendezvous := by
    have := h.rendezvous.trans h'.rendezvous
    rwa [h.endpoint.1, ← filterMap_append, ← filterMap_append] at this
  delivery := by
    have := h.delivery.trans h'.delivery
    rwa [← filterMap_append, ← filterMap_append] at this
  others := by
    rcases h.others with hc | ⟨h1, h2⟩
    · exact .inl hc
    rcases h'.others with hc | ⟨h3, h4⟩
    · exact .inl hc
    rw [h.endpoint.1] at h3
    refine .inr ⟨by rw [filterMap_append, h1, h3]; rfl, fun hs => ?_⟩
    obtain ⟨h5, h6⟩ := h4 hs
    exact ⟨(h2 h5).1, h6.trans (h2 h5).2⟩

/-- The columns that only sends, messages and forks change. -/
def chan (v : View) :
    (Slot → Endpoint) × (Slot → Endpoint) × (Slot → Message) × (Slot → Bool) × (Slot → Message) × List Event :=
  (v.endpoint, v.sendto, v.sendmsg, v.deliver, v.delivermsg, v.log)

/-- No message is moved, and `s` is released only if it is not sending to `d`. -/
theorem Flows.released (hch : w.chan = v.chan) (hs : w.sending s = true → v.sending s = true)
    (hd : v.sendto s = v.endpoint d → w.sending s = v.sending s) : Flows s d c v w [] := by
  obtain ⟨h1, h2, h3, h4, h5, h6⟩ : w.endpoint = v.endpoint ∧ w.sendto = v.sendto ∧ w.sendmsg = v.sendmsg ∧
      w.deliver = v.deliver ∧ w.delivermsg = v.delivermsg ∧ w.log = v.log := by simpa [chan] using hch
  have hwait : w.waiting s d = v.waiting s d := by
    unfold waiting
    rw [h1, h2, h3]
    by_cases he : v.sendto s = v.endpoint d
    · rw [hd he]
    · simp [he]
  refine ⟨by simp [h1], by rw [h6, append_nil], ?_, ?_, .inr ⟨rfl, fun h => ⟨hs h, by rw [h2]⟩⟩⟩
  · rw [hwait]
    exact .refl _
  · rw [show w.pending d = v.pending d by unfold pending; rw [h4, h5]]
    exact .refl _

theorem Flows.quiet (hch : w.chan = v.chan) (hs : w.sending = v.sending) : Flows s d c v w [] :=
  .released hch (fun h => by rwa [hs] at h) fun _ => by rw [hs]

/-- No process waits for a message while it has one, and there are no tables of asynchronous messages. -/
structure Calm (v : View) : Prop where
  inbox : v.Inbox
  noTables : ∀ i, v.asynsize i = 0

/-! ## Handing a message over -/

theorem pending_handTo {via : Via} (hq : v.deliver q = false) :
    Moves (v.pending d) ([Event.handed via p q { m with mSource := v.endpoint p }].filterMap (Event.handedTo d)) []
      ((v.handTo via p q m).pending d) := by
  by_cases hqd : q = d
  · subst hqd
    simp [Moves, pending, View.handTo, Event.handedTo, hq]
  · have hdq : d ≠ q := fun e => hqd e.symm
    simp [Moves, pending, View.handTo, Event.handedTo, hqd, hdq]

theorem Flows.notify (hq : v.deliver q = false) :
    Flows s d c v (v.handTo .notify p q m) [.handed .notify p q { m with mSource := v.endpoint p }] where
  endpoint := ⟨rfl, rfl⟩
  log := rfl
  rendezvous := .refl _
  delivery := pending_handTo hq
  others := .inr ⟨rfl, fun hs => ⟨hs, rfl⟩⟩

theorem Calm.wake (h : v.Calm) {via : Via} : (v.wake via p q m).Calm :=
  ⟨h.inbox.wake, h.noTables⟩

theorem Notifies.flows (h : v.Calm) {p : Slot} {e : Endpoint} (hn : v.Notifies p e w) (c : Option Slot) : w.Calm ∧
    ∃ ev, Flows s d c v w ev := by
  rcases hn with rfl | ⟨q, m, -, hw, rfl⟩
  · exact ⟨h, [], .quiet rfl rfl⟩
  · refine ⟨h.wake, _, (Flows.notify (h.inbox q hw.1)).trans (.quiet rfl rfl)⟩

theorem waiting_of_not_sending (hs : v.sending s = false) : v.waiting s d = [] := by simp [waiting, hs]

theorem SendRes.flows (hg : v.Good) (h : v.Calm) {c : Slot} (hc : v.Ready c) {data : Option Message}
    {nb : Bool} {r : Int}
    (hs : v.SendRes c q data nb r w) : w.Calm ∧ ∃ ev, Flows s d (some c) v w ev := by
  cases hs with
  | failed => exact ⟨h, [], .quiet rfl rfl⟩
  | @direct m _ _ hw =>
    have hq := h.inbox q hw.1
    have hr : (v.record (.called c q m)).Calm := ⟨h.inbox, h.noTables⟩
    refine ⟨hr.wake, [.called c q m, .handed .send c q { m with mSource := v.endpoint c }], ⟨rfl, rfl⟩, ?_, ?_, ?_, ?_⟩
    · simp [View.wake, View.unrecv, View.handTo, View.record]
    · -- the message goes in and comes out
      by_cases hcq : c = s ∧ q = d
      · obtain ⟨rfl, rfl⟩ := hcq
        simp [Moves, filterMap_cons, Event.sent, Event.handedBy, waiting, View.wake, View.unrecv, View.handTo,
          View.record, hc.2.1]
      · simp [Moves, filterMap_cons, Event.sent, Event.handedBy, waiting, View.wake, View.unrecv, View.handTo,
          View.record, hcq]
    · exact pending_handTo hq
    · by_cases hcs : c = s
      · exact .inl (by rw [hcs])
      · exact .inr ⟨by simp [filterMap_cons, Event.sent, hcs], fun hs => ⟨hs, rfl⟩⟩
  | @queued m l _ _ _ _ _ =>
    refine ⟨⟨h.inbox, h.noTables⟩, [.called c q m], ⟨rfl, rfl⟩, rfl, ?_, .refl _, ?_⟩
    · by_cases hcs : c = s
      · subst hcs
        by_cases hqd : q = d
        · subst hqd
          simp [Moves, Event.sent, Event.handedBy, waiting, View.block, View.storeQ, View.send, hc.2.1]
        · have hne : v.endpoint q ≠ v.endpoint d := fun e => hqd (hg.endpoint_inj.mp e)
          simp [Moves, Event.sent, Event.handedBy, waiting, View.block, View.storeQ, View.send, hc.2.1, hqd, hne]
      · have hsc : s ≠ c := fun e => hcs e.symm
        simp [Moves, Event.sent, Event.handedBy, waiting, View.block, View.storeQ, View.send, hcs, hsc]
    · by_cases hcs : c = s
      · exact .inl (by rw [hcs])
      · have hsc : s ≠ c := fun e => hcs e.symm
        refine .inr ⟨by simp [Event.sent, hcs], fun hs => ?_⟩
        simp only [View.block, View.storeQ, View.send, update_of_ne hsc] at hs ⊢
        exact ⟨hs, trivial⟩

end View

/-! ## Receiving -/

namespace View

variable {v w u : View} {s d c p : Slot} {a : CallArgs}

theorem TableRes.noTables (h : ∀ i, v.asynsize i = 0) {io : TableIo} {pp pp' : Bool} {r : Int}
    (ht : v.TableRes s c io pp r pp' w) : r ≠ OK ∧ w = v := by
  rcases ht with ⟨-, rfl, -, rfl⟩ | ⟨hb, -⟩
  · exact ⟨show EAGAIN ≠ OK by decide, rfl⟩
  · exact absurd (.inr (.inl (h _))) hb

theorem Search.noTables (h : ∀ i, v.asynsize i = 0) {io : TableIo} {is : List PrivId} {pp : Bool} {r : Int}
    (hs : Search c io is pp v r w) : r ≠ OK ∧ ∃ f, w = { v with asyn := f } := by
  induction hs with
  | nothing => exact ⟨show ESRCH ≠ OK by decide, _, rfl⟩
  | postponed => exact ⟨show ESRCH ≠ OK by decide, _, rfl⟩
  | skip _ _ ih => exact ih h
  | found _ ht => exact absurd rfl (ht.noTables h).1
  | next _ ht _ _ ih =>
    obtain ⟨-, rfl⟩ := ht.noTables h
    exact ih h

theorem AsynOut.noTables (h : ∀ i, v.asynsize i = 0) {src : Option Slot} {io : TableIo} {r : Int}
    (ha : v.AsynOut c src io r w) : r ≠ OK ∧ ∃ f, w = { v with asyn := f } := by
  cases src with
  | some q =>
    obtain ⟨pp, ha⟩ := ha
    obtain ⟨hr, rfl⟩ := ha.noTables h
    exact ⟨hr, _, rfl⟩
  | none => exact Search.noTables h ha

theorem Calm.listen (h : v.Calm) (hc : v.deliver c = false) (e : Endpoint) : (v.listen c e).Calm :=
  ⟨h.inbox.listen hc e, h.noTables⟩

theorem Calm.handTo (h : v.Calm) {via : Via} {m : Message} (hc : v.receiving c = false) :
    (v.handTo via p c m).Calm :=
  ⟨h.inbox.handTo hc, h.noTables⟩

theorem Flows.listen {c : Option Slot} {e : Endpoint} : Flows s d c v (v.listen p e) [] where
  endpoint := ⟨rfl, rfl⟩
  log := (append_nil _).symm
  rendezvous := .refl _
  delivery := .refl _
  others := .inr ⟨rfl, fun hs => ⟨hs, rfl⟩⟩

theorem Flows.take (hg : v.Good) (hp : v.sending p = true) (hpc : v.sendto p = v.endpoint c)
    (hc : v.deliver c = false) (x : Loc Slot) :
    Flows s d (some c) v (v.take c p x) [.handed .send p c { v.sendmsg p with mSource := v.endpoint p }] where
  endpoint := ⟨rfl, rfl⟩
  log := rfl
  rendezvous := by
    by_cases hps : p = s
    · subst hps
      by_cases hcd : c = d
      · subst hcd
        simp [Moves, Event.sent, Event.handedBy, waiting, View.take, View.unlink, View.storeQ, View.unsend,
          View.handTo, hp,
          hpc]
      · have hne : v.endpoint c ≠ v.endpoint d := fun e => hcd (hg.endpoint_inj.mp e)
        simp [Moves, Event.sent, Event.handedBy, waiting, View.take, View.unlink, View.storeQ, View.unsend,
          View.handTo, hcd,
          hpc, hne]
    · have hsp : s ≠ p := fun e => hps e.symm
      simp [Moves, Event.sent, Event.handedBy, waiting, View.take, View.unlink, View.storeQ, View.unsend,
        View.handTo, hps,
        hsp]
  delivery := pending_handTo hc
  others := by
    refine .inr ⟨rfl, fun hs => ?_⟩
    simp only [View.take, View.unlink, View.storeQ, View.unsend, View.handTo, update_apply] at hs ⊢
    split at hs
    · cases hs
    · exact ⟨hs, trivial⟩

theorem RecvRes.flows (hg : v.Good) (h : v.Calm) {e : Endpoint} {src : Option Slot} {io : TableIo}
    (hd : v.deliver c = false) (hr : v.receiving c = false) (hw : v.RecvRes c e src io w) :
    w.Calm ∧ ∃ ev, Flows s d (some c) v w ev := by
  cases hw with
  | stopped => exact ⟨h, [], .quiet rfl rfl⟩
  | whileSending => exact ⟨h.listen hd e, [], .listen⟩
  | notified => exact ⟨h.handTo hr, _, .notify hd⟩
  | @taken p l r _ _ hq _ _ hw =>
    obtain ⟨hp, hpc⟩ := (hq.mem p).mp (by simp)
    have hc : (v.handTo .send p c (v.sendmsg p)).Calm := h.handTo hr
    have hc : (v.take c p (Loc.after l)).Calm := ⟨hc.inbox, hc.noTables⟩
    obtain ⟨hc', ev, hev⟩ := hw.flows hc (some c)
    exact ⟨hc', _, (Flows.take hg hp hpc hd _).trans hev⟩
  | asyn _ hw => exact absurd rfl (hw.noTables h.noTables).1
  | listening _ _ hw =>
    rcases hw with rfl | ⟨r, _, hw⟩
    · exact ⟨h.listen hd e, [], .listen⟩
    · obtain ⟨_, f, rfl⟩ := hw.noTables h.noTables
      have hv : View.Calm { v with asyn := f } := ⟨h.inbox, h.noTables⟩
      exact ⟨hv.listen hd e, _, .trans (w := { v with asyn := f }) (.quiet rfl rfl) .listen⟩

/-! ## System calls and steps -/

theorem Received.flows (hg : v.Good) (h : v.Calm) (hd : v.deliver c = false)
    (hr : v.receiving c = false) (hw : v.Received c a w) : w.Calm ∧ ∃ ev, Flows s d (some c) v w ev := by
  rcases hw with rfl | ⟨src, _, hw⟩
  · exact ⟨h, [], .quiet rfl rfl⟩
  · exact hw.flows hg h hd hr

theorem CallRes.flows (hg : v.Good) (h : v.Calm) (hc : v.Ready c) (hd : v.deliver c = false)
    (ha : a.callNr ≠ SENDA) (hw : v.CallRes c a w) : w.Calm ∧ ∃ ev, Flows s d (some c) v w ev := by
  cases hw with
  | notify hw => exact hw.flows h (some c)
  | senda hn => exact absurd hn ha
  | sendnb _ _ hs => exact hs.flows hg h hc
  | send _ _ _ hs => exact hs.flows hg h hc
  | receive _ _ hw => exact hw.flows hg h hd hc.2.2
  | @sendrec q r w' _ _ _ _ hs hw =>
    obtain ⟨h1, ev, hev⟩ := hs.flows hg h hc
    rcases hw with ⟨_, rfl⟩ | ⟨_, hw⟩
    · exact ⟨h1, ev, hev⟩
    · obtain ⟨h2, h3⟩ := hs.self hc.2.2
      obtain ⟨h4, ev', hev'⟩ := hw.flows (hs.good hg hc.1 hc.2.1 hc.2.2) h1 (h3.trans hd) h2
      exact ⟨h4, _, hev.trans hev'⟩

theorem Flows.delivered {c : Option Slot} (hp : v.deliver p = true) :
    Flows s d c v (v.delivered p) [.received p (v.delivermsg p)] where
  endpoint := ⟨rfl, rfl⟩
  log := rfl
  rendezvous := .refl _
  delivery := by
    by_cases hpd : p = d
    · subst hpd
      simp [Moves, Event.handedTo, Event.receivedBy, pending, View.delivered, hp]
    · have hdp : d ≠ p := fun e => hpd e.symm
      simp [Moves, Event.handedTo, Event.receivedBy, pending, View.delivered, hpd, hdp]
  others := .inr ⟨rfl, fun hs => ⟨hs, rfl⟩⟩

theorem RoundRes.flows (hg : v.Good) (h : v.Calm) (hp : v.Ready p) (ha : a.callNr ≠ SENDA)
    (hw : v.RoundRes p a w) : w.Calm ∧ ∃ ev, Flows s d (some p) v w ev := by
  cases hw with
  | delivered hd =>
    refine ⟨⟨fun q hq => ?_, h.noTables⟩, _, .delivered hd⟩
    by_cases hqp : q = p
    · simp [View.delivered, hqp]
    · simp only [View.delivered, update_of_ne hqp]
      exact h.inbox q hq
  | notify hw => exact hw.flows h (some p)
  | called hd hw hu =>
    obtain ⟨h1, ev, hev⟩ := hw.flows hg h hp hd ha
    obtain ⟨h2, ev', hev'⟩ := hu.flows h1 (some p)
    exact ⟨h2, _, hev.trans hev'⟩

theorem Dies.flows (hg : v.Good) (h : v.Calm) {rc : Slot} (hs : rc ≠ s) (hd : rc ≠ d) (hw : v.Dies rc w) :
    w.Calm ∧ Flows s d none v w [] := by
  obtain ⟨f, v2, hf, hu, rfl⟩ := hw
  have hne : v.endpoint d ≠ v.endpoint rc := fun e => hd (hg.endpoint_inj.mp e).symm
  -- it leaves a queue, but it is not the sender
  obtain ⟨h1, h2, h3, h4⟩ : v2.chan = v.chan ∧ v2.sending s = v.sending s ∧ v2.receiving = v.receiving ∧
      v2.asynsize = f := by
    rcases hu with ⟨_, rfl⟩ | ⟨t, l, r, _, _, rfl⟩
    · exact ⟨rfl, rfl, rfl, rfl⟩
    · refine ⟨rfl, ?_, rfl, rfl⟩
      simp only [View.unlink, View.storeQ, View.unsend, update_of_ne hs.symm]
      rfl
  obtain ⟨he, hto, _, hdel, _⟩ : v2.endpoint = v.endpoint ∧ v2.sendto = v.sendto ∧ v2.sendmsg = v.sendmsg ∧
      v2.deliver = v.deliver ∧ v2.delivermsg = v.delivermsg ∧ v2.log = v.log := by simpa [chan] using h1
  have hsend : ((v2.unrecv rc).forget rc).sending s = (v.sending s && v.sendto s != v.endpoint rc) := by
    simp [View.forget, View.lose, View.clearAll, View.unrecv, h2, hto, he]
  refine ⟨⟨fun p hp => ?_, fun i => ?_⟩, .released h1 (fun hp => ?_) fun hp => ?_⟩
  · have hr : v.receiving p = true := by
      rw [← h3]
      simp only [View.forget, View.lose, View.clearAll, View.unrecv, Bool.and_eq_true, update_apply] at hp
      split at hp
      · cases hp.1
      · exact hp.1
    change v2.deliver p = false
    rw [hdel]
    exact h.inbox p hr
  · change v2.asynsize i = 0
    rw [h4]
    rcases hf i with hi | hi
    · rw [hi, h.noTables]
    · exact hi
  · rw [hsend, Bool.and_eq_true] at hp
    exact hp.1
  · rw [hsend, hp]
    simp [hne]

theorem Calm.gone (h : v.Calm) (rc : Slot) (f : PrivId → Option Slot) : ((v.gone rc).setProcOf f).Calm := by
  refine ⟨fun p hp => ?_, h.noTables⟩
  by_cases hrc : p = rc
  · simp [View.setProcOf, View.gone, hrc] at hp
  · simp only [View.setProcOf, View.gone, update_of_ne hrc] at hp ⊢
    exact h.inbox p hp

theorem Flows.gone {c : Option Slot} {rc : Slot} (hs : rc ≠ s) (f : PrivId → Option Slot) :
    Flows s d c v ((v.gone rc).setProcOf f) [] := by
  have he : ((v.gone rc).setProcOf f).sending s = v.sending s := by
    simp only [View.setProcOf, View.gone, update_of_ne hs.symm]
  exact .released rfl (fun h => by rwa [he] at h) fun _ => he

theorem Calm.fork (h : v.Calm) (rpp rpc : Slot) (e : Endpoint) (i : PrivId) : (v.fork rpp rpc e i).Calm := by
  refine ⟨fun p hp => ?_, h.noTables⟩
  by_cases hrc : p = rpc
  · simp only [View.fork, hrc, update_self] at hp ⊢
    exact h.inbox rpp hp
  · simp only [View.fork, update_of_ne hrc] at hp ⊢
    exact h.inbox p hp

theorem Flows.fork {c : Option Slot} {rpc : Slot} (hs : rpc ≠ s) (hd : rpc ≠ d) (rpp : Slot) (e : Endpoint)
    (i : PrivId) :
    Flows s d c v (v.fork rpp rpc e i) [] := by
  have hw : (v.fork rpp rpc e i).waiting s d = v.waiting s d := by
    simp only [waiting, View.fork, update_of_ne hs.symm, update_of_ne hd.symm]
  have hp : (v.fork rpp rpc e i).pending d = v.pending d := by
    simp only [pending, View.fork, update_of_ne hd.symm]
  refine ⟨?_, (append_nil _).symm, by rw [hw]; exact .refl _, by rw [hp]; exact .refl _, .inr ⟨rfl, ?_⟩⟩
  · simp only [View.fork, update_of_ne hs.symm, update_of_ne hd.symm, and_self]
  · simp only [View.fork, update_of_ne hs.symm]
    exact fun h => ⟨h, trivial⟩

end View

/-- The process that makes the call of a step. -/
def Op.caller : Op → Option Slot
  | .call c _ => some c
  | .resume p .. => some p
  | .reply .. => some SYSTEM
  | .notify .. | .exit .. | .kill .. | .fork .. => none

/-- The step is not the death of `s` or `d`, nobody starts to live in their slots, and nobody sends asynchronously or
without blocking. -/
def View.Undisturbed (s d : Slot) (v : View) : Op → Prop
  | .call _ a | .resume _ a _ => a.callNr ≠ SENDA ∧ a.callNr ≠ SENDNB
  | .exit p e => ∀ rc, (if p = PM ∧ e ≠ SELF then v.endpoint rc = e else rc = p) → rc ≠ s ∧ rc ≠ d
  | .kill e sig => sig = SIGKILL → e ≠ v.endpoint s ∧ e ≠ v.endpoint d
  | .fork _ rpc _ _ => rpc ≠ s ∧ rpc ≠ d
  | .notify .. | .reply .. => True

namespace View

variable {v w u : View} {s d : Slot}

/-- **What a step does to the channels.** -/
theorem StepRes.flows (hg : v.Good) (h : v.Calm) {o : Op} (hu : v.Undisturbed s d o) (hw : v.StepRes o w) :
    w.Calm ∧ ∃ ev, Flows s d o.caller v w ev := by
  cases hw with
  | call hc hd hw => exact hw.flows hg h hc hd hu.1
  | resume hp hw => exact hw.flows hg h hp hu.1
  | notify hw => exact hw.flows h none
  | noReply => exact ⟨h, [], .quiet rfl rfl⟩
  | reply hs _ hr => exact hr.flows hg h hs
  | noExit => exact ⟨h, [], .quiet rfl rfl⟩
  | @exit p rc e w f ht hw =>
    obtain ⟨h1, h2⟩ := hu rc ht
    obtain ⟨h3, h4⟩ := hw.flows hg h h1 h2
    exact ⟨h3.gone rc f, _, h4.trans (.gone h1 f)⟩
  | signal hw => exact hw.flows h none
  | @kill e sig rc w u hk he hw hd =>
    obtain ⟨h1, h2⟩ := hu hk
    obtain ⟨h3, ev, h4⟩ := hw.flows h none
    have hs : rc ≠ s := fun hs => h1 (by rw [← he, hs])
    have hd' : rc ≠ d := fun hd => h2 (by rw [← he, hd])
    obtain ⟨h5, h6⟩ := hd.flows (hg.eases hw.eases) h3 hs hd'
    exact ⟨h5, _, h4.trans h6⟩
  | noFork => exact ⟨h, [], .quiet rfl rfl⟩
  | fork => exact ⟨h.fork _ _ _ _, [], .fork hu.1 hu.2 _ _ _⟩

end View

end Minix.Kernel
