import Minix.Kernel.View

/-!
# The caller queues

`View.Good` is the invariant of message passing. Its main part is `View.IsQueue`: the list that starts at `p_caller_q`
of a live process has exactly the processes that are sending to it, once each, in the order of their calls.

The lemmas `Good.*` say that each operation that system calls are made of keeps it.
-/

namespace Minix.Kernel

open Minix.Lib Function List

/-! ## Order of arrival -/

/-- The event is an accepted send of `p`. -/
def Event.isCallOf (p : Slot) : Event → Bool
  | .called s _ _ => s = p
  | _ => false

/-- The place in the history of the last accepted send of `p`, counted from one. -/
def lastCall (log : List Event) (p : Slot) : Nat := log.length - log.reverse.findIdx (·.isCallOf p)

@[simp] theorem lastCall_concat (log : List Event) (e : Event) (p : Slot) :
    lastCall (log ++ [e]) p = if e.isCallOf p then log.length + 1 else lastCall log p := by
  unfold lastCall
  rw [reverse_append, reverse_singleton, singleton_append, findIdx_cons]
  cases e.isCallOf p <;> simp

theorem lastCall_le (log : List Event) (p : Slot) : lastCall log p ≤ log.length := Nat.sub_le _ _

/-- The event is an accepted send, or the message of a send is handed over. -/
def Event.isSend : Event → Bool
  | .called .. => true
  | .handed .send .. => true
  | _ => false

theorem Event.isCallOf_of_not_isSend {e : Event} (h : e.isSend = false) (p : Slot) : e.isCallOf p = false := by
  cases e <;> simp_all [isSend, isCallOf]

/-- The events are no sends. -/
def NoSends (ev : List Event) : Prop := ∀ e ∈ ev, e.isSend = false

theorem lastCall_append {ev : List Event} (h : NoSends ev) (log : List Event) (p : Slot) :
    lastCall (log ++ ev) p = lastCall log p := by
  induction ev using reverseRecOn with
  | nil => simp
  | append_singleton ev e ih =>
    rw [← append_assoc, lastCall_concat, Event.isCallOf_of_not_isSend (h e (by simp)) p]
    exact ih fun e he => h e (mem_append_left _ he)

/-! ## The invariant -/

namespace View

variable {v v' : View} {c d p : Slot} {l l' : List Slot}

/-- The caller queue of `d` is the list `l`: the processes sending to `d`, in the order of their calls. -/
structure IsQueue (v : View) (d : Slot) (l : List Slot) : Prop where
  chain : Chain v.qLink (v.callerQ d) l
  nodup : l.Nodup
  mem : ∀ p, p ∈ l ↔ v.sending p = true ∧ v.sendto p = v.endpoint d
  order : l.Pairwise fun p q => lastCall v.log p < lastCall v.log q

/-- The invariant of message passing. -/
structure Good (v : View) : Prop where
  free_eq : ∀ p, v.free p = v.empty p
  idle : ∀ p, ¬ v.live p → v.sending p = false ∧ v.receiving p = false
  ep : ∀ p, ∃ g, 0 ≤ g ∧ v.endpoint p = Kernel.endpoint g (procNr p)
  sendTo : ∀ p, v.sending p = true → ∃ d, v.live d ∧ v.sendto p = v.endpoint d
  recvFrom : ∀ p, v.receiving p = true → v.getfrom p ≠ ANY → ∃ d, v.live d ∧ v.getfrom p = v.endpoint d
  sendRec : ∀ p, v.sending p = true → v.receiving p = true → v.getfrom p = v.sendto p
  queue : ∀ d, v.live d → ∃ l, v.IsQueue d l

namespace Good

theorem endpointP (h : v.Good) (p : Slot) : Kernel.endpointP (v.endpoint p) = procNr p := by
  obtain ⟨g, hg, he⟩ := h.ep p
  rw [he, endpointP_endpoint hg]

theorem endpoint_inj (h : v.Good) {q : Slot} : v.endpoint p = v.endpoint q ↔ p = q := by
  constructor
  · intro he
    rw [← procNr_inj, ← h.endpointP p, ← h.endpointP q, he]
  · rintro rfl; rfl

theorem endpoint_ne_ANY (h : v.Good) (p : Slot) : v.endpoint p ≠ ANY := by
  obtain ⟨g, hg, he⟩ := h.ep p
  rw [he]
  exact Kernel.endpoint_ne_ANY hg p

theorem live_of_sending (h : v.Good) (hp : v.sending p = true) : v.live p := by
  by_contra hl
  rw [(h.idle p hl).1] at hp
  cases hp

theorem live_of_receiving (h : v.Good) (hp : v.receiving p = true) : v.live p := by
  by_contra hl
  rw [(h.idle p hl).2] at hp
  cases hp

end Good

theorem IsQueue.length_lt (h : v.IsQueue d l) : l.length < loopFuel := by
  have := h.nodup.length_le_card
  rw [Fintype.card_fin] at this
  exact Nat.lt_succ_of_le this

theorem IsQueue.disjoint (hg : v.Good) {d' : Slot} (h : v.IsQueue d l) (h' : v.IsQueue d' l')
    (hd : d ≠ d') (hp : p ∈ l) : p ∉ l' := by
  intro hp'
  have e := ((h.mem p).mp hp).2
  rw [((h'.mem p).mp hp').2] at e
  exact hd (hg.endpoint_inj.mp e.symm)

/-! ## What leaves the queues alone -/

/-- The columns that only sends, calls that block and deaths change. -/
structure Core where
  endpoint : Slot → Endpoint
  empty : Slot → Bool
  free : Slot → Bool
  noEp : Slot → Bool
  sending : Slot → Bool
  getfrom : Slot → Endpoint
  sendto : Slot → Endpoint
  callerQ : Slot → Option Slot
  qLink : Slot → Option Slot
  sendmsg : Slot → Message

/-- These columns of a view. -/
def core (v : View) : Core :=
  ⟨v.endpoint, v.empty, v.free, v.noEp, v.sending, v.getfrom, v.sendto, v.callerQ, v.qLink, v.sendmsg⟩

/-- The queues are as before and no send was accepted in between; a process may have stopped waiting for a message. -/
structure Eases (v v' : View) : Prop where
  core : v'.core = v.core
  receiving : ∀ p, v'.receiving p = true → v.receiving p = true
  log : ∃ ev, v'.log = v.log ++ ev ∧ NoSends ev

namespace Eases

section

variable (h : v.Eases v')

include h

theorem endpoint : v'.endpoint = v.endpoint := congrArg Core.endpoint h.core

theorem empty : v'.empty = v.empty := congrArg Core.empty h.core

theorem free : v'.free = v.free := congrArg Core.free h.core

theorem noEp : v'.noEp = v.noEp := congrArg Core.noEp h.core

theorem sending : v'.sending = v.sending := congrArg Core.sending h.core

theorem getfrom : v'.getfrom = v.getfrom := congrArg Core.getfrom h.core

theorem sendto : v'.sendto = v.sendto := congrArg Core.sendto h.core

theorem callerQ : v'.callerQ = v.callerQ := congrArg Core.callerQ h.core

theorem qLink : v'.qLink = v.qLink := congrArg Core.qLink h.core

end

theorem of_log (hc : v'.core = v.core) (hr : v'.receiving = v.receiving) {ev : List Event} (hl : v'.log = v.log ++ ev)
    (hn : NoSends ev) : v.Eases v' :=
  ⟨hc, fun p hp => by rwa [hr] at hp, ev, hl, hn⟩

theorem quiet (hc : v'.core = v.core) (hr : v'.receiving = v.receiving) (hl : v'.log = v.log) : v.Eases v' :=
  of_log hc hr (hl.trans (append_nil _).symm) nofun

theorem refl (v : View) : v.Eases v := quiet rfl rfl rfl

theorem of_eq (h : v' = v) : v.Eases v' := by
  rw [h]
  exact refl v

theorem trans {w : View} (h : v.Eases v') (h' : v'.Eases w) : v.Eases w where
  core := h'.core.trans h.core
  receiving p hp := h.receiving p (h'.receiving p hp)
  log := by
    obtain ⟨e, he, hn⟩ := h.log
    obtain ⟨e', he', hn'⟩ := h'.log
    refine ⟨e ++ e', by rw [he', he, append_assoc], fun x hx => ?_⟩
    rcases mem_append.mp hx with hx | hx
    · exact hn x hx
    · exact hn' x hx

theorem live (h : v.Eases v') (p : Slot) : v'.live p ↔ v.live p := by
  unfold View.live
  rw [h.free, h.noEp]

theorem record (v : View) {e : Event} (h : e.isSend = false) : v.Eases (v.record e) :=
  of_log rfl rfl rfl fun x hx => by rwa [mem_singleton.mp hx]

theorem handTo (v : View) {via : Via} (hv : via ≠ .send) (s d : Slot) (m : Message) : v.Eases (v.handTo via s d m) :=
  of_log rfl rfl rfl fun x hx => by rw [mem_singleton.mp hx]; cases via <;> simp_all [Event.isSend]

theorem unrecv (v : View) (d : Slot) : v.Eases (v.unrecv d) where
  core := rfl
  receiving p hp := by
    simp only [View.unrecv, update_apply] at hp
    split at hp
    · cases hp
    · exact hp
  log := (refl v).log

end Eases

theorem IsQueue.eases (h : v.Eases v') (hq : v.IsQueue d l) : v'.IsQueue d l where
  chain := by rw [h.qLink, h.callerQ]; exact hq.chain
  nodup := hq.nodup
  mem p := by rw [h.sending, h.sendto, h.endpoint]; exact hq.mem p
  order := by
    obtain ⟨ev, he, hn⟩ := h.log
    simpa only [he, lastCall_append hn] using hq.order

theorem Good.eases (hg : v.Good) (h : v.Eases v') : v'.Good where
  free_eq := by rw [h.free, h.empty]; exact hg.free_eq
  idle p hp := by
    have hi := hg.idle p (by rwa [← h.live p])
    refine ⟨by rw [h.sending]; exact hi.1, ?_⟩
    by_contra hr
    rw [h.receiving p (by simpa using hr)] at hi
    exact absurd hi.2 (by simp)
  ep := by rw [h.endpoint]; exact hg.ep
  sendTo p hp := by
    rw [h.sending] at hp
    obtain ⟨d, hd, he⟩ := hg.sendTo p hp
    exact ⟨d, (h.live d).mpr hd, by rwa [h.sendto, h.endpoint]⟩
  recvFrom p hp hne := by
    rw [h.getfrom] at hne
    obtain ⟨d, hd, he⟩ := hg.recvFrom p (h.receiving p hp) hne
    exact ⟨d, (h.live d).mpr hd, by rwa [h.getfrom, h.endpoint]⟩
  sendRec p hs hr := by
    rw [h.sending] at hs
    rw [h.getfrom, h.sendto]
    exact hg.sendRec p hs (h.receiving p hr)
  queue d hd := by
    obtain ⟨l, hl⟩ := hg.queue d ((h.live d).mp hd)
    exact ⟨l, hl.eases h⟩

/-! ## The operations of system calls -/

theorem IsQueue.handTo (hq : v.IsQueue c l) (via : Via) (s d : Slot) (m : Message) :
    (v.handTo via s d m).IsQueue c l :=
  ⟨hq.chain, hq.nodup, hq.mem, by simpa [View.handTo, Event.isCallOf] using hq.order⟩

theorem Good.handTo (hg : v.Good) (via : Via) (s d : Slot) (m : Message) : (v.handTo via s d m).Good where
  free_eq := hg.free_eq
  idle := hg.idle
  ep := hg.ep
  sendTo := hg.sendTo
  recvFrom := hg.recvFrom
  sendRec := hg.sendRec
  queue d hd := by
    obtain ⟨l, hl⟩ := hg.queue d hd
    exact ⟨l, hl.handTo ..⟩

theorem Good.called (hg : v.Good) (hs : v.sending c = false) (d : Slot) (m : Message) :
    (v.record (.called c d m)).Good where
  free_eq := hg.free_eq
  idle := hg.idle
  ep := hg.ep
  sendTo := hg.sendTo
  recvFrom := hg.recvFrom
  sendRec := hg.sendRec
  queue d hd := by
    obtain ⟨l, hl⟩ := hg.queue d hd
    have hc : c ∉ l := fun h => by simp [((hl.mem c).mp h).1] at hs
    refine ⟨l, ⟨hl.chain, hl.nodup, hl.mem, hl.order.imp_of_mem fun {a b} ha hb hab => ?_⟩⟩
    have ha' : c ≠ a := fun e => hc (e ▸ ha)
    have hb' : c ≠ b := fun e => hc (e ▸ hb)
    simpa [View.record, Event.isCallOf, ha', hb'] using hab

theorem Good.listen (hg : v.Good) {e : Endpoint} (hc : v.live c)
    (he : e ≠ ANY → ∃ d, v.live d ∧ e = v.endpoint d) (hs : v.sending c = true → e = v.sendto c) :
    (v.listen c e).Good where
  free_eq := hg.free_eq
  idle p hp := by
    have hne : p ≠ c := by rintro rfl; exact hp hc
    refine ⟨(hg.idle p hp).1, ?_⟩
    simp only [View.listen, update_of_ne hne]
    exact (hg.idle p hp).2
  ep := hg.ep
  sendTo := hg.sendTo
  recvFrom p hp hne := by
    by_cases hpc : p = c
    · subst hpc
      simp only [View.listen, update_self] at hne ⊢
      exact he hne
    · simp only [View.listen, update_of_ne hpc] at hp hne ⊢
      exact hg.recvFrom p hp hne
  sendRec p hp hp' := by
    by_cases hpc : p = c
    · subst hpc
      simp only [View.listen, update_self]
      exact hs hp
    · simp only [View.listen, update_of_ne hpc] at hp hp' ⊢
      exact hg.sendRec p hp hp'
  queue d hd := by
    obtain ⟨l, hl⟩ := hg.queue d hd
    exact ⟨l, ⟨hl.chain, hl.nodup, hl.mem, hl.order⟩⟩

/-- `c` becomes the last process in the queue of `d`, whose end is the place `x`. -/
def block (v : View) (c d : Slot) (m : Message) (x : Loc Slot) : View :=
  let w := (v.send c (v.endpoint d) m).storeQ d x (some c)
  { w with qLink := update w.qLink c none, log := w.log ++ [.called c d m] }

section Block

variable {c d : Slot} {m : Message} {l : List Slot}

theorem IsQueue.block (hq : v.IsQueue d l) (hs : v.sending c = false) :
    (v.block c d m (Loc.after l)).IsQueue d (l ++ [c]) := by
  have hc : c ∉ l := fun h => by simp [((hq.mem c).mp h).1] at hs
  refine ⟨?_, ?_, fun p => ?_, ?_⟩
  · simpa [View.block, View.storeQ, View.send] using chain_concat hq.chain hq.nodup hc
  · simpa using hq.nodup.concat hc
  · by_cases hp : p = c
    · simp [View.block, View.storeQ, View.send, hp]
    · simp [View.block, View.storeQ, View.send, hp, hq.mem]
  · refine pairwise_append.mpr ⟨hq.order.imp_of_mem fun {a b} ha hb hab => ?_, pairwise_singleton _ _, ?_⟩
    · have ha' : c ≠ a := fun e => hc (e ▸ ha)
      have hb' : c ≠ b := fun e => hc (e ▸ hb)
      simpa [View.block, View.storeQ, View.send, Event.isCallOf, ha', hb'] using hab
    · intro a ha b hb
      rw [mem_singleton.mp hb]
      have ha' : c ≠ a := fun e => hc (e ▸ ha)
      simpa [View.block, View.storeQ, View.send, Event.isCallOf, ha'] using Nat.lt_succ_of_le (lastCall_le _ _)

theorem IsQueue.block_other (hg : v.Good) (hq : v.IsQueue d l) (hs : v.sending c = false) {d' : Slot}
    (hd : d' ≠ d) (hq' : v.IsQueue d' l') : (v.block c d m (Loc.after l)).IsQueue d' l' := by
  have hc : c ∉ l' := fun h => by simp [((hq'.mem c).mp h).1] at hs
  have hlinks : ∀ a ∈ l', update ((Loc.after l).setNext v.qLink (some c)) c none a = v.qLink a := by
    intro a ha
    have hac : a ≠ c := fun e => hc (e ▸ ha)
    rw [update_of_ne hac, setNext_of_not_mem (hq'.disjoint hg hq hd ha)]
  refine ⟨?_, hq'.nodup, fun p => ?_, ?_⟩
  · simp only [View.block, View.storeQ, View.send, update_of_ne hd]
    exact chain_congr hlinks hq'.chain
  · by_cases hp : p = c
    · subst hp
      simp only [View.block, View.storeQ, View.send, update_self, hg.endpoint_inj, hq'.mem, hs]
      simp [Ne.symm hd]
    · simp [View.block, View.storeQ, View.send, hp, hq'.mem]
  · refine hq'.order.imp_of_mem fun {a b} ha hb hab => ?_
    have ha' : c ≠ a := fun e => hc (e ▸ ha)
    have hb' : c ≠ b := fun e => hc (e ▸ hb)
    simpa [View.block, View.storeQ, View.send, Event.isCallOf, ha', hb'] using hab

theorem Good.block (hg : v.Good) (hc : v.live c) (hs : v.sending c = false) (hr : v.receiving c = false) (hd : v.live d)
    (hq : v.IsQueue d l) : (v.block c d m (Loc.after l)).Good where
  free_eq := hg.free_eq
  idle p hp := by
    have hne : p ≠ c := by rintro rfl; exact hp hc
    refine ⟨?_, (hg.idle p hp).2⟩
    simp only [View.block, View.storeQ, View.send, update_of_ne hne]
    exact (hg.idle p hp).1
  ep := hg.ep
  sendTo p hp := by
    by_cases hpc : p = c
    · subst hpc
      exact ⟨d, hd, by simp [View.block, View.storeQ, View.send]⟩
    · simp only [View.block, View.storeQ, View.send, update_of_ne hpc] at hp ⊢
      exact hg.sendTo p hp
  recvFrom := hg.recvFrom
  sendRec p hp hp' := by
    have hpc : p ≠ c := by
      rintro rfl
      simp only [View.block, View.storeQ, View.send, hr] at hp'
      cases hp'
    simp only [View.block, View.storeQ, View.send, update_of_ne hpc] at hp hp' ⊢
    exact hg.sendRec p hp hp'
  queue d' hd' := by
    by_cases h : d' = d
    · subst h
      exact ⟨_, hq.block hs⟩
    · obtain ⟨l', hl'⟩ := hg.queue d' hd'
      exact ⟨l', hq.block_other hg hs h hl'⟩

end Block

section Unlink

variable {c p : Slot} {l r : List Slot}

/-- `p` leaves the queue of `c`, in which the place `x` points at it. -/
def unlink (v : View) (c p : Slot) (x : Loc Slot) : View := (v.unsend p).storeQ c x (v.qLink p)

theorem IsQueue.unlink (hq : v.IsQueue c (l ++ p :: r)) : (v.unlink c p (Loc.after l)).IsQueue c (l ++ r) := by
  have hp : p ∉ l ++ r := (nodup_middle.mp hq.nodup).notMem
  refine ⟨?_, hq.nodup.sublist (by simp), fun q => ?_, hq.order.sublist (by simp)⟩
  · simpa [View.unlink, View.storeQ, View.unsend] using chain_remove hq.chain hq.nodup
  · have := hq.mem q
    by_cases hqp : q = p
    · subst hqp
      simpa [View.unlink, View.storeQ, View.unsend] using hp
    · simpa [View.unlink, View.storeQ, View.unsend, hqp] using this

theorem IsQueue.unlink_other (hg : v.Good) (hq : v.IsQueue c (l ++ p :: r))
    (hd : d ≠ c) (hq' : v.IsQueue d l') : (v.unlink c p (Loc.after l)).IsQueue d l' := by
  have hdisj : ∀ a ∈ l', a ∉ l ++ p :: r := fun a => hq'.disjoint hg hq hd
  have hp : p ∉ l' := fun h => hdisj p h (by simp)
  refine ⟨?_, hq'.nodup, fun q => ?_, hq'.order⟩
  · simp only [View.unlink, View.storeQ, View.unsend, update_of_ne hd]
    exact chain_congr (fun a ha => setNext_of_not_mem fun h => hdisj a ha (by simp [h])) hq'.chain
  · by_cases hqp : q = p
    · subst hqp
      simpa [View.unlink, View.storeQ, View.unsend] using hp
    · simpa [View.unlink, View.storeQ, View.unsend, hqp] using hq'.mem q

theorem Good.unlink (hg : v.Good) (hq : v.IsQueue c (l ++ p :: r)) : (v.unlink c p (Loc.after l)).Good where
  free_eq := hg.free_eq
  idle q hl := by
    refine ⟨?_, (hg.idle q hl).2⟩
    simp only [View.unlink, View.storeQ, View.unsend, update_apply]
    split
    · rfl
    · exact (hg.idle q hl).1
  ep := hg.ep
  sendTo q hs := by
    simp only [View.unlink, View.storeQ, View.unsend, update_apply] at hs
    split at hs
    · cases hs
    · exact hg.sendTo q hs
  recvFrom := hg.recvFrom
  sendRec q hs := by
    simp only [View.unlink, View.storeQ, View.unsend, update_apply] at hs
    split at hs
    · cases hs
    · exact hg.sendRec q hs
  queue d hd := by
    by_cases h : d = c
    · subst h
      exact ⟨_, hq.unlink⟩
    · obtain ⟨l', hl'⟩ := hg.queue d hd
      exact ⟨l', hq.unlink_other hg h hl'⟩

end Unlink

end View

end Minix.Kernel
