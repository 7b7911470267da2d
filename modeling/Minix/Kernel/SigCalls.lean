import Minix.Kernel.Frame
import Minix.Kernel.Rendezvous
import Minix.Kernel.Signals

/-!
# What message passing does to signals

Each function of message passing has one lemma about `State.sig`. Most of them leave it as it is. `mini_send` may block
the caller, `mini_receive` may release a sender (`takeQueued_sig`), and with tracing a call may be deferred
(`trap_sig`). The death of a process changes only who is sending and who is live (`State.Keeps`).
-/

namespace Minix.Kernel

open Minix.Lib Function

namespace SigView

/-- `sig_delay_done`. -/
def done (v : SigView) : SigView := { v with delay := false }.raise SIGNDELAY

/-- The message of a sending process was taken. -/
def released (v : SigView) : SigView := { (if v.delay then v.done else v) with sending := false }

/-- A process that can run. -/
def Free (v : SigView) : Prop := v.live = true ∧ v.signaled = false ∧ v.sending = false

end SigView

namespace State

variable {k : State} {p c : Slot}

/-! ## Message passing -/

theorem sig_flags (g : Finset RtsFlag → Finset RtsFlag) :
    (k.modProc p fun r => { r with pRtsFlags := g r.pRtsFlags }).sig = update k.sig p { k.sig p with
      signaled := .signaled ∈ g (k.proc p).pRtsFlags
      sigPending := .sigPending ∈ g (k.proc p).pRtsFlags
      sending := .sending ∈ g (k.proc p).pRtsFlags
      live := .slotFree ∉ g (k.proc p).pRtsFlags ∧ .noEndpoint ∉ g (k.proc p).pRtsFlags } := by
  rw [sig_modProc]
  rfl

theorem sig_rtsSet_sending : (k.rtsSet p {.sending}).sig = update k.sig p { k.sig p with sending := true } := by
  rw [sig_rtsSet, sig_flags (· ∪ {.sending})]
  congr 1
  simp [sig, Proc.sig]

theorem sig_rtsUnset_sending : (k.rtsUnset p {.sending}).sig = update k.sig p { k.sig p with sending := false } := by
  rw [sig_rtsUnset, sig_flags (· \ {.sending})]
  congr 1
  simp [sig, Proc.sig]

@[simp] theorem sig_storeQ (d : Slot) (x : Loc Slot) (q : Option Slot) : (k.storeQ d x q).sig = k.sig := by
  cases x with
  | head => exact sig_same (f := fun r => { r with pCallerQ := q }) rfl
  | link a => exact sig_same (f := fun r => { r with pQLink := q }) rfl

theorem sig_block (e : Endpoint) (m : Message) :
    (((k.modProc c fun r => { r with pSendmsg := m }).rtsSet c {.sending}).modProc c
      fun r => { r with pSendtoE := e }).sig = update k.sig c { k.sig c with sending := true } := by
  rw [sig_same rfl, sig_rtsSet_sending, sig_same rfl]

theorem miniSend_sig (e : Endpoint) (buf : MsgBuf) (nb : Bool) : (k.miniSend c e buf nb).2.sig = k.sig ∨
    (k.miniSend c e buf nb).2.sig = update k.sig c { k.sig c with sending := true } := by
  unfold miniSend
  by_cases hb : buf.lin = 0
  · rw [if_pos hb]
    exact .inl rfl
  rw [if_neg hb]
  cases procAddr (endpointP e) with
  | none => exact .inl rfl
  | some d =>
    cases buf.data with
    | none =>
      left
      dsimp only
      split_ifs <;> rfl
    | some m =>
      dsimp only
      split_ifs
      · exact .inl rfl
      · left
        rw [sig_rtsUnset_quiet (by decide), sig_hand, sig_record]
      · exact .inl rfl
      · right
        split
        · exact sig_block e m
        · rw [sig_record, sig_same rfl, sig_storeQ]
          exact sig_block e m

theorem AsynMoves.sig_eq {a : Option Slot} {k' : State} (h : AsynMoves a k k') : k'.sig = k.sig := by
  induction h with
  | refl => rfl
  | tail _ hm ih =>
    rw [← ih]
    cases hm with
    | entry p i hf => rfl
    | failed p i => rfl
    | unregister i => rfl
    | mark p => exact sig_same (by simp [Proc.sig])
    | unmark p => exact sig_same (by simp [Proc.sig])
    | wake i s d m hw ha => rw [sig_rtsUnset_quiet (by decide), sig_hand]
    | take i s p m ha => exact sig_hand ..

theorem miniSenda_sig (a : CallArgs) (size : Nat) : (k.miniSenda c a size).2.sig = k.sig := by
  unfold miniSenda
  split_ifs
  · rfl
  · rfl
  · rfl
  · unfold sendaScan
    dsimp only
    split_ifs <;> exact (AsynMoves.sendaLoop ..).sig_eq
  · rfl

theorem receiveBlock_sig (e : Endpoint) (nb : Bool) : (k.receiveBlock c e nb).2.sig = k.sig := by
  unfold receiveBlock
  split_ifs
  · rfl
  · rw [sig_rtsSet_quiet (by decide), sig_same rfl]

theorem receiveAsyn_sig (e : Endpoint) (src : Option Slot) (io : TableIo) (nb : Bool) :
    (k.receiveAsyn c e src io nb).2.sig = k.sig := by
  unfold receiveAsyn
  split_ifs
  · exact receiveBlock_sig e nb
  cases src with
  | some q =>
    have h := (AsynMoves.tryOne k c q io false).sig_eq
    dsimp only
    split_ifs
    · exact h
    · exact (receiveBlock_sig e nb).trans h
  | none =>
    have h := (AsynMoves.tryAsync k c io).sig_eq
    dsimp only
    split_ifs
    · exact h
    · exact (receiveBlock_sig e nb).trans h

theorem takeNotify_sig (i : PrivId) : (k.takeNotify c i).sig = k.sig := by
  unfold takeNotify
  dsimp only
  split
  · rfl
  · rw [sig_hand, sig_buildNotifyMessage]
    rfl

theorem sigDelayDone_sig (hp : p ≠ PM) : (k.sigDelayDone p).sig = update k.sig p (k.sig p).done := by
  unfold sigDelayDone
  rw [causeSig_sig hp, sig_modProc, update_self, update_idem]
  congr 1
  congr 1
  ext1 <;> simp [sig, Proc.sig]

theorem sigDelayDone_halts : (k.sigDelayDone PM).sched.halted = true := causeSig_halts _

theorem takeQueued_sig (x : Loc Slot) : (k.takeQueued c p x).sched.halted = true ∨
    (k.takeQueued c p x).sig = update k.sig p (k.sig p).released := by
  unfold takeQueued
  dsimp only
  set k1 := k.hand .send p c (k.proc p).pSendmsg with hk1
  have h1 : k1.sig = k.sig := sig_hand ..
  have hd : k1.mf p .sigDelay = (k.sig p).delay := congrArg (fun s => (s p).delay) h1
  by_cases hdel : (k.sig p).delay = true
  · rw [if_pos (hd.trans hdel)]
    by_cases hp : p = PM
    · left
      have := (Mild.rtsUnset (k1.sigDelayDone p) p {.sending}).halted (by rw [hp]; exact sigDelayDone_halts)
      cases x <;> exact this
    · right
      rw [sig_storeQ, sig_rtsUnset_sending, sigDelayDone_sig hp, h1, update_idem, update_self,
        SigView.released, if_pos hdel]
  · right
    rw [if_neg (by rw [hd]; exact hdel), sig_storeQ, sig_rtsUnset_sending, h1, SigView.released, if_neg hdel]

end State

/-- `mini_receive` changes nothing, or takes the message of a sender. -/
def RecvSig (s : Slot → SigView) (c : Slot) (s' : Slot → SigView) : Prop :=
  s' = s ∨ (s c).sending = false ∧ ∃ p, (s p).sending = true ∧ s' = update s p (s p).released

/-- A system call of `c` changes nothing, blocks `c`, or takes the message of a sender. -/
inductive CallSig (s : Slot → SigView) (c : Slot) : (Slot → SigView) → Prop
  | blocks : CallSig s c (update s c { s c with sending := true })
  | received {s' : Slot → SigView} (hr : RecvSig s c s') : CallSig s c s'

theorem CallSig.same {s : Slot → SigView} {c : Slot} : CallSig s c s := .received (.inl rfl)

namespace State

variable {k : State} {p c : Slot}

section

variable (hg : k.view.Good)

include hg

theorem receiveFrom_sig (hc : k.view.live c) (e : Endpoint) (src : Option Slot) (io : TableIo) :
    (k.receiveFrom c e src io false).2.sched.halted = true ∨
    RecvSig k.sig c (k.receiveFrom c e src io false).2.sig := by
  unfold receiveFrom
  by_cases hs : k.rtsIsset c .sending = true
  · rw [if_pos hs]
    exact .inr (.inl (receiveBlock_sig e false))
  rw [if_neg hs]
  split
  · exact .inr (.inl (takeNotify_sig _))
  · obtain ⟨l, r, hq, _, _, hscan, hget⟩ := scan_callers hg hc fun p => src.isNone || src = some p
    rw [hscan]
    dsimp only
    rw [hget]
    cases r with
    | nil => exact .inr (.inl (receiveAsyn_sig ..))
    | cons p r =>
      rcases takeQueued_sig (Loc.after l) with h | h
      · exact .inl h
      · exact .inr (.inr ⟨by simpa [sig, Proc.sig, rtsIsset] using hs, p, ((hq.mem p).mp (by simp)).1, h⟩)

theorem miniReceive_sig (hc : k.view.live c) (e : Endpoint) (buf : MsgBuf) (io : TableIo) :
    (k.miniReceive c e buf io false).2.sched.halted = true ∨
    RecvSig k.sig c (k.miniReceive c e buf io false).2.sig := by
  unfold miniReceive
  by_cases hl : buf.lin = 0
  · rw [if_pos hl]
    exact .inr (.inl rfl)
  rw [if_neg hl]
  set k' := k.modProc c fun r => { r with pDelivermsgLin := buf.lin, pDelivermsgVir := buf.vir } with hk
  have hv : k'.view = k.view := view_same ⟨rfl, by simp, by simp⟩
  have hsig : k'.sig = k.sig := sig_same rfl
  have hrec := receiveFrom_sig (by rwa [hv]) (by rwa [hv]) e
  rw [hsig] at hrec
  dsimp only
  split_ifs
  · exact hrec none io
  · split
    · exact .inl rfl
    · split_ifs
      · exact .inr (.inl hsig)
      · exact hrec _ io

theorem performCall_sig (hc : k.view.Ready c) {a : CallArgs}
    (hd : a.callNr = SENDREC → ∃ d, k.isokendpt a.srcDstE = some d) :
    (k.performCall c a).2.sched.halted = true ∨ CallSig k.sig c (k.performCall c a).2.sig := by
  have hsend : ∀ nb, CallSig k.sig c (k.miniSend c a.srcDstE a.buf nb).2.sig := fun nb => by
    rcases miniSend_sig a.srcDstE a.buf nb with h | h
    · rw [h]
      exact .same
    · rw [h]
      exact .blocks
  unfold performCall
  split_ifs with h1 h2 h3 h4 h5 h6
  · obtain ⟨d, hd⟩ := hd h1
    set k' := k.modProc c fun r => { r with pMiscFlags := r.pMiscFlags ∪ {.replyPend} }
    have hsig : k'.sig = k.sig := sig_same (by simp [Proc.sig])
    have hs := miniSend_ask hg hc.1 hd a.buf
    have hsend' := miniSend_sig (k := k') (c := c) a.srcDstE a.buf false
    rw [hsig] at hsend'
    dsimp only
    split_ifs
    · right
      rcases hsend' with h | h
      · rw [h]
        exact .same
      · rw [h]
        exact .blocks
    · have hrec := miniReceive_sig (hs.good hg hc.1 hc.2.1 hc.2.2) ((hs.sameSlots.live c).mpr hc.1) a.srcDstE a.buf a.io
      rcases hsend' with h | h
      · rw [h] at hrec
        exact hrec.imp_right .received
      · -- a caller that is blocked in the queue of the destination only waits for the answer
        rw [h] at hrec
        refine hrec.imp_right fun hrec => ?_
        rcases hrec with hrec | ⟨hrec, _⟩
        · rw [hrec]
          exact .blocks
        · rw [update_self] at hrec
          cases hrec
  · exact .inr (hsend false)
  · set k' := k.modProc c fun r => { r with pMiscFlags := r.pMiscFlags \ {.replyPend} }
    have hv : k'.view = k.view := k.view_hear c
    have hsig : k'.sig = k.sig := sig_same (by simp [Proc.sig])
    have hrec := miniReceive_sig (by rwa [hv]) (by rw [hv]; exact hc.1) a.srcDstE a.buf a.io
    rw [hsig] at hrec
    exact hrec.imp_right .received
  · right
    rw [sig_miniNotify]
    exact .same
  · exact .inr (hsend true)
  · right
    rw [miniSenda_sig]
    exact .same
  · exact .inr .same

theorem checkedCall_sig (hc : k.view.Ready c) (a : CallArgs) :
    (k.checkedCall c a).2.sched.halted = true ∨ CallSig k.sig c (k.checkedCall c a).2.sig := by
  rcases k.checkedCall_cases c a with ⟨r, -, h⟩ | h | ⟨h, hd, -⟩
  · rw [h]
    exact .inr .same
  · rw [h]
    exact .inl rfl
  · rw [h]
    refine performCall_sig hg hc fun hn => ?_
    rcases hd with h | ⟨h, -⟩ | hd
    · rw [hn] at h
      exact absurd h (by decide)
    · rw [hn] at h
      exact absurd h (by decide)
    · exact hd

/-- A system call is deferred because it is traced, or it is performed. -/
theorem trap_sig (hc : k.view.Ready c) (a : CallArgs) :
    (k.trap c a).sched.halted = true ∨
      ((k.sig c).defer = false ∧ (k.trap c a).sig = update k.sig c ({ k.sig c with defer := true }.raise SIGTRAP)) ∨
      CallSig (update k.sig c { k.sig c with defer := false }) c (k.trap c a).sig := by
  have htrap : (k.trap c a).sig = (k.sysCall c a).2.sig := by
    unfold trap
    exact sig_same rfl
  have hhalt : (k.trap c a).sched.halted = (k.sysCall c a).2.sched.halted := rfl
  have hdefer : k.mf c .scDefer = (k.sig c).defer := rfl
  rw [htrap, hhalt]
  unfold sysCall
  split_ifs with h1 h2
  · set k' := k.modProc c fun r => { r with pMiscFlags := r.pMiscFlags \ {.scTrace} ∪ {.scDefer} }
    by_cases hp : c = PM
    · left
      rw [hp]
      exact causeSig_halts SIGTRAP
    · refine .inr (.inl ⟨by simpa [hdefer] using (Bool.and_eq_true_iff.mp h1).2, ?_⟩)
      rw [causeSig_sig hp, sig_modProc, update_self, update_idem]
      congr 2
      ext1 <;> simp [sig, Proc.sig]
  · set k' := k.modProc c fun r => { r with pMiscFlags := r.pMiscFlags \ {.scDefer} ∪ {.scActive} }
    have hv : k'.view = k.view := view_same ⟨rfl, by simp, by simp⟩
    have hsig : k'.sig = update k.sig c { k.sig c with defer := false } := by
      rw [sig_modProc]
      congr 1
      ext1 <;> simp [sig, Proc.sig]
    have := checkedCall_sig (by rwa [hv]) (by rwa [hv]) a
    rw [hsig] at this
    exact this.imp_right .inr
  · have hself : update k.sig c { k.sig c with defer := false } = k.sig := by
      rw [update_eq_self_iff]
      rw [hdefer, Bool.not_eq_true] at h2
      ext1 <;> simp [h2]
    rw [hself]
    exact (checkedCall_sig hg hc a).imp_right .inr

end

/-! ## Death -/

/-- Of what signals depend on, only who is sending and who is live may have changed. -/
structure Keeps (k k' : State) : Prop where
  pending : ∀ q, (k'.sig q).pending = (k.sig q).pending
  signaled : ∀ q, (k'.sig q).signaled = (k.sig q).signaled
  delay : ∀ q, (k'.sig q).delay = (k.sig q).delay
  defer : ∀ q, (k'.sig q).defer = (k.sig q).defer
  sigPending : ∀ q, (k'.sig q).sigPending = (k.sig q).sigPending

namespace Keeps

variable {k' k'' : State}

theorem of_eq (h : k'.sig = k.sig) : k.Keeps k' := by constructor <;> intro q <;> rw [h]

theorem trans (h : k.Keeps k') (h' : k'.Keeps k'') : k.Keeps k'' where
  pending q := (h'.pending q).trans (h.pending q)
  signaled q := (h'.signaled q).trans (h.signaled q)
  delay q := (h'.delay q).trans (h.delay q)
  defer q := (h'.defer q).trans (h.defer q)
  sigPending q := (h'.sigPending q).trans (h.sigPending q)

theorem flags (g : Finset RtsFlag → Finset RtsFlag)
    (hg : ∀ F, (.signaled ∈ g F ↔ .signaled ∈ F) ∧ (.sigPending ∈ g F ↔ .sigPending ∈ F)) :
    k.Keeps (k.modProc p fun r => { r with pRtsFlags := g r.pRtsFlags }) := by
  constructor <;> intro q <;> rw [sig_flags] <;> by_cases hq : q = p <;> simp [hq, hg, sig, Proc.sig]

theorem frame : Frame Keeps where
  refl _ := of_eq rfl
  trans := trans
  of_proc h _ := of_eq (by unfold State.sig; rw [h])
  of_core k p f hf := of_eq (sig_same (by
    have h := hf (k.proc p)
    simp only [Proc.core, Proc.mk.injEq] at h
    simp [Proc.sig, h]))
  clearFlag k p f hf := flags (· \ {f}) fun F => by rcases hf with rfl | rfl <;> simp

theorem clearEndpoint (rc : Slot) : k.Keeps (k.clearEndpoint rc) :=
  frame.clearEndpoint ((flags (· ∪ {.noEndpoint}) fun F => by simp).trans (of_eq (sig_rtsSet _)))

end Keeps

end State

namespace View

variable {v w : View} {rc q : Slot}

theorem Dies.sending_ne (h : v.Dies rc w) (hq : q ≠ rc) :
    w.sending q = (v.sending q && v.sendto q != v.endpoint rc) := by
  obtain ⟨f, u, _, hu, rfl⟩ := h
  rcases hu with ⟨_, rfl⟩ | ⟨t, l, r, _, _, rfl⟩
  · rfl
  · simp [View.forget, View.lose, View.clearAll, View.unrecv, View.unlink, View.storeQ, View.unsend,
      View.dropTables, hq]

theorem Dies.live_ne (h : v.Dies rc w) (hq : q ≠ rc) : w.live q ↔ v.live q := by
  obtain ⟨f, u, _, hu, rfl⟩ := h
  rcases hu with ⟨_, rfl⟩ | ⟨t, l, r, _, _, rfl⟩
  · simp [View.live, View.forget, View.lose, View.clearAll, View.unrecv, View.dropTables, hq]
  · simp [View.live, View.forget, View.lose, View.clearAll, View.unrecv, View.unlink, View.storeQ, View.unsend,
      View.dropTables, hq]

end View

end Minix.Kernel
