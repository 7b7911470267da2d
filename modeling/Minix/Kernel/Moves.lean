import Minix.Kernel.System

/-!
# What a call is made of

`State.Move c` is one assignment of the kernel's message passing on behalf of the process `c` (`none` for a task or an
interrupt handler), with what is known where it is made. A message is handed to a process that waits for it (`wake`) or
to the caller itself (`take`).

Each function of message passing is a sequence of moves (`Moves.miniSend`, `Moves.miniReceive` and so on). A relation
between states that allows for each move, and is transitive, thus holds between the states before and after the
function.
-/

namespace Minix.Kernel

open Minix.Lib

/-- The fields of an entry of the process table that few moves change. -/
def Proc.plain (r : Proc) : Endpoint × PrivId × Finset RtsFlag × Endpoint × Bool :=
  (r.pEndpoint, r.pPriv, r.pRtsFlags, r.pGetfromE, .replyPend ∈ r.pMiscFlags)

/-- The fields of a privilege structure that few moves change. -/
def Priv.plain (r : Priv) : Option Slot × Finset PrivFlag × Finset PrivId × Finset PrivId × Nat :=
  (r.sProcNr, r.sFlags, r.sIpcTo, r.sNotifyPending, r.sAsynsize)

/-- The flags that message passing sets and clears only for a reason. -/
def lastingFlags : Finset RtsFlag := {.slotFree, .noEndpoint, .noPriv, .receiving}

/-- The event hands a message to a process. -/
def Event.isHanded : Event → Bool
  | .handed .. => true
  | _ => false

/-- `AMF_NOREPLY` of an entry. -/
def AsynMsg.noReply (e : AsynMsg) : Bool := e.flags.testBit State.amfNoreply

namespace State

/-- A message that `s` hands to `d` in this way is allowed when `d` waits for a reply: no notification, and no
asynchronous message that is not for a `SENDREC`. -/
def Admits (k : State) (via : Via) (s d : Slot) : Prop :=
  match via with
  | .send => True
  | .notify => k.mf d .replyPend = false
  | .asyn i => k.mf d .replyPend = true → (k.tab s i).noReply = false

/-- One assignment on behalf of `c`. -/
inductive Move (c : Option Slot) (k : State) : State → Prop
  /-- Scheduling, halting, the list of memory requests. -/
  | rest {k' : State} (hp : k'.proc = k.proc) (hr : k'.priv = k.priv) (ht : k'.tab = k.tab) (hl : k'.log = k.log) :
      Move c k k'
  | fields (p : Slot) {f : Proc → Proc} (hf : (f (k.proc p)).plain = (k.proc p).plain) : Move c k (k.modProc p f)
  | privFields (i : PrivId) {f : Priv → Priv} (hf : (f (k.priv i)).plain = (k.priv i).plain) : Move c k (k.modPriv i f)
  | flags (p : Slot) {g : Finset RtsFlag → Finset RtsFlag} (hg : ∀ x ∈ lastingFlags, ∀ s, x ∈ g s ↔ x ∈ s) :
      Move c k (k.modProc p fun r => { r with pRtsFlags := g r.pRtsFlags })
  /-- The caller is about to wait for a message. -/
  | source {p : Slot} (hp : c = some p) (e : Endpoint) : Move c k (k.modProc p fun r => { r with pGetfromE := e })
  | listen {p : Slot} (hp : c = some p) :
      Move c k (k.modProc p fun r => { r with pRtsFlags := r.pRtsFlags ∪ {.receiving} })
  /-- A notification is pending. -/
  | post (i j : PrivId) : Move c k (k.modPriv i fun r => { r with sNotifyPending := insert j r.sNotifyPending })
  /-- The caller takes a pending notification. -/
  | unpost {p : Slot} (hp : c = some p) (j : PrivId) :
      Move c k (k.modPriv (k.proc p).pPriv fun r => { r with sNotifyPending := r.sNotifyPending.erase j })
  | register (i : PrivId) (t n : Nat) (hn : n = 0 ∨ .sysProc ∈ (k.priv i).sFlags) : Move c k (k.setTable i t n)
  | unregister (i : PrivId) : Move c k (k.modPriv i fun r => { r with sAsynsize := 0 })
  | entry (p : Slot) (i : Nat) {f : AsynMsg → AsynMsg} (hf : (f (k.tab p i)).noReply = (k.tab p i).noReply) :
      Move c k (k.modTab p i f)
  | note {e : Event} (he : e.isHanded = false) : Move c k (k.record e)
  /-- A message is handed to a process that waits for it. -/
  | wake (via : Via) (s d : Slot) (m : Message) (hw : k.willReceive d (k.proc s).pEndpoint = true)
      (ha : k.Admits via s d) (hc : via = .send → .called s d m ∈ k.log) :
      Move c k ((k.hand via s d m).rtsUnset d {.receiving})
  /-- A message is handed to the caller. -/
  | take (via : Via) (s : Slot) {p : Slot} (m : Message) (hp : c = some p) (ha : k.Admits via s p) :
    Move c k (k.hand via s p m)

/-- A sequence of assignments on behalf of `c`. -/
def Moves (c : Option Slot) : State → State → Prop := Relation.ReflTransGen (Move c)

namespace Moves

variable {c : Option Slot} {k k' k'' : State}

theorem refl (c : Option Slot) (k : State) : Moves c k k := Relation.ReflTransGen.refl

theorem trans (h : Moves c k k') (h' : Moves c k' k'') : Moves c k k'' := Relation.ReflTransGen.trans h h'

theorem one (h : Move c k k') : Moves c k k' := .single h

theorem next (h : Moves c k k') (h' : Move c k' k'') : Moves c k k'' := .tail h h'

variable (c k)

theorem halt : Moves c k k.halt := one (.rest rfl rfl rfl rfl)

theorem running (p : Slot) : Moves c k (k.running p) := one (.rest rfl rfl rfl rfl)

theorem rtsUnset (p : Slot) {f : Finset RtsFlag} (hf : Disjoint f lastingFlags) : Moves c k (k.rtsUnset p f) := by
  have h : Moves c k (k.modProc p fun r => { r with pRtsFlags := r.pRtsFlags \ f }) := by
    refine one (.flags p (g := fun s => s \ f) fun x hx s => ?_)
    have : x ∉ f := fun hxf => Finset.disjoint_left.mp hf hxf hx
    simp [this]
  unfold State.rtsUnset
  dsimp only
  split_ifs
  · exact h.next (.rest rfl rfl rfl rfl)
  · exact h

theorem rtsSet (p : Slot) {f : Finset RtsFlag} (hf : Disjoint f lastingFlags) : Moves c k (k.rtsSet p f) := by
  have h : ∀ k1 : State, Move c k1 (k1.modProc p fun r => { r with pRtsFlags := r.pRtsFlags ∪ f }) := by
    refine fun k1 => .flags p (g := fun s => s ∪ f) fun x hx s => ?_
    have : x ∉ f := fun hxf => Finset.disjoint_left.mp hf hxf hx
    simp [this]
  unfold State.rtsSet
  split_ifs
  · have h0 : Moves c k (k.dequeue p) := one (.rest rfl rfl rfl rfl)
    exact h0.next (h _)
  · exact one (h k)

/-! ## Notifications and signals -/

theorem buildNotifyMessage (s d : Slot) : Moves c k (k.buildNotifyMessage s d).2 := by
  unfold State.buildNotifyMessage
  split_ifs
  · exact one (.privFields _ (f := fun r => { r with sIntPending := 0 }) rfl)
  · exact one (.privFields _ (f := fun r => { r with sSigPending := 0 }) rfl)
  · exact refl c k

theorem buildNotifyMessage_fixed (s d : Slot) : (k.buildNotifyMessage s d).2.proc = k.proc ∧
    (k.buildNotifyMessage s d).2.tab = k.tab ∧ (k.buildNotifyMessage s d).2.log = k.log := by
  unfold State.buildNotifyMessage
  split_ifs <;> exact ⟨rfl, rfl, rfl⟩

theorem miniNotify (s : Slot) (e : Endpoint) : Moves c k (k.miniNotify s e).2 := by
  unfold State.miniNotify
  cases k.isokendpt e with
  | none => exact refl c k
  | some d =>
    dsimp only
    split
    next h =>
      obtain ⟨hw, hr⟩ := (Bool.and_eq_true _ _).mp h
      obtain ⟨hp, -⟩ := buildNotifyMessage_fixed k s d
      refine (buildNotifyMessage c k s d).next (.wake .notify s d _ ?_ ?_ nofun)
      · simpa [State.willReceive, State.rtsIsset, hp] using hw
      · simpa [Admits, State.mf, hp] using hr
    next => exact one (.post _ _)

theorem sendSig (p : Slot) (sig : Nat) : Moves c k (k.sendSig p sig) := by
  unfold State.sendSig
  split_ifs
  · exact halt c k
  · have h : Move c k (k.modPriv (k.proc p).pPriv fun r => { r with sSigPending := r.sSigPending ||| 2 ^ sig }) :=
      .privFields _ rfl
    exact (one h).trans (miniNotify c _ _ _)

theorem causeSig (p : Slot) (sig : Nat) : Moves c k (k.causeSig p sig) := by
  unfold State.causeSig
  split
  · exact halt c k
  split
  · exact refl c k
  · dsimp only
    have h : Move c k (k.modProc p fun r => { r with pPending := r.pPending ||| 2 ^ sig }) := .fields p rfl
    split_ifs
    · exact one h
    · exact ((one h).trans (rtsSet c _ p (by decide))).trans (sendSig c _ _ _)

theorem sigDelayDone (p : Slot) : Moves c k (k.sigDelayDone p) := by
  have h : Move c k (k.modProc p fun r => { r with pMiscFlags := r.pMiscFlags \ {.sigDelay} }) :=
    .fields p (by simp [Proc.plain])
  exact (one h).trans (causeSig c _ _ _)

theorem storeQ (d : Slot) (x : Loc Slot) (v : Option Slot) : Moves c k (k.storeQ d x v) := by
  cases x with
  | head => exact one (.fields d (f := fun r => { r with pCallerQ := v }) rfl)
  | link p => exact one (.fields p (f := fun r => { r with pQLink := v }) rfl)

theorem miniSend (s : Slot) (e : Endpoint) (buf : MsgBuf) (nb : Bool) : Moves c k (k.miniSend s e buf nb).2 := by
  unfold State.miniSend
  split
  · exact refl c k
  cases procAddr (endpointP e) with
  | none => exact halt c k
  | some d =>
    dsimp only
    split
    · exact refl c k
    split
    next hw =>
      cases buf.data with
      | none => exact refl c k
      | some m =>
        refine (one (.note rfl)).next (.wake .send s d m hw trivial fun _ => ?_)
        exact List.mem_append_right _ (List.mem_singleton.mpr rfl)
    split
    · exact refl c k
    cases buf.data with
    | none => exact refl c k
    | some m =>
      dsimp only
      have h : Moves c k (((k.modProc s fun r => { r with pSendmsg := m }).rtsSet s {.sending}).modProc s fun r =>
          { r with pSendtoE := e }) :=
        ((one (.fields s rfl)).trans (rtsSet c _ s (by decide))).next (.fields s rfl)
      split
      · exact h.trans (halt c _)
      · exact ((h.trans (storeQ c _ _ _ _)).next (.fields s rfl)).next (.note rfl)

/-! ## Asynchronous messages -/

end Moves

/-- One assignment of the functions for asynchronous messages: of a search on behalf of a process, or of `mini_senda`.
-/
inductive AsynMove : Option Slot → State → State → Prop
  | entry {a : Option Slot} {k : State} (p : Slot) (i : Nat) {f : AsynMsg → AsynMsg}
      (hf : (f (k.tab p i)).noReply = (k.tab p i).noReply) : AsynMove a k (k.modTab p i f)
  | failed {k : State} (p : Slot) (i : Nat) : AsynMove none k (k.record (.failed p i))
  | unregister {a : Option Slot} {k : State} (i : PrivId) :
    AsynMove a k (k.modPriv i fun r => { r with sAsynsize := 0 })
  | mark {k : State} (p : Slot) :
    AsynMove none k (k.modProc p fun r => { r with pMiscFlags := r.pMiscFlags ∪ {.asynmsg} })
  | unmark {k : State} (p : Slot) :
      AsynMove (some p) k (k.modProc p fun r => { r with pMiscFlags := r.pMiscFlags \ {.asynmsg} })
  | wake {k : State} (i : Nat) (s d : Slot) (m : Message) (hw : k.willReceive d (k.proc s).pEndpoint = true)
      (ha : k.Admits (.asyn i) s d) : AsynMove none k ((k.hand (.asyn i) s d m).rtsUnset d {.receiving})
  | take {k : State} (i : Nat) (s p : Slot) (m : Message) (ha : k.Admits (.asyn i) s p) :
      AsynMove (some p) k (k.hand (.asyn i) s p m)

/-- A sequence of assignments of these functions. -/
def AsynMoves (a : Option Slot) : State → State → Prop := Relation.ReflTransGen (AsynMove a)

namespace AsynMoves

variable {a : Option Slot} {k k' k'' : State}

theorem refl (k : State) : AsynMoves a k k := Relation.ReflTransGen.refl

theorem trans (h : AsynMoves a k k') (h' : AsynMoves a k' k'') : AsynMoves a k k'' := Relation.ReflTransGen.trans h h'

theorem one (h : AsynMove a k k') : AsynMoves a k k' := .single h

theorem moves {c : Option Slot} (h : AsynMoves a k k') (hc : ∀ p, a = some p → c = some p) : Moves c k k' := by
  refine Relation.ReflTransGen.mono (fun k1 k2 hm => ?_) _ _ h
  cases hm with
  | entry p i hf => exact .entry p i hf
  | failed p i => exact .note rfl
  | unregister i => exact .unregister i
  | mark p => exact .fields p (by simp [Proc.plain])
  | unmark p => exact .fields p (by simp [Proc.plain])
  | wake i s d m hw ha => exact .wake (.asyn i) s d m hw ha nofun
  | take i s p m ha => exact .take (.asyn i) s m (hc p rfl) ha

variable (k)

theorem noReply_setDone (e : AsynMsg) : { e with flags := setDone e.flags }.noReply = e.noReply := by
  have : (2 ^ amfDone).testBit amfNoreply = false := by decide
  simp [AsynMsg.noReply, setDone, Nat.testBit_or, this]

theorem finishEntry (p : Slot) (io : TableIo) (i : Nat) (r : Int) (last : Iter) :
    AsynMoves a k (k.finishEntry p io i r last).2 := by
  unfold State.finishEntry
  split
  · exact refl k
  · have h : AsynMove a k (k.modTab p i fun e => { e with result := r }) := .entry p i rfl
    split
    · exact one h
    · have h' : ∀ k1 : State, AsynMove a k1 (k1.modTab p i fun e => { e with flags := setDone e.flags }) :=
        fun k1 => .entry p i (noReply_setDone _)
      exact (one h).trans (one (h' _))

theorem failEntry (p : Slot) (io : TableIo) (i : Nat) (r : Int) : AsynMoves none k (k.failEntry p io i r).2 :=
  (one (.failed p i)).trans (finishEntry _ _ _ _ _ _)

theorem sendaTo (s : Slot) (io : TableIo) (i : Nat) : AsynMoves none k (k.sendaTo s io i (k.tab s i)).2 := by
  unfold State.sendaTo
  cases k.isokendpt (k.tab s i).dst with
  | none => exact failEntry k _ _ _ _
  | some d =>
    dsimp only
    split
    · exact failEntry k _ _ _ _
    split
    · exact failEntry k _ _ _ _
    split
    next h =>
      obtain ⟨hw, hn⟩ := (Bool.and_eq_true _ _).mp h
      split
      · exact failEntry k _ _ _ _
      · refine (one (.wake i s d _ hw fun hr => ?_)).trans (finishEntry _ _ _ _ _ _)
        simpa [AsynMsg.noReply, hr] using hn
    next => exact one (.mark d)

theorem sendaEntry (s : Slot) (io : TableIo) (i : Nat) : AsynMoves none k (k.sendaEntry s io i).2 := by
  unfold State.sendaEntry
  dsimp only
  split_ifs
  all_goals first
    | exact refl k
    | exact sendaTo k _ _ _

theorem sendaLoop (s : Slot) (io : TableIo) : ∀ (is : List Nat) (done : Bool) (k : State),
    AsynMoves none k (sendaLoop s io is done k).2.2
  | [], _, k => refl k
  | i :: is, done, k => by
    have h := sendaEntry k s io i
    rw [State.sendaLoop]
    split <;> rename_i he <;> rw [he] at h
    · exact h
    · exact h.trans (sendaLoop s io is done _)
    · exact h.trans (sendaLoop s io is false _)

variable (p : Slot)

theorem tryOneEntry (s : Slot) (io : TableIo) (i : Nat) : AsynMoves (some p) k (k.tryOneEntry s p io i).2 := by
  unfold State.tryOneEntry
  dsimp only
  split
  · exact refl k
  split
  · exact refl k
  split
  · exact one (.unregister _)
  split
  · exact refl k
  split
  · exact refl k
  split
  · exact refl k
  split
  · exact refl k
  next hn =>
    split
    · exact refl k
    · refine (one (.take i s p _ fun hr => ?_)).trans (finishEntry _ _ _ _ _ _)
      simpa [AsynMsg.noReply, hr] using hn

theorem tryOneLoop (s : Slot) (io : TableIo) : ∀ (is : List Nat) (done pp : Bool),
    AsynMoves (some p) k (k.tryOneLoop s p io is done pp).2.2
  | [], done, pp => by
    rw [State.tryOneLoop]
    split_ifs
    · exact one (.unregister _)
    · exact refl k
  | i :: is, done, pp => by
    have h := tryOneEntry k p s io i
    rw [State.tryOneLoop]
    split <;> rename_i he
    · rw [he] at h
      exact h
    · exact tryOneLoop s io is done pp
    · exact tryOneLoop s io is false pp
    · exact tryOneLoop s io is false true

theorem tryOne (s : Slot) (io : TableIo) (pp : Bool) : AsynMoves (some p) k (k.tryOne s p io pp).2.2 := by
  unfold State.tryOne
  dsimp only
  split_ifs
  · exact refl k
  · exact refl k
  · exact refl k
  · exact tryOneLoop k p _ _ _ _ _

theorem tryAsyncLoop (io : TableIo) : ∀ (is : List PrivId) (pp : Bool) (k : State),
    AsynMoves (some p) k (tryAsyncLoop p io is pp k).2
  | [], pp, k => by
    rw [State.tryAsyncLoop]
    split_ifs
    · exact refl k
    · exact one (.unmark p)
  | i :: is, pp, k => by
    rw [State.tryAsyncLoop]
    cases (k.priv i).sProcNr with
    | none => exact tryAsyncLoop io is pp k
    | some s =>
      have h := tryOne k p s io pp
      dsimp only
      split_ifs
      · exact h
      · exact h.trans (tryAsyncLoop io is _ _)

theorem tryAsync (io : TableIo) : AsynMoves (some p) k (k.tryAsync p io).2 := tryAsyncLoop p io _ _ k

end AsynMoves

namespace Moves

variable (c : Option Slot) (k : State) {p : Slot}

/-! ## Receiving -/

section

variable (hp : c = some p)

include hp

theorem takeNotify (hr : k.mf p .replyPend = false) (i : PrivId) : Moves c k (k.takeNotify p i) := by
  unfold State.takeNotify
  dsimp only
  refine (one (.unpost hp i)).trans ?_
  split
  · exact halt c _
  next s _ =>
    refine (buildNotifyMessage c _ s p).next (.take .notify s _ hp ?_)
    rw [Admits, State.mf, (buildNotifyMessage_fixed _ s p).1]
    exact hr

theorem takeQueued (q : Slot) (x : Loc Slot) : Moves c k (k.takeQueued p q x) := by
  unfold State.takeQueued
  have h : Moves c k (k.hand .send q p (k.proc q).pSendmsg) := one (.take .send q _ hp trivial)
  refine .trans (.trans ?_ (rtsUnset c _ q (by decide))) (storeQ c _ _ _ _)
  split_ifs
  · exact h.trans (sigDelayDone c _ _)
  · exact h

theorem receiveBlock (e : Endpoint) (nb : Bool) : Moves c k (k.receiveBlock p e nb).2 := by
  unfold State.receiveBlock
  split_ifs
  · exact refl c k
  · have h : Moves c k (k.modProc p fun r => { r with pGetfromE := e }) := one (.source hp e)
    unfold State.rtsSet
    split_ifs
    · have h1 : ∀ k1 : State, Moves c k1 (k1.dequeue p) := fun k1 => one (.rest rfl rfl rfl rfl)
      exact (h.trans (h1 _)).next (.listen hp)
    · exact h.next (.listen hp)

theorem receiveAsyn (e : Endpoint) (src : Option Slot) (io : TableIo) (nb : Bool) :
    Moves c k (k.receiveAsyn p e src io nb).2 := by
  unfold State.receiveAsyn
  split_ifs
  · exact receiveBlock c k hp _ _
  cases src with
  | some q =>
    have h := (AsynMoves.tryOne k p q io false).moves (c := c) fun q hq => hq ▸ hp
    dsimp only
    split_ifs
    · exact h
    · exact h.trans (receiveBlock c _ hp _ _)
  | none =>
    have h := (AsynMoves.tryAsync k p io).moves (c := c) fun q hq => hq ▸ hp
    dsimp only
    split_ifs
    · exact h
    · exact h.trans (receiveBlock c _ hp _ _)

theorem receiveFrom (e : Endpoint) (src : Option Slot) (io : TableIo) (nb : Bool) :
    Moves c k (k.receiveFrom p e src io nb).2 := by
  unfold State.receiveFrom
  split
  · exact receiveBlock c k hp _ _
  split
  next hn =>
    cases hr : k.mf p .replyPend with
    | true => simp [hr] at hn
    | false => exact takeNotify c k hp hr _
  · split
    · exact halt c k
    · split
      · exact takeQueued c k hp _ _
      · exact receiveAsyn c k hp _ _ _ _

theorem miniReceive (e : Endpoint) (buf : MsgBuf) (io : TableIo) (nb : Bool) :
    Moves c k (k.miniReceive p e buf io nb).2 := by
  unfold State.miniReceive
  split
  · exact refl c k
  dsimp only
  have h : Moves c k (k.modProc p fun r => { r with pDelivermsgLin := buf.lin, pDelivermsgVir := buf.vir }) :=
    one (.fields p rfl)
  refine h.trans ?_
  split_ifs
  · exact receiveFrom c _ hp _ _ _ _
  · split
    · exact halt c _
    · split_ifs
      · exact refl c _
      · exact receiveFrom c _ hp _ _ _ _

end

theorem vmSuspend (p t : Slot) (lin len : Nat) (type : VmsType) : Moves c k (k.vmSuspend p t lin len type) := by
  unfold State.vmSuspend
  have h1 : Moves c k (k.rtsSet p {.vmrequest}) := rtsSet c k p (by decide)
  set k1 := k.rtsSet p {.vmrequest}
  set r : VmRequest := { nextrequestor := k1.vmrequest, type := type, start := lin, length := len, writeflag := 1,
                         who := (k1.proc t).pEndpoint }
  have h2 : Moves c k (k1.modProc p fun q => { q with pVmrequest := r }) := h1.next (.fields p rfl)
  set k2 := k1.modProc p fun q => { q with pVmrequest := r }
  set k3 := if k2.vmrequest = none then (k2.miniNotify SYSTEM (procNr VM)).2 else k2 with hk3
  have h3 : Moves c k k3 := by
    rw [hk3]
    split_ifs
    · exact h2.trans (miniNotify c _ _ _)
    · exact h2
  exact h3.next (.rest rfl rfl rfl rfl)

theorem delivermsg (p : Slot) (fault : Bool) : Moves c k (k.delivermsg p fault).2 := by
  unfold State.delivermsg
  split
  · exact vmSuspend c k _ _ _ _ _
  · have h : Moves c k (k.modProc p fun r => { r with pMiscFlags := r.pMiscFlags \ {.delivermsg} }) :=
      one (.fields p (by simp [Proc.plain]))
    exact h.next (.note rfl)

theorem sysReply (d : Slot) (m : Message) : Moves c k (k.sysReply d m) := by
  unfold State.sysReply
  split
  · exact miniSend c k _ _ _ _
  · exact refl c k

end Moves

section Checks

variable {k : State} {c : Slot} {a : CallArgs}

theorem checkDst_ok {n : Int} (h : k.checkDst c a = .ok n) :
    a.callNr = SENDA ∨ (a.callNr = RECEIVE ∧ a.srcDstE = ANY) ∨
      ∃ d, k.isokendpt a.srcDstE = some d ∧ n = procNr d := by
  unfold checkDst at h
  split_ifs at h with h1 h2 h3
  · exact .inl h1
  · cases h
    exact .inr (.inl ⟨by simpa using h3, h2⟩)
  · cases hd : k.isokendpt a.srcDstE with
    | none => rw [hd] at h; cases h
    | some d =>
      rw [hd] at h
      dsimp only at h
      split_ifs at h
      cases h
      exact .inr (.inr ⟨d, rfl, rfl⟩)

theorem checkDst_error {r : Int} (h : k.checkDst c a = .error r) : r ≠ OK := by
  unfold checkDst at h
  split_ifs at h
  · cases h
    decide
  · split at h
    · cases h
      decide
    · split_ifs at h
      cases h
      decide

/-- A call is refused, the search for a deadlock does not end, or the call is performed: to a process that exists, and
with no deadlock. -/
theorem checkedCall_cases (k : State) (c : Slot) (a : CallArgs) :
    (∃ r, r ≠ OK ∧ k.checkedCall c a = (r, k)) ∨ k.checkedCall c a = (OK, k.halt) ∨
      k.checkedCall c a = k.performCall c a ∧
        (a.callNr = SENDA ∨ (a.callNr = RECEIVE ∧ a.srcDstE = ANY) ∨ ∃ d, k.isokendpt a.srcDstE = some d) ∧
        (a.callNr = SEND ∨ a.callNr = SENDREC ∨ a.callNr = RECEIVE → a.srcDstE ≠ ANY →
          ∀ d, k.isokendpt a.srcDstE = some d → k.deadlock a.callNr.toNat c loopFuel 1 (some d) = some 0) := by
  unfold checkedCall
  cases hd : k.checkDst c a with
  | error r => exact .inl ⟨r, checkDst_error hd, rfl⟩
  | ok n =>
    have hdst := checkDst_ok hd
    dsimp only
    split_ifs with h1 h2 h3 h4 h5
    · exact .inl ⟨_, by decide, rfl⟩
    · exact .inl ⟨_, by decide, rfl⟩
    · exact .inl ⟨_, by decide, rfl⟩
    · exact .inl ⟨_, by decide, rfl⟩
    · cases hl : k.deadlock a.callNr.toNat c loopFuel 1 (procAddr n) with
      | none => exact .inr (.inl rfl)
      | some size =>
        dsimp only
        split_ifs with h6
        · exact .inl ⟨_, by decide, rfl⟩
        · refine .inr (.inr ⟨rfl, hdst.imp_right (.imp_right fun ⟨d, h, _⟩ => ⟨d, h⟩), fun _ hany d hd => ?_⟩)
          rcases hdst with h | ⟨-, h⟩ | ⟨d', h, hn⟩
          · rcases h5 with h5 | h5 | h5 <;> rw [h5] at h <;> exact absurd h (by decide)
          · exact absurd h hany
          · rw [hd] at h
            cases h
            rw [hn, procAddr_procNr] at hl
            rw [hl, not_not.mp h6]
    · exact .inr (.inr ⟨rfl, hdst.imp_right (.imp_right fun ⟨d, h, _⟩ => ⟨d, h⟩), fun h => absurd h h5⟩)

end Checks

end State

end Minix.Kernel
