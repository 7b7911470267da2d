import Minix.Kernel.Boot
import Minix.Kernel.Effects
import Minix.Kernel.Leaves
import Minix.Lib.Run

/-!
# Pending notifications that are received

`s_notify_pending` of a process has one bit for each privilege structure. `mini_receive` looks, in each chunk of sixteen
bits, at the lowest bit that is set, and at no other.

* `findNotify_isSome_iff`: the search succeeds exactly if the lowest bit of some chunk belongs to the wanted source.
* `receive_notified`: `RECEIVE` takes a pending notification that it asks for, and clears exactly its bit, if and only
  if the search comes to one of a process.
* `receive_hidden`: a notification whose bit is above another one of its chunk is not seen, and the receiver blocks.
-/

namespace Minix.Kernel

open Minix.Lib List Option

/-! ## The search -/

/-- `i` is the lowest set bit of its chunk. -/
def LowestOf (pending : Finset PrivId) (i : PrivId) : Prop :=
  i ∈ pending ∧ ∀ j ∈ pending, j.val / 16 = i.val / 16 → i ≤ j

instance (pending : Finset PrivId) (i : PrivId) : Decidable (LowestOf pending i) := inferInstanceAs (Decidable (_ ∧ _))

namespace State

variable {pending : Finset PrivId} {i : PrivId} {chunk : Nat} {src : Option Slot} {c : Slot}

theorem lowBit_sound (h : lowBit pending chunk = some i) : i.val / 16 = chunk ∧ i ∈ pending := by
  have := find?_some h
  simpa using this

theorem lowBit_complete (h : i ∈ pending) : ∃ j, lowBit pending (i.val / 16) = some j := by
  have : (lowBit pending (i.val / 16)).isSome := by
    rw [lowBit, find?_isSome]
    exact ⟨i, mem_finRange i, by simp [h]⟩
  exact isSome_iff_exists.mp this

theorem lowBit_minimal {j : PrivId} (h : lowBit pending chunk = some i)
    (hj : j ∈ pending) (hc : j.val / 16 = chunk) : i ≤ j := by
  rw [lowBit, find?_eq_some_iff_getElem] at h
  obtain ⟨-, n, hn, hi, hlt⟩ := h
  simp only [getElem_finRange] at hi hlt
  have hin : i.val = n := by rw [← hi]; rfl
  by_contra hij
  have hjn : j.val < n := by rw [← hin]; exact Fin.not_le.mp hij
  have := hlt j.val hjn
  simp [hc, hj] at this

theorem lowBit_eq_some_iff : lowBit pending chunk = some i ↔ i.val / 16 = chunk ∧ LowestOf pending i := by
  constructor
  · intro h
    obtain ⟨hc, hi⟩ := lowBit_sound h
    exact ⟨hc, hi, fun j hj hjc => lowBit_minimal h hj (hjc.trans hc)⟩
  · rintro ⟨rfl, hi, hmin⟩
    obtain ⟨j, hj⟩ := lowBit_complete hi
    obtain ⟨hjc, hjm⟩ := lowBit_sound hj
    have hji : j = i := le_antisymm (lowBit_minimal hj hi rfl) (hmin j hjm hjc)
    rw [hj, hji]

variable {k : State}

/-- A notification with system id `i` is from the wanted source. -/
def Wanted (k : State) (src : Option Slot) (i : PrivId) : Prop := src = none ∨ (k.priv i).sProcNr = src

theorem findNotify_sound :
    ∀ {cs : List Nat}, k.findNotify pending src cs = some i → LowestOf pending i ∧ k.Wanted src i
  | [], h => by cases h
  | c :: cs, h => by
    unfold findNotify at h
    cases hb : lowBit pending c with
    | none =>
      rw [hb] at h
      exact findNotify_sound h
    | some j =>
      rw [hb] at h
      dsimp only at h
      split at h
      next => exact findNotify_sound h
      next hw =>
        obtain rfl := some.inj h
        refine ⟨(lowBit_eq_some_iff.mp hb).2, ?_⟩
        by_cases hs : src = none
        · exact .inl hs
        · exact .inr (by_contra fun hne => hw ⟨isSome_iff_ne_none.mpr hs, hne⟩)

theorem findNotify_complete (hi : LowestOf pending i)
    (hw : k.Wanted src i) : ∀ {cs : List Nat}, i.val / 16 ∈ cs → ∃ j, k.findNotify pending src cs = some j
  | [], h => by cases h
  | c :: cs, h => by
    unfold findNotify
    cases hb : lowBit pending c with
    | none =>
      have hc : i.val / 16 ≠ c := by
        rintro rfl
        rw [lowBit_eq_some_iff.mpr ⟨rfl, hi⟩] at hb
        cases hb
      exact findNotify_complete hi hw ((mem_cons.mp h).resolve_left hc)
    | some j =>
      dsimp only
      split
      next hne =>
        -- the bit of this chunk is not from the source, so that it is not `i`
        have hc : i.val / 16 ≠ c := by
          rintro rfl
          rw [lowBit_eq_some_iff.mpr ⟨rfl, hi⟩] at hb
          obtain rfl := some.inj hb
          rcases hw with rfl | hw
          · simp at hne
          · exact hne.2 hw
        exact findNotify_complete hi hw ((mem_cons.mp h).resolve_left hc)
      next => exact ⟨j, rfl⟩

/-- The search finds a notification exactly if the lowest bit of a chunk is from the wanted source. -/
theorem findNotify_isSome_iff :
    (∃ i, k.findNotify pending src [0, 1] = some i) ↔ ∃ i, LowestOf pending i ∧ k.Wanted src i := by
  constructor
  · rintro ⟨i, h⟩
    exact ⟨i, findNotify_sound h⟩
  · rintro ⟨i, hi, hw⟩
    refine findNotify_complete hi hw ?_
    have := i.isLt
    simp only [mem_cons, not_mem_nil, or_false]
    omega

theorem exists_lowestOf (h : pending.Nonempty) : ∃ i, LowestOf pending i := by
  obtain ⟨i, hi⟩ := h
  obtain ⟨j, hj⟩ := lowBit_complete hi
  exact ⟨j, (lowBit_eq_some_iff.mp hj).2⟩

/-! ## The notification is taken -/

/-- The notification of `src` with system id `i` has been handed to `c`, and no other bit of any map was cleared. -/
structure Notified (k : State) (c src : Slot) (i : PrivId) (k' : State) : Prop where
  pending : ∀ j, (k'.priv j).sNotifyPending =
    if j = (k.proc c).pPriv then (k.priv j).sNotifyPending.erase i else (k.priv j).sNotifyPending
  flags : ∀ p, (k'.proc p).pRtsFlags = (k.proc p).pRtsFlags
  source : (k'.proc c).pDelivermsg.mSource = (k.proc src).pEndpoint
  type : (k'.proc c).pDelivermsg.mType = (0x1000 ||| (src : Nat) : Nat)
  deliver : .delivermsg ∈ (k'.proc c).pMiscFlags
  log : k'.log = k.log ++ [.handed .notify src c (k'.proc c).pDelivermsg]

theorem buildNotifyMessage_spec (s d : Slot) : (k.buildNotifyMessage s d).1.mType = (0x1000 ||| (s : Nat) : Nat) ∧
    (k.buildNotifyMessage s d).2.proc = k.proc ∧ (k.buildNotifyMessage s d).2.log = k.log := by
  simp only [buildNotifyMessage]
  split_ifs <;> exact ⟨rfl, rfl, rfl⟩

theorem sNotifyPending_modPriv {f : Priv → Priv}
    (hf : (f (k.priv i)).sNotifyPending = (k.priv i).sNotifyPending) (j : PrivId) :
    ((k.modPriv i f).priv j).sNotifyPending = (k.priv j).sNotifyPending := by
  by_cases hj : j = i
  · subst hj; simpa [modPriv] using hf
  · simp [modPriv, hj]

theorem buildNotifyMessage_pending (s d : Slot) (j : PrivId) :
    ((k.buildNotifyMessage s d).2.priv j).sNotifyPending = (k.priv j).sNotifyPending := by
  simp only [buildNotifyMessage]
  split
  · exact sNotifyPending_modPriv (f := fun r => { r with sIntPending := 0 }) rfl j
  · split
    · exact sNotifyPending_modPriv (f := fun r => { r with sSigPending := 0 }) rfl j
    · rfl

theorem takeNotify_notified {src : Slot} (hi : (k.priv i).sProcNr = some src) :
    Notified k c src i (k.takeNotify c i) := by
  -- the state with the bit cleared; the owner of `i` is the same in it
  let k1 := k.modPriv (k.proc c).pPriv fun r => { r with sNotifyPending := r.sNotifyPending.erase i }
  have hsrc : (k1.priv i).sProcNr = some src := by
    by_cases h : i = (k.proc c).pPriv
    · subst h; simpa [k1, modPriv] using hi
    · simpa [k1, modPriv, h] using hi
  have hk : k.takeNotify c i = (k1.buildNotifyMessage src c).2.hand .notify src c (k1.buildNotifyMessage src c).1 := by
    unfold takeNotify
    dsimp only
    rw [show (State.priv _ i).sProcNr = some src from hsrc]
  obtain ⟨htype, hproc, hlog⟩ : _ ∧ _ = k.proc ∧ _ = k.log := buildNotifyMessage_spec (k := k1) src c
  rw [hk]
  refine ⟨fun j => ?_, fun p => ?_, ?_, ?_, ?_, ?_⟩
  · refine (buildNotifyMessage_pending src c j).trans ?_
    by_cases h : j = (k.proc c).pPriv
    · subst h; simp [k1, modPriv]
    · simp [k1, modPriv, h]
  · by_cases h : p = c
    · subst h; simp [hand, queueMess, modProc, record, hproc]
    · simp [hand, queueMess, modProc, record, hproc, h]
  · simp [hand, queueMess, modProc, record, hproc]
  · simp [hand, queueMess, modProc, record, htype]
  · simp [hand, queueMess, modProc, record]
  · simp [hand, queueMess, modProc, record, hlog]

/-! ## Receiving -/

/-- The pending notifications of process `c`. -/
def pendingOf (k : State) (c : Slot) : Finset PrivId := (k.priv (k.proc c).pPriv).sNotifyPending

/-- No pending notification is taken away. -/
def PendingGrows (k k' : State) : Prop := ∀ i, (k.priv i).sNotifyPending ⊆ (k'.priv i).sNotifyPending

namespace PendingGrows

variable {k' k'' : State}

theorem trans (h : PendingGrows k k') (h' : PendingGrows k' k'') : PendingGrows k k'' := fun i => (h i).trans (h' i)

theorem of_priv (h : k'.priv = k.priv) : PendingGrows k k' := fun i => by rw [h]

theorem of_moves (h : Moves none k k') : PendingGrows k k' := fun i => h.leaves.pending i nofun

/-- The functions for asynchronous messages do not touch notifications. -/
theorem of_asynMoves {a : Option Slot} (h : AsynMoves a k k') : PendingGrows k k' := by
  induction h with
  | refl => exact of_priv rfl
  | tail _ hm ih =>
    refine ih.trans ?_
    cases hm with
    | unregister i => exact of_moves (.one (.unregister i))
    | wake i s d m hw ha => exact of_moves (.one (.wake (.asyn i) s d m hw ha nofun))
    | _ => exact of_priv rfl

theorem receiveBlock (c : Slot) (e : Endpoint) (nb : Bool) : PendingGrows k (k.receiveBlock c e nb).2 := by
  unfold State.receiveBlock State.rtsSet
  split_ifs <;> exact of_priv rfl

theorem takeQueued (c q : Slot) (x : Loc Slot) : PendingGrows k (k.takeQueued c q x) := by
  unfold State.takeQueued
  have h : PendingGrows k (k.hand .send q c (k.proc q).pSendmsg) := of_priv rfl
  refine .trans (.trans ?_ (of_moves (Moves.rtsUnset none _ q (by decide)))) (of_moves (Moves.storeQ none _ _ _ _))
  split_ifs
  · exact h.trans (of_moves (Moves.sigDelayDone none _ _))
  · exact h

theorem receiveAsyn (c : Slot) (e : Endpoint) (src : Option Slot) (io : TableIo) (nb : Bool) :
    PendingGrows k (k.receiveAsyn c e src io nb).2 := by
  unfold State.receiveAsyn
  split_ifs
  · exact receiveBlock c _ _
  cases src with
  | some q =>
    have h := of_asynMoves (AsynMoves.tryOne k c q io false)
    dsimp only
    split_ifs
    · exact h
    · exact h.trans (receiveBlock c _ _)
  | none =>
    have h := of_asynMoves (AsynMoves.tryAsync k c io)
    dsimp only
    split_ifs
    · exact h
    · exact h.trans (receiveBlock c _ _)

end PendingGrows

section

variable (srcE : Endpoint) (io : TableIo) (nb : Bool) (hs : k.rtsIsset c .sending = false)

include hs

/-- If the search finds nothing, then no notification is received. -/
theorem receiveFrom_unseen (h : k.findNotify (k.pendingOf c) src [0, 1] = none) :
    PendingGrows k (k.receiveFrom c srcE src io nb).2 := by
  unfold receiveFrom
  unfold pendingOf at h
  rw [hs, if_neg Bool.false_ne_true, h, ite_self]
  dsimp only
  split
  · exact .of_priv rfl
  · split
    · exact .takeQueued c _ _
    · exact .receiveAsyn c _ _ _ _

/-- `RECEIVE` takes the notification that the search finds. -/
theorem receiveFrom_seen (hr : k.mf c .replyPend = false) {i : PrivId}
    (h : k.findNotify (k.pendingOf c) src [0, 1] = some i) :
    k.receiveFrom c srcE src io nb = (OK, k.takeNotify c i) := by
  unfold pendingOf at h
  rw [receiveFrom, hs, hr]
  simp only [Bool.false_eq_true, if_false, h]

end

/-- A notification of `p` is received, which is `srcE` unless that is `ANY`, and exactly its bit is cleared. -/
def Receives (k : State) (c : Slot) (srcE : Endpoint) (r : Int × State) : Prop :=
  ∃ i p k', r = (OK, k') ∧ i ∈ k.pendingOf c ∧ (k.priv i).sProcNr = some p ∧
    (srcE ≠ ANY → (k.proc p).pEndpoint = srcE) ∧
    Notified k c p i k'

theorem not_receives_of_grows {srcE : Endpoint} {r : Int × State} (h : PendingGrows k r.2) : ¬ k.Receives c srcE r := by
  rintro ⟨i, p, k', rfl, hi, -, -, hn⟩
  have := h _ hi
  rw [hn.pending, if_pos rfl] at this
  exact Finset.notMem_erase i _ this

/-- A notification for which there is no process stops the kernel. -/
theorem not_receives_of_free {srcE : Endpoint} (h : (k.priv i).sProcNr = none) :
    ¬ k.Receives c srcE (OK, k.takeNotify c i) := by
  rintro ⟨j, p, k', hk, -, -, -, hn⟩
  obtain rfl := (Prod.mk.inj hk).2
  have hlog : (k.takeNotify c i).log = k.log := by
    have hnone :
        ((k.modPriv (k.proc c).pPriv fun r => { r with sNotifyPending := r.sNotifyPending.erase i }).priv i).sProcNr =
        none := by
      by_cases hc : i = (k.proc c).pPriv
      · subst hc
        simpa [modPriv] using h
      · simpa [modPriv, hc] using h
    unfold takeNotify
    dsimp only
    rw [hnone]
    rfl
  have := congrArg List.length (hn.log.symm.trans hlog)
  simp at this

/-- There is a notification that `RECEIVE` from `srcE` asks for: one of any process, or the one of a process. -/
def Asked (k : State) (c : Slot) (srcE : Endpoint) : Prop :=
  (srcE = ANY ∧ (k.pendingOf c).Nonempty) ∨
  (srcE ≠ ANY ∧ ∃ src, k.isokendpt srcE = some src ∧ k.rtsIsset src .noEndpoint = false ∧
    (k.proc src).pPriv ∈ k.pendingOf c)

/-- The search of `mini_receive` comes to a notification of a process that is asked for: the lowest bit is that of a
process if any will do, and else the lowest bit of a chunk is that of the process. -/
def Seen (k : State) (c : Slot) (srcE : Endpoint) : Prop :=
  (srcE = ANY → ∀ i ∈ k.pendingOf c, (∀ j ∈ k.pendingOf c, i ≤ j) → (k.priv i).sProcNr ≠ none) ∧
  ∀ src, srcE ≠ ANY → k.isokendpt srcE = some src → ∃ i, LowestOf (k.pendingOf c) i ∧ (k.priv i).sProcNr = some src

/-- The search for any notification finds the lowest bit. -/
theorem findNotify_any (h : k.findNotify pending none [0, 1] = some i) : i ∈ pending ∧ ∀ j ∈ pending, i ≤ j := by
  have hi := (findNotify_sound h).1
  refine ⟨hi.1, fun j hj => ?_⟩
  by_cases hc : j.val / 16 = i.val / 16
  · exact hi.2 j hj hc
  · -- the search has passed the chunk of `j`, if that is the first one
    have hj2 := j.isLt
    have hi2 := i.isLt
    by_contra hlt
    have hlt : j.val < i.val := by simpa using hlt
    have hj0 : j.val / 16 = 0 := by omega
    obtain ⟨l, hl⟩ := lowBit_complete hj
    rw [hj0] at hl
    rw [findNotify, hl] at h
    obtain rfl : l = i := by simpa using h
    exact hc (hj0.trans (lowBit_sound hl).1.symm)

theorem notified_buffer_iff {src : Slot} {f : Proc → Proc} {k' : State}
    (h : ∀ p, ((k.modProc c f).proc p).pPriv = (k.proc p).pPriv ∧
      ((k.modProc c f).proc p).pEndpoint = (k.proc p).pEndpoint ∧
      ((k.modProc c f).proc p).pRtsFlags = (k.proc p).pRtsFlags) :
    Notified (k.modProc c f) c src i k' ↔ Notified k c src i k' := by
  constructor
  · intro hn
    refine ⟨fun j => ?_, fun p => (hn.flags p).trans (h p).2.2, hn.source.trans (h src).2.1, hn.type,
      hn.deliver, hn.log⟩
    rw [hn.pending j, (h c).1]
    rfl
  · intro hn
    refine ⟨fun j => ?_, fun p => (hn.flags p).trans (h p).2.2.symm, hn.source.trans (h src).2.1.symm, hn.type,
      hn.deliver, hn.log⟩
    rw [hn.pending j, (h c).1]
    rfl

theorem receiveFrom_any (io : TableIo) (nb : Bool) (hs : k.rtsIsset c .sending = false) (hr : k.mf c .replyPend = false)
    (hne : (k.pendingOf c).Nonempty) : k.Receives c ANY (k.receiveFrom c ANY none io nb) ↔ k.Seen c ANY := by
  obtain ⟨i, hi⟩ := exists_lowestOf hne
  obtain ⟨i, hi⟩ := findNotify_isSome_iff.mpr ⟨i, hi, .inl rfl⟩
  obtain ⟨hmem, hmin⟩ := findNotify_any hi
  rw [receiveFrom_seen ANY io nb hs hr hi]
  constructor
  · refine fun h => ⟨fun _ j hj hjmin hnone => ?_, fun _ h => absurd rfl h⟩
    obtain rfl : i = j := le_antisymm (hmin j hj) (hjmin i hmem)
    exact not_receives_of_free hnone h
  · intro h
    obtain ⟨p, hp⟩ := ne_none_iff_exists'.mp (h.1 rfl i hmem hmin)
    exact ⟨i, p, _, rfl, hmem, hp, fun h => absurd rfl h, takeNotify_notified hp⟩

theorem receiveFrom_one {srcE : Endpoint} (io : TableIo) (nb : Bool) (hs : k.rtsIsset c .sending = false)
    (hr : k.mf c .replyPend = false) (hany : srcE ≠ ANY) {q : Slot} (hq : k.isokendpt srcE = some q) :
    k.Receives c srcE (k.receiveFrom c srcE (some q) io nb) ↔ k.Seen c srcE := by
  have hseen : k.Seen c srcE ↔ ∃ i, LowestOf (k.pendingOf c) i ∧ k.Wanted (some q) i := by
    constructor
    · intro h
      obtain ⟨i, hi, hown⟩ := h.2 q hany hq
      exact ⟨i, hi, .inr hown⟩
    · rintro ⟨i, hi, hw⟩
      refine ⟨fun h => absurd h hany, fun src _ hsrc => ⟨i, hi, ?_⟩⟩
      rw [hq] at hsrc
      rw [← hsrc]
      exact hw.resolve_left (by simp)
  rw [hseen, ← findNotify_isSome_iff]
  constructor
  · intro h
    by_contra hnone
    refine not_receives_of_grows (receiveFrom_unseen srcE io nb hs ?_) h
    exact eq_none_iff_forall_ne_some.mpr fun i hi => hnone ⟨i, hi⟩
  · rintro ⟨i, hi⟩
    obtain ⟨hlow, hw⟩ := findNotify_sound hi
    have hown : (k.priv i).sProcNr = some q := hw.resolve_left (by simp)
    rw [receiveFrom_seen srcE io nb hs hr hi]
    exact ⟨i, q, _, rfl, hlow.1, hown, fun _ => (isokendpt_some hq).2, takeNotify_notified hown⟩

/-- **`RECEIVE` takes a pending notification** that it asks for and clears exactly its bit, whatever other bits are set,
if and only if the search comes to one. -/
theorem receive_notified {c : Slot} {srcE : Endpoint} (buf : MsgBuf) (io : TableIo) (nb : Bool)
    (hs : k.rtsIsset c .sending = false) (hr : k.mf c .replyPend = false) (hb : buf.lin ≠ 0) (ha : k.Asked c srcE) :
    k.Receives c srcE (k.miniReceive c srcE buf io nb) ↔ k.Seen c srcE := by
  -- the state with the buffer of the caller
  let f : Proc → Proc := fun r => { r with pDelivermsgLin := buf.lin, pDelivermsgVir := buf.vir }
  have hview : (k.modProc c f).view = k.view := view_same ⟨rfl, Iff.rfl, Iff.rfl⟩
  have hproc (p : Slot) : ((k.modProc c f).proc p).pPriv = (k.proc p).pPriv ∧
      ((k.modProc c f).proc p).pEndpoint = (k.proc p).pEndpoint ∧
      ((k.modProc c f).proc p).pRtsFlags = (k.proc p).pRtsFlags := by
    by_cases h : p = c
    · subst h
      simp [modProc, f]
    · simp [modProc, h]
  have hpend : (k.modProc c f).pendingOf c = k.pendingOf c := by
    unfold pendingOf
    rw [(hproc c).1]
    rfl
  have hok : (k.modProc c f).isokendpt srcE = k.isokendpt srcE := isokendpt_congr hview srcE
  have hseen : (k.modProc c f).Seen c srcE ↔ k.Seen c srcE := by
    unfold Seen
    rw [hpend, hok]
    rfl
  have hrec (r : Int × State) : (k.modProc c f).Receives c srcE r ↔ k.Receives c srcE r := by
    unfold Receives
    rw [hpend]
    refine exists_congr fun i => exists_congr fun p => exists_congr fun k' => and_congr_right fun _ =>
      and_congr_right fun _ =>
      and_congr_right fun _ => and_congr (by rw [(hproc p).2.1]) ?_
    exact notified_buffer_iff hproc
  have hs1 : (k.modProc c f).rtsIsset c .sending = false := by rw [rtsIsset, (hproc c).2.2]; exact hs
  have hr1 : (k.modProc c f).mf c .replyPend = false := by simpa [mf, f, modProc] using hr
  rw [← hrec, ← hseen, miniReceive, if_neg hb]
  rcases ha with ⟨rfl, hne⟩ | ⟨hany, src, hsrc, hend, -⟩
  · exact receiveFrom_any io nb hs1 hr1 (by rwa [hpend])
  · have hend1 : (k.modProc c f).rtsIsset src .noEndpoint = false := by rw [rtsIsset, (hproc src).2.2]; exact hend
    rw [← hok] at hsrc
    rw [if_neg hany]
    rw [show State.isokendpt _ srcE = some src from hsrc]
    dsimp only
    rw [show State.rtsIsset _ src .noEndpoint = false from hend1, if_neg Bool.false_ne_true]
    exact receiveFrom_one io nb hs1 hr1 hany hsrc

end State

/-! ## Two notifications of one chunk -/

/-- PM notifies VFS, and then RS. -/
def notifyTwice : List Op := [plainCall PM NOTIFY (procNr VFS), plainCall RS NOTIFY (procNr VFS)]

/-- `mini_receive` by VFS with a valid message buffer. -/
def State.vfsReceives (k : State) (e : Endpoint) (nonBlocking : Bool) : Int × State :=
  k.miniReceive VFS e ⟨0, 1, some {}⟩ (fun _ _ _ => true) nonBlocking

/-- VFS receives the notification of PM, whose bit is the lowest. -/
theorem receive_notified_PM : ∃ k, run State.step notifyTwice sixState = some k ∧
    k.Receives VFS (procNr PM) (k.vfsReceives (procNr PM) false) := by
  obtain ⟨k, hk, hs, hr, hok, hend, hown, hlow⟩ : ∃ k, run State.step notifyTwice sixState = some k ∧
      k.rtsIsset VFS .sending = false ∧ k.mf VFS .replyPend = false ∧ k.isokendpt (procNr PM) = some PM ∧
      k.rtsIsset PM .noEndpoint = false ∧ (k.priv (k.proc PM).pPriv).sProcNr = some PM ∧
      LowestOf (k.pendingOf VFS) (k.proc PM).pPriv := by decide +kernel
  refine ⟨k, hk, (State.receive_notified ⟨0, 1, some {}⟩ (fun _ _ _ => true) false hs hr (by decide)
    (.inr ⟨by decide, PM, hok, hend, hlow.1⟩)).mpr ⟨fun h => absurd h (by decide), fun src _ hsrc => ⟨_, hlow, ?_⟩⟩⟩
  rw [hok] at hsrc
  rw [hown, hsrc]

/-- The notification of RS is pending and VFS does not wait for a reply, but `RECEIVE` from RS blocks VFS, or returns
`ENOTREADY`: the bit of PM is in the same chunk and lower. -/
theorem receive_hidden : ∃ k, run State.step notifyTwice sixState = some k ∧ k.runnable VFS = true ∧
    k.mf VFS .replyPend = false ∧ k.isokendpt (procNr RS) = some RS ∧ (k.proc RS).pPriv ∈ k.pendingOf VFS ∧
    (k.priv (k.proc RS).pPriv).sProcNr = some RS ∧
    (k.vfsReceives (procNr RS) false).2.rtsIsset VFS .receiving = true ∧
    (k.vfsReceives (procNr RS) false).2.mf VFS .delivermsg = false ∧
    (k.vfsReceives (procNr RS) true).1 = ENOTREADY := by
  decide +kernel

end Minix.Kernel
