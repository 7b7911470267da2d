import Minix.Kernel.CallerQ
import Minix.Kernel.Moves

/-!
# What the kernel's functions do to the view

One lemma for each function of message passing, under the invariant `View.Good`: `miniNotify_view`, `causeSig_view`,
`miniSend_view`, `tryOne_view`, `miniReceive_view`, `miniSenda_eases`, and `performCall_view` for the whole call. They
say everything a system call can do, so that no later proof unfolds these functions.
-/

namespace Minix.Kernel

open Minix.Lib Function

namespace View

/-- `d` is waiting for a message from `e`, and not sending. -/
def Waits (v : View) (d : Slot) (e : Endpoint) : Prop :=
  v.receiving d = true ∧ v.sending d = false ∧ (v.getfrom d = ANY ∨ v.getfrom d = e)

/-- A message of `s` is handed to the waiting process `d`. -/
def wake (v : View) (via : Via) (s d : Slot) (m : Message) : View := (v.handTo via s d m).unrecv d

/-- The notification of `s` to the process with endpoint `e` may have been handed to it, if it was waiting. -/
def Notifies (v : View) (s : Slot) (e : Endpoint) (v' : View) : Prop :=
  v' = v ∨ ∃ d m, v.endpoint d = e ∧ v.Waits d (v.endpoint s) ∧ v' = v.wake .notify s d m

/-- What `mini_send` from `c` to `d` can do: fail, hand the message over at once, or put `c` into the queue of `d`
unless it must not block. The message is what was read from the buffer. -/
inductive SendRes (v : View) (c d : Slot) (data : Option Message) (nb : Bool) : Int → View → Prop
  | failed {r : Int} (hr : r ≠ OK) : SendRes v c d data nb r v
  | direct {m : Message} (hm : data = some m) (hd : v.live d) (hw : v.Waits d (v.endpoint c)) :
      SendRes v c d data nb OK ((v.record (.called c d m)).wake .send c d m)
  | queued {m : Message} {l : List Slot} (hm : data = some m) (hnb : nb = false) (hd : v.live d)
      (hw : ¬ v.Waits d (v.endpoint c)) (hq : v.IsQueue d l) : SendRes v c d data nb OK (v.block c d m (Loc.after l))

variable {v v' : View}

theorem Eases.wake (v : View) {via : Via} (hv : via ≠ .send) (s d : Slot) (m : Message) : v.Eases (v.wake via s d m) :=
  (Eases.handTo v hv s d m).trans (Eases.unrecv _ d)

theorem Notifies.eases {s : Slot} {e : Endpoint} (h : v.Notifies s e v') : v.Eases v' := by
  rcases h with h | ⟨d, m, -, -, h⟩
  · exact .of_eq h
  · rw [h]
    exact .wake v (by simp) _ _ _

end View

namespace State

variable {k : State} {e : Endpoint} {d : Slot}

/-! ## Endpoints -/

theorem isokendpt_iff : k.isokendpt e = some d ↔
    procAddr (endpointP e) = some d ∧ k.view.empty d = false ∧ k.view.endpoint d = e := by
  unfold isokendpt
  cases h : procAddr (endpointP e) with
  | none => simp
  | some p =>
    dsimp only
    split_ifs with h1 h2
    · refine ⟨nofun, ?_⟩
      rintro ⟨h3, h4, _⟩
      cases h3
      rw [show k.view.empty d = true from h1] at h4
      cases h4
    · refine ⟨nofun, ?_⟩
      rintro ⟨h3, _, h4⟩
      cases h3
      exact absurd h4 h2
    · constructor
      · rintro ⟨⟩
        exact ⟨rfl, by simpa [State.view, isemptyp] using h1, by simpa [State.view] using h2⟩
      · rintro ⟨h3, _⟩
        exact h3

theorem isokendpt_some (h : k.isokendpt e = some d) :
    k.view.empty d = false ∧ k.view.endpoint d = e := (isokendpt_iff.mp h).2

theorem isokendpt_congr {k' : State} (h : k'.view = k.view) (e : Endpoint) : k'.isokendpt e = k.isokendpt e :=
  Option.ext fun d => by rw [isokendpt_iff, isokendpt_iff, h]

theorem isokendpt_endpoint (hg : k.view.Good) (hd : k.view.free d = false) :
    k.isokendpt (k.view.endpoint d) = some d :=
  isokendpt_iff.mpr ⟨by rw [hg.endpointP, procAddr_procNr], by rwa [← hg.free_eq], rfl⟩

theorem isokendpt_free (hg : k.view.Good) (h : k.isokendpt e = some d) : k.view.free d = false := by
  rw [hg.free_eq]
  exact (isokendpt_some h).1

theorem willReceive_iff : k.willReceive d e = true ↔ k.view.Waits d e := by
  simp [willReceive, View.Waits, State.view, rtsIsset, and_assoc]

/-! ## Notifications and signals -/

@[simp] theorem view_buildNotifyMessage (s d : Slot) : (k.buildNotifyMessage s d).2.view = k.view := by
  unfold buildNotifyMessage
  split_ifs
  · dsimp only
    exact view_same_priv rfl
  · dsimp only
    exact view_same_priv rfl
  · rfl

/-- `mini_notify` may hand a notification to a waiting process. -/
theorem miniNotify_view (hg : k.view.Good) (c : Slot) (e : Endpoint) :
    k.view.Notifies c e (k.miniNotify c e).2.view := by
  unfold miniNotify
  cases hd : k.isokendpt e with
  | none => exact .inl rfl
  | some d =>
    dsimp only
    split_ifs with h
    · rw [Bool.and_eq_true] at h
      refine .inr ⟨d, (k.buildNotifyMessage c d).1, (isokendpt_some hd).2, willReceive_iff.mp h.1, ?_⟩
      rw [view_rtsUnset_receiving]
      · simp [View.wake]
      · simpa [View.handTo] using isokendpt_free hg hd
    · dsimp only
      exact .inl (view_same_priv rfl)

theorem sendSig_view (hg : k.view.Good) (p : Slot) (sig : Nat) :
    k.view.Notifies SYSTEM (k.view.endpoint p) (k.sendSig p sig).view := by
  unfold sendSig
  split_ifs
  · exact .inl rfl
  · set k' := k.modPriv (k.proc p).pPriv fun r => { r with sSigPending := r.sSigPending ||| 2 ^ sig } with hk
    have hv : k'.view = k.view := view_same_priv rfl
    have := miniNotify_view (by rwa [hv]) SYSTEM (k'.proc p).pEndpoint
    rwa [hv] at this

theorem causeSig_view {v : View} (hk : k.view = v) (hg : v.Good) {p : Slot} (hp : v.free p = false) (sig : Nat) :
    v.Notifies SYSTEM (v.endpoint PM) (k.causeSig p sig).view := by
  subst hk
  unfold causeSig
  split_ifs
  · exact .inl rfl
  · exact .inl rfl
  · dsimp only
    set k' := k.modProc p fun r => { r with pPending := r.pPending ||| 2 ^ sig }
    have hv : k'.view = k.view := view_same ⟨rfl, by simp, by simp⟩
    split_ifs
    · exact .inl hv
    · have hq : (k'.rtsSet p {.signaled, .sigPending}).view = k.view := by
        rw [view_rtsSet_quiet (by rwa [hv]) (by simp), hv]
      have := sendSig_view (by rwa [hq]) PM SIGKSIG
      rwa [hq] at this

theorem sigDelayDone_view (hg : k.view.Good) {p : Slot} (hp : k.view.free p = false) :
    k.view.Notifies SYSTEM (k.view.endpoint PM) (k.sigDelayDone p).view :=
  causeSig_view (view_same ⟨rfl, by simp, by simp⟩) hg hp SIGNDELAY

theorem view_send {c : Slot} (hc : k.view.free c = false) (e : Endpoint) (m : Message) :
    (((k.modProc c fun r => { r with pSendmsg := m }).rtsSet c {.sending}).modProc c
      fun r => { r with pSendtoE := e }).view = k.view.send c e m := by
  rw [view_sendto, view_rtsSet_sending (by rwa [view_sendmsg]), view_sendmsg]
  rfl

theorem miniSend_view (hg : k.view.Good) {c : Slot} (hc : k.view.live c)
    (hd : k.isokendpt e = some d) (buf : MsgBuf) (nb : Bool) :
    k.view.SendRes c d buf.data nb (k.miniSend c e buf nb).1 (k.miniSend c e buf nb).2.view := by
  have hfree := isokendpt_free hg hd
  unfold miniSend
  rw [(isokendpt_iff.mp hd).1]
  dsimp only
  split_ifs with h1 h2 h3 h4
  · exact .failed (show EFAULT ≠ OK by decide)
  · exact .failed (show EDSTDIED ≠ OK by decide)
  · cases hb : buf.data with
    | none => exact .failed (show EFAULT ≠ OK by decide)
    | some m =>
      have hl : k.view.live d := ⟨hfree, by simpa [State.view, rtsIsset] using h2⟩
      rw [view_rtsUnset_receiving (by simpa [View.handTo, View.record] using hfree)]
      simpa [View.wake] using View.SendRes.direct rfl hl (willReceive_iff.mp h3)
  · exact .failed (show ENOTREADY ≠ OK by decide)
  · cases hb : buf.data with
    | none => exact .failed (show EFAULT ≠ OK by decide)
    | some m =>
      have hl : k.view.live d := ⟨hfree, by simpa [State.view, rtsIsset] using h2⟩
      obtain ⟨l, hq⟩ := hg.queue d hl
      have hv := view_send hc.1 e m
      dsimp only
      set k' := ((k.modProc c fun r => { r with pSendmsg := m }).rtsSet c {.sending}).modProc c
        fun r => { r with pSendtoE := e }
      have hscan : scan (k'.proc d).pCallerQ k'.qLink (fun _ => false) loopFuel .head = some (Loc.after l) := by
        have hch : Chain k'.view.qLink (k'.view.callerQ d) (l ++ []) := by
          rw [hv, List.append_nil]
          exact hq.chain
        exact scan_head hch (fun _ _ => rfl) (by simp) hq.length_lt
      rw [hscan]
      rw [view_record, view_qLink, view_storeQ, hv]
      have he : e = k.view.endpoint d := (isokendpt_some hd).2.symm
      subst he
      exact View.SendRes.queued rfl (by simpa using h4) hl (fun h => h3 (willReceive_iff.mpr h)) hq

/-! ## Tables of asynchronous messages -/

theorem view_asynmsg_set (d : Slot) :
    (k.modProc d fun r => { r with pMiscFlags := r.pMiscFlags ∪ {.asynmsg} }).view =
      { k.view with asyn := update k.view.asyn d true } := by
  simp only [State.view, modProc]
  congr 1 <;> funext q <;> by_cases hq : q = d <;> simp [hq]

theorem view_asynmsg_clear (d : Slot) :
    (k.modProc d fun r => { r with pMiscFlags := r.pMiscFlags \ {.asynmsg} }).view =
      { k.view with asyn := update k.view.asyn d false } := by
  simp only [State.view, modProc]
  congr 1 <;> funext q <;> by_cases hq : q = d <;> simp [hq]

theorem setTable_eases (i : PrivId) (t n : Nat) : k.view.Eases (k.setTable i t n).view :=
  .quiet rfl rfl rfl

theorem submitTable_eases (c : Slot) (size : Nat) (table : Nat → AsynMsg) :
    k.view.Eases (k.submitTable c size table).view :=
  .of_log rfl rfl rfl fun x hx => by rw [List.mem_singleton.mp hx]; rfl

theorem AsynMove.eases {k' : State} (h : AsynMove none k k') (hg : k.view.Good) :
    k.view.Eases k'.view := by
  cases h with
  | entry p i hf => exact .quiet rfl rfl rfl
  | failed p i =>
    rw [view_record]
    exact .record _ rfl
  | unregister i => exact .quiet rfl rfl rfl
  | mark p =>
    rw [view_asynmsg_set]
    exact .quiet rfl rfl rfl
  | wake i s d m hw ha =>
    have hd := hg.live_of_receiving (willReceive_iff.mp hw).1
    rw [view_rtsUnset_receiving (by simpa [View.handTo] using hd.1), view_hand]
    exact .wake _ (by simp) _ _ _

theorem AsynMoves.eases {k' : State} (h : AsynMoves none k k') (hg : k.view.Good) :
    k.view.Eases k'.view := by
  induction h with
  | refl => exact .refl _
  | tail _ hm ih => exact ih.trans (hm.eases (hg.eases ih))

theorem sendaScan_eases (hg : k.view.Good) (c : Slot) (a : CallArgs) (size : Nat) :
    k.view.Eases (k.sendaScan c a size).2.view := by
  have h := (AsynMoves.sendaLoop c a.io (List.range size) true k).eases hg
  unfold sendaScan
  dsimp only
  split_ifs
  · exact h
  · exact h
  · exact h.trans (setTable_eases ..)

theorem miniSenda_eases (hg : k.view.Good) (c : Slot) (a : CallArgs) (size : Nat) :
    k.view.Eases (k.miniSenda c a size).2.view := by
  have h := setTable_eases (k := k) (k.proc c).pPriv (2 ^ 32 - 1) 0
  unfold miniSenda
  split_ifs
  · exact h
  · exact h
  · exact h
  · have h' := h.trans (submitTable_eases c size a.table)
    exact h'.trans (sendaScan_eases (hg.eases h') ..)
  · exact .refl _

end State

/-! ## Searching the tables -/

/-- An entry that is valid and not done. -/
def AsynMsg.Open (e : AsynMsg) : Prop :=
  e.flags ≠ 0 ∧ State.badFlags e.flags = false ∧ e.flags.testBit State.amfDone = false

instance (e : AsynMsg) : Decidable e.Open := inferInstanceAs (Decidable (_ ∧ _))

/-- The entry with its result, marked done. -/
def AsynMsg.finish (e : AsynMsg) (r : Int) : AsynMsg := { e with result := r, flags := State.setDone e.flags }

/-- The accesses that a search makes to look at an entry. -/
def State.Reads (io : TableIo) (p : Slot) : Prop :=
  ∀ i, io p i .getFlags = true ∧ io p i .getDst = true ∧ io p i .getMsg = true

/-- Writing to tables does not fail. -/
def State.Writes (io : TableIo) : Prop := ∀ p i, io p i .putResult = true ∧ io p i .putFlags = true

namespace View

/-- `may_send_to(p, d)`. -/
def MaySend (v : View) (p d : Slot) : Prop := v.privId d ∈ v.ipcTo (v.privId p)

/-- A table is forgotten. -/
def unregister (v : View) (j : PrivId) : View := { v with asynsize := update v.asynsize j 0 }

/-- The receiver has seen all messages for it. -/
def forgetAsyn (v : View) (d : Slot) : View := { v with asyn := update v.asyn d false }

/-- The message of entry `i` of `p` is handed to `d`, and the entry is done. -/
def deliverEntry (v : View) (p d : Slot) (i : Nat) : View :=
  { v.handTo (.asyn i) p d (v.tab p i).msg with
    tab := update v.tab p (update (v.tab p) i ((v.tab p i).finish OK)) }

/-- Entries of `src` that are open and for `dst`. -/
def Wanted (v : View) (src dst : Slot) (i : Nat) : Prop := (v.tab src i).Open ∧ (v.tab src i).dst = v.endpoint dst

/-- The first entry of `is` that is wanted, apart from those that can wait until `dst` has a reply. -/
def Due (v : View) (src dst : Slot) (is : List Nat) (i : Nat) : Prop :=
  ∃ l r, is = l ++ i :: r ∧ v.Wanted src dst i ∧ ∀ j ∈ l, v.Wanted src dst j → (v.tab src j).noReply = true

/-- How the search of `dst` in entries `is` of the table of `src` ends: with a message, when the table cannot be read or
written, or with nothing; the table is forgotten only if an entry is invalid or all are done. -/
inductive TryRes (v : View) (src dst : Slot) (io : TableIo) (is : List Nat) (done pp : Bool) : Int → Bool → View → Prop
  | handed {i : Nat} {pp' : Bool} (hi : v.Due src dst is i) :
      TryRes v src dst io is done pp OK pp' (v.deliverEntry src dst i)
  | cut {i : Nat} {pp' : Bool} {e : AsynMsg} (hi : v.Due src dst is i) (hio : ¬ State.Writes io)
      (he : e = v.tab src i ∨ e = { v.tab src i with result := OK }) :
      TryRes v src dst io is done pp EFAULT pp'
        { v.handTo (.asyn i) src dst (v.tab src i).msg with tab := update v.tab src (update (v.tab src) i e) }
  | unread {pp' : Bool} (hr : ¬ State.Reads io src) (hp : pp' = false → pp = false) :
      TryRes v src dst io is done pp EFAULT pp' v
  | kept {pp' : Bool} (hp : pp' = false → pp = false ∧ ∀ i ∈ is, ¬ v.Wanted src dst i) :
      TryRes v src dst io is done pp EAGAIN pp' v
  | forgotten {pp' : Bool} {r : Int} (hr : r ≠ OK) (hp : pp' = false → pp = false)
      (hd : (done = true ∧ ∀ i ∈ is, ¬ (v.tab src i).Open) ∨
        ∃ i ∈ is, (v.tab src i).flags ≠ 0 ∧ State.badFlags (v.tab src i).flags = true) :
      TryRes v src dst io is done pp r pp' (v.unregister (v.privId src))

/-- `src` has no table, or must not send to `dst`. -/
def Barred (v : View) (src dst : Slot) : Prop :=
  v.privId src = userPrivId ∨ v.asynsize (v.privId src) = 0 ∨ ¬ v.MaySend src dst

/-- How the search of `dst` in the table of `src` ends. -/
def TableRes (v : View) (src dst : Slot) (io : TableIo) (pp : Bool) (r : Int) (pp' : Bool) (w : View) : Prop :=
  (v.Barred src dst ∧ r = EAGAIN ∧ pp' = pp ∧ w = v) ∨
    ¬ v.Barred src dst ∧ v.TryRes src dst io (List.range (v.asynsize (v.privId src))) true pp r pp' w

/-- The search of `c` in the tables of the owners of `is`, one after the other, up to the first message. If there is
none, and none was postponed, `c` is done with the tables. -/
inductive Search (c : Slot) (io : TableIo) : List PrivId → Bool → View → Int → View → Prop
  | nothing {v : View} : Search c io [] false v ESRCH (v.forgetAsyn c)
  | postponed {v : View} : Search c io [] true v ESRCH v
  | skip {i : PrivId} {is : List PrivId} {pp : Bool} {v w : View} {r : Int} (hi : v.procOf i = none)
      (h : Search c io is pp v r w) : Search c io (i :: is) pp v r w
  | found {i : PrivId} {is : List PrivId} {pp pp' : Bool} {v w : View} {s : Slot} (hi : v.procOf i = some s)
      (h : v.TableRes s c io pp OK pp' w) : Search c io (i :: is) pp v OK w
  | next {i : PrivId} {is : List PrivId} {pp pp' : Bool} {v u w : View} {r r' : Int} {s : Slot}
      (hi : v.procOf i = some s) (h : v.TableRes s c io pp r pp' u) (hr : r ≠ OK) (h' : Search c io is pp' u r' w) :
      Search c io (i :: is) pp v r' w

/-- The search for an asynchronous message for `c` ends with result `r` and view `w`. -/
def AsynOut (v : View) (c : Slot) (src : Option Slot) (io : TableIo) (r : Int) (w : View) : Prop :=
  match src with
  | some q => ∃ pp, v.TableRes q c io false r pp w
  | none => Search c io (List.finRange 32) false v r w

variable {v w : View} {src dst c : Slot} {io : TableIo} {is : List Nat} {i : Nat} {done pp pp' : Bool} {r : Int}

theorem Due.head (h : v.Wanted src dst i) : v.Due src dst (i :: is) i := ⟨[], is, rfl, h, nofun⟩

theorem Due.cons {j : Nat} (h : v.Due src dst is i) (hj : v.Wanted src dst j → (v.tab src j).noReply = true) :
    v.Due src dst (j :: is) i := by
  obtain ⟨l, r, rfl, hw, hl⟩ := h
  exact ⟨j :: l, r, rfl, hw, List.forall_mem_cons.mpr ⟨hj, hl⟩⟩

/-- One more entry was looked at: it is not wanted, or it was postponed. -/
theorem TryRes.cons {done1 pp1 : Bool} (h : v.TryRes src dst io is done1 pp1 r pp' w)
    (hd : done1 = true → done = true ∧ ¬ (v.tab src i).Open) (hp : pp1 = false → pp = false)
    (hq : v.Wanted src dst i → (v.tab src i).noReply = true ∧ pp1 = true) :
    v.TryRes src dst io (i :: is) done pp r pp' w := by
  cases h with
  | handed h => exact .handed (h.cons fun hw => (hq hw).1)
  | cut h hio he => exact .cut (h.cons fun hw => (hq hw).1) hio he
  | unread hr h => exact .unread hr fun h' => hp (h h')
  | kept h =>
    refine .kept fun h' => ⟨hp (h h').1, List.forall_mem_cons.mpr ⟨fun hw => ?_, (h h').2⟩⟩
    cases (h h').1.symm.trans (hq hw).2
  | forgotten hr h h1 =>
    refine .forgotten hr (fun h' => hp (h h')) ?_
    rcases h1 with ⟨h1, h2⟩ | ⟨j, hj, hb⟩
    · exact .inl ⟨(hd h1).1, List.forall_mem_cons.mpr ⟨(hd h1).2, h2⟩⟩
    · exact .inr ⟨j, List.mem_cons_of_mem _ hj, hb⟩

theorem TableRes.eases (h : v.TableRes src dst io pp r pp' w) : v.Eases w := by
  rcases h with ⟨-, -, -, h⟩ | ⟨-, h⟩
  · exact .of_eq h
  have hh (i : Nat) := Eases.handTo v (show Via.asyn i ≠ .send by simp) src dst (v.tab src i).msg
  cases h with
  | handed => exact (hh _).trans (.quiet rfl rfl rfl)
  | cut => exact (hh _).trans (.quiet rfl rfl rfl)
  | unread => exact .refl v
  | kept => exact .refl v
  | forgotten => exact .quiet rfl rfl rfl

theorem Search.eases {is : List PrivId} (h : Search c io is pp v r w) : v.Eases w := by
  induction h with
  | nothing => exact .quiet rfl rfl rfl
  | postponed => exact .refl _
  | skip _ _ ih => exact ih
  | found _ h => exact h.eases
  | next _ h _ _ ih => exact h.eases.trans ih

theorem AsynOut.eases {src : Option Slot} (h : v.AsynOut c src io r w) : v.Eases w := by
  cases src with
  | some q =>
    obtain ⟨pp, h⟩ := h
    exact h.eases
  | none => exact Search.eases h

end View

namespace State

variable {k : State}

theorem view_asynsize_zero (j : PrivId) :
    (k.modPriv j fun r => { r with sAsynsize := 0 }).view = k.view.unregister j := view_asynsize j 0

theorem maySendTo_iff {p d : Slot} : k.maySendTo p d = true ↔ k.view.MaySend p d := decide_eq_true_iff

theorem finishEntry_cases (p : Slot) (io : TableIo) (i : Nat) (r : Int) (last : Iter) :
    (∃ k', k.finishEntry p io i r last = (last, k') ∧
      k'.view = { k.view with tab := update k.tab p (update (k.tab p) i ((k.tab p i).finish r)) }) ∨
    ¬ Writes io ∧ ∃ e k', (e = k.tab p i ∨ e = { k.tab p i with result := r }) ∧
      k.finishEntry p io i r last = (.ret EFAULT, k') ∧
      k'.view = { k.view with tab := update k.tab p (update (k.tab p) i e) } := by
  unfold finishEntry
  by_cases h1 : io p i .putResult = true
  swap
  · exact .inr ⟨fun h => h1 (h p i).1, _, k, .inl rfl, by simp [h1], by simp [State.view]⟩
  by_cases h2 : io p i .putFlags = true
  · refine .inl ⟨_, by rw [h1, h2]; rfl, ?_⟩
    simp only [State.view, modTab, AsynMsg.finish, update_self, update_idem]
  · exact .inr ⟨fun h => h2 (h p i).2, _, _, .inr rfl, by rw [h1, Bool.eq_false_iff.mpr h2]; rfl, rfl⟩

theorem finishEntry_writes {io : TableIo} (hw : Writes io) (p : Slot) (i : Nat) (r : Int) (last : Iter) :
    ∃ k', k.finishEntry p io i r last = (last, k') ∧
      k'.view = { k.view with tab := update k.tab p (update (k.tab p) i ((k.tab p i).finish r)) } :=
  (finishEntry_cases p io i r last).resolve_right fun h => h.1 hw

theorem tryOneLoop_view (src dst : Slot) (io : TableIo) (is : List Nat) : ∀ done pp : Bool,
    k.view.TryRes src dst io is done pp (k.tryOneLoop src dst io is done pp).1
      (k.tryOneLoop src dst io is done pp).2.1 (k.tryOneLoop src dst io is done pp).2.2.view := by
  induction is with
  | nil =>
    intro done pp
    unfold tryOneLoop
    cases done
    · exact .kept fun h => ⟨h, by simp⟩
    · simp only [↓reduceIte, view_asynsize_zero]
      exact .forgotten (show EAGAIN ≠ OK by decide) id (.inl ⟨rfl, by simp⟩)
  | cons i is ih =>
    intro done pp
    rw [tryOneLoop]
    unfold tryOneEntry
    dsimp only
    split_ifs with h1 h2 h3 h4 h5 h6 h7 h8
    · exact .unread (fun h => by simp [(h i).1] at h1) id
    · exact (ih done pp).cons (fun h => ⟨h, fun ho => ho.1 h2⟩) id fun hw => absurd h2 hw.1.1
    · dsimp only
      rw [view_asynsize_zero]
      exact .forgotten (show EINVAL ≠ OK by decide) id (.inr ⟨i, List.mem_cons_self, h2, h3⟩)
    · have hno : ¬ (k.tab src i).Open := fun ho => by simp [ho.2.2] at h4
      exact (ih done pp).cons (fun h => ⟨h, hno⟩) id fun hw => absurd hw.1 hno
    · exact .unread (fun h => by simp [(h i).2.1] at h5) id
    · exact (ih false pp).cons (by simp) id fun hw => absurd hw.2 h6
    · exact (ih false true).cons (by simp) (by simp) fun _ => ⟨((Bool.and_eq_true _ _).mp h7).1, rfl⟩
    · exact .unread (fun h => by simp [(h i).2.2] at h8) id
    · have hw : k.view.Wanted src dst i :=
        ⟨⟨h2, Bool.eq_false_iff.mpr h3, Bool.eq_false_iff.mpr h4⟩, not_not.mp h6⟩
      rcases finishEntry_cases (k := k.hand (.asyn i) src dst (k.tab src i).msg) src io i OK (.ret OK) with
        ⟨k', h, hv⟩ | ⟨hio, e, k', he, h, hv⟩
      · rw [h]
        dsimp only
        rw [hv, view_hand]
        exact .handed (.head hw)
      · rw [h]
        dsimp only
        rw [hv, view_hand]
        exact .cut (.head hw) hio he

/-- **The search in the table of `src`** for a message to `dst`. -/
theorem tryOne_view (src dst : Slot) (io : TableIo) (pp : Bool) :
    k.view.TableRes src dst io pp (k.tryOne src dst io pp).1 (k.tryOne src dst io pp).2.1
      (k.tryOne src dst io pp).2.2.view := by
  unfold tryOne
  dsimp only
  split_ifs with h1 h2 h3
  · exact .inl ⟨.inl h1, rfl, rfl, rfl⟩
  · exact .inl ⟨.inr (.inl h2), rfl, rfl, rfl⟩
  · exact .inl ⟨.inr (.inr fun h => by simp [maySendTo_iff.mpr h] at h3), rfl, rfl, rfl⟩
  · refine .inr ⟨?_, tryOneLoop_view ..⟩
    rintro (h | h | h)
    · exact h1 h
    · exact h2 h
    · exact h (maySendTo_iff.mp (by simpa using h3))

/-- **The search in all tables.** -/
theorem tryAsyncLoop_view (c : Slot) (io : TableIo) : ∀ (is : List PrivId) (pp : Bool) (k : State),
    View.Search c io is pp k.view (tryAsyncLoop c io is pp k).1 (tryAsyncLoop c io is pp k).2.view
  | [], pp, k => by
    unfold tryAsyncLoop
    cases pp
    · simp only [Bool.false_eq_true, ↓reduceIte, view_asynmsg_clear]
      exact .nothing
    · exact .postponed
  | i :: is, pp, k => by
    unfold tryAsyncLoop
    split
    next hi => exact .skip hi (tryAsyncLoop_view c io is pp k)
    next s hi =>
      have h := k.tryOne_view s c io pp
      dsimp only
      split_ifs with hr
      · rw [hr] at h
        exact .found hi h
      · exact .next hi h hr (tryAsyncLoop_view c io is _ _)

end State

/-! ## Receiving -/

namespace View

/-- The source `e` of a `RECEIVE` is `src`, `none` for `ANY`. -/
def Source (v : View) (e : Endpoint) (src : Option Slot) : Prop :=
  (e = ANY ∧ src = none) ∨ ∃ q, e = v.endpoint q ∧ v.live q ∧ src = some q

/-- A message of `p` is acceptable. -/
def Accepts (src : Option Slot) (p : Slot) : Prop := src = none ∨ src = some p

/-- The message of `p` is taken from the queue of `c`. -/
def take (v : View) (c p : Slot) (x : Loc Slot) : View := (v.handTo .send p c (v.sendmsg p)).unlink c p x

/-- What `mini_receive` by `c` can do once the source is known. -/
inductive RecvRes (v : View) (c : Slot) (e : Endpoint) (src : Option Slot) (io : TableIo) : View → Prop
  /-- The kernel stops. -/
  | stopped : RecvRes v c e src io v
  | whileSending (hs : v.sending c = true) : RecvRes v c e src io (v.listen c e)
  | notified {s : Slot} {m : Message} (hs : v.sending c = false) : RecvRes v c e src io (v.handTo .notify s c m)
  /-- The first acceptable sender of the queue is served. -/
  | taken {p : Slot} {l r : List Slot} {w : View} (hs : v.sending c = false) (hq : v.IsQueue c (l ++ p :: r))
      (hp : Accepts src p) (hl : ∀ q ∈ l, ¬ Accepts src q)
      (hw : (v.take c p (Loc.after l)).Notifies SYSTEM (v.endpoint PM) w) :
      RecvRes v c e src io w
  | asyn {w : View} (hs : v.sending c = false) (hw : v.AsynOut c src io OK w) : RecvRes v c e src io w
  /-- No sender of the queue is acceptable. -/
  | listening {w : View} (hs : v.sending c = false)
      (hn : ∀ p, v.sending p = true → v.sendto p = v.endpoint c → ¬ Accepts src p)
      (hw : w = v ∨ ∃ r, r ≠ OK ∧ v.AsynOut c src io r w) : RecvRes v c e src io (w.listen c e)

end View

namespace State

variable {k : State} {c : Slot}

theorem receiveBlock_view (hc : k.view.free c = false) (e : Endpoint) :
    (k.receiveBlock c e false).2.view = k.view.listen c e := by
  unfold receiveBlock
  simp only [Bool.false_eq_true, ↓reduceIte]
  rw [view_rtsSet_receiving (by rwa [view_getfrom]), view_getfrom]
  rfl

theorem takeNotify_view (c : Slot) (i : PrivId) :
    (k.takeNotify c i).view = k.view ∨ ∃ s m, (k.takeNotify c i).view = k.view.handTo .notify s c m := by
  unfold takeNotify
  set k' := k.modPriv (k.proc c).pPriv fun r => { r with sNotifyPending := r.sNotifyPending.erase i }
  have hv : k'.view = k.view := view_same_priv rfl
  dsimp only
  cases (k'.priv i).sProcNr with
  | none => exact .inl hv
  | some s => exact .inr ⟨s, (k'.buildNotifyMessage s c).1, by simp [hv]⟩

theorem takeQueued_view (hg : k.view.Good) {p : Slot} {l r : List Slot} (hq : k.view.IsQueue c (l ++ p :: r)) :
    (k.view.take c p (Loc.after l)).Notifies SYSTEM (k.view.endpoint PM) (k.takeQueued c p (Loc.after l)).view := by
  have hp : k.view.free p = false := (hg.live_of_sending ((hq.mem p).mp (by simp)).1).1
  unfold takeQueued
  set k1 := k.hand .send p c (k.proc p).pSendmsg
  have hv1 : k1.view = k.view.handTo .send p c (k.view.sendmsg p) := view_hand ..
  set k2 := if k1.mf p .sigDelay then k1.sigDelayDone p else k1
  -- a delayed signal only notifies a process that waits, which has nothing to do with the queue
  have hsig : k1.view.Notifies SYSTEM (k1.view.endpoint PM) k2.view := by
    by_cases h : k1.mf p .sigDelay
    · rw [show k2 = k1.sigDelayDone p from if_pos h]
      exact sigDelayDone_view (by rw [hv1]; exact hg.handTo ..) (by rw [hv1]; exact hp)
    · exact .inl (by rw [show k2 = k1 from if_neg h])
  have hp2 : k2.view.free p = false := by rw [hsig.eases.free, hv1]; exact hp
  have hlink : ((k2.rtsUnset p {.sending}).proc p).pQLink = k2.view.qLink p := by
    change (k2.rtsUnset p {.sending}).view.qLink p = _
    rw [view_rtsUnset_sending hp2]
    rfl
  have hv : ((k2.rtsUnset p {.sending}).storeQ c (Loc.after l) ((k2.rtsUnset p {.sending}).proc p).pQLink).view =
      k2.view.unlink c p (Loc.after l) := by
    rw [view_storeQ, hlink, view_rtsUnset_sending hp2]
    rfl
  rw [hv]
  rcases hsig with h | ⟨d, m, he, hw, h⟩
  · exact .inl (by rw [h, hv1]; rfl)
  · refine .inr ⟨d, m, by rw [hv1] at he; exact he, ⟨?_, ?_, ?_⟩, by rw [h, hv1]; rfl⟩
    · rw [hv1] at hw
      exact hw.1
    · rw [hv1] at hw
      simp only [View.take, View.unlink, View.storeQ, View.unsend, update_apply]
      split
      · rfl
      · exact hw.2.1
    · rw [hv1] at hw
      exact hw.2.2

theorem receiveAsyn_view (hc : k.view.free c = false) (hs : k.view.sending c = false) (e : Endpoint)
    {src : Option Slot} (io : TableIo)
    (hn : ∀ p, k.view.sending p = true → k.view.sendto p = k.view.endpoint c → ¬ View.Accepts src p) :
    k.view.RecvRes c e src io (k.receiveAsyn c e src io false).2.view := by
  unfold receiveAsyn
  by_cases hm : (!k.mf c .asynmsg) = true
  · rw [if_pos hm, receiveBlock_view hc]
    exact .listening hs hn (.inl rfl)
  · rw [if_neg hm]
    cases src with
    | some q =>
      have ha : k.view.AsynOut c (some q) io _ _ := ⟨_, k.tryOne_view q c io false⟩
      dsimp only
      split_ifs with h
      · rw [h] at ha
        exact .asyn hs ha
      · rw [receiveBlock_view (by rw [ha.eases.free]; exact hc)]
        exact .listening hs hn (.inr ⟨_, h, ha⟩)
    | none =>
      have ha : k.view.AsynOut c none io _ _ := tryAsyncLoop_view c io _ false k
      dsimp only
      split_ifs with h
      · rw [show (tryAsyncLoop c io (List.finRange 32) false k).1 = OK from h] at ha
        exact .asyn hs ha
      · rw [receiveBlock_view (by rw [tryAsync, ha.eases.free]; exact hc)]
        exact .listening hs hn (.inr ⟨_, h, ha⟩)

/-- The search in the caller queue of a live process ends at the first caller that is accepted, or at the end. -/
theorem scan_callers (hg : k.view.Good) (hc : k.view.live c) (stop : Slot → Bool) :
    ∃ l r, k.view.IsQueue c (l ++ r) ∧ (∀ p ∈ l, stop p = false) ∧ (∀ p, r.head? = some p → stop p = true) ∧
      scan (k.proc c).pCallerQ k.qLink stop loopFuel .head = some (Loc.after l) ∧
      (Loc.after l).get (k.proc c).pCallerQ k.qLink = r.head? := by
  obtain ⟨q, hq⟩ := hg.queue c hc
  obtain ⟨l, r, rfl, hl, hr⟩ := exists_first_split stop q
  have hlen : l.length < loopFuel := by
    have := hq.length_lt
    rw [List.length_append] at this
    omega
  exact ⟨l, r, hq, hl, hr, scan_head hq.chain hl hr hlen, chain_head? (chain_after l hq.chain)⟩

theorem receiveFrom_view (hg : k.view.Good) (hc : k.view.live c) (e : Endpoint) (src : Option Slot)
    (io : TableIo) : k.view.RecvRes c e src io (k.receiveFrom c e src io false).2.view := by
  unfold receiveFrom
  by_cases hs : k.rtsIsset c .sending = true
  · rw [if_pos hs, receiveBlock_view hc.1]
    exact .whileSending (by simpa [State.view, rtsIsset] using hs)
  rw [if_neg hs]
  have hs' : k.view.sending c = false := by simpa [State.view, rtsIsset] using hs
  split
  next i _ =>
    rcases takeNotify_view c i with h | ⟨s, m, h⟩
    · rw [show (OK, k.takeNotify c i).2.view = k.view from h]
      exact .stopped
    · rw [show (OK, k.takeNotify c i).2.view = _ from h]
      exact .notified hs'
  next =>
    obtain ⟨l, r, hq, hl, hr, hscan, hget⟩ := scan_callers hg hc fun p => src.isNone || src = some p
    have hacc : ∀ p, (src.isNone || decide (src = some p)) = true ↔ View.Accepts src p := by
      intro p
      simp [View.Accepts]
    have hlacc : ∀ p ∈ l, ¬ View.Accepts src p := fun p hp h => by
      have := hl p hp
      rw [(hacc p).mpr h] at this
      cases this
    rw [hscan]
    dsimp only
    rw [hget]
    cases r with
    | cons p r => exact .taken hs' hq ((hacc p).mp (hr p rfl)) hlacc (takeQueued_view hg hq)
    | nil =>
      refine receiveAsyn_view hc.1 hs' e io fun p h1 h2 => hlacc p ?_
      simpa using (hq.mem p).mpr ⟨h1, h2⟩

/-- What `mini_receive` does: it fails, or the source is valid and one of the cases of `RecvRes` applies. -/
theorem miniReceive_view (hg : k.view.Good) (hc : k.view.live c) {e : Endpoint}
    (he : e = ANY ∨ ∃ q, k.isokendpt e = some q) (buf : MsgBuf) (io : TableIo) :
    (k.miniReceive c e buf io false).2.view = k.view ∨
      ∃ src, k.view.Source e src ∧ k.view.RecvRes c e src io (k.miniReceive c e buf io false).2.view := by
  unfold miniReceive
  by_cases hl : buf.lin = 0
  · rw [if_pos hl]
    exact .inl rfl
  rw [if_neg hl]
  set k' := k.modProc c fun r => { r with pDelivermsgLin := buf.lin, pDelivermsgVir := buf.vir } with hk
  have hv : k'.view = k.view := view_same ⟨rfl, by simp, by simp⟩
  have hrec := receiveFrom_view (by rwa [hv]) (by rwa [hv]) e
  rw [hv] at hrec
  by_cases ha : e = ANY
  · rw [if_pos ha]
    exact .inr ⟨none, .inl ⟨ha, rfl⟩, hrec none io⟩
  · rw [if_neg ha]
    obtain ⟨q, hq⟩ := he.resolve_left ha
    have hq' : k'.isokendpt e = some q := by
      have hs := isokendpt_some hq
      have := isokendpt_endpoint (by rwa [hv]) (by rw [hv]; exact isokendpt_free hg hq)
      rwa [hv, hs.2] at this
    rw [hq']
    dsimp only
    split_ifs with hn
    · exact .inl hv
    · have hlive : k.view.live q := by
        refine ⟨isokendpt_free hg hq, ?_⟩
        rw [← hv]
        simpa [State.view, rtsIsset] using hn
      exact .inr ⟨some q, .inr ⟨q, (isokendpt_some hq).2.symm, hlive, rfl⟩, hrec (some q) io⟩

end State

/-! ## The system call -/

namespace View

/-- `deadlock` has found nothing. -/
def Unlocked (v : View) (function : Nat) (c : Slot) (src : Option Slot) : Prop :=
  ∃ k : State, k.view = v ∧ k.deadlock function c loopFuel 1 src = some 0

/-- What `mini_receive` does, failures included. -/
def Received (v : View) (c : Slot) (a : CallArgs) (w : View) : Prop :=
  w = v ∨ ∃ src, v.Source a.srcDstE src ∧ v.RecvRes c a.srcDstE src a.io w

/-- What a system call of `c` can do. -/
inductive CallRes (v : View) (c : Slot) (a : CallArgs) : View → Prop
  /-- Nothing, or a notification is handed over, that of the caller or a signal for PM. -/
  | notify {s : Slot} {e : Endpoint} {w : View} (hw : v.Notifies s e w)
      (he : (s, e) = (c, a.srcDstE) ∨ (s, e) = (SYSTEM, v.endpoint PM)) : CallRes v c a w
  | senda {k : State} (hn : a.callNr = SENDA) (hk : k.view = v) :
      CallRes v c a (k.miniSenda c a (State.sizeT a.srcDstE)).2.view
  | sendnb {d : Slot} {r : Int} {w : View} (hn : a.callNr = SENDNB) (he : v.endpoint d = a.srcDstE)
      (hs : v.SendRes c d a.buf.data true r w) : CallRes v c a w
  | send {d : Slot} {r : Int} {w : View} (hn : a.callNr = SEND) (he : v.endpoint d = a.srcDstE)
      (hu : v.Unlocked 1 c (some d)) (hs : v.SendRes c d a.buf.data false r w) : CallRes v c a w
  | receive {w : View} (hn : a.callNr = RECEIVE)
      (hu : ∀ d, v.endpoint d = a.srcDstE → v.live d → v.Unlocked 2 c (some d)) (hw : v.Received c a w) :
      CallRes v c a w
  | sendrec {d : Slot} {r : Int} {w w' : View} (hn : a.callNr = SENDREC) (he : v.endpoint d = a.srcDstE)
      (hu : v.Unlocked 3 c (some d)) (hs : v.SendRes c d a.buf.data false r w)
      (hw : (r ≠ OK ∧ w' = w) ∨ (r = OK ∧ w.Received c a w')) : CallRes v c a w'

variable {v w : View}

/-- The two views have the same processes and endpoints. -/
structure SameSlots (v w : View) : Prop where
  endpoint : w.endpoint = v.endpoint
  empty : w.empty = v.empty
  free : w.free = v.free
  noEp : w.noEp = v.noEp

theorem SameSlots.trans {u : View} (h : v.SameSlots w) (h' : w.SameSlots u) : v.SameSlots u :=
  ⟨h'.endpoint.trans h.endpoint, h'.empty.trans h.empty, h'.free.trans h.free, h'.noEp.trans h.noEp⟩

theorem SameSlots.live (h : v.SameSlots w) (p : Slot) : w.live p ↔ v.live p := by
  unfold View.live
  rw [h.free, h.noEp]

theorem Eases.sameSlots (h : v.Eases w) : v.SameSlots w := ⟨h.endpoint, h.empty, h.free, h.noEp⟩

theorem SendRes.sameSlots {c d : Slot} {data : Option Message} {nb : Bool} {r : Int} (h : v.SendRes c d data nb r w) :
    v.SameSlots w := by
  cases h <;> exact ⟨rfl, rfl, rfl, rfl⟩

theorem Good.wake (hg : v.Good) (via : Via) (s d : Slot) (m : Message) : (v.wake via s d m).Good :=
  (hg.handTo via s d m).eases (.unrecv _ d)

theorem SendRes.good (hg : v.Good) {c d : Slot} (hc : v.live c) (hsc : v.sending c = false)
    (hrc : v.receiving c = false) {data : Option Message} {nb : Bool} {r : Int} (h : v.SendRes c d data nb r w) :
    w.Good := by
  cases h with
  | failed => exact hg
  | direct => exact (hg.called hsc _ _).wake _ _ _ _
  | queued _ _ hd _ hq => exact hg.block hc hsc hrc hd hq

end View

namespace State

variable {k : State} {c : Slot}

/-- The flag that `SENDREC` sets and `RECEIVE` clears. -/
theorem view_ask (k : State) (c : Slot) :
    (k.modProc c fun r => { r with pMiscFlags := r.pMiscFlags ∪ {.replyPend} }).view = k.view :=
  view_same ⟨rfl, by simp, by simp⟩

theorem view_hear (k : State) (c : Slot) :
    (k.modProc c fun r => { r with pMiscFlags := r.pMiscFlags \ {.replyPend} }).view = k.view :=
  view_same ⟨rfl, by simp, by simp⟩

/-- The first part of `SENDREC`. -/
theorem miniSend_ask {e : Endpoint} {d : Slot} (hg : k.view.Good) (hc : k.view.live c) (hd : k.isokendpt e = some d)
    (buf : MsgBuf) :
    let k' := k.modProc c fun r => { r with pMiscFlags := r.pMiscFlags ∪ {.replyPend} }
    k.view.SendRes c d buf.data false (k'.miniSend c e buf false).1 (k'.miniSend c e buf false).2.view := by
  have hv := k.view_ask c
  have hs := miniSend_view (by rwa [hv]) (by rwa [hv]) (by rwa [isokendpt_congr hv]) buf false
  rwa [hv] at hs

section

variable (hg : k.view.Good) (hc : k.view.live c) (hsc : k.view.sending c = false) (hrc : k.view.receiving c = false)

include hg hc hsc hrc

theorem performCall_view {a : CallArgs}
    (hd : a.callNr = SENDA ∨ (a.callNr = RECEIVE ∧ a.srcDstE = ANY) ∨ ∃ d, k.isokendpt a.srcDstE = some d)
    (hu : a.callNr = SEND ∨ a.callNr = SENDREC ∨ a.callNr = RECEIVE → ∀ d, k.isokendpt a.srcDstE = some d →
      k.view.Unlocked a.callNr.toNat c (some d)) :
    k.view.CallRes c a (k.performCall c a).2.view := by
  -- a destination that is not `ANY` is the endpoint of a process that exists
  have hok : a.callNr ≠ SENDA → a.callNr ≠ RECEIVE → ∃ d, k.isokendpt a.srcDstE = some d := by
    rintro h1 h2
    rcases hd with h | ⟨h, _⟩ | h
    · exact absurd h h1
    · exact absurd h h2
    · exact h
  unfold performCall
  split_ifs with h1 h2 h3 h4 h5 h6
  · obtain ⟨d, hd⟩ := hok (by rw [h1]; decide) (by rw [h1]; decide)
    have hu' := hu (.inr (.inl h1)) d hd
    rw [h1] at hu'
    have hs := miniSend_ask hg hc hd a.buf
    dsimp only
    split_ifs with hr
    · exact .sendrec h1 (isokendpt_some hd).2 hu' hs (.inl ⟨hr, rfl⟩)
    · refine .sendrec h1 (isokendpt_some hd).2 hu' hs (.inr ⟨by simpa using hr, ?_⟩)
      have hf := hs.sameSlots
      have hg' := hs.good hg hc hsc hrc
      refine miniReceive_view hg' ((hf.live c).mpr hc) (.inr ⟨d, ?_⟩) _ _
      have := isokendpt_endpoint hg' (by rw [hf.free]; exact isokendpt_free hg hd)
      rwa [hf.endpoint, (isokendpt_some hd).2] at this
  · obtain ⟨d, hd⟩ := hok (by rw [h2]; decide) (by rw [h2]; decide)
    have hu' := hu (.inl h2) d hd
    rw [h2] at hu'
    exact .send h2 (isokendpt_some hd).2 hu' (miniSend_view hg hc hd a.buf false)
  · have hv := k.view_hear c
    have he : a.srcDstE = ANY ∨ ∃ q, k.isokendpt a.srcDstE = some q := by
      rcases hd with h | ⟨_, h⟩ | h
      · rw [h3] at h
        exact absurd h (by decide)
      · exact .inl h
      · exact .inr h
    have hr := miniReceive_view (by rwa [hv]) (by rwa [hv]) (by rwa [isokendpt_congr hv]) a.buf a.io
    rw [hv] at hr
    refine .receive h3 (fun d he hl => ?_) hr
    have hu' := hu (.inr (.inr h3)) d (by rw [← he]; exact isokendpt_endpoint hg hl.1)
    rwa [h3] at hu'
  · exact .notify (miniNotify_view hg c a.srcDstE) (.inl rfl)
  · obtain ⟨d, hd⟩ := hok (by rw [h5]; decide) h3
    exact .sendnb h5 (isokendpt_some hd).2 (miniSend_view hg hc hd a.buf true)
  · exact .senda h6 rfl
  · exact .notify (.inl rfl) (.inl rfl)

theorem checkedCall_view (a : CallArgs) : k.view.CallRes c a (k.checkedCall c a).2.view := by
  rcases k.checkedCall_cases c a with ⟨r, -, h⟩ | h | ⟨h, hd, hl⟩
  · rw [h]
    exact .notify (.inl rfl) (.inl rfl)
  · rw [h]
    exact .notify (.inl rfl) (.inl rfl)
  · rw [h]
    refine performCall_view hg hc hsc hrc hd fun hn d hd => ⟨k, rfl, ?_⟩
    have hany : a.srcDstE ≠ ANY := fun h => by
      rw [h] at hd
      exact absurd (isokendpt_some hd).2 (hg.endpoint_ne_ANY d)
    exact hl hn hany d hd

theorem sysCall_view (a : CallArgs) : k.view.CallRes c a (k.sysCall c a).2.view := by
  unfold sysCall
  split_ifs
  · exact .notify (causeSig_view (view_same ⟨rfl, by simp, by simp⟩) hg hc.1 SIGTRAP) (.inr rfl)
  · set k' := k.modProc c fun r => { r with pMiscFlags := r.pMiscFlags \ {.scDefer} ∪ {.scActive} }
    have hv : k'.view = k.view := view_same ⟨rfl, by simp, by simp⟩
    have := checkedCall_view (by rwa [hv]) (by rwa [hv]) (by rwa [hv]) (by rwa [hv]) a
    rwa [hv] at this
  · exact checkedCall_view hg hc hsc hrc a

end

end State

end Minix.Kernel
