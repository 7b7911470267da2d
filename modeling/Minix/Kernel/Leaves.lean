import Minix.Kernel.Moves

/-!
# What calls leave alone

`State.Leaves c` is what moves on behalf of `c` do not change, and how they hand messages to the other processes: a
process that waits for a reply gets no notification and no asynchronous message with `AMF_NOREPLY` (`Moves.leaves`).

* `Call.trap`: a system call consists of moves and at most one special action before the first message is handed over:
  `MF_REPLY_PEND` is set or cleared, or a table is submitted.
* `exec_does`: every operation of the kernel in these terms.
-/

namespace Minix.Kernel

open Minix.Lib List Proc

namespace State

/-! ## What moves leave alone -/

/-- How a message is handed to `d` on behalf of `c`: it is admitted, and if `d` is another process then `d` waits for
it. -/
structure HandsTo (c : Option Slot) (k : State) (log : List Event) (via : Via) (s d : Slot) (m : Message) : Prop where
  admits : k.Admits via s d
  source : m.mSource = (k.proc s).pEndpoint
  waits : c ≠ some d → k.rtsIsset d .receiving = true ∧
    ((k.proc d).pGetfromE = ANY ∨ (k.proc d).pGetfromE = (k.proc s).pEndpoint)
  called : c ≠ some d → via = .send → ∃ m₀, .called s d m₀ ∈ log ∧ m = { m₀ with mSource := (k.proc s).pEndpoint }

/-- What moves on behalf of `c` leave alone, and how they hand messages to other processes. -/
structure Leaves (c : Option Slot) (k k' : State) : Prop where
  endpoint : ∀ p, (k'.proc p).pEndpoint = (k.proc p).pEndpoint
  priv : ∀ p, (k'.proc p).pPriv = (k.proc p).pPriv
  lasting : ∀ p, ∀ x ∈ lastingFlags, x ≠ .receiving → (x ∈ (k'.proc p).pRtsFlags ↔ x ∈ (k.proc p).pRtsFlags)
  reply : ∀ p, k'.mf p .replyPend = k.mf p .replyPend
  getfrom : ∀ w, c ≠ some w → (k'.proc w).pGetfromE = (k.proc w).pGetfromE
  receiving : ∀ w, c ≠ some w → k'.rtsIsset w .receiving = true → k.rtsIsset w .receiving = true
  grants : ∀ i, (k'.priv i).sProcNr = (k.priv i).sProcNr ∧ (k'.priv i).sFlags = (k.priv i).sFlags ∧
    (k'.priv i).sIpcTo = (k.priv i).sIpcTo
  pending : ∀ i, (∀ p, c = some p → i ≠ (k.proc p).pPriv) → (k.priv i).sNotifyPending ⊆ (k'.priv i).sNotifyPending
  table : ∀ i, (k'.priv i).sAsynsize = (k.priv i).sAsynsize ∨ (k'.priv i).sAsynsize = 0 ∨ .sysProc ∈ (k.priv i).sFlags
  noReply : ∀ p i, (k'.tab p i).noReply = (k.tab p i).noReply
  events : ∃ ev, k'.log = k.log ++ ev ∧ (∀ via s d m, .handed via s d m ∈ ev → HandsTo c k k'.log via s d m) ∧
    ∀ w, c ≠ some w → k.rtsIsset w .receiving = true →
      k'.rtsIsset w .receiving = true ∨ ∃ via s m, .handed via s w m ∈ ev

namespace Leaves

variable {c : Option Slot} {k k' k'' : State}

theorem quiet (hp : ∀ p, (k'.proc p).plain = (k.proc p).plain) (hr : ∀ i, (k'.priv i).plain = (k.priv i).plain)
    (ht : ∀ p i, (k'.tab p i).noReply = (k.tab p i).noReply)
    (hl : ∃ ev, k'.log = k.log ++ ev ∧ ∀ e ∈ ev, e.isHanded = false) : Leaves c k k' := by
  simp only [plain, Priv.plain, Prod.mk.injEq, decide_eq_decide] at hp hr
  have hrecv : ∀ w, k'.rtsIsset w .receiving = k.rtsIsset w .receiving := fun w => by
    simp only [rtsIsset, (hp w).2.2.1]
  refine ⟨fun p => (hp p).1, fun p => (hp p).2.1, fun p x _ _ => by rw [(hp p).2.2.1], fun p => ?_,
    fun p _ => (hp p).2.2.2.1, fun p _ h => by rwa [← hrecv], fun i => ⟨(hr i).1, (hr i).2.1, (hr i).2.2.1⟩,
    fun i _ => by rw [(hr i).2.2.2.1], fun i => .inl (hr i).2.2.2.2, ht, ?_⟩
  · simpa [mf] using (hp p).2.2.2.2
  · obtain ⟨ev, hl, hev⟩ := hl
    refine ⟨ev, hl, fun via s d m h => ?_, fun w _ h => .inl (by rwa [hrecv])⟩
    have := hev _ h
    cases this

theorem refl (c : Option Slot) (k : State) : Leaves c k k :=
  quiet (fun _ => rfl) (fun _ => rfl) (fun _ _ => rfl) ⟨[], (append_nil _).symm, fun _ h => by cases h⟩

theorem trans (h : Leaves c k k') (h' : Leaves c k' k'') : Leaves c k k'' where
  endpoint p := (h'.endpoint p).trans (h.endpoint p)
  priv p := (h'.priv p).trans (h.priv p)
  lasting p x hx hn := (h'.lasting p x hx hn).trans (h.lasting p x hx hn)
  reply p := (h'.reply p).trans (h.reply p)
  getfrom w hw := (h'.getfrom w hw).trans (h.getfrom w hw)
  receiving w hw hr := h.receiving w hw (h'.receiving w hw hr)
  grants i := ⟨(h'.grants i).1.trans (h.grants i).1, (h'.grants i).2.1.trans (h.grants i).2.1,
    (h'.grants i).2.2.trans (h.grants i).2.2⟩
  pending i hi := (h.pending i hi).trans (h'.pending i fun p hp => by rw [h.priv p]; exact hi p hp)
  table i := by
    rcases h'.table i with h1 | h1 | h1
    · rw [h1]
      exact h.table i
    · exact .inr (.inl h1)
    · exact .inr (.inr (by rwa [(h.grants i).2.1] at h1))
  noReply p i := (h'.noReply p i).trans (h.noReply p i)
  events := by
    obtain ⟨ev, hl, hh, hw⟩ := h.events
    obtain ⟨ev', hl', hh', hw'⟩ := h'.events
    have hlog : k''.log = k.log ++ (ev ++ ev') := by rw [hl', hl, append_assoc]
    refine ⟨ev ++ ev', hlog, fun via s d m hm => ?_, fun w hc hr => ?_⟩
    · rcases mem_append.mp hm with hm | hm
      · have hd := hh via s d m hm
        refine ⟨hd.admits, hd.source, hd.waits, fun hc hv => ?_⟩
        obtain ⟨m0, hm0, he⟩ := hd.called hc hv
        exact ⟨m0, by rw [hl']; exact mem_append_left _ hm0, he⟩
      · -- what was admitted later was admitted before
        have hd := hh' via s d m hm
        refine ⟨?_, by rw [hd.source, h.endpoint], fun hc => ?_, fun hc hv => ?_⟩
        · have ha := hd.admits
          cases via with
          | send => trivial
          | notify => exact (h.reply d).symm.trans ha
          | asyn i =>
            intro hr
            rw [← h.noReply]
            exact ha ((h.reply d).trans hr)
        · obtain ⟨h1, h2⟩ := hd.waits hc
          rw [h.getfrom d hc, h.endpoint] at h2
          exact ⟨h.receiving d hc h1, h2⟩
        · obtain ⟨m0, hm0, he⟩ := hd.called hc hv
          exact ⟨m0, hm0, by rw [he, h.endpoint]⟩
    · rcases hw w hc hr with h1 | ⟨via, s, m, hm⟩
      · rcases hw' w hc h1 with h2 | ⟨via, s, m, hm⟩
        · exact .inl h2
        · exact .inr ⟨via, s, m, mem_append_right _ hm⟩
      · exact .inr ⟨via, s, m, mem_append_left _ hm⟩

theorem events_nil (hl : k'.log = k.log) (hr : ∀ w, c ≠ some w → k'.rtsIsset w .receiving = k.rtsIsset w .receiving) :
    ∃ ev, k'.log = k.log ++ ev ∧ (∀ via s d m, .handed via s d m ∈ ev → HandsTo c k k'.log via s d m) ∧
      ∀ w, c ≠ some w → k.rtsIsset w .receiving = true →
        k'.rtsIsset w .receiving = true ∨ ∃ via s m, .handed via s w m ∈ ev := by
  refine ⟨[], by rw [hl, append_nil], fun via s d m h => ?_, fun w hw h => .inl (by rwa [hr w hw])⟩
  cases h

theorem modProc (p : Slot) {f : Proc → Proc} (he : (f (k.proc p)).pEndpoint = (k.proc p).pEndpoint)
    (hi : (f (k.proc p)).pPriv = (k.proc p).pPriv)
    (hx : ∀ x ∈ lastingFlags, (x = .receiving → c ≠ some p) →
      (x ∈ (f (k.proc p)).pRtsFlags ↔ x ∈ (k.proc p).pRtsFlags))
    (hm : .replyPend ∈ (f (k.proc p)).pMiscFlags ↔ .replyPend ∈ (k.proc p).pMiscFlags)
    (hg : c ≠ some p → (f (k.proc p)).pGetfromE = (k.proc p).pGetfromE) : Leaves c k (k.modProc p f) := by
  have hrecv : ∀ w, c ≠ some w → (k.modProc p f).rtsIsset w .receiving = k.rtsIsset w .receiving := by
    intro w hw
    by_cases h : w = p
    · subst h
      simp [rtsIsset, State.modProc, hx .receiving (by decide) fun _ => hw]
    · simp [rtsIsset, State.modProc, h]
  refine ⟨fun q => ?_, fun q => ?_, fun q x hq hn => ?_, fun q => ?_, fun q hq => ?_,
    fun w hw h => by rwa [← hrecv w hw],
    fun _ => ⟨rfl, rfl, rfl⟩, fun _ _ => Finset.Subset.refl _, fun _ => .inl rfl, fun _ _ => rfl, events_nil rfl hrecv⟩
  all_goals
    by_cases h : q = p
    · subst h
      simp_all [State.modProc, mf]
    · simp [State.modProc, h, mf]

theorem modPriv (i : PrivId) {f : Priv → Priv} (h1 : (f (k.priv i)).sProcNr = (k.priv i).sProcNr)
    (h2 : (f (k.priv i)).sFlags = (k.priv i).sFlags) (h3 : (f (k.priv i)).sIpcTo = (k.priv i).sIpcTo)
    (h4 : (∀ p, c = some p → i ≠ (k.proc p).pPriv) → (k.priv i).sNotifyPending ⊆ (f (k.priv i)).sNotifyPending)
    (h5 : (f (k.priv i)).sAsynsize = (k.priv i).sAsynsize ∨ (f (k.priv i)).sAsynsize = 0 ∨
      .sysProc ∈ (k.priv i).sFlags) : Leaves c k (k.modPriv i f) := by
  refine ⟨fun _ => rfl, fun _ => rfl, fun _ _ _ _ => Iff.rfl, fun _ => rfl, fun _ _ => rfl, fun _ _ h => h, fun j => ?_,
    fun j hj => ?_, fun j => ?_, fun _ _ => rfl, events_nil rfl fun _ _ => rfl⟩
  all_goals
    by_cases h : j = i
    · subst h
      simp_all [State.modPriv]
    · simp [State.modPriv, h]

/-- A message is put into `p_delivermsg` of `d`, which may stop waiting. -/
theorem hands {via : Via} {s d : Slot} {m : Message} (hp : ∀ p, p ≠ d → (k'.proc p).plain = (k.proc p).plain)
    (hd : { k'.proc d with pRtsFlags := ∅ }.plain = { k.proc d with pRtsFlags := ∅ }.plain)
    (hf : ∀ x ∈ lastingFlags, x ≠ .receiving → (x ∈ (k'.proc d).pRtsFlags ↔ x ∈ (k.proc d).pRtsFlags))
    (hr : .receiving ∈ (k'.proc d).pRtsFlags → .receiving ∈ (k.proc d).pRtsFlags) (hpriv : k'.priv = k.priv)
    (htab : k'.tab = k.tab) (hlog : k'.log = k.log ++ [.handed via s d { m with mSource := (k.proc s).pEndpoint }])
    (ha : k.Admits via s d)
    (hw : c ≠ some d → k.rtsIsset d .receiving = true ∧
      ((k.proc d).pGetfromE = ANY ∨ (k.proc d).pGetfromE = (k.proc s).pEndpoint))
    (hc : c ≠ some d → via = .send → .called s d m ∈ k.log) : Leaves c k k' := by
  simp only [plain, Prod.mk.injEq, decide_eq_decide] at hp hd
  have hrest : ∀ p, (k'.proc p).pEndpoint = (k.proc p).pEndpoint ∧ (k'.proc p).pPriv = (k.proc p).pPriv ∧
      (k'.proc p).pGetfromE = (k.proc p).pGetfromE ∧
      (.replyPend ∈ (k'.proc p).pMiscFlags ↔ .replyPend ∈ (k.proc p).pMiscFlags) := by
    intro p
    by_cases h : p = d
    · subst h
      exact ⟨hd.1, hd.2.1, hd.2.2.2.1, hd.2.2.2.2⟩
    · exact ⟨(hp p h).1, (hp p h).2.1, (hp p h).2.2.2.1, (hp p h).2.2.2.2⟩
  refine ⟨fun p => (hrest p).1, fun p => (hrest p).2.1, fun p x hx hn => ?_, fun p => ?_, fun p _ => (hrest p).2.2.1,
    fun w _ h => ?_, fun i => by rw [hpriv]; exact ⟨rfl, rfl, rfl⟩, fun i _ => by rw [hpriv],
    fun i => by
      rw [hpriv]; exact .inl rfl, fun _ _ => by rw [htab], _, hlog, fun via' s' d' m' hm => ?_, fun w _ h => ?_⟩
  · by_cases h : p = d
    · subst h
      exact hf x hx hn
    · rw [(hp p h).2.2.1]
  · simpa [mf] using (hrest p).2.2.2
  · by_cases hwd : w = d
    · subst hwd
      simp only [rtsIsset, decide_eq_true_eq] at h ⊢
      exact hr h
    · simpa [rtsIsset, (hp w hwd).2.2.1] using h
  · cases mem_singleton.mp hm
    refine ⟨ha, rfl, hw, fun h1 h2 => ⟨m, ?_, rfl⟩⟩
    rw [hlog]
    exact mem_append_left _ (hc h1 h2)
  · by_cases hwd : w = d
    · subst hwd
      exact .inr ⟨via, s, _, mem_singleton.mpr rfl⟩
    · left
      simpa [rtsIsset, (hp w hwd).2.2.1] using h

end Leaves

theorem Move.leaves {c : Option Slot} {k k' : State} (h : Move c k k') : Leaves c k k' := by
  cases h with
  | rest hp hr ht hl =>
    exact .quiet (fun p => by rw [hp]) (fun i => by rw [hr]) (fun p i => by rw [ht])
      ⟨[], by rw [hl, append_nil], fun _ h => by cases h⟩
  | fields p hf =>
    refine .quiet (fun q => ?_) (fun _ => rfl) (fun _ _ => rfl) ⟨[], (append_nil _).symm, fun _ h => by cases h⟩
    by_cases h : q = p
    · subst h
      simpa [modProc] using hf
    · simp [modProc, h]
  | privFields i hf =>
    refine .quiet (fun _ => rfl) (fun j => ?_) (fun _ _ => rfl) ⟨[], (append_nil _).symm, fun _ h => by cases h⟩
    by_cases h : j = i
    · subst h
      simpa [modPriv] using hf
    · simp [modPriv, h]
  | flags p hg => exact .modProc p rfl rfl (fun x hx _ => hg x hx _) Iff.rfl fun _ => rfl
  | source hp e => exact .modProc _ rfl rfl (fun _ _ _ => Iff.rfl) Iff.rfl fun h => absurd hp h
  | listen hp =>
    refine .modProc _ rfl rfl (fun x _ hx => ?_) Iff.rfl fun _ => rfl
    have : x ≠ .receiving := fun h => hx h hp
    simp [this]
  | post i j => exact .modPriv i rfl rfl rfl (fun _ => Finset.subset_insert _ _) (.inl rfl)
  | unpost hp j => exact .modPriv _ rfl rfl rfl (fun h => absurd rfl (h _ hp)) (.inl rfl)
  | register i t n hn =>
    refine .modPriv i rfl rfl rfl (fun _ => Finset.Subset.refl _) ?_
    rcases hn with rfl | hn
    · exact .inr (.inl rfl)
    · exact .inr (.inr hn)
  | unregister i => exact .modPriv i rfl rfl rfl (fun _ => Finset.Subset.refl _) (.inr (.inl rfl))
  | entry p i hf =>
    refine .quiet (fun _ => rfl) (fun _ => rfl) (fun q j => ?_) ⟨[], (append_nil _).symm, fun _ h => by cases h⟩
    by_cases h : q = p
    · subst h
      by_cases hj : j = i
      · subst hj
        simpa [modTab] using hf
      · simp [modTab, hj]
    · simp [modTab, h]
  | note he =>
    refine .quiet (fun _ => rfl) (fun _ => rfl) (fun _ _ => rfl) ⟨_, rfl, fun e' h => ?_⟩
    rw [mem_singleton.mp h]
    exact he
  | wake via s d m hw ha hc =>
    simp only [willReceive, Bool.and_eq_true, Bool.or_eq_true, decide_eq_true_eq] at hw
    obtain ⟨h1, h2, h3, h4⟩ := rtsUnset_fixed (k.hand via s d m) d {.receiving}
    refine .hands (fun p hp => ?_) ?_ (fun x hx hn => ?_) (fun hr => ?_) (h2.trans rfl) (h3.trans rfl) (h4.trans rfl) ha
      (fun _ => ⟨hw.1.1, hw.2⟩) fun _ => hc
    · rw [h1]
      simp [modProc, hand, queueMess, record, hp]
    · rw [h1]
      simp [modProc, hand, queueMess, record, plain]
    · rw [h1]
      simp [modProc, hand, queueMess, record, hn]
    · rw [h1] at hr
      simp [modProc] at hr
  | take via s m hp ha =>
    refine .hands (fun q hq => ?_) ?_ (fun x hx hn => ?_) (fun hr => ?_) rfl rfl rfl ha (fun h => absurd hp h)
      fun h => absurd hp h
    · simp [modProc, hand, queueMess, record, hq]
    · simp [modProc, hand, queueMess, record, plain]
    · simp [modProc, hand, queueMess, record]
    · simpa [modProc, hand, queueMess, record] using hr

/-- What a sequence of moves leaves alone. -/
theorem Moves.leaves {c : Option Slot} {k k' : State} (h : Moves c k k') : Leaves c k k' := by
  induction h with
  | refl => exact .refl c k
  | tail _ hm ih => exact ih.trans hm.leaves

/-! ## System calls -/

/-- The actions of a call of `c` that are no moves. -/
inductive Special (c : Slot) (k : State) : State → Prop
  | none : Special c k k
  /-- `SENDREC`: the caller will wait for a reply. -/
  | ask : Special c k (k.modProc c fun r => { r with pMiscFlags := r.pMiscFlags ∪ {.replyPend} })
  /-- `RECEIVE`: the caller does not wait for a reply. -/
  | hear : Special c k (k.modProc c fun r => { r with pMiscFlags := r.pMiscFlags \ {.replyPend} })
  | submit (size : Nat) (t : Nat → AsynMsg) : Special c k (k.submitTable c size t)

/-- A system call of `c`: a special action between moves, the first of which put nothing into the history. -/
def Call (c : Slot) (k k' : State) : Prop :=
  ∃ k₁ k₂, Moves (some c) k k₁ ∧ k₁.log = k.log ∧ Special c k₁ k₂ ∧ Moves (some c) k₂ k'

namespace Call

variable {c : Slot} {k k' k'' : State}

theorem of_moves (h : Moves (some c) k k') : Call c k k' := ⟨k, k, .refl _ k, rfl, .none, h⟩

theorem of_special (h : Special c k k') (h' : Moves (some c) k' k'') : Call c k k'' := ⟨k, k', .refl _ k, rfl, h, h'⟩

theorem before (h : Moves (some c) k k') (hl : k'.log = k.log) (h' : Call c k' k'') : Call c k k'' := by
  obtain ⟨k1, k2, h1, hl1, hs, h2⟩ := h'
  exact ⟨k1, k2, h.trans h1, hl1.trans hl, hs, h2⟩

theorem after (h : Call c k k') (h' : Moves (some c) k' k'') : Call c k k'' := by
  obtain ⟨k1, k2, h1, hl1, hs, h2⟩ := h
  exact ⟨k1, k2, h1, hl1, hs, h2.trans h'⟩

theorem miniSenda (k : State) (c : Slot) (a : CallArgs) (size : Nat) : Call c k (k.miniSenda c a size).2 := by
  unfold State.miniSenda
  split
  · exact of_moves (.refl _ k)
  next hsys =>
    have h1 : Moves (some c) k (k.setTable (k.proc c).pPriv (2 ^ 32 - 1) 0) := .one (.register _ _ _ (.inl rfl))
    split_ifs
    · exact of_moves h1
    · exact of_moves h1
    · exact of_moves h1
    set k1 := k.setTable (k.proc c).pPriv (2 ^ 32 - 1) 0
    refine before h1 rfl (of_special (.submit size a.table) ?_)
    set k2 := k1.submitTable c size a.table
    have h2 := (AsynMoves.sendaLoop c a.io (range size) true k2).moves (c := some c) nofun
    unfold State.sendaScan
    dsimp only
    split_ifs
    · exact h2
    · exact h2
    -- the process that has submitted the table is still a system process
    · refine h2.next (.register _ _ _ (.inr ?_))
      rw [h2.leaves.priv, (h2.leaves.grants _).2.1]
      simpa [k2, k1, submitTable, record, setTable, modPriv, privFlags] using hsys

theorem performCall (k : State) (c : Slot) (a : CallArgs) : Call c k (k.performCall c a).2 := by
  unfold State.performCall
  split
  · dsimp only
    refine of_special .ask ?_
    have h := Moves.miniSend (some c) (k.modProc c fun r => { r with pMiscFlags := r.pMiscFlags ∪ {.replyPend} }) c
      a.srcDstE a.buf false
    split
    · exact h
    · exact h.trans (.miniReceive _ _ rfl _ _ _ _)
  split
  · exact of_moves (.miniSend _ k _ _ _ _)
  split
  · exact of_special .hear (.miniReceive _ _ rfl _ _ _ _)
  split
  · exact of_moves (.miniNotify _ k _ _)
  split
  · exact of_moves (.miniSend _ k _ _ _ _)
  split
  · exact miniSenda k _ _ _
  · exact of_moves (.refl _ k)

theorem checkedCall (k : State) (c : Slot) (a : CallArgs) : Call c k (k.checkedCall c a).2 := by
  rcases k.checkedCall_cases c a with ⟨r, -, h⟩ | h | ⟨h, -⟩
  · rw [h]
    exact of_moves (.refl _ k)
  · rw [h]
    exact of_moves (.halt _ k)
  · rw [h]
    exact performCall k _ _

theorem sysCall (k : State) (c : Slot) (a : CallArgs) : Call c k (k.sysCall c a).2 := by
  unfold State.sysCall
  split
  · have h : Moves (some c) k (k.modProc c fun r => { r with pMiscFlags := r.pMiscFlags \ {.scTrace} ∪ {.scDefer} }) :=
      .one (.fields c (by simp [plain]))
    exact of_moves (h.trans (.causeSig _ _ _ _))
  split
  · have h : Moves (some c) k (k.modProc c fun r => { r with pMiscFlags := r.pMiscFlags \ {.scDefer} ∪ {.scActive} }) :=
      .one (.fields c (by simp [plain]))
    exact before h rfl (checkedCall _ c a)
  · exact checkedCall k c a

theorem trap (k : State) (c : Slot) (a : CallArgs) : Call c k (k.trap c a) :=
  (sysCall k c a).after (.one (.fields c (f := fun p => { p with retreg := (k.sysCall c a).1 }) rfl))

theorem schedcheckRound (k : State) (p : Slot) (a : CallArgs) (fault : Bool) :
    Call p k (k.schedcheckRound p a fault) := by
  unfold State.schedcheckRound
  split
  · exact of_moves (.delivermsg _ k _ _)
  split
  · dsimp only
    split
    · exact (trap k p a).after (.sigDelayDone _ _ _)
    · exact trap k p a
  split
  · split
    · exact of_moves (.refl _ k)
    · have h : Moves (some p) k (k.modProc p fun r => { r with pMiscFlags := r.pMiscFlags \ {.scTrace, .scActive} }) :=
        .one (.fields p (by simp [plain]))
      exact of_moves (h.trans (.causeSig _ _ _ _))
  split
  · exact of_moves (.one (.fields p
      (by simp [plain])))
  · exact of_moves (.refl _ k)

end Call

/-- An operation is a system call of a process that can run, moves on behalf of no process or of the system task, the
death of a process after such moves, or a birth. -/
inductive Does (k : State) : Op → State → Prop
  | call {c : Slot} {a : CallArgs} {k' : State} (hc : k.runnable c = true) (h : Call c k k') :
      Does k (.call c a) k'
  | resume {p : Slot} {a : CallArgs} {fault : Bool} {k' : State} (hp : k.runnable p = true)
      (h : Call p k k') : Does k (.resume p a fault) k'
  | notify {s : Slot} {e : Endpoint} {k' : State} (h : Moves none k k') : Does k (.notify s e) k'
  | reply {d : Slot} {m : Message} {k' : State} (hs : k.runnable SYSTEM = true) (h : Moves (some SYSTEM) k k') :
      Does k (.reply d m) k'
  | exit {p : Slot} {e : Endpoint} : Does k (.exit p e) (k.doExit p e).2
  | signal {e : Endpoint} {sig : Nat} {k' : State} (h : Moves none k k') : Does k (.kill e sig) k'
  | kill {e : Endpoint} {rc : Slot} {k' : State} (he : k.isokendpt e = some rc) (h : Moves none k k') :
      Does k (.kill e SIGKILL) (k'.clearEndpoint rc)
  | fork {e : Endpoint} {rpc : Slot} {vm : Bool} {lin : Nat} : Does k (.fork e rpc vm lin) (k.doFork e rpc vm lin).2

/-- Every step is made of the moves that are allowed for it. -/
theorem exec_does {k k' : State} {o : Op} (h : k.exec o = some k') : k.Does o k' := by
  cases o with
  | call c a =>
    obtain ⟨hc, ⟨⟩⟩ := Option.ite_none_right_eq_some.mp h
    simp only [Bool.and_eq_true] at hc
    exact .call hc.1.1 (.before (.running _ k c) rfl (.trap _ c a))
  | resume p a fault =>
    obtain ⟨hp, ⟨⟩⟩ := Option.ite_none_right_eq_some.mp h
    exact .resume hp (.before (.running _ k p) rfl (.schedcheckRound _ p a fault))
  | notify s e =>
    cases h
    exact .notify (.miniNotify _ _ _ _)
  | reply d m =>
    obtain ⟨hs, ⟨⟩⟩ := Option.ite_none_right_eq_some.mp h
    exact .reply hs ((Moves.running _ k SYSTEM).trans (.sysReply _ _ _ _))
  | exit p e =>
    obtain ⟨-, ⟨⟩⟩ := Option.ite_none_left_eq_some.mp h
    exact .exit
  | kill e sig =>
    cases h
    unfold doKill
    cases he : k.isokendpt e with
    | none => exact .signal (.refl _ k)
    | some p =>
      dsimp only
      split
      · exact .signal (.refl _ k)
      split
      · exact .signal (.refl _ k)
      split
      next hsig =>
        subst hsig
        exact .kill he (.causeSig _ _ _ _)
      next => exact .signal (.causeSig _ _ _ _)
  | fork e rpc vm lin =>
    cases h
    exact .fork

end State

end Minix.Kernel
