import Minix.Kernel.CallerQueues
import Minix.Kernel.Tables

/-!
# Asynchronous messages in every run

`asyncOk_of_run`: in every run of system calls in which writing to a table does not fail, and in which a `RECEIVE` from
`ANY` can read the tables that have a message for its caller, an entry is delivered at most once, only to its
destination, and marked done exactly when it was delivered or failed; no process waits for a message while it has one,
and the receiver of an entry that is not delivered yet has `MF_ASYNMSG` set.

Both conditions are needed (`asyncOk_copyFails`). `try_one` reports an error when it cannot mark the entry done, so that
`mini_receive` blocks its caller although it has the message, and `try_async` clears `MF_ASYNMSG` after tables that it
could not read.
-/

namespace Minix.Kernel

open Minix.Lib List

namespace View

variable {v w u : View} {c : Slot} {r : Int} {a : CallArgs}

/-! ## What has nothing to do with tables -/

theorem Aside.refl (v : View) : v.Aside v := ⟨rfl, ⟨rfl, rfl, rfl⟩, [], (append_nil _).symm, fun _ h => by cases h⟩

theorem Aside.trans (h : v.Aside w) (h' : w.Aside u) : v.Aside u where
  fixed := h'.fixed.trans h.fixed
  table := ⟨h'.table.1.trans h.table.1, h'.table.2.1.trans h.table.2.1, h'.table.2.2.trans h.table.2.2⟩
  log := by
    obtain ⟨e, he, hn⟩ := h.log
    obtain ⟨e', he', hn'⟩ := h'.log
    refine ⟨e ++ e', by rw [he', he, append_assoc], fun x hx => ?_⟩
    rcases mem_append.mp hx with hx | hx
    · exact hn x hx
    · exact hn' x hx

theorem Aside.one {e : Event} (hf : w.fixed = v.fixed) (ht : w.asynsize = v.asynsize ∧ w.tab = v.tab ∧ w.asyn = v.asyn)
    (hl : w.log = v.log ++ [e]) (he : e.isAside = true) : v.Aside w :=
  ⟨hf, ht, [e], hl, fun x hx => by rwa [mem_singleton.mp hx]⟩

theorem Notifies.aside {p : Slot} {e : Endpoint} (h : v.Notifies p e w) : v.Aside w := by
  rcases h with rfl | ⟨q, m, -, -, rfl⟩
  · exact .refl _
  · exact .one rfl ⟨rfl, rfl, rfl⟩ rfl rfl

theorem Notifies.inbox {p : Slot} {e : Endpoint} (h : v.Notifies p e w) (hin : v.Inbox) : w.Inbox := by
  rcases h with rfl | ⟨q, m, -, -, rfl⟩
  · exact hin
  · exact hin.wake

theorem SendRes.aside {d : Slot} {data : Option Message} {nb : Bool} (h : v.SendRes c d data nb r w) :
    v.Aside w := by
  cases h with
  | failed => exact .refl _
  | @direct m _ _ _ =>
    exact .trans (w := v.record (.called c d m)) (.one rfl ⟨rfl, rfl, rfl⟩ rfl rfl) (.one rfl ⟨rfl, rfl, rfl⟩ rfl rfl)
  | queued => exact .one rfl ⟨rfl, rfl, rfl⟩ rfl rfl

theorem SendRes.inbox {d : Slot} {data : Option Message} {nb : Bool} (h : v.SendRes c d data nb r w)
    (hin : v.Inbox) : w.Inbox := by
  cases h with
  | failed => exact hin
  | @direct m _ _ _ => exact Inbox.wake (v := v.record (.called c d m)) hin
  | queued => exact hin

/-! ## System calls -/

theorem Searched.inbox (h : v.Searched c r w) (hin : v.Inbox) (hc : v.receiving c = false) : w.Inbox := by
  intro p hp
  rw [h.receiving] at hp
  have hpc : p ≠ c := by
    rintro rfl
    rw [hp] at hc
    cases hc
  rw [h.deliver p hpc]
  exact hin p hp

theorem RecvRes.tables (ht : v.Tables) (hin : v.Inbox) (hc : v.live c) (hd : v.deliver c = false)
    (hr : v.receiving c = false) {e : Endpoint} {src : Option Slot} {io : TableIo} (hw : State.Writes io)
    (hio : src = none → v.ReadsOk c io) (h : v.RecvRes c e src io w) : w.Tables ∧ w.Inbox := by
  cases h with
  | stopped => exact ⟨ht, hin⟩
  | whileSending => exact ⟨ht.aside ⟨rfl, ⟨rfl, rfl, rfl⟩, [], (append_nil _).symm, nofun⟩, hin.listen hd e⟩
  | notified => exact ⟨ht.aside (.one rfl ⟨rfl, rfl, rfl⟩ rfl rfl), hin.handTo hr⟩
  | @taken p l _ _ _ _ _ _ hn =>
    have ha : v.Aside (v.take c p (Loc.after l)) := .one rfl ⟨rfl, rfl, rfl⟩ rfl rfl
    have hh : (v.handTo .send p c (v.sendmsg p)).Inbox := hin.handTo hr
    have hi : (v.take c p (Loc.after l)).Inbox := hh
    exact ⟨ht.aside (ha.trans hn.aside), hn.inbox hi⟩
  | asyn _ ha =>
    have hs := ha.searched ht hc hw hio
    exact ⟨hs.tables, hs.inbox hin hr⟩
  | @listening u _ _ ha =>
    have key : u.Tables ∧ u.Inbox ∧ u.deliver c = false := by
      rcases ha with rfl | ⟨r, hne, ha⟩
      · exact ⟨ht, hin, hd⟩
      · have hs := ha.searched ht hc hw hio
        exact ⟨hs.tables, hs.inbox hin hr, by rw [hs.nothing hne]; exact hd⟩
    exact ⟨key.1.aside ⟨rfl, ⟨rfl, rfl, rfl⟩, [], (append_nil _).symm, nofun⟩, key.2.1.listen key.2.2 e⟩

theorem Received.tables (ht : v.Tables) (hin : v.Inbox) (hc : v.live c) (hd : v.deliver c = false)
    (hr : v.receiving c = false) (hw : State.Writes a.io) (hio : a.srcDstE = ANY → v.ReadsOk c a.io)
    (h : v.Received c a w) : w.Tables ∧ w.Inbox := by
  rcases h with rfl | ⟨src, hsrc, h⟩
  · exact ⟨ht, hin⟩
  · refine h.tables ht hin hc hd hr hw fun hn => hio ?_
    rcases hsrc with ⟨h, _⟩ | ⟨q, _, _, h⟩
    · exact h
    · rw [hn] at h
      cases h

theorem CallRes.tables (hg : v.Good) (ht : v.Tables) (hin : v.Inbox) (hc : v.Ready c) (hd : v.deliver c = false)
    (hw : State.Writes a.io) (hio : a.callNr = RECEIVE → a.srcDstE = ANY → v.ReadsOk c a.io)
    (h : v.CallRes c a w) : w.Tables ∧ w.Inbox := by
  cases h with
  | notify hn => exact ⟨ht.aside hn.aside, hn.inbox hin⟩
  | @senda k _ hk =>
    subst hk
    obtain ⟨h1, h2, _⟩ := State.miniSenda_tables hg ht hin hw (State.sizeT a.srcDstE)
    exact ⟨h1, h2⟩
  | sendnb _ _ hs => exact ⟨ht.aside hs.aside, hs.inbox hin⟩
  | send _ _ _ hs => exact ⟨ht.aside hs.aside, hs.inbox hin⟩
  | receive hn _ h => exact h.tables ht hin hc.1 hd hc.2.2 hw (hio hn)
  | @sendrec q r w' _ hn he _ hs h =>
    have ht' := ht.aside hs.aside
    have hin' := hs.inbox hin
    rcases h with ⟨_, rfl⟩ | ⟨_, h⟩
    · exact ⟨ht', hin'⟩
    · obtain ⟨h1, h2⟩ := hs.self hc.2.2
      refine h.tables ht' hin' ((hs.sameSlots.live c).mpr hc.1) (h2.trans hd) h1 hw fun ha => ?_
      exact absurd (he.trans ha) (hg.endpoint_ne_ANY q)

/-- The step is a system call or what the kernel does by itself; writing to a table does not fail, and a `RECEIVE` from
`ANY` can read the tables that have a message for its caller. -/
def TableOk (v : View) : Op → Prop
  | .call c a | .resume c a _ =>
    State.Writes a.io ∧ (a.callNr = RECEIVE → a.srcDstE = ANY → v.ReadsOk c a.io)
  | .notify .. | .reply .. => True
  | .exit .. | .kill .. | .fork .. => False

theorem RoundRes.tables (hg : v.Good) (ht : v.Tables) (hin : v.Inbox) {p : Slot} (hp : v.Ready p)
    (hw : State.Writes a.io) (hio : a.callNr = RECEIVE → a.srcDstE = ANY → v.ReadsOk p a.io) (h : v.RoundRes p a w) :
    w.Tables ∧ w.Inbox := by
  cases h with
  | delivered =>
    refine ⟨ht.aside (.one rfl ⟨rfl, rfl, rfl⟩ rfl rfl), fun q hq => ?_⟩
    by_cases hqp : q = p
    · simp [View.delivered, hqp]
    · simp only [View.delivered, Function.update_of_ne hqp]
      exact hin q hq
  | notify hn => exact ⟨ht.aside hn.aside, hn.inbox hin⟩
  | called hd h hn =>
    obtain ⟨h1, h2⟩ := h.tables hg ht hin hp hd hw hio
    exact ⟨h1.aside hn.aside, hn.inbox h2⟩

/-- **A step keeps the invariant of the tables.** -/
theorem StepRes.tables (hg : v.Good) (ht : v.Tables) (hin : v.Inbox) {o : Op} (hok : v.TableOk o) (h : v.StepRes o w) :
    w.Tables ∧ w.Inbox := by
  cases h with
  | call hc hd hw => exact hw.tables hg ht hin hc hd hok.1 hok.2
  | resume hp hw => exact hw.tables hg ht hin hp hok.1 hok.2
  | notify hn => exact ⟨ht.aside hn.aside, hn.inbox hin⟩
  | noReply => exact ⟨ht, hin⟩
  | reply _ _ hs => exact ⟨ht.aside hs.aside, hs.inbox hin⟩
  | noExit => cases hok
  | exit => cases hok
  | signal => cases hok
  | kill => cases hok
  | noFork => cases hok
  | fork => cases hok

end View

/-! ## Runs -/

namespace Submission

/-- The deliveries of an entry. -/
def deliveries (s : Submission) (i : Nat) : List (Slot × Message) := (s.of i).reduceOption

end Submission

namespace State

variable {k k' : State}

/-- Entry `i` of the registered table of `p` is valid, not done, and for `d`. -/
def Undelivered (k : State) (p : Slot) (i : Nat) (d : Slot) : Prop :=
  i < (k.priv (k.proc p).pPriv).sAsynsize ∧ (k.tab p i).Open ∧ (k.tab p i).dst = (k.proc d).pEndpoint

instance (k : State) (p : Slot) (i : Nat) (d : Slot) : Decidable (k.Undelivered p i d) :=
  inferInstanceAs (Decidable (_ ∧ _ ∧ _))

/-- Every system process has a privilege structure of its own, which is not the one of the user processes. -/
def Owners (k : State) : Prop :=
  ∀ p, .sysProc ∈ k.privFlags p → (k.proc p).pPriv ≠ userPrivId ∧ (k.priv (k.proc p).pPriv).sProcNr = some p

/-- The step is a system call or what the kernel does by itself; writing to a table does not fail, and a `RECEIVE` from
`ANY` can read the tables that have a message for its caller. -/
def TableOk (k : State) : Op → Prop
  | .call c a | .resume c a _ => Writes a.io ∧
    (a.callNr = RECEIVE → a.srcDstE = ANY → ∀ p, (∃ i, k.Undelivered p i c) → Reads a.io p)
  | .notify .. | .reply .. => True
  | .exit .. | .kill .. | .fork .. => False

/-- Asynchronous messages are delivered at most once and not forgotten. -/
structure AsyncOk (k : State) : Prop where
  /-- An entry is delivered at most once for each submission, and to its destination. -/
  once : ∀ p s, submission k.log p = some s → ∀ i, (s.deliveries i).length ≤ 1 ∧
    ∀ d m, (d, m) ∈ s.deliveries i → (k.proc d).pEndpoint = (s.table i).dst ∧
      m = { (s.table i).msg with mSource := (k.proc p).pEndpoint }
  /-- A valid entry is marked done exactly when it was delivered or failed. -/
  done : ∀ p s, submission k.log p = some s → ∀ i, (s.table i).Open →
    ((k.tab p i).flags.testBit amfDone = true ↔ s.of i ≠ [])
  /-- No process is blocked while it has a message. -/
  inbox : ∀ p, .receiving ∈ (k.proc p).pRtsFlags → .delivermsg ∉ (k.proc p).pMiscFlags
  /-- The receiver of a message that is not delivered yet knows that there is one. -/
  told : ∀ p i d, k.Undelivered p i d → k.Live d → .asynmsg ∈ (k.proc d).pMiscFlags

theorem asyncOk_of_tables (h : k.view.Tables) (hin : k.view.Inbox) : k.AsyncOk where
  once p s hs i := by
    cases h.tracked p s hs i with
    | fresh ho => simp [Submission.deliveries, ho]
    | @settled o _ ho _ _ _ hd =>
      rcases o with _ | ⟨d, m⟩
      · simp [Submission.deliveries, ho]
      · have hdel : s.deliveries i = [(d, m)] := by
          rw [Submission.deliveries, ho]
          rfl
        rw [hdel]
        refine ⟨le_rfl, fun d' m' hm => ?_⟩
        cases mem_singleton.mp hm
        exact hd d m rfl
  done p s hs i hopen := by
    cases h.tracked p s hs i with
    | fresh ho ht =>
      rw [show k.tab p i = s.table i from ht, hopen.2.2]
      simp [ho]
    | settled ho _ _ ht =>
      rw [show k.tab p i = _ from ht, show ((s.table i).finish _).flags.testBit amfDone = true from
        View.testBit_setDone _]
      simp [ho]
  inbox p hp := by
    have := hin p (by simpa [State.view] using hp)
    simpa [State.view] using this
  told p i d hu hl := by
    obtain ⟨hlt, hopen, hd⟩ := hu
    have hne : k.view.asynsize (k.view.privId p) ≠ 0 := by
      change (k.priv (k.proc p).pPriv).sAsynsize ≠ 0
      omega
    rcases (h.registered p hne).2.2 i hlt with h1 | ⟨_, h1 | h1⟩
    · exact absurd h1 hopen.1
    · rw [show (k.view.tab p i).flags.testBit amfDone = false from hopen.2.2] at h1
      cases h1
    · have := (h1 d (live_iff.mpr hl) hd.symm).2
      simpa [State.view] using this

/-- The invariant of a run. -/
structure AsyncInv (k : State) : Prop where
  good : k.view.Good
  tables : k.view.Tables
  inbox : k.view.Inbox

theorem Initial.asyncInv (h : k.Initial) (ho : k.Owners) : k.AsyncInv where
  good := h.good
  tables := by
    refine ⟨fun p hp => ho p (by simpa [State.view, privFlags] using hp), fun p s hs => ?_,
      fun p hp => absurd (h.asynsize _) hp⟩
    rw [show k.view.log = [] from h.log] at hs
    cases hs
  inbox p hp := by
    rw [(h.idle p).2.2.2] at hp
    cases hp

/-- A step keeps what the history says about the tables. -/
theorem step_asyncInv {o : Op} (h : k.AsyncInv) (hok : k.TableOk o) (hs : k.step o = some k') : k'.AsyncInv := by
  have hfork : k.ForkOk o := by
    cases o with
    | fork => cases hok
    | _ => trivial
  have hview : k.view.TableOk o := by
    cases o with
    | call => exact hok
    | resume => exact hok
    | notify => trivial
    | reply => trivial
    | exit => cases hok
    | kill => cases hok
    | fork => cases hok
  obtain ⟨h1, h2⟩ := (step_view h.good hs).tables h.good h.tables h.inbox hview
  exact ⟨step_good h.good hfork hs, h1, h2⟩

/-- **Asynchronous messages in every run** of system calls in which writing to a table does not fail and a `RECEIVE`
from `ANY` can read the tables that have a message for its caller. -/
theorem asyncOk_of_run {os : List Op} (h0 : k.Initial) (ho : k.Owners) (hok : AllOk step TableOk os k)
    (hr : run step os k = some k') : k'.AsyncOk := by
  have h : k'.AsyncInv := run_invariant (fun _ _ _ h => step_asyncInv h) (h0.asyncInv ho) hok hr
  exact asyncOk_of_tables h.tables h.inbox

end State

/-! ## Three runs -/

/-- A table with one valid entry, a message for `e`. -/
def oneEntry (e : Endpoint) (i : Nat) : AsynMsg := if i = 0 then { flags := 1, dst := e, msg := { body := 7 } } else {}

/-- Process `c` submits the table. -/
def senda (c : Slot) (e : Endpoint) : Op :=
  .call c { callNr := SENDA, srcDstE := 1, buf := ⟨4096, 1, none⟩, table := oneEntry e }

/-- Process `c` does a `RECEIVE` from `e` in which the accesses `bad` to tables fail. -/
def receiveBad (c : Slot) (e : Endpoint) (bad : Access → Bool) : Op :=
  .call c { callNr := RECEIVE, srcDstE := e, buf := ⟨0, 1, none⟩, io := fun _ _ x => !bad x }

/-- The message in `p_delivermsg` of `p` is copied. -/
def deliverTo (p : Slot) : Op := .resume p { callNr := 0, srcDstE := 0, buf := ⟨0, 1, none⟩ } false

/-- RS receives the message that VFS has for it. -/
def sendaRun : List Op := [senda VFS (procNr RS), plainCall RS RECEIVE ANY, deliverTo RS]

theorem asyncOk_sendaRun : ∃ k, run State.step sendaRun sixState = some k ∧ k.AsyncOk ∧
    (submission k.log VFS).map (·.deliveries 0) = some [(RS, { mSource := procNr VFS, body := 7 })] ∧
    (k.tab VFS 0).flags.testBit State.amfDone = true := by
  obtain ⟨k, hk, key⟩ : ∃ k, run State.step sendaRun sixState = some k ∧
      (submission k.log VFS).map (·.deliveries 0) = some [(RS, { mSource := procNr VFS, body := 7 })] ∧
      (k.tab VFS 0).flags.testBit State.amfDone = true := by decide +kernel
  have howners : sixState.Owners := by
    unfold State.Owners
    decide +kernel
  have hok : AllOk State.step State.TableOk sendaRun sixState := by
    refine allOk_of_forall _ fun o ho k => ?_
    simp only [sendaRun, mem_cons, not_mem_nil, or_false] at ho
    rcases ho with rfl | rfl | rfl
    all_goals exact ⟨fun _ _ => ⟨rfl, rfl⟩, fun _ _ _ _ _ => ⟨rfl, rfl, rfl⟩⟩
  exact ⟨k, hk, State.asyncOk_of_run sixState_initial howners hok hk, key⟩

/-- RS receives from VFS and finds its message, but the entry cannot be marked done. Then VFS sends another message, and
RS receives again. -/
def badWrite : List Op :=
  [senda VFS (procNr RS), receiveBad RS (procNr VFS) (fun x => x = .putFlags),
    plainCall VFS SEND (procNr RS), deliverTo RS,
    plainCall RS RECEIVE (procNr VFS)]

/-- RS cannot read the table of VFS. -/
def badRead : List Op := [senda VFS (procNr RS), receiveBad RS ANY (fun x => x = .getFlags)]

/-- After the first two steps of `badWrite` RS is blocked with a message in `p_delivermsg`, and the entry of VFS is not
done although its message was delivered; in the end it was delivered twice. After `badRead` the message for RS is there,
but `MF_ASYNMSG` of RS is clear. -/
theorem asyncOk_copyFails :
    (∃ k, run State.step (badWrite.take 2) sixState = some k ∧ .receiving ∈ (k.proc RS).pRtsFlags ∧
      .delivermsg ∈ (k.proc RS).pMiscFlags ∧ (k.tab VFS 0).flags.testBit State.amfDone = false ∧
      (submission k.log VFS).map (fun s => (s.deliveries 0).length) = some 1 ∧ ¬ k.AsyncOk) ∧
    (∃ k, run State.step badWrite sixState = some k ∧
      (submission k.log VFS).map (fun s => (s.deliveries 0).length) = some 2) ∧
    (∃ k, run State.step badRead sixState = some k ∧ k.Undelivered VFS 0 RS ∧ k.Live RS ∧
      .asynmsg ∉ (k.proc RS).pMiscFlags ∧ ¬ k.AsyncOk) := by
  refine ⟨?_, by decide +kernel, ?_⟩
  · obtain ⟨k, hk, h1, h2, h3, h4⟩ : ∃ k, run State.step (badWrite.take 2) sixState = some k ∧
        .receiving ∈ (k.proc RS).pRtsFlags ∧ .delivermsg ∈ (k.proc RS).pMiscFlags ∧
        (k.tab VFS 0).flags.testBit State.amfDone = false ∧
        (submission k.log VFS).map (fun s => (s.deliveries 0).length) = some 1 := by decide +kernel
    exact ⟨k, hk, h1, h2, h3, h4, fun hok => hok.inbox RS h1 h2⟩
  · obtain ⟨k, hk, h1, h2, h3⟩ : ∃ k, run State.step badRead sixState = some k ∧ k.Undelivered VFS 0 RS ∧ k.Live RS ∧
        .asynmsg ∉ (k.proc RS).pMiscFlags := by decide +kernel
    exact ⟨k, hk, h1, h2, h3, fun hok => h3 (hok.told VFS 0 RS h1 h2)⟩

end Minix.Kernel
