import Minix.Vfs.LockRun

/-!
# Runs with advisory locks

`locking_of_run`: in every run in which a process does not lock bytes again with another type and unlocks only regions
that no other process has locked, the table gives each process the lock it has set last on each byte. Locks of two
processes on a byte are read locks, nobody changes the locks of another process, and whenever bytes are unlocked all
processes that wait for a lock are scheduled to try again.

Without the conditions this fails (`locking_fails`): `lock_op` clears the locks of all processes on the region, and
returns `ENOLCK` before it calls `lock_revive`, which passes over `INIT` and the servers.
-/

namespace Minix.Vfs

open Minix.Lib Function Option LockState

/-! ## Calls of `fcntl` -/

/-- The locks of two processes on a byte are read locks. -/
def Holding.Compatible (held : Holding) : Prop :=
  ∀ pid pid' vno b t t', pid ≠ pid' → held pid vno b = some t → held pid' vno b = some t' → t = .rd ∧ t' = .rd

theorem Holding.Compatible.mono {held held' : Holding} (h : held.Compatible)
    (hle : ∀ pid vno b t, held' pid vno b = some t → held pid vno b = some t) : held'.Compatible :=
  fun pid pid' vno b t t' hne h1 h2 => h pid pid' vno b t t' hne (hle _ _ _ _ h1) (hle _ _ _ _ h2)

/-- The request of a call, if it passes the checks. -/
def LockState.query (s : LockState) (p : Fin nrProcs) (fd pos : Nat) (size : Int) (req : LockReq)
    (flock : Option Flock) : Option LockQuery :=
  match (s.fproc p).pid, (s.fproc p).filp fd, flock with
  | some pid, some f, some fl =>
    match lockQuery pid f pos size req fl with
    | some (.ok q) => some q
    | _ => none
  | _, _, _ => none

/-- What is required of a call: the position is not too high to be computed with, and only processes that `lock_revive`
looks at wait for a lock. -/
def LockState.AskOk (s : LockState) (p : Fin nrProcs) (fd pos : Nat) (size : Int) (req : LockReq)
    (flock : Option Flock) : Prop :=
  fd < openMax ∧ (req = .setlkw → initProcNr < p.val) ∧
    (∀ fl ∈ flock, fl.lWhence = .seekCur → pos < 2 ^ 32) ∧ ∀ q ∈ s.query p fd pos size req flock, QueryOk s.table q

/-- What the processes have locked after a call. -/
def Holding.asked (held : Holding) (q : Option LockQuery) (r : LockRet) : Holding :=
  match q with
  | some q => if r = .OK ∧ q.req ≠ .getlk then held.request q else held
  | none => held

section Ask

variable {s s' : LockState} {p : Fin nrProcs} {fd pos pid : Nat} {size : Int} {req : LockReq} {flock : Option Flock}
  {held : Holding} {q : LockQuery} {f : LockFilp} {fl : Flock}

theorem lockQuery_isSome (pid : Nat) (f : LockFilp) (size : Int) (req : LockReq)
    (h : fl.lWhence = .seekCur → pos < 2 ^ 32) : ∃ x, lockQuery pid f pos size req fl = some x := by
  have hbase : ∃ b, fl.base pos size = some b := by
    rw [Flock.base]
    cases hw : fl.lWhence with
    | seekCur =>
      have : pos < 4294967296 := h hw
      simp [this]
    | _ => exact ⟨_, rfl⟩
  obtain ⟨b, hb⟩ := hbase
  simp only [lockQuery, hb]
  split_ifs <;> try exact ⟨_, rfl⟩
  cases hreg : b.bind fl.region <;> simp [hreg]

theorem lockQuery_ok (h : lockQuery pid f pos size req fl = some (.ok q)) :
    q.req = req ∧ q.pid = pid ∧ q.vno = f.vno ∧ (q.req = .getlk → q.ltype ≠ none) := by
  simp only [lockQuery] at h
  split at h
  · cases h
  next hother =>
  split at h
  · cases h
  next hget =>
  split at h
  · cases h
  split at h
  · cases h
  split at h
  · cases h
  cases hb : fl.base pos size with
  | none => simp [hb] at h
  | some b =>
    cases hreg : b.bind fl.region with
    | none => simp [hb, hreg] at h
    | some x =>
      simp only [hb, hreg, bind_eq_bind, bind_some, Option.some.injEq, Except.ok.injEq] at h
      subst h
      refine ⟨rfl, rfl, rfl, fun hr => ?_⟩
      cases ht : fl.lType with
      | lock t => simp
      | unlck => exact absurd ⟨hr, ht⟩ hget
      | other => exact absurd ht hother

/-- What a call does. -/
structure Asked (s : LockState) (q : Option LockQuery) (held : Holding) (r : LockRet) (s' : LockState) : Prop where
  core : Core s'
  stands : Stands s'.table (held.asked q r)
  compatible : (held.asked q r).Compatible
  released : Kept s.table s'.table ∨ AllRevived s'

theorem Asked.refused (h : Core s) (hs : Stands s.table held) (hc : held.Compatible) (r : LockRet) :
    Asked s none held r s :=
  ⟨h, hs, hc, .inl fun _ _ h => h⟩

theorem LockState.Procs.core (hP : LockState.Procs s p q s') (h : Core s) (hcount : s'.nrLocks = (used s'.table).card)
    (hlive : (s.fproc p).pid ≠ none) (hwait : q.req = .setlkw → initProcNr < p.val)
    (hopen : ∀ pid vno b t, Locked s'.table pid vno b t →
      ∃ p fd f, fd < openMax ∧ (s.fproc p).pid = some pid ∧ (s.fproc p).filp fd = some f ∧ f.vno = vno) : Core s' := by
  have hsame (p' : Fin nrProcs) : (s'.fproc p').pid = (s.fproc p').pid ∧ (s'.fproc p').filp = (s.fproc p').filp := by
    cases hP with
    | same h => simp [h]
    | revived h =>
      rw [h]
      exact ⟨(s.lockRevive_proc p').1, (s.lockRevive_proc p').2.2⟩
    | suspended x hx h =>
      rw [h]
      by_cases he : p' = p
      · subst he
        simp
      · simp [he]
  refine ⟨hcount, fun pid vno b t hl => ?_, fun p1 p2 pid h1 h2 => ?_, fun p' hp' => ?_⟩
  · obtain ⟨p', fd, f, hfd, hp', hf, hv⟩ := hopen pid vno b t hl
    exact ⟨p', fd, f, hfd, (hsame p').1.trans hp', (congrFun (hsame p').2 fd).trans hf, hv⟩
  · rw [(hsame p1).1] at h1
    rw [(hsame p2).1] at h2
    exact h.pids p1 p2 pid h1 h2
  · rw [(hsame p').1]
    cases hP with
    | same h' => exact h.waitable p' (by rwa [h'] at hp')
    | revived h' => exact h.waitable p' (by rwa [h', (s.lockRevive_proc p').2.1] at hp')
    | suspended x hx h' =>
      by_cases he : p' = p
      · rw [he]
        exact ⟨hwait hx, hlive⟩
      · exact h.waitable p' (by rwa [h', update_of_ne he] at hp')

theorem LockState.Requested.compatible {r : LockRet} (hR : LockState.Requested s p q held r s')
    (hs : Stands s.table held)
    (hc : held.Compatible) : (held.asked (some q) r).Compatible := by
  rw [Holding.asked]
  split
  swap
  · exact hc
  next hset =>
    have hnew (pid pid' vno : Nat) (b : Int) (t t' : LockType) (hne : pid ≠ pid')
        (hreg : pid = q.pid ∧ vno = q.vno ∧ q.first ≤ b ∧ b ≤ q.last) (ht : q.ltype = some t)
        (hh : held pid' vno b = some t') : t = .rd ∧ t' = .rd := by
      obtain ⟨i, l, hl, hcov⟩ := (hs pid' vno b t').mpr hh
      have hno := hR.fresh hset.1 hset.2 t ht i l hl
      by_contra hbad
      apply hno
      refine ⟨hcov.overlaps hreg.2, ?_, ?_⟩
      · rw [hcov.2.2.1]
        exact hbad
      · rw [hcov.1]
        exact fun he => hne (hreg.1.trans he.symm)
    intro pid pid' vno b t t' hne h1 h2
    simp only [Holding.request] at h1 h2
    split at h1
    next hreg =>
      rw [if_neg fun h => hne (hreg.1.trans h.1.symm)] at h2
      exact hnew pid pid' vno b t t' hne hreg h1 h2
    next hreg =>
      split at h2
      next hreg' => exact (hnew pid' pid vno b t' t hne.symm hreg' h2 h1).symm
      · exact hc pid pid' vno b t t' hne h1 h2

theorem LockState.Requested.asked {r : LockRet} (hR : LockState.Requested s p q held r s') (h : Core s)
    (hs : Stands s.table held)
    (hc : held.Compatible) (hwait : q.req = .setlkw → initProcNr < p.val) (hfd : fd < openMax)
    (hpid : (s.fproc p).pid = some q.pid) (hf : (s.fproc p).filp fd = some f) (hv : f.vno = q.vno) :
    Asked s (some q) held r s' := by
  refine ⟨hR.procs.core h hR.count (by rw [hpid]; exact some_ne_none _) hwait ?_, hR.stands, hR.compatible hs hc, ?_⟩
  · intro pid vno b t hl
    have hh := (hR.stands pid vno b t).mp hl
    by_cases hold : held pid vno b = some t
    · exact h.opened pid vno b t ((hs pid vno b t).mpr hold)
    · -- a byte that the caller has just locked
      have hreg : pid = q.pid ∧ vno = q.vno := by
        split at hh
        · by_contra hno
          rw [Holding.request, if_neg fun hreg => hno ⟨hreg.1, hreg.2.1⟩] at hh
          exact hold hh
        · exact absurd hh hold
      exact ⟨p, fd, f, hfd, by rw [hpid, hreg.1], hf, hv.trans hreg.2.symm⟩
  · rcases hR.released with hr | hr
    · exact .inl hr
    · refine .inr fun p' hp' => ?_
      rw [hr] at hp' ⊢
      exact lockRevive_revived h.waitable p' hp'

theorem doFcntl_spec (h : Core s) (hs : Stands s.table held) (hc : held.Compatible)
    (hok : s.AskOk p fd pos size req flock) (copyOut : Bool) :
    ∃ r fl' s', s.doFcntl p fd pos size req flock copyOut = some (r, fl', s') ∧
      Asked s (s.query p fd pos size req flock) held r s' := by
  obtain ⟨hfd, hwait, hpos, hq⟩ := hok
  cases hpid : (s.fproc p).pid with
  | none =>
    refine ⟨.EBADF, none, s, by simp only [doFcntl, hpid], ?_⟩
    simp only [query, hpid]
    exact .refused h hs hc _
  | some pid =>
  cases hf : (s.fproc p).filp fd with
  | none =>
    refine ⟨.EBADF, none, s, by simp only [doFcntl, hpid, hf], ?_⟩
    simp only [query, hpid, hf]
    exact .refused h hs hc _
  | some f =>
  have hcall : s.doFcntl p fd pos size req flock copyOut = s.lockOp p fd pid f pos size req flock copyOut := by
    simp only [doFcntl, hpid, hf]
  rw [hcall, lockOp.eq_def]
  cases flock with
  | none =>
    simp only [query, hpid, hf]
    exact ⟨_, _, _, rfl, .refused h hs hc _⟩
  | some fl =>
  obtain ⟨x, hx⟩ := lockQuery_isSome pid f size req (hpos fl rfl)
  simp only [query, hpid, hf, hx] at hq ⊢
  cases x with
  | error r => exact ⟨_, _, _, rfl, .refused h hs hc _⟩
  | ok q =>
    obtain ⟨hreq, hqpid, hvno, hget⟩ := lockQuery_ok hx
    obtain ⟨r, fl', s', hset, hR⟩ := setLock_spec h.count hs hget (hq q rfl)
    exact ⟨r, fl', s', hset, hR.asked h hs hc (hreq ▸ hwait) hfd (hqpid ▸ hpid) hf hvno.symm⟩

end Ask

/-! ## The run -/

/-- The state of VFS, and what the processes have locked. -/
structure LockTraced where
  st : LockState
  held : Holding

namespace LockTraced

/-- What the processes have locked after an event. -/
def heldAfter (t : LockTraced) (r : LockRet) : LockEvent → Holding
  | .fcntl p fd pos size req flock _ => t.held.asked (t.st.query p fd pos size req flock) r
  | .retry p pos size flock _ =>
    match (t.st.fproc p).onLock with
    | none => t.held
    | some (fd, req) => t.held.asked (t.st.query p fd pos size req flock) r
  | .close p fd =>
    match (t.st.fproc p).pid, (t.st.fproc p).filp fd with
    | some pid, some f => t.held.close pid f.vno
    | _, _ => t.held
  | .exit p =>
    match (t.st.fproc p).pid with
    | some pid => t.held.exit pid
    | none => t.held
  | _ => t.held

def step (t : LockTraced) (e : LockEvent) : Option LockTraced :=
  (t.st.handle e).map fun (r, _, st) => ⟨st, t.heldAfter r e⟩

/-- What is required of an event. Calls are made by processes that do not wait, PM gives a new process a pid that is not
in use, and new descriptors are free ones. -/
def StepOk (t : LockTraced) : LockEvent → Prop
  | .fcntl p fd pos size req flock _ => (t.st.fproc p).onLock = none ∧ t.st.AskOk p fd pos size req flock
  | .retry p pos size flock _ => ∀ x ∈ (t.st.fproc p).onLock, t.st.AskOk p x.1 pos size x.2 flock
  | .close _ _ => True
  | .exit _ => True
  | .unpause _ => True
  | .fork p child pid =>
    (t.st.fproc p).onLock = none ∧ (t.st.fproc child).pid = none ∧ ∀ p', (t.st.fproc p').pid ≠ some pid
  | .open_ p fd _ => (t.st.fproc p).filp fd = none

/-- The process that an event is about. -/
def actor : LockEvent → Fin nrProcs
  | .fcntl p .. => p
  | .retry p .. => p
  | .close p _ => p
  | .exit p => p
  | .unpause p => p
  | .fork p .. => p
  | .open_ p .. => p

/-- Locks are as they should be after an event. -/
structure Locking (t : LockTraced) (e : LockEvent) (t' : LockTraced) : Prop where
  /-- Each process has one type of lock on a byte at most. -/
  unique : ∀ pid vno b l l', Locked t'.st.table pid vno b l → Locked t'.st.table pid vno b l' → l = l'
  /-- That is the one it has set last, and not unlocked since. -/
  stands : Stands t'.st.table t'.held
  /-- Two processes that have locked a byte have locked it for reading. -/
  shared : ∀ pid pid' vno b l l', pid ≠ pid' → Locked t'.st.table pid vno b l → Locked t'.st.table pid' vno b l' →
    l = .rd ∧ l' = .rd
  /-- The locks of other processes do not change. -/
  others : ∀ pid vno b l, (t.st.fproc (actor e)).pid ≠ some pid →
    (Locked t'.st.table pid vno b l ↔ Locked t.st.table pid vno b l)
  /-- If a lock has been removed or has become smaller, all processes that wait for a lock are scheduled to try again.
  -/
  revived : ¬Kept t.st.table t'.st.table → AllRevived t'.st

/-- What holds between two events. -/
structure Inv (t : LockTraced) : Prop where
  core : Core t.st
  stands : Stands t.st.table t.held
  compatible : t.held.Compatible

section Step

variable {t t' : LockTraced} {e : LockEvent}

/-- The locks of the others do not change if what they hold does not. -/
theorem Inv.locking (h : Inv t) (h' : Inv t') (hheld : ∀ pid vno b, (t.st.fproc (actor e)).pid ≠ some pid →
      t'.held pid vno b = t.held pid vno b)
    (hrel : Kept t.st.table t'.st.table ∨ AllRevived t'.st) :
    Locking t e t' where
  unique pid vno b l l' h1 h2 :=
    Option.some.inj (((h'.stands pid vno b l).mp h1).symm.trans ((h'.stands pid vno b l').mp h2))
  stands := h'.stands
  shared pid pid' vno b l l' hne h1 h2 :=
    h'.compatible pid pid' vno b l l' hne ((h'.stands pid vno b l).mp h1) ((h'.stands pid' vno b l').mp h2)
  others pid vno b l hne := by rw [h'.stands pid vno b l, h.stands pid vno b l, hheld pid vno b hne]
  revived := hrel.resolve_left

theorem Inv.quiet (h : Inv t) {st : LockState} (hc : Core st) (ht : st.table = t.st.table) :
    Locking t e ⟨st, t.held⟩ ∧ Inv ⟨st, t.held⟩ := by
  have h' : Inv ⟨st, t.held⟩ := ⟨hc, by rw [ht]; exact h.stands, h.compatible⟩
  exact ⟨h.locking h' (fun _ _ _ _ => rfl) (.inl fun i l hl => by rwa [ht]), h'⟩

/-- A call of `fcntl`, from a state that differs from `t` in what the caller waits for. -/
theorem Inv.asked (h : Inv t) {st st' : LockState} {p : Fin nrProcs} {q : Option LockQuery} {r : LockRet}
    (ht : st.table = t.st.table)
    (hA : Asked st q t.held r st') (hp : actor e = p) (hq : ∀ x ∈ q, (t.st.fproc p).pid = some x.pid) :
    Locking t e ⟨st', t.held.asked q r⟩ ∧ Inv ⟨st', t.held.asked q r⟩ := by
  have h' : Inv ⟨st', t.held.asked q r⟩ := ⟨hA.core, hA.stands, hA.compatible⟩
  refine ⟨h.locking h' (fun pid vno b hne => ?_) (ht ▸ hA.released), h'⟩
  cases q with
  | none => rfl
  | some x =>
    rw [hp, hq x rfl] at hne
    simp only [Holding.asked]
    split
    · exact if_neg fun hreg => hne (congrArg some hreg.1.symm)
    · rfl

theorem query_pid {s : LockState} {p : Fin nrProcs} {fd pos : Nat} {size : Int} {req : LockReq} {flock : Option Flock}
    {q : LockQuery}
    (h : q ∈ s.query p fd pos size req flock) : (s.fproc p).pid = some q.pid := by
  rw [mem_def] at h
  unfold query at h
  split at h
  next hpid _ =>
    split at h
    next hx =>
      cases h
      rw [hpid, (lockQuery_ok hx).2.1]
    · cases h
  · cases h

theorem Inv.close (h : Inv t) (p : Fin nrProcs) (fd : Nat) : ∃ t', t.step (.close p fd) = some t' ∧
    Locking t (.close p fd) t' ∧ Inv t' := by
  refine ⟨_, rfl, ?_⟩
  cases hpid : (t.st.fproc p).pid with
  | none =>
    have hst : t.st.closeFd p fd = t.st := by simp only [closeFd, hpid]
    simp only [heldAfter, hpid, hst]
    exact h.quiet h.core rfl
  | some pid =>
  cases hf : (t.st.fproc p).filp fd with
  | none =>
    simp only [heldAfter, hpid, hf, closeFd_none hf]
    exact h.quiet h.core rfl
  | some f =>
    simp only [heldAfter, hpid, hf]
    obtain ⟨hcl, -, -, hlock⟩ := closeFd_spec h.core.count h.core.waitable hpid hf
    have h' : Inv ⟨t.st.closeFd p fd, t.held.close pid f.vno⟩ := by
      refine ⟨h.core.closeFd hpid hf, fun pid' vno b l => ?_, h.compatible.mono fun pid' vno b l hl => ?_⟩
      · rw [hlock, h.stands pid' vno b l]
        simp only [Holding.close]
        split
        next he => exact iff_of_false (fun hl => hl.2 he) (by simp)
        next he => exact and_iff_left he
      · simp only [Holding.close] at hl
        split at hl
        · cases hl
        · exact hl
    refine ⟨h.locking h' (fun pid' vno b hne => ?_) hcl.released, h'⟩
    exact if_neg fun he => hne (hpid.trans (congrArg some he.1.symm))

theorem Inv.exit (h : Inv t) (p : Fin nrProcs) : ∃ t', t.step (.exit p) = some t' ∧
    Locking t (.exit p) t' ∧ Inv t' := by
  refine ⟨_, rfl, ?_⟩
  cases hpid : (t.st.fproc p).pid with
  | none =>
    obtain ⟨hcore, htab⟩ := freeProc_dead h.core hpid
    simp only [heldAfter, hpid]
    exact h.quiet hcore htab
  | some pid =>
    simp only [heldAfter, hpid]
    obtain ⟨hcore, hlock, hrel⟩ := freeProc_spec h.core hpid
    have h' : Inv ⟨t.st.freeProc p, t.held.exit pid⟩ := by
      refine ⟨hcore, fun pid' vno b l => ?_, h.compatible.mono fun pid' vno b l hl => ?_⟩
      · rw [hlock, h.stands pid' vno b l]
        simp only [Holding.exit]
        split
        next he => exact iff_of_false (fun hl => hl.2 he) (by simp)
        next he => exact and_iff_left he
      · simp only [Holding.exit] at hl
        split at hl
        · cases hl
        · exact hl
    refine ⟨h.locking h' (fun pid' vno b hne => ?_) hrel, h'⟩
    exact if_neg fun he => hne (hpid.trans (congrArg some he.symm))

/-- A step keeps the locks right. -/
theorem Inv.step (h : Inv t) (hok : t.StepOk e) : ∃ t', t.step e = some t' ∧ Locking t e t' ∧ Inv t' := by
  cases e with
  | fcntl p fd pos size req flock copyOut =>
    obtain ⟨r, fl', st', hcall, hA⟩ := doFcntl_spec h.core h.stands h.compatible hok.2 copyOut
    refine ⟨⟨st', t.heldAfter r (.fcntl p fd pos size req flock copyOut)⟩, ?_, ?_⟩
    · simp only [LockTraced.step, handle, hcall, map_some]
    · exact h.asked rfl hA rfl fun x hx => query_pid hx
  | retry p pos size flock copyOut =>
    cases hon : (t.st.fproc p).onLock with
    | none =>
      refine ⟨t, ?_, h.quiet h.core rfl⟩
      simp only [LockTraced.step, handle, hon, map_some, heldAfter]
    | some x =>
      have hun : t.st.unpause p = t.st.setProc p { t.st.fproc p with onLock := none, reviving := false } :=
        if_pos (by rw [hon]; exact some_ne_none x)
      have hcore := h.core.unpause p
      rw [hun] at hcore
      generalize hst : t.st.setProc p { t.st.fproc p with onLock := none, reviving := false } = st at hcore
      have htab : st.table = t.st.table := by rw [← hst]; rfl
      -- the call is the same, since pid and files of the process are
      have hquery : st.query p x.1 pos size x.2 flock = t.st.query p x.1 pos size x.2 flock := by
        simp [← hst, query, setProc]
      have hask : st.AskOk p x.1 pos size x.2 flock := by
        obtain ⟨h1, h2, h3, h4⟩ := hok x hon
        exact ⟨h1, h2, h3, by rw [hquery, htab]; exact h4⟩
      obtain ⟨r, fl', st', hcall, hA⟩ := doFcntl_spec hcore (htab ▸ h.stands) h.compatible hask copyOut
      rw [hquery] at hA
      refine ⟨⟨st', t.held.asked (t.st.query p x.1 pos size x.2 flock) r⟩, ?_, ?_⟩
      · simp only [LockTraced.step, handle, hon, hst, hcall, map_some, heldAfter]
      · exact h.asked htab hA rfl fun x hx => query_pid hx
  | close p fd => exact h.close p fd
  | exit p => exact h.exit p
  | unpause p =>
    refine ⟨_, rfl, h.quiet (h.core.unpause p) ?_⟩
    simp only [unpause]
    split <;> rfl
  | fork p child pid =>
    obtain ⟨hon, hfree, hpid⟩ := hok
    refine ⟨⟨t.st.setProc child { t.st.fproc p with pid := some pid }, t.held⟩, ?_, h.quiet ?_ rfl⟩
    · simp [LockTraced.step, handle, pmFork, hfree, heldAfter]
    · have hne {p' : Fin nrProcs} (hp' : (t.st.fproc p').pid ≠ none) : p' ≠ child := fun he => hp' (he ▸ hfree)
      refine h.core.of_procs rfl rfl (fun p' hp' => ?_) (fun p' fd f hp' hf => ?_)
        (fun p1 p2 pid' h1 h2 => ?_) fun p' hp' => ?_
      · simp [setProc, hne hp']
      · simpa [setProc, hne hp'] using hf
      · by_cases e1 : p1 = child <;> by_cases e2 : p2 = child
        · rw [e1, e2]
        · simp [setProc, e1, e2] at h1 h2
          exact absurd (h1 ▸ h2) (hpid p2)
        · simp [setProc, e1, e2] at h1 h2
          exact absurd (h2 ▸ h1) (hpid p1)
        · simp [setProc, e1, e2] at h1 h2
          exact h.core.pids p1 p2 pid' h1 h2
      · by_cases he : p' = child
        · simp [setProc, he, hon] at hp'
        · simp only [setProc, update_of_ne he] at hp' ⊢
          exact h.core.waitable p' hp'
  | open_ p fd f =>
    refine ⟨_, rfl, h.quiet ?_ rfl⟩
    have hproc (p' : Fin nrProcs) :
        ((t.st.setProc p { t.st.fproc p with filp := update (t.st.fproc p).filp fd (some f) }).fproc
        p').pid = (t.st.fproc p').pid ∧ ((t.st.setProc p { t.st.fproc p with
          filp := update (t.st.fproc p).filp fd (some f) }).fproc p').onLock = (t.st.fproc p').onLock := by
      by_cases he : p' = p
      · subst he
        simp [setProc]
      · simp [setProc, he]
    refine h.core.of_procs rfl rfl (fun p' _ => (hproc p').1) (fun p' fd' f' _ hf => ?_) (fun p1 p2 pid' h1 h2 => ?_)
      fun p' hp' => ?_
    · by_cases he : p' = p
      · subst he
        have hfd : fd' ≠ fd := by
          rintro rfl
          rw [show (t.st.fproc p').filp fd' = none from hok] at hf
          cases hf
        simpa [setProc, hfd] using hf
      · simpa [setProc, he] using hf
    · exact h.core.pids p1 p2 pid' ((hproc p1).1.symm.trans h1) ((hproc p2).1.symm.trans h2)
    · rw [(hproc p').1]
      exact h.core.waitable p' (by rwa [(hproc p').2] at hp')

end Step

/-- No locks have been set, and nobody waits. -/
structure Initial (s : LockState) : Prop where
  table : ∀ i, s.table i = none
  count : s.nrLocks = 0
  onLock : ∀ p, (s.fproc p).onLock = none
  pids : ∀ p p' pid, (s.fproc p).pid = some pid → (s.fproc p').pid = some pid → p = p'

def init (s : LockState) : LockTraced := ⟨s, fun _ _ _ => none⟩

theorem Initial.inv {s : LockState} (h : Initial s) : Inv (init s) := by
  have hno (pid vno : Nat) (b : Int) (l : LockType) : ¬Locked s.table pid vno b l := by
    rintro ⟨i, x, hx, -⟩
    rw [h.table i] at hx
    cases hx
  refine ⟨⟨?_, fun pid vno b l hl => absurd hl (hno pid vno b l), h.pids, fun p hp => absurd (h.onLock p) hp⟩, ?_, ?_⟩
  · rw [init, h.count, eq_comm, Finset.card_eq_zero, Finset.eq_empty_iff_forall_notMem]
    exact fun i hi => mem_used.mp hi (h.table i)
  · exact fun pid vno b l => iff_of_false (hno pid vno b l) (by simp [init])
  · exact nofun

/-- In every run that meets the conditions, locks are as they should be after every event. -/
theorem locking_of_run {s : LockState} (hs : Initial s) {os : List LockEvent} {e : LockEvent}
    (hok : AllOk step StepOk (os ++ [e]) (init s)) :
    ∃ t t', run step os (init s) = some t ∧ t.step e = some t' ∧ Locking t e t' := by
  obtain ⟨hos, he⟩ := allOk_concat hok
  obtain ⟨t, hrun, ht⟩ := run_total (fun t e ht hok => by
    obtain ⟨t', hstep, -, h'⟩ := ht.step hok
    exact ⟨t', hstep, h'⟩) hs.inv hos
  obtain ⟨t', hstep, hl, -⟩ := ht.step (he t hrun)
  exact ⟨t, t', hrun, hstep, hl⟩

instance (l : FileLock) (q : LockQuery) : Decidable (l.Inside q) := inferInstanceAs (Decidable (_ ∧ _))

instance (t : LockTable) (q : LockQuery) : Decidable (QueryOk t q) :=
  match h : q.ltype with
  | some l =>
    decidable_of_iff (q.req ≠ .getlk → ∀ i, ∀ x ∈ t i, x.lockPid = q.pid → x.Overlaps q → x.lockType = l)
      (by rw [QueryOk, h])
  | none =>
    decidable_of_iff (q.req ≠ .getlk → (∀ i, ∀ l ∈ t i, l.Overlaps q → l.lockPid = q.pid) ∧
        ((∀ i, ∀ l ∈ t i, l.Overlaps q → ¬l.Inside q) ∨
          ∀ i j, (∃ l ∈ t i, l.Overlaps q) → (∃ l ∈ t j, l.Overlaps q) → i = j))
      (by rw [QueryOk, h])

instance (s : LockState) (p : Fin nrProcs) (fd pos : Nat) (size : Int) (req : LockReq) (flock : Option Flock) :
    Decidable (s.AskOk p fd pos size req flock) := inferInstanceAs (Decidable (_ ∧ _ ∧ _ ∧ _))

instance (t : LockTraced) (e : LockEvent) : Decidable (t.StepOk e) :=
  match e with
  | .fcntl .. => inferInstanceAs (Decidable (_ ∧ _))
  | .retry p pos size flock _ =>
    inferInstanceAs (Decidable (∀ x ∈ (t.st.fproc p).onLock, t.st.AskOk p x.1 pos size x.2 flock))
  | .close .. | .exit _ | .unpause _ => isTrue trivial
  | .fork .. => inferInstanceAs (Decidable (_ ∧ _ ∧ _))
  | .open_ .. => inferInstanceAs (Decidable (_ = none))

instance (table : LockTable) (pid vno : Nat) (b : Int) (l : LockType) : Decidable (Locked table pid vno b l) :=
  inferInstanceAs (Decidable (∃ i, ∃ x ∈ table i, _ ∧ _))

instance (table table' : LockTable) : Decidable (Kept table table') :=
  inferInstanceAs (Decidable (∀ i, ∀ l ∈ table i, _))

instance (s : LockState) : Decidable (AllRevived s) := inferInstanceAs (Decidable (∀ _, _ → _))

/-- `INIT` and two other processes that have opened the same file. -/
def three : LockState where
  table _ := none
  nrLocks := 0
  fproc p :=
    { pid := if p.val = 9 ∨ p.val = 10 ∨ p.val = 11 then some p.val else none
      onLock := none
      reviving := false
      filp := fun fd => if fd = 0 then some ⟨1, true, true, true⟩ else none }

theorem three_initial : Initial three where
  table _ := rfl
  count := rfl
  onLock _ := rfl
  pids p p' pid h1 h2 := by
    simp only [three] at h1 h2
    split at h1
    · split at h2
      · exact Fin.ext (Option.some.inj (h1.trans h2.symm))
      · cases h2
    · cases h1

/-- A request about `len` bytes from `start` on. -/
def fcntl (p : Fin nrProcs) (req : LockReq) (l : FlockType) (start len : Int) : LockEvent :=
  .fcntl p 0 0 0 req (some ⟨l, .seekSet, start, len, 0⟩) true

def initProc : Fin nrProcs := ⟨9, by decide⟩
def procA : Fin nrProcs := ⟨10, by decide⟩
def procB : Fin nrProcs := ⟨11, by decide⟩

/-- A process waits until the bytes are unlocked, and tries again. -/
theorem locking_of_run_three : ∃ t t', run step [fcntl procA .setlk (.lock .wr) 0 10,
    fcntl procB .setlkw (.lock .rd) 4 2,
      fcntl procA .setlk .unlck 2 6] (init three) = some t ∧
    t.step (.retry procB 0 0 (some ⟨.lock .rd, .seekSet, 4, 2, 0⟩) true) = some t' ∧
    Locking t (.retry procB 0 0 (some ⟨.lock .rd, .seekSet, 4, 2, 0⟩) true) t' :=
  locking_of_run three_initial (by decide +kernel)

/-- Eight locks, and a process that waits for one of them. -/
def eight : List LockEvent :=
  [fcntl procA .setlk (.lock .rd) 0 6, fcntl procA .setlk (.lock .rd) 0 100, fcntl procB .setlkw (.lock .wr) 0 1,
    fcntl procA .setlk (.lock .rd) 200 1, fcntl procA .setlk (.lock .rd) 202 1, fcntl procA .setlk (.lock .rd) 204 1,
    fcntl procA .setlk (.lock .rd) 206 1, fcntl procA .setlk (.lock .rd) 208 1, fcntl procA .setlk (.lock .rd) 210 1]

/-- A process unlocks what another one has locked. A process has locks of two types on a byte. A lock is made smaller by
a request that fails for lack of space, and nobody is scheduled to try again. `INIT` waits for a lock that has been
removed. The position in a large file makes VFS panic. -/
theorem locking_fails :
    (∃ t ∈ run step [fcntl procA .setlk (.lock .wr) 0 10, fcntl procB .setlk .unlck 0 10] (init three),
      t.held 10 1 0 = some .wr ∧ ¬Locked t.st.table 10 1 0 .wr) ∧
    (∃ t ∈ run step [fcntl procA .setlk (.lock .rd) 0 10, fcntl procA .setlk (.lock .wr) 0 10] (init three),
      Locked t.st.table 10 1 0 .rd ∧ Locked t.st.table 10 1 0 .wr) ∧
    (∃ t ∈ run step eight (init three), ∃ x ∈ t.st.handle (fcntl procA .setlk .unlck 5 3),
      x.1 = .ENOLCK ∧ ¬Kept t.st.table x.2.2.table ∧ ¬AllRevived x.2.2) ∧
    (∃ t ∈ run step [fcntl procA .setlk (.lock .wr) 0 10, fcntl initProc .setlkw (.lock .rd) 0 10,
        fcntl procA .setlk .unlck 0 10] (init three), (∀ i, t.st.table i = none) ∧ ¬AllRevived t.st) ∧
    step (init three) (.fcntl procA 0 (2 ^ 32) 0 .setlk (some ⟨.lock .rd, .seekCur, 0, 1, 0⟩) true) = none := by
  refine ⟨?_, ?_, ?_, ?_, rfl⟩
  · decide +kernel
  · decide +kernel
  · decide +kernel
  · decide +kernel

end LockTraced

end Minix.Vfs
