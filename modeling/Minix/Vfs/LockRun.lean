import Minix.Vfs.LockTable
import Minix.Lib.Run

/-!
# Locks and processes

What the requests of `lock_op`, `close_fd` and `free_proc` do to the locks and to the processes that wait for them.
`Holding` says who has locked which byte: it follows the requests of each process, while the table follows the code.
`QueryOk` is what a request has to meet for the two to agree.

* `LockState.setLock_spec`: a request that meets it.
* `closeFd_spec`, `freeProc_spec`: a process releases its locks on a file, or all of them.
-/

namespace Minix.Vfs

open Minix.Lib Function List Option
open LockState (setProc)

/-- Who has locked which byte of which file, and how: what the requests of a process have set and not cleared since. -/
abbrev Holding : Type := Nat → Nat → Int → Option LockType

/-- A request that succeeds. -/
def Holding.request (h : Holding) (q : LockQuery) : Holding := fun pid vno b =>
  if pid = q.pid ∧ vno = q.vno ∧ q.first ≤ b ∧ b ≤ q.last then q.ltype else h pid vno b

/-- A process closes a file. -/
def Holding.close (h : Holding) (pid vno : Nat) : Holding := fun pid' vno' b =>
  if pid' = pid ∧ vno' = vno then none else h pid' vno' b

/-- A process exits. -/
def Holding.exit (h : Holding) (pid : Nat) : Holding := fun pid' vno b => if pid' = pid then none else h pid' vno b

/-! ## One request -/

/-- The table after a request is that of `held`. -/
def Stands (table : LockTable) (held : Holding) : Prop :=
  ∀ pid vno b t, Locked table pid vno b t ↔ held pid vno b = some t

/-- No lock has been removed or changed. -/
def Kept (table table' : LockTable) : Prop := ∀ i, ∀ l ∈ table i, l ∈ table' i

/-- Every process that waits for a lock is scheduled to try again. -/
def AllRevived (s : LockState) : Prop := ∀ p, (s.fproc p).onLock ≠ none → (s.fproc p).reviving = true

/-- The processes that wait for a lock are live, and `lock_revive` looks at them. -/
def Waitable (s : LockState) : Prop :=
  ∀ p, (s.fproc p).onLock ≠ none → initProcNr < p.val ∧ (s.fproc p).pid ≠ none

/-- What is required of a request: locks that the process has set on the region have the type of the new one, and a
region that is cleared has been locked by no other process. If it lies inside of a lock, no other lock overlaps it. -/
def QueryOk (table : LockTable) (q : LockQuery) : Prop :=
  q.req ≠ .getlk →
    match q.ltype with
    | some t => ∀ i, ∀ l ∈ table i, l.lockPid = q.pid → l.Overlaps q → l.lockType = t
    | none =>
      (∀ i, ∀ l ∈ table i, l.Overlaps q → l.lockPid = q.pid) ∧
        ((∀ i, ∀ l ∈ table i, l.Overlaps q → ¬l.Inside q) ∨
          ∀ i j, (∃ l ∈ table i, l.Overlaps q) → (∃ l ∈ table j, l.Overlaps q) → i = j)

namespace LockState

variable {s : LockState} {p : Fin nrProcs} {fd : Nat} {q : LockQuery} {fl : Flock} {copyOut : Bool} {held : Holding}

theorem lockRevive_revived (h : Waitable s) : AllRevived s.lockRevive := by
  intro p hp
  have hon : (s.fproc p).onLock ≠ none := by
    simp only [lockRevive] at hp
    split at hp <;> exact hp
  obtain ⟨h1, h2⟩ := h p hon
  simp [lockRevive, h1, h2, hon]

theorem lockRevive_proc (s : LockState) (p : Fin nrProcs) : ((s.lockRevive).fproc p).pid = (s.fproc p).pid ∧
    ((s.lockRevive).fproc p).onLock = (s.fproc p).onLock ∧ ((s.lockRevive).fproc p).filp = (s.fproc p).filp := by
  simp only [lockRevive]
  split <;> exact ⟨rfl, rfl, rfl⟩

/-- What a request does to the processes: nothing, or they are all scheduled to try again, or the caller is suspended.
-/
inductive Procs (s : LockState) (p : Fin nrProcs) (q : LockQuery) (s' : LockState) : Prop
  | same (h : s'.fproc = s.fproc)
  | revived (h : s'.fproc = s.lockRevive.fproc)
  | suspended (x : Nat × LockReq) (hx : q.req = .setlkw)
    (h : s'.fproc = update s.fproc p { s.fproc p with onLock := some x })

/-- What a request does. -/
structure Requested (s : LockState) (p : Fin nrProcs) (q : LockQuery) (held : Holding) (r : LockRet) (s' : LockState) :
    Prop where
  count : s'.nrLocks = (used s'.table).card
  stands : Stands s'.table (if r = .OK ∧ q.req ≠ .getlk then held.request q else held)
  procs : Procs s p q s'
  /-- Locks are removed or changed only if all processes are scheduled to try again. -/
  released : Kept s.table s'.table ∨ s'.fproc = s.lockRevive.fproc
  /-- A new lock is not in conflict with another one. -/
  fresh : r = .OK → q.req ≠ .getlk → ∀ t, q.ltype = some t → ∀ i, ∀ l ∈ s.table i, ¬l.Conflicts q t

section

variable (hc : s.nrLocks = (used s.table).card) (hs : Stands s.table held)

include hc hs

theorem Requested.same {r : LockRet} (hr : ¬(r = .OK ∧ q.req ≠ .getlk)) : Requested s p q held r s where
  count := hc
  stands := by rwa [if_neg hr]
  procs := .same rfl
  released := .inl fun _ _ h => h
  fresh h1 h2 := absurd ⟨h1, h2⟩ hr

theorem setLock_clear (hq : q.ltype = none) (hr : q.req ≠ .getlk) (hok : QueryOk s.table q) :
    ∃ r fl' s', s.setLock p fd q fl copyOut = some (r, fl', s') ∧ Requested s p q held r s' := by
  have hok := hok hr
  rw [hq] at hok
  obtain ⟨hown, hone⟩ := hok
  rw [setLock]
  rcases clear_spec hq hr hc hone with ⟨sc, hrun, htab, hcnt⟩ | ⟨sc, hrun, hcnt, hlock, hquiet⟩
  · rw [hrun]
    refine ⟨.ENOLCK, none, _, rfl, ?_⟩
    have : ({ s with table := sc.table, nrLocks := sc.count } : LockState) = s := by rw [htab, hcnt]
    rw [this]
    exact .same hc hs (by simp)
  · rw [hrun]
    have hstands : Stands sc.table (held.request q) := by
      intro pid vno b t
      rw [hlock, hs pid vno b t, Holding.request, hq]
      by_cases hreg : q.Region vno b
      · obtain ⟨h1, h2, h3⟩ := hreg
        refine iff_of_false (fun h => h.2 ⟨h1, h2, h3⟩) fun h => ?_
        split at h
        · cases h
        next hne =>
          -- only the caller has locked the region
          obtain ⟨i, l, hl, hcov⟩ := (hs pid vno b t).mpr h
          have := hown i l hl (hcov.overlaps ⟨h1, h2, h3⟩)
          exact hne ⟨hcov.1.symm.trans this, h1, h2, h3⟩
      · rw [if_neg fun h => hreg h.2]
        exact ⟨fun h => h.1, fun h => ⟨h, hreg⟩⟩
    cases hu : sc.unlocking with
    | false =>
      refine ⟨.OK, none, { s with table := sc.table, nrLocks := sc.count }, by simp [hu, hr, hq], hcnt, ?_,
        .same rfl, .inl ?_, ?_⟩
      · rw [if_pos ⟨rfl, hr⟩]
        exact hstands
      · intro i l h
        show l ∈ sc.table i
        rwa [hquiet hu]
      · intro _ _ t ht
        rw [hq] at ht
        cases ht
    | true =>
      refine ⟨.OK, none, LockState.lockRevive { s with table := sc.table, nrLocks := sc.count },
        by simp [hu, hr, hq], hcnt, ?_,
        .revived rfl, .inr rfl, ?_⟩
      · rw [if_pos ⟨rfl, hr⟩]
        exact hstands
      · intro _ _ t ht
        rw [hq] at ht
        cases ht

theorem setLock_set {t : LockType} (hq : q.ltype = some t) (hok : QueryOk s.table q) :
    ∃ r fl' s', s.setLock p fd q fl copyOut = some (r, fl', s') ∧ Requested s p q held r s' := by
  rw [setLock]
  rcases set_spec hq s.table s.nrLocks with ⟨sc, hrun, h⟩ | ⟨hreq, flp, hrun⟩ | ⟨hreq, hrun⟩ | ⟨hreq, hrun⟩
  · have hst : ({ s with table := sc.table, nrLocks := sc.count } : LockState) = s := by rw [h.table, h.count]
    rw [hrun]
    simp only [hst, h.unlocking, hq, Bool.false_eq_true, if_false]
    split
    next hreq =>
      split
      · exact ⟨_, _, _, rfl, .same hc hs (by simp [hreq])⟩
      · exact ⟨_, _, _, rfl, .same hc hs (by simp)⟩
    next hreq =>
      cases he : sc.empty with
      | none => exact ⟨_, _, _, rfl, .same hc hs (by simp)⟩
      | some i =>
        have hi := h.empty i he
        have hown := hok hreq
        rw [hq] at hown
        refine ⟨_, _, _, rfl, ?_, ?_, .same rfl, .inl ?_, ?_⟩
        · show s.nrLocks + 1 = _
          rw [used_update_of_free hi, hc]
        · rw [if_pos ⟨rfl, hreq⟩]
          intro pid vno b t'
          refine (locked_add hi).trans ?_
          rw [hs pid vno b t', Holding.request, hq]
          by_cases hreg : pid = q.pid ∧ vno = q.vno ∧ q.first ≤ b ∧ b ≤ q.last
          · obtain ⟨h1, h2, h3, h4⟩ := id hreg
            rw [if_pos hreg, some.injEq]
            constructor
            · rintro (⟨-, -, ht, -⟩ | hh)
              · exact ht
              · -- an own lock on the region has the same type
                obtain ⟨j, l, hl, hcov⟩ := (hs pid vno b t').mpr hh
                exact (hown j l hl (hcov.1.trans h1) (hcov.overlaps ⟨h2, h3, h4⟩)).symm.trans hcov.2.2.1
            · exact fun ht => .inl ⟨h1.symm, h2.symm, ht, h3, h4⟩
          · rw [if_neg hreg]
            refine ⟨fun h => h.resolve_left ?_, .inr⟩
            rintro ⟨h1, h2, -, h3, h4⟩
            exact hreg ⟨h1.symm, h2.symm, h3, h4⟩
        · intro j l hl
          have hne : j ≠ i := by
            rintro rfl
            rw [hi] at hl
            cases hl
          show l ∈ update s.table i _ j
          rwa [update_of_ne hne]
        · intro _ _ t' ht' j l hl
          rw [hq] at ht'
          cases ht'
          exact h.free j (mem_finRange j) l hl
  · rw [hrun]
    cases copyOut with
    | true => exact ⟨_, _, _, rfl, .same hc hs (by simp [hreq])⟩
    | false => exact ⟨_, _, _, rfl, .same hc hs (by simp)⟩
  · rw [hrun]
    exact ⟨_, _, _, rfl, .same hc hs (by simp)⟩
  · rw [hrun]
    refine ⟨_, _, _, rfl, hc, ?_, .suspended (fd, q.req) hreq rfl, .inl fun _ _ h => h, fun h => by cases h⟩
    rw [if_neg (by simp)]
    exact hs

/-- A request for a region ends. -/
theorem setLock_spec (hg : q.req = .getlk → q.ltype ≠ none) (hok : QueryOk s.table q) :
    ∃ r fl' s', s.setLock p fd q fl copyOut = some (r, fl', s') ∧ Requested s p q held r s' := by
  cases hq : q.ltype with
  | none => exact setLock_clear hc hs hq (fun h => hg h hq) hok
  | some t => exact setLock_set hc hs hq hok

end

end LockState

/-! ## Closing files -/

section Close

variable {s s' : LockState} {p : Fin nrProcs} {fd pid : Nat} {f : LockFilp}

/-- What closing files of a process does: only locks of the process are released, and if any is, then all processes that
wait for a lock are scheduled to try again. -/
structure Closed (s : LockState) (p : Fin nrProcs) (pid : Nat) (s' : LockState) : Prop where
  count : s'.nrLocks = (used s'.table).card
  others : ∀ pid' vno b t, pid' ≠ pid → (Locked s'.table pid' vno b t ↔ Locked s.table pid' vno b t)
  fewer : ∀ pid' vno b t, Locked s'.table pid' vno b t → Locked s.table pid' vno b t
  released : Kept s.table s'.table ∨ AllRevived s'
  procs : ∀ p', (s'.fproc p').pid = (s.fproc p').pid ∧ (s'.fproc p').onLock = (s.fproc p').onLock ∧
    ((s.fproc p').reviving = true → (s'.fproc p').reviving = true)
  files : ∀ p' fd', (s'.fproc p').filp fd' = (s.fproc p').filp fd' ∨ p' = p ∧ (s'.fproc p').filp fd' = none

theorem Closed.refl (hc : s.nrLocks = (used s.table).card) : Closed s p pid s where
  count := hc
  others _ _ _ _ _ := Iff.rfl
  fewer _ _ _ _ h := h
  released := .inl fun _ _ h => h
  procs _ := ⟨rfl, rfl, id⟩
  files _ _ := .inl rfl

theorem Closed.trans {s'' : LockState} (h1 : Closed s p pid s') (h2 : Closed s' p pid s'') : Closed s p pid s'' where
  count := h2.count
  others pid' vno b t hne := (h2.others pid' vno b t hne).trans (h1.others pid' vno b t hne)
  fewer pid' vno b t h := h1.fewer pid' vno b t (h2.fewer pid' vno b t h)
  released := by
    rcases h2.released with h | h
    · rcases h1.released with h' | h'
      · exact .inl fun i l hl => h i l (h' i l hl)
      · refine .inr fun p' hp' => (h2.procs p').2.2 (h' p' ?_)
        rwa [(h2.procs p').2.1] at hp'
    · exact .inr h
  procs p' := ⟨(h2.procs p').1.trans (h1.procs p').1, (h2.procs p').2.1.trans (h1.procs p').2.1,
    fun h => (h2.procs p').2.2 ((h1.procs p').2.2 h)⟩
  files p' fd' := by
    rcases h2.files p' fd' with h | ⟨he, h⟩
    · rw [h]
      exact h1.files p' fd'
    · exact .inr ⟨he, h⟩

theorem locked_release (table : LockTable) (own : Finset (Fin nrLocks)) (pid vno : Nat)
    (ho : ∀ i, i ∈ own ↔ ∃ l ∈ table i, l.lockVnode = vno ∧ l.lockPid = pid) (pid' vno' : Nat) (b : Int)
    (t : LockType) :
    Locked (fun i => if i ∈ own then none else table i) pid' vno' b t ↔
      Locked table pid' vno' b t ∧ ¬(pid' = pid ∧ vno' = vno) := by
  constructor
  · rintro ⟨i, l, hl, hcov⟩
    simp only at hl
    split at hl
    · cases hl
    next hno =>
      refine ⟨⟨i, l, hl, hcov⟩, ?_⟩
      rintro ⟨rfl, rfl⟩
      exact hno ((ho i).mpr ⟨l, hl, hcov.2.1, hcov.1⟩)
  · rintro ⟨⟨i, l, hl, hcov⟩, hne⟩
    refine ⟨i, l, ?_, hcov⟩
    have hno : i ∉ own := by
      intro hi
      obtain ⟨l', hl', h1, h2⟩ := (ho i).mp hi
      cases hl.symm.trans hl'
      exact hne ⟨hcov.1.symm.trans h2, hcov.2.1.symm.trans h1⟩
    simp only [if_neg hno]
    exact hl

theorem used_release (table : LockTable) (own : Finset (Fin nrLocks)) (ho : own ⊆ used table) :
    (used fun i => if i ∈ own then none else table i).card = (used table).card - own.card := by
  have : used (fun i => if i ∈ own then none else table i) = used table \ own := by
    ext i
    by_cases hi : i ∈ own <;> simp [mem_used, hi]
  rw [this, Finset.card_sdiff_of_subset ho]

theorem mem_held {vno : Nat} {i : Fin nrLocks} :
    i ∈ s.held pid vno ↔ ∃ l ∈ s.table i, l.lockVnode = vno ∧ l.lockPid = pid := by
  simp [LockState.held]

theorem held_subset (s : LockState) (pid vno : Nat) : s.held pid vno ⊆ used s.table := by
  intro i hi
  obtain ⟨l, hl, -⟩ := mem_held.mp hi
  rw [mem_used, mem_def.mp hl]
  exact some_ne_none l

theorem Closed.freeFd (hc : s.nrLocks = (used s.table).card) :
    Closed s p pid (s.setProc p { s.fproc p with filp := update (s.fproc p).filp fd none }) where
  count := hc
  others _ _ _ _ _ := Iff.rfl
  fewer _ _ _ _ h := h
  released := .inl fun _ _ h => h
  procs p' := by
    by_cases he : p' = p
    · subst he
      simp [setProc]
    · simp [setProc, he]
  files p' fd' := by
    by_cases he : p' = p
    · subst he
      by_cases hfd : fd' = fd
      · subst hfd
        exact .inr ⟨rfl, by simp [setProc]⟩
      · exact .inl (by simp [setProc, hfd])
    · exact .inl (by simp [setProc, he])

theorem Closed.release (hc : s.nrLocks = (used s.table).card) (hw : Waitable s) (vno : Nat) {s' : LockState}
    (hs' : s' = { s with
      table := fun i => if i ∈ s.held pid vno then none else s.table i
      nrLocks := s.nrLocks - (s.held pid vno).card }) :
    Closed s p pid (if s'.nrLocks < s.nrLocks then s'.lockRevive else s') := by
  have hlock (pid' vno' : Nat) (b : Int) (t : LockType) : Locked s'.table pid' vno' b t ↔
      Locked s.table pid' vno' b t ∧ ¬(pid' = pid ∧ vno' = vno) := by
    rw [hs']
    exact locked_release s.table _ pid vno (fun i => mem_held) pid' vno' b t
  have hcount : s'.nrLocks = (used s'.table).card := by
    rw [hs', used_release s.table _ (held_subset s pid vno), ← hc]
  have hproc : s'.fproc = s.fproc := by rw [hs']
  have hothers (pid' vno' : Nat) (b : Int) (t : LockType) (hne : pid' ≠ pid) :
      Locked s'.table pid' vno' b t ↔ Locked s.table pid' vno' b t := by
    rw [hlock]
    exact ⟨fun h => h.1, fun h => ⟨h, fun he => hne he.1⟩⟩
  split
  · have hw' : Waitable s' := by
      rw [Waitable, hproc]
      exact hw
    refine ⟨hcount, hothers, fun pid' vno' b t h => ((hlock pid' vno' b t).mp h).1,
      .inr (LockState.lockRevive_revived hw'), ?_, ?_⟩
    · intro p'
      obtain ⟨h1, h2, -⟩ := s'.lockRevive_proc p'
      rw [h1, h2, hproc]
      refine ⟨rfl, rfl, fun h => ?_⟩
      simp only [LockState.lockRevive, hproc]
      split
      · rfl
      · exact h
    · intro p' fd'
      obtain ⟨-, -, h3⟩ := s'.lockRevive_proc p'
      rw [h3, hproc]
      exact .inl rfl
  next hge =>
    refine ⟨hcount, hothers, fun pid' vno' b t h => ((hlock pid' vno' b t).mp h).1, .inl ?_, ?_, ?_⟩
    · -- there was no lock to release
      have hown : s.held pid vno = ∅ := by
        have hle := Finset.card_le_card (held_subset s pid vno)
        rw [hs'] at hge
        simp only at hge
        exact Finset.card_eq_zero.mp (by omega)
      intro i l h
      rw [hs']
      simpa [hown] using h
    · intro p'
      rw [hproc]
      exact ⟨rfl, rfl, id⟩
    · intro p' fd'
      rw [hproc]
      exact .inl rfl

theorem Closed.waitable (h : Closed s p pid s') (hw : Waitable s) : Waitable s' := by
  intro p' hp'
  obtain ⟨h1, h2, -⟩ := h.procs p'
  rw [h1]
  rw [h2] at hp'
  exact hw p' hp'

/-- A close removes the locks of the process on the file, and no others. -/
theorem closeFd_spec (hc : s.nrLocks = (used s.table).card) (hw : Waitable s) (hp : (s.fproc p).pid = some pid)
    (hf : (s.fproc p).filp fd = some f) :
    Closed s p pid (s.closeFd p fd) ∧ ((s.closeFd p fd).fproc p).filp fd = none ∧
      (∀ p' fd', ¬(p' = p ∧ fd' = fd) → ((s.closeFd p fd).fproc p').filp fd' = (s.fproc p').filp fd') ∧
      ∀ pid' vno b t, Locked (s.closeFd p fd).table pid' vno b t ↔
        Locked s.table pid' vno b t ∧ ¬(pid' = pid ∧ vno = f.vno) := by
  rw [LockState.closeFd, hp, hf]
  set s1 := s.setProc p { s.fproc p with filp := update (s.fproc p).filp fd none } with hs1
  have h1 : Closed s p pid s1 := .freeFd hc
  have hfd : (s1.fproc p).filp fd = none := by simp [hs1, setProc]
  have hfiles : ∀ p' fd', ¬(p' = p ∧ fd' = fd) → (s1.fproc p').filp fd' = (s.fproc p').filp fd' := by
    intro p' fd' hne
    by_cases he : p' = p
    · subst he
      have hfd' : fd' ≠ fd := fun h => hne ⟨rfl, h⟩
      simp [hs1, setProc, hfd']
    · simp [hs1, setProc, he]
  have htab : s1.table = s.table := rfl
  have hnr : s1.nrLocks = s.nrLocks := rfl
  simp only
  split
  next h0 =>
    refine ⟨h1, hfd, hfiles, fun pid' vno b t => ?_⟩
    -- there are no locks at all
    have hno : ¬Locked s.table pid' vno b t := by
      rintro ⟨i, l, hl, -⟩
      rw [hnr, hc, Finset.card_eq_zero] at h0
      have : i ∈ used s.table := mem_used.mpr (by rw [mem_def.mp hl]; exact some_ne_none l)
      rw [h0] at this
      cases this
    rw [htab]
    exact iff_of_false hno fun h => hno h.1
  · set s2 : LockState := { s1 with
      table := fun i => if i ∈ s1.held pid f.vno then none else s1.table i
      nrLocks := s1.nrLocks - (s1.held pid f.vno).card } with hs2
    have h2 : Closed s1 p pid (if s2.nrLocks < s1.nrLocks then s2.lockRevive else s2) :=
      .release h1.count (h1.waitable hw) f.vno hs2
    have hsame : ∀ p' fd', ((if s2.nrLocks < s1.nrLocks then s2.lockRevive else s2).fproc p').filp fd' =
        (s1.fproc p').filp fd' := by
      intro p' fd'
      split
      · rw [(s2.lockRevive_proc p').2.2]
      · rfl
    refine ⟨h1.trans h2, (hsame p fd).trans hfd, fun p' fd' hne => (hsame p' fd').trans (hfiles p' fd' hne), ?_⟩
    intro pid' vno b t
    have hlock := locked_release s.table (s1.held pid f.vno) pid f.vno (fun i => mem_held) pid' vno b t
    split <;> exact hlock

theorem closeFd_none (hf : (s.fproc p).filp fd = none) : s.closeFd p fd = s := by
  rw [LockState.closeFd, hf]
  cases (s.fproc p).pid <;> rfl

end Close

/-! ## The process table -/

/-- What holds of the processes: locks are on files that are open, different processes have different pids, and those
that wait for a lock are live. -/
structure Core (s : LockState) : Prop where
  count : s.nrLocks = (used s.table).card
  opened : ∀ pid vno b t, Locked s.table pid vno b t →
    ∃ p fd f, fd < openMax ∧ (s.fproc p).pid = some pid ∧ (s.fproc p).filp fd = some f ∧ f.vno = vno
  pids : ∀ p p' pid, (s.fproc p).pid = some pid → (s.fproc p').pid = some pid → p = p'
  waitable : Waitable s

section Core

variable {s s' : LockState} {p : Fin nrProcs} {fd pid : Nat} {f : LockFilp}

theorem Core.of_procs (h : Core s) (ht : s'.table = s.table) (hn : s'.nrLocks = s.nrLocks)
    (hpid : ∀ p, (s.fproc p).pid ≠ none → (s'.fproc p).pid = (s.fproc p).pid)
    (hfilp : ∀ p fd f, (s.fproc p).pid ≠ none → (s.fproc p).filp fd = some f → (s'.fproc p).filp fd = some f)
    (hpids : ∀ p p' pid, (s'.fproc p).pid = some pid → (s'.fproc p').pid = some pid → p = p') (hw : Waitable s') :
    Core s' where
  count := by rw [ht, hn, h.count]
  opened pid vno b t hl := by
    rw [ht] at hl
    obtain ⟨p, fd, f, hfd, hp, hf, hv⟩ := h.opened pid vno b t hl
    have hlive : (s.fproc p).pid ≠ none := by rw [hp]; exact some_ne_none pid
    exact ⟨p, fd, f, hfd, (hpid p hlive).trans hp, hfilp p fd f hlive hf, hv⟩
  pids := hpids
  waitable := hw

theorem Core.closeFd (h : Core s) (hp : (s.fproc p).pid = some pid) (hf : (s.fproc p).filp fd = some f) :
    Core (s.closeFd p fd) := by
  obtain ⟨hcl, -, hfiles, hlock⟩ := closeFd_spec h.count h.waitable hp hf
  refine ⟨hcl.count, fun pid' vno b t hl => ?_, fun p1 p2 pid' h1 h2 => ?_, hcl.waitable h.waitable⟩
  · obtain ⟨hl, hne⟩ := (hlock pid' vno b t).mp hl
    obtain ⟨p', fd', f', hfd', hp', hf', hv⟩ := h.opened pid' vno b t hl
    refine ⟨p', fd', f', hfd', (hcl.procs p').1.trans hp', ?_, hv⟩
    rw [hfiles p' fd', hf']
    rintro ⟨rfl, rfl⟩
    rw [hf] at hf'
    cases hf'
    rw [hp] at hp'
    exact hne ⟨(some.inj hp').symm, hv.symm⟩
  · rw [(hcl.procs p1).1] at h1
    rw [(hcl.procs p2).1] at h2
    exact h.pids p1 p2 pid' h1 h2

theorem closeAll_spec (h : Core s) (hp : (s.fproc p).pid = some pid) (n : Nat) :
    let s' := (range n).foldl (fun s fd => s.closeFd p fd) s
    Core s' ∧ Closed s p pid s' ∧ ∀ fd < n, (s'.fproc p).filp fd = none := by
  induction n with
  | zero => exact ⟨h, .refl h.count, fun fd hfd => absurd hfd (Nat.not_lt_zero fd)⟩
  | succ n ih =>
    rw [range_succ, foldl_append]
    obtain ⟨hcore, hcl, hnone⟩ := ih
    set s1 := (range n).foldl (fun s fd => s.closeFd p fd) s
    have hp1 : (s1.fproc p).pid = some pid := (hcl.procs p).1.trans hp
    show Core (s1.closeFd p n) ∧ Closed s p pid (s1.closeFd p n) ∧
      ∀ fd < n + 1, ((s1.closeFd p n).fproc p).filp fd = none
    cases hf : (s1.fproc p).filp n with
    | none =>
      rw [closeFd_none hf]
      refine ⟨hcore, hcl, fun fd hfd => ?_⟩
      rcases Nat.lt_succ_iff_lt_or_eq.mp hfd with hlt | rfl
      · exact hnone fd hlt
      · exact hf
    | some f =>
      obtain ⟨hcl', hn, hfiles, -⟩ := closeFd_spec hcore.count hcore.waitable hp1 hf
      refine ⟨hcore.closeFd hp1 hf, hcl.trans hcl', fun fd hfd => ?_⟩
      rcases Nat.lt_succ_iff_lt_or_eq.mp hfd with hlt | rfl
      · rw [hfiles p fd fun he => hlt.ne he.2]
        exact hnone fd hlt
      · exact hn

theorem Core.unpause (h : Core s) (p : Fin nrProcs) : Core (s.unpause p) := by
  rw [LockState.unpause]
  split
  swap
  · exact h
  have hproc (p' : Fin nrProcs) : ((s.setProc p { s.fproc p with onLock := none, reviving := false }).fproc p').pid =
    (s.fproc p').pid ∧
      ((s.setProc p { s.fproc p with onLock := none, reviving := false }).fproc p').filp = (s.fproc p').filp := by
    by_cases he : p' = p
    · subst he
      simp [setProc]
    · simp [setProc, he]
  refine h.of_procs rfl rfl (fun p' _ => (hproc p').1) (fun p' fd f _ hf => ?_)
    (fun p1 p2 pid h1 h2 => ?_) fun p' hp' => ?_
  · rw [(hproc p').2, hf]
  · rw [(hproc p1).1] at h1
    rw [(hproc p2).1] at h2
    exact h.pids p1 p2 pid h1 h2
  · rw [(hproc p').1]
    by_cases he : p' = p
    · subst he
      simp [setProc] at hp'
    · simp [setProc, he] at hp'
      exact h.waitable p' hp'

theorem unpause_table (s : LockState) (p : Fin nrProcs) : (s.unpause p).table = s.table := by
  rw [LockState.unpause]
  split <;> rfl

theorem unpause_pid (s : LockState) (p : Fin nrProcs) : ((s.unpause p).fproc p).pid = (s.fproc p).pid := by
  rw [LockState.unpause]
  split
  · simp [setProc]
  · rfl

theorem freeProc_dead (h : Core s) (hp : (s.fproc p).pid = none) : Core (s.freeProc p) ∧
    (s.freeProc p).table = s.table := by
  have hp0 : ((s.unpause p).fproc p).pid = none := (unpause_pid s p).trans hp
  have hfold (n : Nat) : (range n).foldl (fun s fd => s.closeFd p fd) (s.unpause p) = s.unpause p := by
    induction n with
    | zero => rfl
    | succ n ih =>
      rw [range_succ, foldl_append, ih]
      show (s.unpause p).closeFd p n = s.unpause p
      simp only [LockState.closeFd, hp0]
  have hfree : s.freeProc p = s.unpause p := by
    rw [LockState.freeProc, hfold]
    have hsame : { (s.unpause p).fproc p with pid := none } = (s.unpause p).fproc p := by rw [← hp0]
    show (s.unpause p).setProc p { (s.unpause p).fproc p with pid := none } = _
    rw [hsame, setProc, update_eq_self]
  rw [hfree]
  exact ⟨h.unpause p, unpause_table s p⟩

/-- `free_proc`: all locks of the process are released. -/
theorem freeProc_spec (h : Core s) (hp : (s.fproc p).pid = some pid) :
    Core (s.freeProc p) ∧
      (∀ pid' vno b t, Locked (s.freeProc p).table pid' vno b t ↔ Locked s.table pid' vno b t ∧ pid' ≠ pid) ∧
      (Kept s.table (s.freeProc p).table ∨ AllRevived (s.freeProc p)) := by
  have hp0 : ((s.unpause p).fproc p).pid = some pid := (unpause_pid s p).trans hp
  have htab0 := unpause_table s p
  have hon0 : ((s.unpause p).fproc p).onLock = none := by
    rw [LockState.unpause]
    split
    · simp [setProc]
    next hno => exact not_not.mp hno
  obtain ⟨hcore, hcl, hnone⟩ := closeAll_spec (h.unpause p) hp0 openMax
  set s1 := (range openMax).foldl (fun s fd => s.closeFd p fd) (s.unpause p) with hs1
  have hfree : s.freeProc p = s1.setProc p { s1.fproc p with pid := none } := rfl
  -- every lock is on an open file, and the process has none
  have hgone (vno : Nat) (b : Int) (t : LockType) : ¬Locked s1.table pid vno b t := by
    intro hl
    obtain ⟨p', fd, f, hfd, hp', hf, -⟩ := hcore.opened pid vno b t hl
    have := hcore.pids p' p pid hp' ((hcl.procs p).1.trans hp0)
    subst this
    rw [hnone fd hfd] at hf
    cases hf
  have hon : (s1.fproc p).onLock = none := (hcl.procs p).2.1.trans hon0
  refine ⟨?_, fun pid' vno b t => ?_, ?_⟩
  · rw [hfree]
    refine ⟨hcore.count, fun pid' vno b t hl => ?_, fun p1 p2 pid' h1 h2 => ?_, fun p' hp' => ?_⟩
    · obtain ⟨p', fd, f, hfd, hp', hf, hv⟩ := hcore.opened pid' vno b t hl
      have hne : p' ≠ p := by
        rintro rfl
        rw [(hcl.procs p').1.trans hp0] at hp'
        cases hp'
        exact hgone vno b t hl
      exact ⟨p', fd, f, hfd, by simpa [setProc, hne] using hp',
        by simpa [setProc, hne] using hf, hv⟩
    · have hne : ∀ {p1}, ((s1.setProc p { s1.fproc p with pid := none }).fproc p1).pid = some pid' → p1 ≠ p := by
        rintro p1 h1 rfl
        simp [setProc] at h1
      have e1 := hne h1
      have e2 := hne h2
      simp only [setProc, update_of_ne e1, update_of_ne e2] at h1 h2
      exact hcore.pids p1 p2 pid' h1 h2
    · by_cases he : p' = p
      · subst he
        simp [setProc, hon] at hp'
      · simp only [setProc, update_of_ne he] at hp' ⊢
        exact hcore.waitable p' hp'
  · rw [hfree]
    show Locked s1.table pid' vno b t ↔ _
    constructor
    · intro hl
      refine ⟨htab0 ▸ hcl.fewer pid' vno b t hl, ?_⟩
      rintro rfl
      exact hgone vno b t hl
    · rintro ⟨hl, hne⟩
      exact (hcl.others pid' vno b t hne).mpr (htab0 ▸ hl)
  · rw [hfree]
    rcases hcl.released with hr | hr
    · exact .inl (htab0 ▸ hr)
    · refine .inr fun p' hp' => ?_
      by_cases he : p' = p
      · subst he
        simp [setProc, hon] at hp'
      · simp only [setProc, update_of_ne he] at hp' ⊢
        exact hr p' hp'

end Core

end Minix.Vfs
