import Minix.Vfs.Lock
import Minix.Lib.FoldM

/-!
# What a locking table stands for

`Locked table pid vno b t`: the table has a lock of type `t` of the process `pid` on the byte `b` of the file `vno`. The
loop of `lock_op` that clears a region takes exactly the bytes of the region out of it, whoever has locked them
(`clear_spec`), and the loop that sets a lock finds a conflict if there is one (`set_spec`).
-/

namespace Minix.Vfs

open Minix.Lib Function List

/-- A lock of a process on a byte of a file. -/
def FileLock.Covers (l : FileLock) (pid vno : Nat) (b : Int) (t : LockType) : Prop :=
  l.lockPid = pid ∧ l.lockVnode = vno ∧ l.lockType = t ∧ l.lockFirst ≤ b ∧ b ≤ l.lockLast

/-- The table has a lock of a process on a byte of a file. -/
def Locked (table : LockTable) (pid vno : Nat) (b : Int) (t : LockType) : Prop :=
  ∃ i, ∃ l ∈ table i, l.Covers pid vno b t

/-- The slots that are in use. -/
def used (table : LockTable) : Finset (Fin nrLocks) := Finset.univ.filter fun i => table i ≠ none

/-- A byte of the region of a request. -/
def LockQuery.Region (q : LockQuery) (vno : Nat) (b : Int) : Prop := vno = q.vno ∧ q.first ≤ b ∧ b ≤ q.last

section

variable {q : LockQuery} {table : LockTable} {l : FileLock} {i j : Fin nrLocks} {pid vno : Nat} {b : Int} {t : LockType}

theorem mem_used : i ∈ used table ↔ table i ≠ none := by simp [used]

theorem FileLock.Covers.overlaps (h : l.Covers pid vno b t) (hr : q.Region vno b) : l.Overlaps q := by
  obtain ⟨-, hv, -, h1, h2⟩ := h
  obtain ⟨rfl, h3, h4⟩ := hr
  exact ⟨hv, h1.trans h4, h3.trans h2⟩

theorem locked_update {o : Option FileLock} : Locked (update table i o) pid vno b t ↔
    (∃ l ∈ o, l.Covers pid vno b t) ∨ ∃ j ≠ i, ∃ l ∈ table j, l.Covers pid vno b t := by
  constructor
  · rintro ⟨j, l, hl, hc⟩
    by_cases he : j = i
    · rw [he, update_self] at hl
      exact .inl ⟨l, hl, hc⟩
    · rw [update_of_ne he] at hl
      exact .inr ⟨j, he, l, hl, hc⟩
  · rintro (⟨l, hl, hc⟩ | ⟨j, hne, l, hl, hc⟩)
    · exact ⟨i, l, by rwa [update_self], hc⟩
    · exact ⟨j, l, by rwa [update_of_ne hne], hc⟩

theorem locked_split (table : LockTable) (i : Fin nrLocks) : Locked table pid vno b t ↔
    (∃ l ∈ table i, l.Covers pid vno b t) ∨ ∃ j ≠ i, ∃ l ∈ table j, l.Covers pid vno b t := by
  have h : Locked (update table i (table i)) pid vno b t ↔ _ := locked_update
  rwa [update_eq_self] at h

theorem locked_add (hi : table i = none) : Locked (update table i (some l)) pid vno b t ↔
    l.Covers pid vno b t ∨ Locked table pid vno b t := by
  rw [locked_update, locked_split table i, hi]
  simp

theorem used_update_none (hi : table i ≠ none) : (used (update table i none)).card = (used table).card - 1 := by
  have : used (update table i none) = (used table).erase i := by
    ext j
    by_cases he : j = i
    · simp [mem_used, he]
    · simp [mem_used, he]
  rw [this, Finset.card_erase_of_mem (mem_used.mpr hi)]

theorem used_update_of_used (hi : table i ≠ none) : used (update table i (some l)) = used table := by
  ext j
  by_cases he : j = i
  · simp [mem_used, he, hi]
  · simp [mem_used, update_of_ne he]

theorem used_update_of_free (hi : table i = none) :
    (used (update table i (some l))).card = (used table).card + 1 := by
  have : used (update table i (some l)) = insert i (used table) := by
    ext j
    by_cases he : j = i
    · simp [mem_used, he]
    · simp [mem_used, he]
  rw [this, Finset.card_insert_of_notMem (by simp [mem_used, hi])]

theorem firstFree_some (h : firstFree table = some i) : table i = none := by
  simpa using find?_some h

theorem exists_firstFree (h : (used table).card ≠ nrLocks) : ∃ i, firstFree table = some i := by
  cases hf : firstFree table with
  | some i => exact ⟨i, rfl⟩
  | none =>
    refine absurd ?_ h
    have : used table = Finset.univ := by
      ext i
      have := find?_eq_none.mp hf i (mem_finRange i)
      simpa [mem_used] using this
    rw [this, Finset.card_univ, Fintype.card_fin]

end

/-! ## Clearing a region -/

/-- The region lies inside of a lock and touches neither end. -/
def FileLock.Inside (l : FileLock) (q : LockQuery) : Prop := l.lockFirst < q.first ∧ q.last < l.lockLast

/-- The loop has cleared the region in the slots seen so far. -/
structure Clearing (q : LockQuery) (table : LockTable) (seen : List (Fin nrLocks)) (s : Scan) : Prop where
  count : s.count = (used s.table).card
  outside : ∀ pid vno b t, ¬q.Region vno b → (Locked s.table pid vno b t ↔ Locked table pid vno b t)
  clean : ∀ i ∈ seen, ∀ l ∈ s.table i, ¬l.Overlaps q
  rest : ∀ i ∉ seen, ∀ l ∈ s.table i, l.Overlaps q → l ∈ table i
  quiet : s.unlocking = false → s.table = table
  loud : s.unlocking = true → ∃ j ∈ seen, ∃ l ∈ table j, l.Overlaps q

section

variable {q : LockQuery} {table : LockTable} {seen : List (Fin nrLocks)} {s s' : Scan} {i : Fin nrLocks}
  {flp : FileLock}

theorem Clearing.init (q : LockQuery) (table : LockTable) {count : Nat} (hc : count = (used table).card) :
    Clearing q table [] ⟨table, count, none, false⟩ where
  count := hc
  outside _ _ _ _ _ := Iff.rfl
  clean _ h := absurd h not_mem_nil
  rest _ _ _ hl _ := hl
  quiet _ := rfl
  loud h := by cases h

variable {e : Option (Fin nrLocks)}

section

variable (h : Clearing q table seen s)

include h

theorem Clearing.skip (hi : ∀ l ∈ s.table i, ¬l.Overlaps q) : Clearing q table (seen ++ [i]) { s with empty := e } where
  count
    := h.count
  outside := h.outside
  clean j hj l hl := by
    rcases mem_append.mp hj with hj | hj
    · exact h.clean j hj l hl
    · cases mem_singleton.mp hj
      exact hi l hl
  rest j hj := h.rest j fun hj' => hj (mem_append_left _ hj')
  quiet := h.quiet
  loud hu := by
    obtain ⟨j, hj, h⟩ := h.loud hu
    exact ⟨j, mem_append_left _ hj, h⟩

theorem Clearing.clear (hi : flp ∈ s.table i) (ho : flp.Overlaps q) {table' : LockTable} {count : Nat}
    (hc : count = (used table').card) (hother : ∀ j ≠ i, ∀ l ∈ table' j, l ∈ s.table j ∨ ¬l.Overlaps q)
    (hnew : ∀ l ∈ table' i, ¬l.Overlaps q)
    (hout : ∀ pid vno b t, ¬q.Region vno b → (Locked table' pid vno b t ↔ Locked s.table pid vno b t)) :
    Clearing q table (seen ++ [i]) ⟨table', count, e, true⟩ := by
  have hnot : i ∉ seen := fun hs => h.clean i hs flp hi ho
  have hclean : ∀ j ∈ seen ++ [i], ∀ l ∈ table' j, ¬l.Overlaps q := by
    intro j hj l hl
    by_cases he : j = i
    · subst he
      exact hnew l hl
    · rcases mem_append.mp hj with hj | hj
      · rcases hother j he l hl with hl | hl
        · exact h.clean j hj l hl
        · exact hl
      · exact absurd (mem_singleton.mp hj) he
  refine ⟨hc, fun pid vno b t hr => (hout pid vno b t hr).trans (h.outside pid vno b t hr), hclean, ?_, nofun,
    fun _ => ⟨i, mem_append_right _ (mem_singleton_self i), flp, h.rest i hnot flp hi ho, ho⟩⟩
  intro j hj l hl hov
  have hne : j ≠ i := by
    rintro rfl
    exact hj (mem_append_right _ (mem_singleton_self j))
  rcases hother j hne l hl with hl | hl
  · exact h.rest j (fun hs => hj (mem_append_left _ hs)) l hl hov
  · exact absurd hov hl

theorem Clearing.replace (hi : flp ∈ s.table i) (ho : flp.Overlaps q) {o : Option FileLock} {count : Nat}
    (hc : count = (used (update s.table i o)).card) (hnew : ∀ l ∈ o, ¬l.Overlaps q)
    (hout : ∀ pid vno b t, ¬q.Region vno b → ((∃ l ∈ o, l.Covers pid vno b t) ↔ flp.Covers pid vno b t)) :
    Clearing q table (seen ++ [i]) ⟨update s.table i o, count, e, true⟩ := by
  refine h.clear hi ho hc (fun j hne l hl => ?_) (fun l hl => ?_) fun pid vno b t hr => ?_
  · rw [update_of_ne hne] at hl
    exact .inl hl
  · rw [update_self] at hl
    exact hnew l hl
  · rw [locked_update, locked_split s.table i, hout pid vno b t hr, Option.mem_def.mp hi]
    simp

/-- The lock of one slot is split in two, and the second part goes to a slot that was free. -/
theorem Clearing.split (hi : s.table i = some flp) (ho : flp.Overlaps q) {j : Fin nrLocks} (hj : s.table j = none) :
    Clearing q table (seen ++ [i])
      ⟨update (update s.table j (some { flp with lockFirst := q.last + 1 })) i
      (some { flp with lockLast := q.first - 1 }),
      s.count + 1, e, true⟩ := by
  have hji : i ≠ j := by
    rintro rfl
    rw [hi] at hj
    cases hj
  have hleft : ¬{ flp with lockLast := q.first - 1 }.Overlaps q := fun ⟨_, _, h3⟩ => absurd h3 (by simp)
  have hright : ¬{ flp with lockFirst := q.last + 1 }.Overlaps q := fun ⟨_, h3, _⟩ => absurd h3 (by simp)
  refine h.clear hi ho ?_ (fun k hne l hl => ?_) (fun l hl => ?_) fun pid vno b t hr => ?_
  · rw [used_update_of_used (by rw [update_of_ne hji, hi]; simp), used_update_of_free hj, h.count]
  · rw [update_of_ne hne] at hl
    by_cases he : k = j
    · rw [he, update_self] at hl
      cases hl
      exact .inr hright
    · rw [update_of_ne he] at hl
      exact .inl hl
  · rw [update_self] at hl
    cases hl
    exact hleft
  · have hpart : flp.Covers pid vno b t ↔ { flp with lockLast := q.first - 1 }.Covers pid vno b t ∨
        { flp with lockFirst := q.last + 1 }.Covers pid vno b t := by
      simp only [FileLock.Covers]
      constructor
      · rintro ⟨hp, hv, ht, hb1, hb2⟩
        by_cases hb : b ≤ q.first - 1
        · exact .inl ⟨hp, hv, ht, hb1, hb⟩
        · refine .inr ⟨hp, hv, ht, ?_, hb2⟩
          by_contra hlt
          exact hr ⟨hv.symm.trans ho.1, by omega, by omega⟩
      · rintro (⟨hp, hv, ht, hb1, hb2⟩ | ⟨hp, hv, ht, hb1, hb2⟩)
        · exact ⟨hp, hv, ht, hb1, by have := ho.2.2; omega⟩
        · exact ⟨hp, hv, ht, by have := ho.2.1; omega, hb2⟩
    rw [locked_split s.table i, locked_update, hi]
    constructor
    · rintro (⟨l, hl, hc⟩ | ⟨k, hne, l, hl, hc⟩)
      · cases hl
        exact .inl ⟨flp, rfl, hpart.mpr (.inl hc)⟩
      · by_cases he : k = j
        · rw [he, update_self] at hl
          cases hl
          exact .inl ⟨flp, rfl, hpart.mpr (.inr hc)⟩
        · rw [update_of_ne he] at hl
          exact .inr ⟨k, hne, l, hl, hc⟩
    · rintro (⟨l, hl, hc⟩ | ⟨k, hne, l, hl, hc⟩)
      · cases hl
        rcases hpart.mp hc with hc | hc
        · exact .inl ⟨_, rfl, hc⟩
        · exact .inr ⟨j, hji.symm, _, by rw [update_self]; rfl, hc⟩
      · refine .inr ⟨k, hne, l, ?_, hc⟩
        have : k ≠ j := by
          rintro rfl
          rw [hj] at hl
          cases hl
        rwa [update_of_ne this]

theorem Clearing.cleared (hi : s.table i = some flp) (ho : flp.Overlaps q) (hv : s.clear q i flp = .ok s') :
    Clearing q table (seen ++ [i]) s' := by
  have hne : s.table i ≠ none := by simp [hi]
  obtain ⟨hvno, hlo, hhi⟩ := id ho
  rw [Scan.clear] at hv
  by_cases h1 : q.first ≤ flp.lockFirst
  · by_cases h2 : flp.lockLast ≤ q.last
    · -- all of the lock
      rw [if_pos ⟨h1, h2⟩] at hv
      cases hv
      refine h.replace hi ho ?_ (by simp) fun pid vno b t hreg => ?_
      · rw [used_update_none hne, h.count]
      · refine iff_of_false (by simp) ?_
        rintro ⟨-, hv, -, hb1, hb2⟩
        exact hreg ⟨hv.symm.trans hvno, by omega, by omega⟩
    · -- its beginning
      rw [if_neg fun hc => h2 hc.2, if_pos h1] at hv
      cases hv
      refine h.replace hi ho ?_ ?_ fun pid vno b t hreg => ?_
      · rw [used_update_of_used hne, h.count]
      · rintro l ⟨⟩ ⟨-, h3, -⟩
        exact absurd h3 (by simp)
      · constructor
        · rintro ⟨l, ⟨⟩, hp, hv, ht, hb1, hb2⟩
          exact ⟨hp, hv, ht, by simp only at hb1; omega, hb2⟩
        · rintro ⟨hp, hv, ht, hb1, hb2⟩
          refine ⟨_, rfl, hp, hv, ht, ?_, hb2⟩
          by_contra hlt
          exact hreg ⟨hv.symm.trans hvno, by omega, by simp only at hlt; omega⟩
  · by_cases h2 : flp.lockLast ≤ q.last
    · -- its end
      rw [if_neg fun hc => h1 hc.1, if_neg h1, if_pos h2] at hv
      cases hv
      refine h.replace hi ho ?_ ?_ fun pid vno b t hreg => ?_
      · rw [used_update_of_used hne, h.count]
      · rintro l ⟨⟩ ⟨-, -, h3⟩
        exact absurd h3 (by simp)
      · constructor
        · rintro ⟨l, ⟨⟩, hp, hv, ht, hb1, hb2⟩
          exact ⟨hp, hv, ht, hb1, by simp only at hb2; omega⟩
        · rintro ⟨hp, hv, ht, hb1, hb2⟩
          refine ⟨_, rfl, hp, hv, ht, hb1, ?_⟩
          by_contra hlt
          exact hreg ⟨hv.symm.trans hvno, by simp only at hlt; omega, by omega⟩
    · -- a part in the middle
      rw [if_neg fun hc => h1 hc.1, if_neg h1, if_neg h2] at hv
      split at hv
      · cases hv
      · split at hv
        · cases hv
        next j hj =>
          cases hv
          exact h.split hi ho (firstFree_some hj)

end

theorem visit_clear (hq : q.ltype = none) (hr : q.req ≠ .getlk) (s : Scan) (i : Fin nrLocks) :
    ((∀ l ∈ s.table i, ¬l.Overlaps q) ∧ ∃ e, s.visit q i = .ok { s with empty := e }) ∨
      ∃ flp, s.table i = some flp ∧ flp.Overlaps q ∧ s.visit q i = s.clear q i flp := by
  rw [Scan.visit]
  cases hi : s.table i with
  | none => exact .inl ⟨by simp, _, rfl⟩
  | some flp =>
    simp only [hq, reduceCtorEq, false_and, if_false, hr, ne_eq, not_true_eq_false]
    by_cases ho : flp.Overlaps q
    · exact .inr ⟨flp, rfl, ho, by simp [ho]⟩
    · refine .inl ⟨?_, s.empty, by simp [ho]⟩
      rintro l ⟨⟩
      exact ho

theorem Clearing.visit (hq : q.ltype = none) (hr : q.req ≠ .getlk) (h : Clearing q table seen s)
    (hv : s.visit q i = .ok s') : Clearing q table (seen ++ [i]) s' := by
  rcases visit_clear hq hr s i with ⟨hno, e, he⟩ | ⟨flp, hi, ho, he⟩
  · rw [he] at hv
    cases hv
    exact h.skip hno
  · rw [he] at hv
    exact h.cleared hi ho hv

/-- The loop that clears a region. It ends early only if a lock has to be split and the table is full. -/
theorem clear_spec (hq : q.ltype = none) (hr : q.req ≠ .getlk) {count : Nat} (hc : count = (used table).card)
    (hone : (∀ i, ∀ l ∈ table i, l.Overlaps q → ¬l.Inside q) ∨
      ∀ i j, (∃ l ∈ table i, l.Overlaps q) → (∃ l ∈ table j, l.Overlaps q) → i = j) :
    (∃ s, Scan.run q ⟨table, count, none, false⟩ = .error (.full s) ∧ s.table = table ∧ s.count = count) ∨
      ∃ s, Scan.run q ⟨table, count, none, false⟩ = .ok s ∧ s.count = (used s.table).card ∧
        (∀ pid vno b t, Locked s.table pid vno b t ↔ Locked table pid vno b t ∧ ¬q.Region vno b) ∧
        (s.unlocking = false → s.table = table) := by
  have hinit := Clearing.init q table hc
  cases hrun : Scan.run q ⟨table, count, none, false⟩ with
  | ok s =>
    have h := foldlM_ok (fun _ _ _ _ h hv => Clearing.visit hq hr h hv) hinit hrun
    refine .inr ⟨s, rfl, h.count,
      fun pid vno b t => ⟨fun hl => ?_, fun ⟨hl, hreg⟩ => (h.outside pid vno b t hreg).mpr hl⟩,
      h.quiet⟩
    have hreg : ¬q.Region vno b := by
      intro hreg
      obtain ⟨i, l, hl, hcov⟩ := hl
      exact h.clean i (mem_finRange i) l hl (hcov.overlaps hreg)
    exact ⟨(h.outside pid vno b t hreg).mp hl, hreg⟩
  | error e =>
    obtain ⟨seen, i, rest, s1, hl, h, he⟩ := foldlM_error (fun _ _ _ _ h hv => Clearing.visit hq hr h hv) hinit hrun
    have hnot : i ∉ seen := by
      have hnd := nodup_finRange nrLocks
      rw [hl] at hnd
      exact fun hmem => (nodup_append.mp hnd).2.2 i hmem i mem_cons_self rfl
    rcases visit_clear hq hr s1 i with ⟨-, e', he'⟩ | ⟨flp, hi, ho, he'⟩
    · rw [he'] at he
      cases he
    · rw [he', Scan.clear] at he
      split at he
      · cases he
      split at he
      · cases he
      split at he
      · cases he
      next h1 h2 h3 =>
        have hin : flp.Inside q := ⟨by omega, by omega⟩
        have hflp : flp ∈ table i := h.rest i hnot flp hi ho
        split at he
        next hfull =>
          cases he
          refine .inl ⟨_, rfl, ?_⟩
          have hquiet : s1.unlocking = false := by
            by_contra hu
            obtain ⟨j, hj, l, hl, hov⟩ := h.loud (by simpa using hu)
            rcases hone with hone | hone
            · exact hone i flp hflp ho hin
            · have := hone i j ⟨flp, hflp, ho⟩ ⟨l, hl, hov⟩
              exact hnot (this ▸ hj)
          have htab := h.quiet hquiet
          exact ⟨htab, by rw [h.count, htab, hc]⟩
        next hfull =>
          obtain ⟨j, hj⟩ : ∃ j, firstFree s1.table = some j := exists_firstFree (by rw [← h.count]; exact hfull)
          simp only at he
          rw [hj] at he
          cases he

end

/-! ## Setting a lock -/

/-- A lock that a lock of type `t` of the process would be in conflict with. -/
def FileLock.Conflicts (l : FileLock) (q : LockQuery) (t : LockType) : Prop :=
  l.Overlaps q ∧ ¬(t = .rd ∧ l.lockType = .rd) ∧ l.lockPid ≠ q.pid

/-- The loop has found no conflict in the slots seen so far. -/
structure Setting (q : LockQuery) (t : LockType) (T : LockTable) (n : Nat) (seen : List (Fin nrLocks)) (s : Scan) :
    Prop where
  table : s.table = T
  count : s.count = n
  unlocking : s.unlocking = false
  empty : ∀ i, s.empty = some i → T i = none
  free : ∀ i ∈ seen, ∀ l ∈ T i, ¬l.Conflicts q t

section

variable {q : LockQuery} {t : LockType} {table : LockTable} {count : Nat} {seen : List (Fin nrLocks)} {s s' : Scan}
  {i : Fin nrLocks}

theorem Setting.visit (hq : q.ltype = some t) (h : Setting q t table count seen s) (hv : s.visit q i = .ok s') :
    Setting q t table count (seen ++ [i]) s' := by
  have hseen (hi : ∀ l ∈ table i, ¬l.Conflicts q t) : ∀ j ∈ seen ++ [i], ∀ l ∈ table j, ¬l.Conflicts q t := by
    intro j hj
    rcases mem_append.mp hj with hj | hj
    · exact h.free j hj
    · cases mem_singleton.mp hj
      exact hi
  rw [Scan.visit, h.table] at hv
  cases hi : table i with
  | none =>
    rw [hi] at hv
    cases hv
    refine ⟨rfl, h.count, h.unlocking, fun j hj => ?_, hseen (by simp [hi])⟩
    cases he : s.empty with
    | some k =>
      simp only [he, Option.some_or] at hj
      exact h.empty j (he.trans hj)
    | none =>
      simp only [he, Option.none_or] at hj
      cases hj
      exact hi
  | some flp =>
    rw [hi] at hv
    simp only [hq] at hv
    have hskip (hno : ¬flp.Conflicts q t) (hs : s = s') : Setting q t table count (seen ++ [i]) s' := by
      subst hs
      refine ⟨h.table, h.count, h.unlocking, h.empty, hseen ?_⟩
      rw [hi]
      rintro l ⟨⟩
      exact hno
    split at hv
    next ho => exact hskip (fun hc => ho hc.1) (Except.ok.inj hv)
    split at hv
    next hrd => exact hskip (fun hc => hc.2.1 ⟨Option.some.inj hrd.1, hrd.2⟩) (Except.ok.inj hv)
    split at hv
    next hpid => exact hskip (fun hc => hc.2.2 hpid.2) (Except.ok.inj hv)
    split at hv
    · cases hv
    simp at hv

theorem set_spec (hq : q.ltype = some t) (table : LockTable) (count : Nat) :
    (∃ s, Scan.run q ⟨table, count, none, false⟩ = .ok s ∧ Setting q t table count (finRange nrLocks) s) ∨
      (q.req = .getlk ∧ ∃ flp, Scan.run q ⟨table, count, none, false⟩ = .error (.conflict flp)) ∨
      (q.req = .setlk ∧ Scan.run q ⟨table, count, none, false⟩ = .error .again) ∨
      (q.req = .setlkw ∧ Scan.run q ⟨table, count, none, false⟩ = .error .suspend) := by
  have hinit : Setting q t table count [] ⟨table, count, none, false⟩ :=
    ⟨rfl, rfl, rfl, nofun, fun _ h => absurd h not_mem_nil⟩
  cases hrun : Scan.run q ⟨table, count, none, false⟩ with
  | ok s => exact .inl ⟨s, rfl, foldlM_ok (fun _ _ _ _ h hv => Setting.visit hq h hv) hinit hrun⟩
  | error e =>
    obtain ⟨seen, i, rest, s1, hl, h, he⟩ := foldlM_error (fun _ _ _ _ h hv => Setting.visit hq h hv) hinit hrun
    refine .inr ?_
    rw [Scan.visit, h.table] at he
    cases hi : table i with
    | none =>
      rw [hi] at he
      cases he
    | some flp =>
      rw [hi] at he
      simp only [hq] at he
      split at he
      · cases he
      split at he
      · cases he
      split at he
      · cases he
      cases hreq : q.req with
      | getlk =>
        simp only [hreq, if_true] at he
        cases he
        exact .inl ⟨rfl, flp, rfl⟩
      | setlk =>
        simp only [hreq, reduceCtorEq, if_false, ne_eq, not_false_eq_true, if_true] at he
        cases he
        exact .inr (.inl ⟨rfl, rfl⟩)
      | setlkw =>
        simp only [hreq, reduceCtorEq, if_false, ne_eq, not_false_eq_true, if_true] at he
        cases he
        exact .inr (.inr ⟨rfl, rfl⟩)

end

end Minix.Vfs
