import Minix.Kernel.Steps

/-!
# Tables of asynchronous messages

What becomes of the entries of a table is read off the history: `submission log p` is the last table of `p` with the
outcomes of its entries since. `View.Tables` relates it to the table in memory and to the flags of the receivers.
`mini_senda` (`miniSenda_tables`) and the search in one or all tables (`AsynOut.searched`) keep it, as long as writing
to a table does not fail, and the tables with messages for a receiver can be read when its `MF_ASYNMSG` is cleared.
-/

namespace Minix.Kernel

open Minix.Lib Function List

/-! ## The history of a table -/

/-- What became of an entry: its message was handed to a process, or `none` when it failed. -/
abbrev Outcome := Option (Slot × Message)

/-- A table that was submitted, and the outcomes of its entries since. -/
structure Submission where
  size : Nat
  table : Nat → AsynMsg
  outcomes : List (Nat × Outcome)

namespace Submission

/-- The outcomes of one entry. -/
def of (s : Submission) (i : Nat) : List Outcome := s.outcomes.filterMap fun o => if o.1 = i then some o.2 else none

/-- A new outcome. -/
def add (i : Nat) (o : Outcome) (s : Submission) : Submission := { s with outcomes := s.outcomes ++ [(i, o)] }

theorem of_add_self (s : Submission) (i : Nat) (o : Outcome) : (s.add i o).of i = s.of i ++ [o] := by
  simp [of, add, filterMap_append]

theorem of_add_ne (s : Submission) {i j : Nat} (h : j ≠ i) (o : Outcome) : (s.add i o).of j = s.of j := by
  have : i ≠ j := fun e => h e.symm
  simp [of, add, filterMap_append, this]

end Submission

/-- The effect of an event on the last submission of `p`. -/
def Event.track (p : Slot) (s : Option Submission) : Event → Option Submission
  | .submitted p' n t => if p' = p then some ⟨n, t, []⟩ else s
  | .handed (.asyn i) p' d m => if p' = p then s.map (Submission.add i (some (d, m))) else s
  | .failed p' i => if p' = p then s.map (Submission.add i none) else s
  | .handed .send .. | .handed .notify .. | .called .. | .received .. => s

/-- The last table of `p`. -/
def submission (log : List Event) (p : Slot) : Option Submission := log.foldl (Event.track p) none

@[simp] theorem submission_concat (log : List Event) (e : Event) (p : Slot) :
    submission (log ++ [e]) p = e.track p (submission log p) := by
  simp [submission]

/-- The event has nothing to do with tables. -/
def Event.isAside : Event → Bool
  | .submitted .. | .handed (.asyn _) .. | .failed .. => false
  | .handed .send .. | .handed .notify .. | .called .. | .received .. => true

theorem submission_aside {ev : List Event} (h : ∀ e ∈ ev, e.isAside = true) (log : List Event) (p : Slot) :
    submission (log ++ ev) p = submission log p := by
  induction ev using reverseRecOn with
  | nil => rw [append_nil]
  | append_singleton ev e ih =>
    rw [← append_assoc, submission_concat, ih fun x hx => h x (mem_append_left _ hx)]
    have he := h e (by simp)
    rcases e with _ | ⟨_ | _ | _⟩ | _ | _ | _
    all_goals first | rfl | cases he

/-! ## The invariant -/

namespace View

variable {v w u : View} {c p : Slot} {i : Nat} {r : Int} {e : Event}

/-- What no system call changes. -/
def fixed (v : View) : (Slot → Endpoint) × (Slot → Bool) × (Slot → Bool) × (Slot → PrivId) × (PrivId → Option Slot) ×
    (PrivId → Bool) × (PrivId → Finset PrivId) :=
  (v.endpoint, v.free, v.noEp, v.privId, v.procOf, v.sysPriv, v.ipcTo)

/-- Every system process has a privilege structure of its own, which is not the one of the user processes. -/
def Owners (v : View) : Prop :=
  ∀ p, v.sysPriv (v.privId p) = true → v.privId p ≠ userPrivId ∧ v.procOf (v.privId p) = some p

/-- Entry `i` in the memory of `p` is as it was submitted and has no outcome, or it is done and has one, which is the
delivery of its message to its destination or a failure. -/
inductive Tracked (v : View) (s : Submission) (p : Slot) (i : Nat) : Prop
  | fresh (ho : s.of i = []) (ht : v.tab p i = s.table i)
  | settled {o : Outcome} {r : Int} (ho : s.of i = [o]) (hi : i < s.size) (hopen : (s.table i).Open)
      (ht : v.tab p i = (s.table i).finish r)
      (hd : ∀ d m, o = some (d, m) → v.endpoint d = (s.table i).dst ∧
        m = { (s.table i).msg with mSource := v.endpoint p })

/-- Entry `i` of a registered table is empty, done, or its receiver has been told. -/
def Announced (v : View) (p : Slot) (i : Nat) : Prop :=
  (v.tab p i).flags = 0 ∨ (State.badFlags (v.tab p i).flags = false ∧ ((v.tab p i).flags.testBit State.amfDone = true ∨
    ∀ d, v.live d → v.endpoint d = (v.tab p i).dst → v.MaySend p d ∧ v.asyn d = true))

/-- The invariant of the tables. -/
structure Tables (v : View) : Prop where
  owners : v.Owners
  tracked : ∀ p s, submission v.log p = some s → ∀ i, v.Tracked s p i
  registered : ∀ p, v.asynsize (v.privId p) ≠ 0 → v.sysPriv (v.privId p) = true ∧
    (∃ s, submission v.log p = some s ∧ s.size = v.asynsize (v.privId p)) ∧
    ∀ i, i < v.asynsize (v.privId p) → v.Announced p i

/-- Nothing was done to the tables. -/
structure Aside (v w : View) : Prop where
  fixed : w.fixed = v.fixed
  table : w.asynsize = v.asynsize ∧ w.tab = v.tab ∧ w.asyn = v.asyn
  log : ∃ ev, w.log = v.log ++ ev ∧ ∀ e ∈ ev, e.isAside = true

/-! ## What keeps the invariant -/

theorem fixed_iff : w.fixed = v.fixed ↔ w.endpoint = v.endpoint ∧ w.free = v.free ∧ w.noEp = v.noEp ∧
    w.privId = v.privId ∧ w.procOf = v.procOf ∧ w.sysPriv = v.sysPriv ∧ w.ipcTo = v.ipcTo := by
  simp [fixed]

theorem Owners.of_fixed (h : v.Owners) (hf : w.fixed = v.fixed) : w.Owners := by
  obtain ⟨_, _, _, h1, h2, h3, _⟩ := fixed_iff.mp hf
  intro p
  rw [h1, h2, h3]
  exact h p

theorem Tracked.of_tab {s : Submission} (h : v.Tracked s p i) (he : w.endpoint = v.endpoint)
    (ht : w.tab p i = v.tab p i) : w.Tracked s p i := by
  cases h with
  | fresh ho ht' => exact .fresh ho (ht.trans ht')
  | settled ho hi hopen ht' hd => exact .settled ho hi hopen (ht.trans ht') (by rw [he]; exact hd)

theorem testBit_setDone (f : Nat) : (State.setDone f).testBit State.amfDone = true := by
  rw [State.setDone, Nat.testBit_or, Bool.or_eq_true]
  exact .inr (by decide)

theorem badFlags_setDone {f : Nat} (h : State.badFlags f = false) : State.badFlags (State.setDone f) = false := by
  simp only [State.badFlags, Bool.or_eq_false_iff, decide_eq_false_iff_not, not_le, Bool.not_eq_false',
    State.amfValid] at h ⊢
  refine ⟨Nat.or_lt_two_pow (n := 4) h.1 (by decide), ?_⟩
  rw [State.setDone, Nat.testBit_or, h.2, Bool.true_or]

theorem Announced.mono (h : v.Announced p i) (hf : w.fixed = v.fixed)
    (ha : ∀ d, v.asyn d = true → w.asyn d = true)
    (ht : w.tab p i = v.tab p i ∨ ((v.tab p i).Open ∧ ∃ r, w.tab p i = (v.tab p i).finish r)) : w.Announced p i := by
  obtain ⟨h1, h2, h3, h4, _, _, h7⟩ := fixed_iff.mp hf
  rcases ht with ht | ⟨hopen, r, ht⟩
  · unfold Announced at h ⊢
    rw [ht]
    refine h.imp_right fun ⟨hb, hd⟩ => ⟨hb, hd.imp_right fun hd d hl he => ?_⟩
    have hl' : v.live d := by simpa [View.live, h2, h3] using hl
    obtain ⟨h8, h9⟩ := hd d hl' (by rw [← h1]; exact he)
    exact ⟨by simpa [MaySend, h4, h7] using h8, ha d h9⟩
  · refine .inr ?_
    rw [ht]
    exact ⟨badFlags_setDone hopen.2.1, .inl (testBit_setDone _)⟩

theorem Tables.aside (h : v.Tables) (ha : v.Aside w) : w.Tables := by
  obtain ⟨h1, _, _, h4, _, h6, _⟩ := fixed_iff.mp ha.fixed
  obtain ⟨ht1, ht2, ht3⟩ := ha.table
  obtain ⟨ev, hl, hev⟩ := ha.log
  have hsub : ∀ p, submission w.log p = submission v.log p := fun p => by rw [hl, submission_aside hev]
  refine ⟨h.owners.of_fixed ha.fixed, fun p s hs i => ?_, fun p hp => ?_⟩
  · exact (h.tracked p s (by rw [← hsub]; exact hs) i).of_tab h1 (by rw [ht2])
  · rw [h4, ht1] at hp
    obtain ⟨h8, h9, h10⟩ := h.registered p hp
    rw [h4, h6, ht1, hsub]
    exact ⟨h8, h9, fun i hi => (h10 i hi).mono ha.fixed (fun d hd => by rw [ht3]; exact hd) (.inl (by rw [ht2]))⟩

theorem Tables.unregister (h : v.Tables) (j : PrivId) : (v.unregister j).Tables := by
  refine ⟨h.owners, fun p s hs i => (h.tracked p s hs i).of_tab rfl rfl, fun p hp => ?_⟩
  have hj : v.privId p ≠ j := by
    intro hj
    simp [View.unregister, hj] at hp
  simp only [View.unregister, update_of_ne hj] at hp ⊢
  exact h.registered p hp

/-- A receiver is told that there is a message. -/
def announce (v : View) (d : Slot) : View := { v with asyn := update v.asyn d true }

theorem Tables.announce (h : v.Tables) (d : Slot) : (v.announce d).Tables := by
  refine ⟨h.owners, fun p s hs i => (h.tracked p s hs i).of_tab rfl rfl, fun p hp => ?_⟩
  obtain ⟨h1, h2, h3⟩ := h.registered p hp
  refine ⟨h1, h2, fun i hi => (h3 i hi).mono rfl (fun q hq => ?_) (.inl rfl)⟩
  simp only [View.announce, update_apply]
  split
  · rfl
  · exact hq

/-- The columns after entry `i` of `p` has been finished with result `r`, and the outcome was recorded as `e`. -/
structure Settles (v w : View) (p : Slot) (i : Nat) (r : Int) (e : Event) : Prop where
  fixed : w.fixed = v.fixed
  table : w.asynsize = v.asynsize ∧ w.asyn = v.asyn
  tab : w.tab = update v.tab p (update (v.tab p) i ((v.tab p i).finish r))
  log : w.log = v.log ++ [e]

theorem Settles.tab_self (h : v.Settles w p i r e) : w.tab p i = (v.tab p i).finish r := by
  rw [h.tab, update_self, update_self]

theorem Settles.tab_ne {q : Slot} {j : Nat} (h : v.Settles w p i r e) (hne : ¬ (q = p ∧ j = i)) :
    w.tab q j = v.tab q j := by
  rw [h.tab]
  by_cases hq : q = p
  · subst hq
    rw [update_self, update_of_ne fun hj => hne ⟨rfl, hj⟩]
  · rw [update_of_ne hq]

theorem Tables.settle (h : v.Tables) {o : Outcome} (hw : v.Settles w p i r e)
    (he : ∀ q s, e.track q s = if p = q then s.map (Submission.add i o) else s) (hopen : (v.tab p i).Open)
    (hi : ∃ s, submission v.log p = some s ∧ i < s.size)
    (ho : ∀ d m, o = some (d, m) → v.endpoint d = (v.tab p i).dst ∧
      m = { (v.tab p i).msg with mSource := v.endpoint p }) : w.Tables := by
  obtain ⟨h1, _, _, h4, _, h6, _⟩ := fixed_iff.mp hw.fixed
  refine ⟨h.owners.of_fixed hw.fixed, fun q s hs j => ?_, fun q hq => ?_⟩
  · rw [hw.log, submission_concat, he] at hs
    by_cases hpq : p = q
    · subst hpq
      obtain ⟨s0, hs0, hlt⟩ := hi
      rw [if_pos rfl, hs0] at hs
      cases hs
      have htr := h.tracked p s0 hs0
      by_cases hj : j = i
      · subst hj
        -- an open entry has no outcome yet
        cases htr j with
        | fresh hof ht =>
          rw [ht] at hopen ho
          refine .settled (r := r) ?_ hlt hopen ?_ (by rw [h1]; exact ho)
          · rw [Submission.of_add_self, hof, nil_append]
          · rw [hw.tab_self, ht]
            rfl
        | settled _ _ _ ht _ =>
          rw [ht] at hopen
          have := hopen.2.2
          rw [show ((s0.table j).finish _).flags.testBit State.amfDone = true from testBit_setDone _] at this
          cases this
      · have := (htr j).of_tab h1 (hw.tab_ne fun h => hj h.2)
        cases this with
        | fresh hof ht => exact .fresh (by rw [Submission.of_add_ne _ hj, hof]) ht
        | settled hof hlt' hop ht hd => exact .settled (by rw [Submission.of_add_ne _ hj, hof]) hlt' hop ht hd
    · rw [if_neg hpq] at hs
      exact (h.tracked q s hs j).of_tab h1 (hw.tab_ne fun h => hpq h.1.symm)
  · rw [h4, hw.table.1] at hq
    obtain ⟨h8, ⟨s, h9, h10⟩, h11⟩ := h.registered q hq
    rw [h4, h6, hw.table.1, hw.log, submission_concat, he]
    refine ⟨h8, ?_, fun j hj => (h11 j hj).mono hw.fixed (fun d hd => by rw [hw.table.2]; exact hd) ?_⟩
    · by_cases hpq : p = q
      · exact ⟨s.add i o, by rw [if_pos hpq, h9]; rfl, h10⟩
      · exact ⟨s, by rw [if_neg hpq, h9], h10⟩
    · by_cases hji : q = p ∧ j = i
      · obtain ⟨rfl, rfl⟩ := hji
        exact .inr ⟨hopen, r, hw.tab_self⟩
      · exact .inl (hw.tab_ne hji)

/-- Entry `i` of the registered table of `p` is open, and for `d`. -/
def Undelivered (v : View) (p : Slot) (i : Nat) (d : Slot) : Prop :=
  i < v.asynsize (v.privId p) ∧ (v.tab p i).Open ∧ (v.tab p i).dst = v.endpoint d

theorem Tables.forgetAsyn (h : v.Tables) (hc : ∀ p i, ¬ v.Undelivered p i c) : (v.forgetAsyn c).Tables := by
  refine ⟨h.owners, fun p s hs i => (h.tracked p s hs i).of_tab rfl rfl, fun p hp => ?_⟩
  obtain ⟨h1, h2, h3⟩ := h.registered p hp
  refine ⟨h1, h2, fun i hi => ?_⟩
  by_cases hz : (v.tab p i).flags = 0
  · exact .inl hz
  obtain ⟨hb, hd⟩ := (h3 i hi).resolve_left hz
  by_cases hdone : (v.tab p i).flags.testBit State.amfDone = true
  · exact .inr ⟨hb, .inl hdone⟩
  · refine .inr ⟨hb, .inr fun d hl he => ?_⟩
    obtain ⟨h4, h5⟩ := hd.resolve_left hdone d hl he
    refine ⟨h4, ?_⟩
    have hdc : d ≠ c := by
      rintro rfl
      exact hc p i ⟨hi, ⟨hz, hb, Bool.eq_false_iff.mpr hdone⟩, he.symm⟩
    simp only [View.forgetAsyn, update_of_ne hdc]
    exact h5

/-- A new table is submitted by a process whose old table was forgotten. -/
def submit (v : View) (c : Slot) (n : Nat) (t : Nat → AsynMsg) : View :=
  { v with tab := update v.tab c t, log := v.log ++ [.submitted c n t] }

theorem Tables.submit (h : v.Tables) (hc : v.asynsize (v.privId c) = 0) (n : Nat) (t : Nat → AsynMsg) :
    (v.submit c n t).Tables := by
  refine ⟨h.owners, fun p s hs i => ?_, fun p hp => ?_⟩
  · simp only [View.submit, submission_concat, Event.track] at hs
    by_cases hcp : c = p
    · subst hcp
      rw [if_pos rfl] at hs
      cases hs
      exact .fresh rfl (by simp [View.submit])
    · rw [if_neg hcp] at hs
      have hpc : p ≠ c := fun e => hcp e.symm
      exact (h.tracked p s hs i).of_tab rfl (by simp [View.submit, hpc])
  · have hcp : c ≠ p := by
      rintro rfl
      exact hp hc
    have hpc : p ≠ c := fun e => hcp e.symm
    obtain ⟨h1, h2, h3⟩ := h.registered p hp
    refine ⟨h1, ?_, fun i hi => (h3 i hi).mono rfl (fun _ hd => hd) (.inl (by simp [View.submit, hpc]))⟩
    simpa only [View.submit, submission_concat, Event.track, if_neg hcp] using h2

/-- The table that was scanned is registered. -/
def register (v : View) (j : PrivId) (n : Nat) : View := { v with asynsize := update v.asynsize j n }

theorem Tables.register (h : v.Tables) {s : Submission} (hc : v.sysPriv (v.privId c) = true)
    (hs : submission v.log c = some s) (ha : ∀ i, i < s.size → v.Announced c i) :
    (v.register (v.privId c) s.size).Tables := by
  refine ⟨h.owners, fun p s hs i => (h.tracked p s hs i).of_tab rfl rfl, fun p hp => ?_⟩
  by_cases hpc : v.privId p = v.privId c
  · -- two system processes do not share a privilege structure
    have h1 := (h.owners c hc).2
    have h2 := (h.owners p (by rw [hpc]; exact hc)).2
    rw [hpc, h1] at h2
    cases h2
    simp only [View.register, update_self]
    exact ⟨hc, ⟨s, hs, rfl⟩, ha⟩
  · simp only [View.register, update_of_ne hpc] at hp ⊢
    exact h.registered p hp

/-! ## Searching one table -/

theorem Tables.deliverEntry (h : v.Tables) {p d : Slot} {i : Nat} (hu : v.Undelivered p i d) :
    (v.deliverEntry p d i).Tables := by
  obtain ⟨hi, hopen, hd⟩ := hu
  obtain ⟨_, ⟨s, hs, hlt⟩, _⟩ := h.registered p (by omega)
  refine h.settle (o := some (d, { (v.tab p i).msg with mSource := v.endpoint p }))
    ⟨rfl, ⟨rfl, rfl⟩, rfl, rfl⟩
    (fun _ _ => rfl) hopen ⟨s, hs, by omega⟩ ?_
  rintro d' m' ⟨⟩
  exact ⟨hd.symm, rfl⟩

variable {d dst p src : Slot} {i : Nat} {io : TableIo} {pp pp' : Bool} {r : Int}

theorem Due.mem {is : List Nat} (h : v.Due src dst is i) : i ∈ is ∧ v.Wanted src dst i := by
  obtain ⟨l, r, rfl, hw, -⟩ := h
  exact ⟨by simp, hw⟩

/-- When a check at the start of `try_one` fails there is nothing to find. -/
theorem TableRes.tryRes (h : v.TableRes src dst io pp r pp' w) (ht : v.Tables) (hd : v.live dst) :
    v.TryRes src dst io (range (v.asynsize (v.privId src))) true pp r pp' w := by
  rcases h with ⟨hb, rfl, rfl, rfl⟩ | ⟨-, h⟩
  · refine .kept fun h => ⟨h, fun i hi hwant => ?_⟩
    have hlt := mem_range.mp hi
    obtain ⟨h1, _, h2⟩ := ht.registered src (by omega)
    rcases hb with hb | hb | hb
    · exact (ht.owners src h1).1 hb
    · omega
    · rcases h2 i hlt with h | ⟨_, h | h⟩
      · exact hwant.1.1 h
      · rw [hwant.1.2.2] at h
        cases h
      · exact hb (h dst hd hwant.2.symm).1
  · exact h

theorem undelivered_iff : v.Undelivered p i d ↔ i ∈ range (v.asynsize (v.privId p)) ∧ v.Wanted p d i := by
  rw [mem_range]
  rfl

/-- What is left after a search by `c`: the invariant, and a message for `c` only if the search has found one. -/
structure Searched (v : View) (c : Slot) (r : Int) (w : View) : Prop where
  tables : w.Tables
  fixed : w.fixed = v.fixed
  receiving : w.receiving = v.receiving
  deliver : ∀ p, p ≠ c → w.deliver p = v.deliver p
  nothing : r ≠ OK → w.deliver = v.deliver

theorem TryRes.searched (h : v.Tables) (hw : State.Writes io)
    (ht : v.TryRes src dst io (range (v.asynsize (v.privId src))) true pp r pp' w) : v.Searched dst r w := by
  cases ht with
  | handed hi =>
    exact ⟨h.deliverEntry (undelivered_iff.mpr hi.mem), rfl, rfl,
      fun p hp => by simp [View.deliverEntry, View.handTo, hp], fun hr => absurd rfl hr⟩
  | cut _ hio => exact absurd hw hio
  | unread => exact ⟨h, rfl, rfl, fun _ _ => rfl, fun _ => rfl⟩
  | kept => exact ⟨h, rfl, rfl, fun _ _ => rfl, fun _ => rfl⟩
  | forgotten => exact ⟨h.unregister _, rfl, rfl, fun _ _ => rfl, fun _ => rfl⟩

theorem Searched.trans {c : Slot} {r' : Int} (h : v.Searched c r w) (hr : r ≠ OK) (h' : w.Searched c r' u) :
    v.Searched c r' u where
  tables := h'.tables
  fixed := h'.fixed.trans h.fixed
  receiving := h'.receiving.trans h.receiving
  deliver p hp := (h'.deliver p hp).trans (h.deliver p hp)
  nothing hr' := (h'.nothing hr').trans (h.nothing hr)

theorem TryRes.undelivered {is : List Nat} (hw : State.Writes io)
    (ht : v.TryRes src dst io is true pp r pp' w) (hr : r ≠ OK) (hu : w.Undelivered p i d) : v.Undelivered p i d := by
  cases ht with
  | handed => exact absurd rfl hr
  | cut _ hio => exact absurd hw hio
  | unread => exact hu
  | kept => exact hu
  | forgotten =>
    obtain ⟨h1, h2⟩ := hu
    refine ⟨?_, h2⟩
    simp only [View.unregister, update_apply] at h1
    split at h1
    · omega
    · exact h1

/-- After a search of a table that could be read, without result and without postponed messages, the table has no
message for the receiver. -/
theorem TryRes.not_undelivered (hw : State.Writes io)
    (ht : v.TryRes src dst io (range (v.asynsize (v.privId src))) true pp r false w) (hr : r ≠ OK)
    (hio : (∃ i, v.Undelivered src i dst) → State.Reads io src) : ¬ w.Undelivered src i dst := by
  intro hu
  have hv := ht.undelivered hw hr hu
  cases ht with
  | handed => exact hr rfl
  | cut _ h => exact h hw
  | unread h => exact h (hio ⟨i, hv⟩)
  | kept h =>
    obtain ⟨h1, h2⟩ := undelivered_iff.mp hv
    exact (h rfl).2 i h1 h2
  | forgotten =>
    have h1 := hu.1
    simp [View.unregister] at h1

theorem Undelivered.procOf (h : v.Tables) (hu : v.Undelivered p i d) : v.procOf (v.privId p) = some p := by
  have hlt := hu.1
  exact (h.owners p (h.registered p (by omega)).1).2

/-- After a search that found nothing, a message was postponed if one had been before. -/
theorem TryRes.postponed {is : List Nat} (hw : State.Writes io) (ht : v.TryRes src dst io is true pp r pp' w)
    (hr : r ≠ OK) (hp : pp' = false) : pp = false := by
  cases ht with
  | handed => exact absurd rfl hr
  | cut _ hio => exact absurd hw hio
  | unread _ h => exact h hp
  | kept h => exact (h hp).1
  | forgotten _ h => exact h hp

/-- **The search in all tables**, when those with messages for `c` can be read. -/
theorem Search.searched (hw : State.Writes io) {c : Slot} {is : List PrivId} (hs : Search c io is pp v r w) :
    v.Tables → v.live c → (∀ p, (∃ i, v.Undelivered p i c) → State.Reads io p) →
      (pp = false → ∀ p, v.privId p ∉ is → ∀ i, ¬ v.Undelivered p i c) → v.Searched c r w := by
  induction hs with
  | nothing =>
    intro ht _ _ hseen
    exact ⟨ht.forgetAsyn fun p i => hseen rfl p not_mem_nil i, rfl, rfl, fun _ _ => rfl, fun _ => rfl⟩
  | postponed => exact fun ht _ _ _ => ⟨ht, rfl, rfl, fun _ _ => rfl, fun _ => rfl⟩
  | @skip j _ _ v _ _ hj _ ih =>
    intro ht hc hio hseen
    refine ih ht hc hio fun hp p hpi i hu => ?_
    by_cases hpj : v.privId p = j
    · have := hu.procOf ht
      rw [hpj, hj] at this
      cases this
    · exact hseen hp p (not_mem_cons_of_ne_of_not_mem hpj hpi) i hu
  | found _ h => exact fun ht hc _ _ => (h.tryRes ht hc).searched ht hw
  | @next j _ pp pp' v u _ _ _ src hj h hr _ ih =>
    intro ht hc hio hseen
    have hres := h.tryRes ht hc
    have hs := hres.searched ht hw
    obtain ⟨_, hf, hn, hpriv, _⟩ := View.fixed_iff.mp hs.fixed
    refine hs.trans hr (ih hs.tables (by simpa [View.live, hf, hn] using hc) ?_ ?_)
    · rintro p ⟨i, hu⟩
      exact hio p ⟨i, hres.undelivered hw hr hu⟩
    · rintro rfl p hpi i hu
      rw [hpriv] at hpi
      by_cases hpj : v.privId p = j
      · have hsrc := (hres.undelivered hw hr hu).procOf ht
        rw [hpj, hj] at hsrc
        cases hsrc
        exact hres.not_undelivered hw hr (hio src) hu
      · exact hseen (hres.postponed hw hr rfl) p (not_mem_cons_of_ne_of_not_mem hpj hpi) i
          (hres.undelivered hw hr hu)

/-- The tables that have a message for `c` can be read. -/
def ReadsOk (v : View) (c : Slot) (io : TableIo) : Prop := ∀ p, (∃ i, v.Undelivered p i c) → State.Reads io p

theorem AsynOut.searched (h : v.Tables) {c : Slot} (hc : v.live c) {src : Option Slot} (hw : State.Writes io)
    (hio : src = none → v.ReadsOk c io) (ha : v.AsynOut c src io r w) : v.Searched c r w := by
  cases src with
  | some q =>
    obtain ⟨pp, ha⟩ := ha
    exact (ha.tryRes h hc).searched h hw
  | none => exact Search.searched hw ha h hc (hio rfl) fun _ p hp => absurd (mem_finRange _) hp

end View

/-! ## Submitting a table -/

namespace View

variable {v w u : View} {c : Slot}

/-- A part of the scan of the table of `c`. -/
structure Scans (v : View) (c : Slot) (w : View) : Prop where
  tables : w.Tables
  inbox : w.Inbox
  fixed : w.fixed = v.fixed
  asynsize : w.asynsize = v.asynsize
  asyn : ∀ d, v.asyn d = true → w.asyn d = true
  tab : ∀ i, w.tab c i = v.tab c i ∨ ((v.tab c i).Open ∧ ∃ r, w.tab c i = (v.tab c i).finish r)
  submission : ∀ n, (∃ s, submission v.log c = some s ∧ s.size = n) → ∃ s, submission w.log c = some s ∧ s.size = n

theorem Scans.refl (h : v.Tables) (hi : v.Inbox) (c : Slot) : v.Scans c v :=
  ⟨h, hi, rfl, rfl, fun _ hd => hd, fun _ => .inl rfl, fun _ hs => hs⟩

theorem finish_not_open (e : AsynMsg) (r : Int) : ¬ (e.finish r).Open := by
  intro h
  have := h.2.2
  rw [show (e.finish r).flags.testBit State.amfDone = true from testBit_setDone _] at this
  cases this

theorem Scans.trans (h : v.Scans c w) (h' : w.Scans c u) : v.Scans c u where
  tables := h'.tables
  inbox := h'.inbox
  fixed := h'.fixed.trans h.fixed
  asynsize := h'.asynsize.trans h.asynsize
  asyn d hd := h'.asyn d (h.asyn d hd)
  tab i := by
    rcases h.tab i with h1 | ⟨h1, r, h2⟩
    · rw [← h1]
      exact h'.tab i
    · rcases h'.tab i with h3 | ⟨h3, _⟩
      · exact .inr ⟨h1, r, h3.trans h2⟩
      · rw [h2] at h3
        exact absurd h3 (finish_not_open _ _)
  submission n hn := h'.submission n (h.submission n hn)

theorem Scans.announced (h : v.Scans c w) {i : Nat} (ha : v.Announced c i) : w.Announced c i :=
  ha.mono h.fixed h.asyn (h.tab i)

theorem Settles.scans (h : v.Tables) {i : Nat} {r : Int} {e : Event} {o : Outcome} (hw : v.Settles w c i r e)
    (hin : w.Inbox) (he : ∀ q s, e.track q s = if c = q then s.map (Submission.add i o) else s)
    (hopen : (v.tab c i).Open) (hi : ∃ s, submission v.log c = some s ∧ i < s.size)
    (ho : ∀ d m, o = some (d, m) → v.endpoint d = (v.tab c i).dst ∧
      m = { (v.tab c i).msg with mSource := v.endpoint c }) : v.Scans c w ∧ w.Announced c i := by
  refine ⟨⟨h.settle hw he hopen hi ho, hin, hw.fixed, hw.table.1, fun d hd => by rw [hw.table.2]; exact hd, fun j => ?_,
    ?_⟩, .inr ?_⟩
  · by_cases hj : j = i
    · subst hj
      exact .inr ⟨hopen, r, hw.tab_self⟩
    · exact .inl (hw.tab_ne fun h => hj h.2)
  · rintro n ⟨s, hs, hn⟩
    exact ⟨s.add i o, by rw [hw.log, submission_concat, he, if_pos rfl, hs]; rfl, hn⟩
  · rw [hw.tab_self]
    exact ⟨badFlags_setDone hopen.2.1, .inl (testBit_setDone _)⟩

end View

namespace State

variable {k k' : State} {io : TableIo} {c : Slot} {i : Nat}

section

variable (hw : Writes io) (ht : k.view.Tables) (hin : k.view.Inbox)
  (hi : ∃ s, submission k.view.log c = some s ∧ i < s.size)

include hw ht hin hi

theorem failEntry_scans (hopen : (k.tab c i).Open) (r : Int) :
    ∃ k', k.failEntry c io i r = (.next, k') ∧ k.view.Scans c k'.view ∧ k'.view.Announced c i := by
  obtain ⟨k', hk', hv⟩ := finishEntry_writes hw c i r .next
  refine ⟨k', hk', ?_⟩
  have hs : k.view.Settles k'.view c i r (.failed c i) := by
    rw [hv]
    exact ⟨rfl, ⟨rfl, rfl⟩, rfl, rfl⟩
  exact hs.scans ht (by rw [hv]; exact hin) (fun _ _ => rfl) hopen hi nofun

theorem sendaTo_scans (hg : k.view.Good) (hopen : (k.tab c i).Open) :
    ((k.sendaTo c io i (k.tab c i)).1 = .next ∨ (k.sendaTo c io i (k.tab c i)).1 = .undone) ∧
      k.view.Scans c (k.sendaTo c io i (k.tab c i)).2.view ∧ (k.sendaTo c io i (k.tab c i)).2.view.Announced c i := by
  have hfail : ∀ r, ((k.failEntry c io i r).1 = .next ∨ (k.failEntry c io i r).1 = .undone) ∧
      k.view.Scans c (k.failEntry c io i r).2.view ∧ (k.failEntry c io i r).2.view.Announced c i := by
    intro r
    obtain ⟨k', hk', h⟩ := failEntry_scans hw ht hin hi hopen r
    rw [hk']
    exact ⟨.inl rfl, h⟩
  unfold sendaTo
  cases hd : k.isokendpt (k.tab c i).dst with
  | none => exact hfail EDEADSRCDST
  | some d =>
    have he := (isokendpt_some hd).2
    dsimp only
    split_ifs with h1 h2 h3 h4
    · exact hfail ECALLDENIED
    · exact hfail EDSTDIED
    · exact hfail EFAULT
    · -- the message is handed over
      obtain ⟨k', hk', hv⟩ :=
        finishEntry_writes (k := (k.hand (.asyn i) c d (k.tab c i).msg).rtsUnset d {.receiving}) hw c i
        OK .next
      rw [hk']
      have hwake : ((k.hand (.asyn i) c d (k.tab c i).msg).rtsUnset d {.receiving}).view =
          k.view.wake (.asyn i) c d (k.tab c i).msg := by
        rw [view_rtsUnset_receiving (by simpa [View.handTo] using isokendpt_free hg hd), view_hand]
        rfl
      have htab : ((k.hand (.asyn i) c d (k.tab c i).msg).rtsUnset d {.receiving}).tab = k.tab :=
        congrArg View.tab hwake
      rw [hwake, htab] at hv
      have hs : k.view.Settles k'.view c i OK (.handed (.asyn i) c d
          { (k.tab c i).msg with mSource := k.view.endpoint c }) := by
        rw [hv]
        exact ⟨rfl, ⟨rfl, rfl⟩, rfl, rfl⟩
      have hin' : k'.view.Inbox := by
        rw [hv]
        exact hin.wake
      refine ⟨.inl rfl, hs.scans ht hin' (o := some (d, { (k.tab c i).msg with mSource := k.view.endpoint c }))
        (fun _ _ => rfl) hopen hi ?_⟩
      rintro d' m ⟨⟩
      exact ⟨he, rfl⟩
    · refine ⟨.inr rfl, ?_⟩
      rw [view_asynmsg_set]
      refine ⟨⟨ht.announce d, hin, rfl, rfl, fun q hq => ?_, fun _ => .inl rfl, fun _ hs => hs⟩,
        .inr ⟨hopen.2.1, .inr ?_⟩⟩
      · simp only [update_apply]
        split
        · rfl
        · exact hq
      · intro q _ hq
        have hqd : q = d := hg.endpoint_inj.mp (hq.trans he.symm)
        subst hqd
        have hmay : (k.proc q).pPriv ∈ (k.priv (k.proc c).pPriv).sIpcTo := by simpa [maySendTo] using h1
        exact ⟨hmay, update_self ..⟩

/-- One entry of the scan: it fails and changes nothing, or the entry is announced or done. -/
theorem sendaEntry_scans (hg : k.view.Good) :
    (∃ r, r ≠ OK ∧ k.sendaEntry c io i = (.ret r, k)) ∨
      (((k.sendaEntry c io i).1 = .next ∨ (k.sendaEntry c io i).1 = .undone) ∧
      k.view.Scans c (k.sendaEntry c io i).2.view ∧
      (k.sendaEntry c io i).2.view.Announced c i) := by
  unfold sendaEntry
  dsimp only
  split_ifs with h1 h2 h3 h4 h5
  · exact .inl ⟨EFAULT, by decide, rfl⟩
  · exact .inr ⟨.inl rfl, .refl ht hin c, .inl h2⟩
  · exact .inl ⟨EINVAL, by decide, rfl⟩
  · exact .inr ⟨.inl rfl, .refl ht hin c, .inr ⟨Bool.eq_false_iff.mpr h3, .inl h4⟩⟩
  · exact .inl ⟨EFAULT, by decide, rfl⟩
  · exact .inr (sendaTo_scans hw ht hin hi hg ⟨h2, Bool.eq_false_iff.mpr h3, Bool.eq_false_iff.mpr h4⟩)

end

theorem sendaLoop_scans (hw : Writes io) : ∀ (is : List Nat) (done : Bool) (k : State),
    k.view.Good → k.view.Tables → k.view.Inbox → (∃ s, submission k.view.log c = some s ∧ ∀ i ∈ is, i < s.size) →
      k.view.Scans c (sendaLoop c io is done k).2.2.view ∧
        ((sendaLoop c io is done k).1 = OK → ∀ i ∈ is, (sendaLoop c io is done k).2.2.view.Announced c i)
  | [], _, k, _, ht, hin, _ => ⟨.refl ht hin c, fun _ _ hi => absurd hi not_mem_nil⟩
  | i :: is, done, k, hg, ht, hin, ⟨s, hs, hlt⟩ => by
    have hi : ∃ s, submission k.view.log c = some s ∧ i < s.size := ⟨s, hs, hlt i mem_cons_self⟩
    unfold sendaLoop
    rcases sendaEntry_scans hw ht hin hi hg with ⟨r, hr, h⟩ | ⟨h1, h2, h3⟩
    · rw [h]
      exact ⟨.refl ht hin c, fun h => absurd h hr⟩
    -- the rest of the scan keeps what this entry has become
    have hg' := hg.eases ((AsynMoves.sendaEntry k c io i).eases hg)
    have hsub : ∃ s', submission (k.sendaEntry c io i).2.view.log c = some s' ∧ ∀ j ∈ is, j < s'.size := by
      obtain ⟨s', hs', hn⟩ := h2.submission s.size ⟨s, hs, rfl⟩
      exact ⟨s', hs', fun j hj => by rw [hn]; exact hlt j (mem_cons_of_mem _ hj)⟩
    have hrest : ∀ done, k.view.Scans c (sendaLoop c io is done (k.sendaEntry c io i).2).2.2.view ∧
        ((sendaLoop c io is done (k.sendaEntry c io i).2).1 = OK → ∀ j ∈ i :: is,
          (sendaLoop c io is done (k.sendaEntry c io i).2).2.2.view.Announced c j) := by
      intro done
      obtain ⟨h4, h5⟩ := sendaLoop_scans hw is done _ hg' h2.tables h2.inbox hsub
      refine ⟨h2.trans h4, fun hr j hj => ?_⟩
      rcases mem_cons.mp hj with rfl | hj
      · exact h4.announced h3
      · exact h5 hr j hj
    split
    next h =>
      rw [h] at h1
      rcases h1 with h1 | h1 <;> cases h1
    next h =>
      have := hrest done
      rwa [h] at this
    next h =>
      have := hrest false
      rwa [h] at this

theorem view_setTable (j : PrivId) (t n : Nat) : (k.setTable j t n).view = k.view.register j n := by
  simp only [State.view, setTable, modPriv, View.register]
  congr 1 <;> funext q <;> by_cases hq : q = j <;> simp [hq]

/-- **`mini_senda` keeps the invariant of the tables.** -/
theorem miniSenda_tables (hg : k.view.Good) (ht : k.view.Tables) (hin : k.view.Inbox) {a : CallArgs}
    (hw : Writes a.io) (size : Nat) :
    (k.miniSenda c a size).2.view.Tables ∧ (k.miniSenda c a size).2.view.Inbox ∧
      (k.miniSenda c a size).2.view.fixed = k.view.fixed := by
  unfold miniSenda
  by_cases hsys : .sysProc ∈ k.privFlags c
  swap
  · rw [if_pos hsys]
    exact ⟨ht, hin, rfl⟩
  rw [if_neg (not_not.mpr hsys)]
  set k1 := k.setTable (k.proc c).pPriv (2 ^ 32 - 1) 0
  have hv1 : k1.view = k.view.unregister (k.view.privId c) := view_setTable ..
  have ht1 : k1.view.Tables := by rw [hv1]; exact ht.unregister _
  have hin1 : k1.view.Inbox := by rw [hv1]; exact hin
  have hf1 : k1.view.fixed = k.view.fixed := by rw [hv1]; rfl
  split_ifs
  · exact ⟨ht1, hin1, hf1⟩
  · exact ⟨ht1, hin1, hf1⟩
  · exact ⟨ht1, hin1, hf1⟩
  set k2 := k1.submitTable c size a.table
  have ht2 : k2.view.Tables := ht1.submit (by rw [hv1]; simp [View.unregister]) size a.table
  have hg2 : k2.view.Good := (hg.eases (setTable_eases ..)).eases (submitTable_eases ..)
  have hs2 : submission k2.view.log c = some ⟨size, a.table, []⟩ := by
    change submission (k1.log ++ [.submitted c size a.table]) c = _
    rw [submission_concat, Event.track, if_pos rfl]
  obtain ⟨h1, h2⟩ := sendaLoop_scans hw (range size) true k2 hg2 ht2 hin1
    ⟨_, hs2, fun i hi => mem_range.mp hi⟩
  have hf2 := h1.fixed.trans hf1
  unfold sendaScan
  dsimp only
  split_ifs with hr hd
  · exact ⟨h1.tables, h1.inbox, hf2⟩
  · exact ⟨h1.tables, h1.inbox, hf2⟩
  · obtain ⟨s, hs, hn⟩ := h1.submission size ⟨_, hs2, rfl⟩
    obtain ⟨_, _, _, hpriv, _, hsysp, _⟩ := View.fixed_iff.mp hf2
    have hsys' : k.view.sysPriv (k.view.privId c) = true := by simpa [State.view, privFlags] using hsys
    have hreg := h1.tables.register (by rw [hpriv, hsysp]; exact hsys') hs fun i hi =>
      h2 (not_not.mp hr) i (mem_range.mpr (by omega))
    rw [hn] at hreg
    rw [view_setTable]
    exact ⟨hreg, h1.inbox, hf2⟩

end State

end Minix.Kernel
