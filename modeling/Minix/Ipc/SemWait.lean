import Minix.Ipc.Sem
import Minix.Lib.Run

/-!
# The processes that wait for a semaphore

Next to the server we keep the calls that have not been answered, `waits`, in the order in which they were made. `Wf`
says that the waiting lists of every semaphore are those of the calls that wait for it.
-/

namespace Minix.Ipc

open Minix.Lib List

/-- A process that is asleep: the operation that it waits for, and the array that the operation is from. -/
structure Wait where
  who : Nat
  id : Nat
  op : Sembuf
  sops : List Sembuf
  deriving DecidableEq

/-- What stands for it in a waiting list. -/
def Wait.entry (w : Wait) : Waiting := ⟨w.who, -w.op.semOp⟩

/-- The processes that wait for one semaphore. -/
def pending (ws : List Wait) (id num : Nat) : List Wait := ws.filter fun w => w.id = id ∧ w.op.semNum = num

/-- The processes that have got no reply. -/
def unanswered (ws : List Wait) (out : List Reply) : List Wait := ws.filter fun w => ∀ m ∈ out, m.who ≠ w.who

variable {ws : List Wait} {num : Nat} {w : Wait} {x : Semaphore} {sops : List Sembuf}

theorem mem_pending {id : Nat} : w ∈ pending ws id num ↔ w ∈ ws ∧ w.id = id ∧ w.op.semNum = num := by
  simp [pending]

theorem mem_unanswered {out : List Reply} : w ∈ unanswered ws out ↔ w ∈ ws ∧ ∀ m ∈ out, m.who ≠ w.who := by
  simp [unanswered]

theorem unanswered_append (ws : List Wait) (o1 o2 : List Reply) :
    unanswered ws (o1 ++ o2) = unanswered (unanswered ws o1) o2 := by
  rw [unanswered, unanswered, unanswered, filter_filter]
  refine filter_congr fun w _ => ?_
  simp [or_imp, forall_and, Bool.and_comm]

theorem pending_unanswered (ws : List Wait) (out : List Reply) (id num : Nat) :
    pending (unanswered ws out) id num = unanswered (pending ws id num) out := by
  rw [pending, pending, unanswered, unanswered, filter_filter, filter_filter]
  exact filter_congr fun w _ => Bool.and_comm _ _

theorem unanswered_eq_self {out : List Reply} (h : ∀ w ∈ ws, ∀ m ∈ out, m.who ≠ w.who) : unanswered ws out = ws :=
  filter_eq_self.mpr fun w hw => by simpa using h w hw

@[simp]
theorem unanswered_nil (ws : List Wait) : unanswered ws [] = ws := unanswered_eq_self (by simp)

/-- Different processes wait. -/
def Distinct (ws : List Wait) : Prop := (ws.map (·.who)).Nodup

theorem Distinct.inj (h : Distinct ws) {w' : Wait} (hw : w ∈ ws) (hw' : w' ∈ ws) (he : w.who = w'.who) :
    w = w' := inj_on_of_nodup_map h hw hw' he

theorem Distinct.sublist {ws' : List Wait} (h : Distinct ws) (hs : ws'.Sublist ws) : Distinct ws' :=
  List.Nodup.sublist (hs.map _) h

theorem Distinct.pending (h : Distinct ws) (id num : Nat) : Distinct (pending ws id num) :=
  h.sublist filter_sublist

theorem Distinct.unanswered (h : Distinct ws) (out : List Reply) : Distinct (unanswered ws out) :=
  h.sublist filter_sublist

theorem unanswered_one (h : Distinct ws) (hw : w ∈ ws) {m : Reply} (hm : m.who = w.who) :
    unanswered ws [m] = ws.filter fun x => x ≠ w := by
  refine filter_congr fun x hx => ?_
  have : (m.who ≠ x.who) ↔ x ≠ w := by
    refine not_congr ⟨fun he => h.inj hx hw (he ▸ hm), fun he => ?_⟩
    rw [he, hm]
  simp [this]

section Told

variable {o1 o2 : List Reply}

theorem nodup_told (hn1 : (o1.map (·.who)).Nodup) (hn2 : (o2.map (·.who)).Nodup)
    (h₂ : ∀ m ∈ o2, ∃ w ∈ unanswered ws o1, w.who = m.who) : ((o1 ++ o2).map (·.who)).Nodup := by
  rw [map_append]
  refine List.Nodup.append hn1 hn2 fun p h1 h2 => ?_
  obtain ⟨m, hm, rfl⟩ := mem_map.mp h1
  obtain ⟨m', hm', he⟩ := mem_map.mp h2
  obtain ⟨w, hw, hwm⟩ := h₂ m' hm'
  exact (mem_unanswered.mp hw).2 m hm (he.symm.trans hwm.symm)

theorem told_append (h1 : ∀ m ∈ o1, ∃ w ∈ ws, w.who = m.who) (h2 : ∀ m ∈ o2, ∃ w ∈ unanswered ws o1, w.who = m.who) :
    ∀ m ∈ o1 ++ o2, ∃ w ∈ ws, w.who = m.who := by
  intro m hm
  rcases mem_append.mp hm with hm | hm
  · exact h1 m hm
  · obtain ⟨w, hw, he⟩ := h2 m hm
    exact ⟨w, (mem_unanswered.mp hw).1, he⟩

end Told

/-! ## One waiting list -/

/-- A waiting list and its counter are those of the processes `L`. -/
def Listed (list : Option (List Waiting)) (cnt : Nat) (L : List Wait) : Prop :=
  list.getD [] = L.map Wait.entry ∧ cnt = L.length

namespace Listed

variable {list : Option (List Waiting)} {cnt : Nat} {L : List Wait}

theorem entries_eq (h : Listed list cnt L) : entries list cnt = some (L.map Wait.entry) := by
  rw [entries, h.1, h.2, if_pos (by simp)]
  simp

theorem erase (h : Listed list cnt L) (hL : Distinct L) {k : Nat} (hk : L[k]? = some w) :
    Listed (some ((L.map Wait.entry).eraseIdx k)) (cnt - 1) (L.filter fun x => x ≠ w) := by
  obtain ⟨hlt, rfl⟩ := List.getElem?_eq_some_iff.mp hk
  have hnd : L.Nodup := List.Nodup.of_map _ hL
  have he : L.filter (fun x => x ≠ L[k]) = L.eraseIdx k := by
    rw [← hnd.erase_getElem k hlt, hnd.erase_eq_filter]
    refine filter_congr fun x _ => ?_
    rw [Bool.eq_iff_iff]
    simp
  rw [he]
  constructor
  · rw [Option.getD_some, eraseIdx_map]
  · rw [h.2, length_eraseIdx_of_lt hlt]

theorem add (h : Listed list cnt L) (hc : cnt + 1 < 65536) (w : Wait) :
    addWaiting list ((cnt + 1) % 65536) w.entry = some (L.map Wait.entry ++ [w.entry]) ∧
      Listed (some (L.map Wait.entry ++ [w.entry])) ((cnt + 1) % 65536) (L ++ [w]) := by
  rw [Nat.mod_eq_of_lt hc]
  constructor
  · rw [addWaiting, h.1, if_pos (by rw [length_map, h.2])]
  · constructor
    · rw [Option.getD_some, map_append, map_singleton]
    · rw [h.2, length_append, length_singleton]

theorem getElem?_of_findIdx? {p : Waiting → Bool} {k : Nat} (hk : (L.map Wait.entry).findIdx? p = some k) :
    ∃ w ∈ L, L[k]? = some w ∧ p w.entry = true := by
  obtain ⟨hlt, hp, -⟩ := findIdx?_eq_some_iff_getElem.mp hk
  rw [length_map] at hlt
  rw [getElem_map] at hp
  exact ⟨L[k], getElem_mem hlt, getElem?_eq_getElem hlt, hp⟩

theorem dropProcess (h : Listed list cnt L) (hL : Distinct L) (pt : Nat) :
    (dropProcess pt list cnt = some (list, cnt, [])) ∨
      ∃ w ∈ L, ∃ list' cnt', dropProcess pt list cnt = some (list', cnt', [sendMessageToProcess w.who .EINTR]) ∧
        Listed list' cnt' (L.filter fun x => x ≠ w) := by
  rw [Ipc.dropProcess, h.entries_eq]
  simp only [Option.bind_eq_bind, Option.bind_some]
  cases hk : (L.map Wait.entry).findIdx? (fun w => decide (w.who = pt)) with
  | none => exact .inl rfl
  | some k =>
    obtain ⟨w, hw, hkw, hp⟩ := getElem?_of_findIdx? hk
    have hpt : w.who = pt := of_decide_eq_true hp
    refine .inr ⟨w, hw, _, _, ?_, h.erase hL hkw⟩
    rw [hpt]
    rfl

end Listed

/-! ## One semaphore -/

namespace Semaphore

variable {x x' : Semaphore} {P : List Wait} {out o1 o2 : List Reply} {w : Wait}

/-- The waiting lists of a semaphore are those of the processes `P`. -/
structure Lists (x : Semaphore) (P : List Wait) : Prop where
  zero : Listed x.zlist x.semzcnt (P.filter fun w => w.op.semOp = 0)
  increase : Listed x.nlist x.semncnt (P.filter fun w => w.op.semOp ≠ 0)

/-- Processes that waited for a semaphore are sent a reply, each of them once, and are taken out of its lists. -/
structure Served (P : List Wait) (x' : Semaphore) (out : List Reply) : Prop where
  lists : x'.Lists (unanswered P out)
  once : (out.map (·.who)).Nodup
  waits : ∀ m ∈ out, ∃ w ∈ P, w.who = m.who

theorem Served.nothing (h : x.Lists P) : Served P x [] where
  lists := by
    rw [unanswered_nil]
    exact h
  once := nodup_nil
  waits _ hm := absurd hm not_mem_nil

theorem Served.one (hP : Distinct P) (hw : w ∈ P) {ret : Ret} (h : x'.Lists (P.filter fun y => y ≠ w)) :
    Served P x' [sendMessageToProcess w.who ret] where
  lists := by
    rw [unanswered_one hP hw rfl]
    exact h
  once := nodup_singleton _
  waits m hm := by
    cases mem_singleton.mp hm
    exact ⟨w, hw, rfl⟩

theorem Served.append (h1 : ∀ m ∈ o1, ∃ w ∈ P, w.who = m.who) (hn : (o1.map (·.who)).Nodup)
    (h2 : Served (unanswered P o1) x' o2) : Served P x' (o1 ++ o2) where
  lists := by
    rw [unanswered_append]
    exact h2.lists
  once := nodup_told hn h2.once h2.waits
  waits := told_append h1 h2.waits

theorem filter_ne {p : Wait → Bool} (hw : p w = false) : (P.filter fun y => y ≠ w).filter p = P.filter p := by
  rw [filter_comm]
  refine filter_eq_self.mpr fun y hy => decide_eq_true ?_
  rintro rfl
  exact Bool.false_ne_true (hw.symm.trans (mem_filter.mp hy).2)

theorem Lists.erase_zero (h : x.Lists P) (hw : w.op.semOp = 0) {list : Option (List Waiting)} {cnt : Nat}
    (hl : Listed list cnt ((P.filter fun y => y.op.semOp = 0).filter fun y => y ≠ w)) :
    { x with zlist := list, semzcnt := cnt }.Lists (P.filter fun y => y ≠ w) where
  zero := by
    rw [filter_comm] at hl
    exact hl
  increase := by
    rw [filter_ne (by simpa using hw)]
    exact h.increase

theorem Lists.erase_increase (h : x.Lists P) (hw : w.op.semOp ≠ 0) {list : Option (List Waiting)} {cnt val : Nat}
    (hl : Listed list cnt ((P.filter fun y => y.op.semOp ≠ 0).filter fun y => y ≠ w)) :
    { x with semval := val, nlist := list, semncnt := cnt }.Lists (P.filter fun y => y ≠ w) where
  zero := by
    rw [filter_ne (by simpa using hw)]
    exact h.zero
  increase := by
    rw [filter_comm] at hl
    exact hl

theorem Lists.removeProcess (h : x.Lists P) (hP : Distinct P) (pt : Nat) :
    ∃ x' out, x.removeProcess pt = some (x', out) ∧ Served P x' out ∧ x'.semval = x.semval := by
  obtain ⟨x1, o1, hz, hs1⟩ : ∃ x1 : Semaphore, ∃ o1, dropProcess pt x.zlist x.semzcnt =
      some (x1.zlist, x1.semzcnt, o1) ∧
      Served P x1 o1 ∧ x1 = { x with zlist := x1.zlist, semzcnt := x1.semzcnt } := by
    rcases h.zero.dropProcess (hP.sublist filter_sublist) pt with hd | ⟨w, hw, list, cnt, hd, hl⟩
    · exact ⟨x, [], hd, Served.nothing h, rfl⟩
    · have hw' := mem_filter.mp hw
      exact ⟨{ x with zlist := list, semzcnt := cnt }, _, hd,
        Served.one hP hw'.1 (h.erase_zero (of_decide_eq_true hw'.2) hl), rfl⟩
  obtain ⟨hs1, hx1⟩ := hs1
  have hP1 : Distinct (unanswered P o1) := hP.unanswered o1
  obtain ⟨x2, o2, hn, hs2, hx2⟩ : ∃ x2 : Semaphore, ∃ o2, dropProcess pt x1.nlist x1.semncnt =
      some (x2.nlist, x2.semncnt, o2) ∧
      Served (unanswered P o1) x2 o2 ∧ x2 = { x1 with nlist := x2.nlist, semncnt := x2.semncnt } := by
    rcases hs1.lists.increase.dropProcess (hP1.sublist filter_sublist) pt with hd | ⟨w, hw, list, cnt, hd, hl⟩
    · exact ⟨x1, [], hd, Served.nothing hs1.lists, rfl⟩
    · have hw' := mem_filter.mp hw
      exact ⟨{ x1 with nlist := list, semncnt := cnt }, _, hd,
        Served.one hP1 hw'.1 (hs1.lists.erase_increase (of_decide_eq_true hw'.2) hl), rfl⟩
  refine ⟨x2, o1 ++ o2, ?_, Served.append hs1.waits hs1.once hs2, ?_⟩
  · have hnl : x1.nlist = x.nlist ∧ x1.semncnt = x.semncnt := by
      rw [hx1]
      exact ⟨rfl, rfl⟩
    rw [hnl.1, hnl.2] at hn
    rw [Semaphore.removeProcess, hz]
    simp only [Option.bind_eq_bind, Option.bind_some, hn]
    rw [hx2, hx1]
    rfl
  · rw [hx2, hx1]

/-! ### Waking up -/

/-- The list of those that wait for zero is not read when it is empty. -/
def NotStale (x : Semaphore) : Prop := x.zlist.isSome → x.semval = 0 → 0 < x.semzcnt

instance (x : Semaphore) : Decidable x.NotStale := inferInstanceAs (Decidable (_ → _))

/-- Processes go on one after the other, with what they do to the value. -/
inductive Goes : Nat → List Wait → Nat → Prop
  | nil (v : Nat) : Goes v [] v
  | cons {v v' : Nat} {w : Wait} {ws : List Wait} (hp : Possible v w.op.semOp)
    (hs : Goes (v + w.op.semOp).toNat ws v') :
    Goes v (w :: ws) v'

theorem Goes.append {v v1 v2 : Nat} {ws1 ws2 : List Wait} (h1 : Goes v ws1 v1) (h2 : Goes v1 ws2 v2) :
    Goes v (ws1 ++ ws2) v2 := by
  induction h1 with
  | nil => exact h2
  | cons hp _ ih => exact .cons hp (ih h2)

/-- The result of waking processes up. -/
structure Woken (x : Semaphore) (P : List Wait) (x' : Semaphore) (out : List Reply) : Prop where
  served : Served P x' out
  goes : ∃ gs, out = gs.map (fun w => sendMessageToProcess w.who .OK) ∧ (∀ w ∈ gs, w ∈ P) ∧ Goes x.semval gs x'.semval

theorem Woken.nothing (h : x.Lists P) : Woken x P x [] where
  served := Served.nothing h
  goes := ⟨[], rfl, by simp, .nil _⟩

theorem Woken.append {x1 x2 : Semaphore} (h1 : Woken x P x1 o1) (h2 : Woken x1 (unanswered P o1) x2 o2) :
    Woken x P x2 (o1 ++ o2) where
  served := Served.append h1.served.waits h1.served.once h2.served
  goes := by
    obtain ⟨gs1, rfl, hm1, hg1⟩ := h1.goes
    obtain ⟨gs2, rfl, hm2, hg2⟩ := h2.goes
    refine ⟨gs1 ++ gs2, by rw [map_append], ?_, hg1.append hg2⟩
    intro w hw
    rcases mem_append.mp hw with hw | hw
    · exact hm1 w hw
    · exact (mem_unanswered.mp (hm2 w hw)).1

/-- One process at most is woken up that waits for zero. -/
theorem Lists.wakeZero (h : x.Lists P) (hP : Distinct P) (hz : x.NotStale) :
    ∃ x' out, x.wakeZero = some (x', out) ∧ Woken x P x' out ∧ x'.semval = x.semval ∧ x'.nlist = x.nlist ∧
      x'.semzcnt = (if x.zlist.isSome ∧ x.semval = 0 then x.semzcnt - 1 else x.semzcnt) := by
  rw [Semaphore.wakeZero]
  cases hl : x.zlist with
  | none => exact ⟨x, [], rfl, .nothing h, rfl, rfl, by simp⟩
  | some l =>
    by_cases hv : x.semval = 0
    · have hcnt : 0 < x.semzcnt := hz (by rw [hl]; rfl) hv
      have hzero := h.zero
      obtain ⟨w, L, hL⟩ : ∃ w L, P.filter (fun w => w.op.semOp = 0) = w :: L := by
        cases hL : P.filter (fun w => w.op.semOp = 0) with
        | nil =>
          rw [hzero.2, hL] at hcnt
          exact absurd hcnt (lt_irrefl 0)
        | cons w L => exact ⟨w, L, rfl⟩
      have hw := mem_filter.mp (hL ▸ mem_cons_self : w ∈ P.filter fun w => w.op.semOp = 0)
      have hw0 : w.op.semOp = 0 := of_decide_eq_true hw.2
      have hlist : l = w.entry :: L.map Wait.entry := by
        have := hzero.1
        rw [hl, hL] at this
        exact this
      have he := hzero.erase (hP.sublist filter_sublist) (k := 0) (by rw [hL]; rfl)
      rw [hL, map_cons, eraseIdx_cons_zero, ← hL] at he
      refine ⟨{ x with zlist := some (L.map Wait.entry), semzcnt := x.semzcnt - 1 },
        [sendMessageToProcess w.who .OK], ?_,
        ⟨Served.one hP hw.1 (h.erase_zero hw0 he), [w], rfl, ?_, ?_⟩, rfl, rfl, ?_⟩
      · simp only [hlist, hv, ne_eq, not_true_eq_false, if_false, if_neg hcnt.ne']
        rfl
      · intro y hy
        cases mem_singleton.mp hy
        exact hw.1
      · refine .cons ⟨fun _ => hv, fun hneg => ?_⟩ ?_
        · omega
        · rw [hw0, add_zero, Int.toNat_natCast]
          exact .nil _
      · simp [hv]
    · exact ⟨x, [], by simp [hv], .nothing h, rfl, rfl, by simp [hv]⟩

/-- One process at most is woken up whose amount is there. -/
theorem Lists.wakeIncrease (h : x.Lists P) (hP : Distinct P) :
    ∃ x' out, x.wakeIncrease = some (x', out) ∧ Woken x P x' out ∧ x'.zlist = x.zlist ∧
      ((x' = x ∧ ∀ w ∈ x.nlist.getD [], (x.semval : Int) < w.val) ∨
        ∃ e ∈ x.nlist.getD [], e.val ≤ x.semval ∧ x'.semval = ((x.semval : Int) - e.val).toNat ∧
          ∀ e' ∈ x'.nlist.getD [], e' ∈ x.nlist.getD [] ∧ e' ≠ e) := by
  rw [Semaphore.wakeIncrease]
  cases hl : x.nlist with
  | none => exact ⟨x, [], rfl, .nothing h, rfl, .inl ⟨rfl, by simp⟩⟩
  | some l =>
    have hlist : l = (P.filter fun w => w.op.semOp ≠ 0).map Wait.entry := by
      have := h.increase.1
      rw [hl] at this
      exact this
    rw [← hl, h.increase.entries_eq, hl, Option.getD_some, ← hlist]
    simp only [Option.bind_eq_bind, Option.bind_some]
    cases hk : l.findIdx? (fun w => decide (w.val ≤ (x.semval : Int))) with
    | none =>
      refine ⟨x, [], rfl, .nothing h, rfl, .inl ⟨rfl, fun e he => ?_⟩⟩
      have := findIdx?_eq_none_iff.mp hk e he
      exact not_le.mp (of_decide_eq_false this)
    | some k =>
      rw [hlist] at hk
      obtain ⟨w, hw, hkw, hp⟩ := Listed.getElem?_of_findIdx? hk
      have hw' := mem_filter.mp hw
      have hw0 : w.op.semOp ≠ 0 := of_decide_eq_true hw'.2
      have hle : -w.op.semOp ≤ x.semval := of_decide_eq_true hp
      have hlk : l[k]? = some w.entry := by rw [hlist, getElem?_map, hkw]; rfl
      have he := h.increase.erase (hP.sublist filter_sublist) hkw
      let x' : Semaphore :=
        { x with semval := ((x.semval : Int) - w.entry.val).toNat, nlist := some (l.eraseIdx k),
                 semncnt := x.semncnt - 1 }
      refine ⟨x', [sendMessageToProcess w.who .OK], ?_, ⟨Served.one hP hw'.1 ?_, [w], rfl, ?_, ?_⟩, rfl, .inr ?_⟩
      · simp only [hlk, Option.bind_some]
        rfl
      · rw [← hlist] at he
        exact h.erase_increase hw0 he
      · intro y hy
        cases mem_singleton.mp hy
        exact hw'.1
      · refine .cons ⟨fun h0 => absurd h0 hw0, fun _ => hle⟩ ?_
        show Goes _ [] ((x.semval : Int) - -w.op.semOp).toNat
        rw [sub_neg_eq_add]
        exact .nil _
      · refine ⟨w.entry, hlist ▸ mem_map_of_mem hw, hle, rfl, fun e' he' => ?_⟩
        have he'' : e' ∈ l.eraseIdx k := he'
        refine ⟨mem_of_mem_eraseIdx he'', fun heq => ?_⟩
        rw [hlist, eraseIdx_map] at he''
        obtain ⟨y, hy, rfl⟩ := mem_map.mp he''
        have hyw : y.who = w.who := congrArg Waiting.who heq
        have hnd : Distinct (P.filter fun w => w.op.semOp ≠ 0) := hP.sublist filter_sublist
        have := hnd.inj (mem_of_mem_eraseIdx hy) hw hyw
        subst this
        obtain ⟨hlt, hg⟩ := List.getElem?_eq_some_iff.mp hkw
        have hnd' := List.Nodup.of_map _ hnd
        rw [← hnd'.erase_getElem k hlt, hg] at hy
        exact absurd hy hnd'.not_mem_erase

theorem Lists.wake (h : x.Lists P) (hP : Distinct P) (hz : x.NotStale) :
    ∃ x' out, x.wake = some (x', out) ∧ Woken x P x' out := by
  obtain ⟨x1, o1, he1, hw1, -⟩ := h.wakeZero hP hz
  obtain ⟨x2, o2, he2, hw2, -⟩ := hw1.served.lists.wakeIncrease (hP.unanswered o1)
  refine ⟨x2, o1 ++ o2, ?_, hw1.append hw2⟩
  rw [Semaphore.wake, he1]
  simp only [Option.bind_eq_bind, Option.bind_some, he2]
  rfl

/-- One process at most can go on: one that waits for zero, or one whose amount leaves too little for all others. -/
def Calm (x : Semaphore) : Prop :=
  (x.zlist.isSome → x.semval = 0 → x.semzcnt = 1) ∧
    ∀ w ∈ x.nlist.getD [], w.val ≤ x.semval →
      (∀ w' ∈ x.nlist.getD [], w' ≠ w → (x.semval : Int) - w.val < w'.val) ∧ (w.val = x.semval → x.semzcnt = 0)

instance (x : Semaphore) : Decidable x.Calm := inferInstanceAs (Decidable (_ ∧ _))

theorem Calm.notStale (h : x.Calm) : x.NotStale := fun h1 h2 => by
  rw [h.1 h1 h2]
  exact Nat.one_pos

/-- Nobody in the lists of the semaphore can go on. -/
def Settled (x : Semaphore) (P : List Wait) : Prop := ∀ w ∈ P, ¬Possible x.semval w.op.semOp

/-- After the update of a calm semaphore nobody can go on. -/
theorem Lists.settled (h : x.Lists P) (hP : Distinct P) (hneg : ∀ w ∈ P, w.op.semOp ≤ 0) (hc : x.Calm)
    (he : x.wake = some (x', out)) : x'.Settled (unanswered P out) := by
  obtain ⟨x1, o1, he1, hw1, hv1, hn1, hz1⟩ := h.wakeZero hP hc.notStale
  obtain ⟨x2, o2, he2, hw2, hz2, hcase⟩ := hw1.served.lists.wakeIncrease (hP.unanswered o1)
  rw [Semaphore.wake, he1] at he
  simp only [Option.bind_eq_bind, Option.bind_some, he2] at he
  cases he
  have hl := (hw1.append hw2).served.lists
  rw [hn1, hv1] at hcase
  rintro w hw ⟨hp0, hp⟩
  by_cases h0 : w.op.semOp = 0
  · -- somebody still waits for zero
    have hv : x'.semval = 0 := hp0 h0
    have hmem : w.entry ∈ x1.zlist.getD [] := by
      rw [← hz2, hl.zero.1]
      exact mem_map_of_mem (mem_filter.mpr ⟨hw, decide_eq_true h0⟩)
    have hcnt : 0 < x1.semzcnt := by
      rw [hw1.served.lists.zero.1] at hmem
      rw [hw1.served.lists.zero.2, ← length_map Wait.entry]
      exact length_pos_of_mem hmem
    rw [hz1] at hcnt
    rcases hcase with ⟨rfl, -⟩ | ⟨e, hmem, hle, hval, -⟩
    · have hx0 : x.semval = 0 := hv1.symm.trans hv
      cases hs : x.zlist.isSome with
      | true =>
        rw [if_pos ⟨hs, hx0⟩, hc.1 hs hx0] at hcnt
        exact absurd hcnt (lt_irrefl 0)
      | false =>
        rw [if_neg (by simp [hs]), h.zero.2, ← length_map Wait.entry, ← h.zero.1] at hcnt
        rw [Option.isSome_eq_false_iff, Option.isNone_iff_eq_none] at hs
        rw [hs] at hcnt
        exact absurd hcnt (lt_irrefl 0)
    · have := (hc.2 e hmem hle).2 (by omega)
      rw [this] at hcnt
      split at hcnt <;> exact absurd hcnt (lt_irrefl 0)
  · have hlt : w.op.semOp < 0 := lt_of_le_of_ne (hneg w (mem_unanswered.mp hw).1) h0
    have hle : -w.op.semOp ≤ x'.semval := hp hlt
    have hmem : w.entry ∈ x'.nlist.getD [] := by
      rw [hl.increase.1]
      exact mem_map_of_mem (mem_filter.mpr ⟨hw, decide_eq_true h0⟩)
    have hval : w.entry.val = -w.op.semOp := rfl
    rcases hcase with ⟨rfl, hall⟩ | ⟨e, he, hev, hv, hrest⟩
    · have := hall w.entry (hn1 ▸ hmem)
      rw [hv1] at hle
      omega
    · obtain ⟨hmem', hne⟩ := hrest w.entry hmem
      have := (hc.2 e he hev).1 w.entry hmem' hne
      omega

theorem Lists.operate_denied (h : x.Lists P) (c : Caller) (realloc : Bool) {op : Int} (hop : op ≠ 0) :
    ∃ x', x.operate c false realloc op = some (.denied, x') ∧ x'.Lists P ∧ x'.semval = x.semval := by
  refine ⟨{ x with sempid := c.pid }, ?_, ⟨h.zero, h.increase⟩, rfl⟩
  simp [Semaphore.operate, hop]

theorem Lists.operate_applied (h : x.Lists P) (c : Caller) (realloc : Bool) {alter : Bool} {op : Int}
    (hop : alter ∨ op = 0) (hp : Possible x.semval op) :
    ∃ x', x.operate c alter realloc op = some (.applied, x') ∧ x'.Lists P ∧
      ((0 < op → (x.semval : Int) + op < 65536) → x'.semval = ((x.semval : Int) + op).toNat) := by
  rw [Semaphore.operate]
  rcases lt_trichotomy 0 op with h0 | h0 | h0
  · have ha : alter = true := hop.resolve_right h0.ne'
    refine ⟨{ x with sempid := c.pid, semval := ((x.semval + op) % 65536).toNat }, ?_, ⟨h.zero, h.increase⟩,
      fun hlt => ?_⟩
    · simp [h0, ha]
    · show ((x.semval + op) % 65536).toNat = _
      rw [Int.emod_eq_of_lt (by omega) (hlt h0)]
  · subst h0
    refine ⟨{ x with sempid := c.pid }, ?_, ⟨h.zero, h.increase⟩, fun _ => ?_⟩
    · simp [hp.1 rfl]
    · show x.semval = _
      omega
  · have ha : alter = true := hop.resolve_right h0.ne
    refine ⟨{ x with sempid := c.pid, semval := (x.semval + op).toNat }, ?_, ⟨h.zero, h.increase⟩, fun _ => rfl⟩
    simp [h0.not_gt, h0.ne, ha, hp.2 h0]

theorem Lists.operate_asleep (h : x.Lists P) {alter : Bool} (c : Caller) (hw : w.who = c.who)
    (hop : alter ∨ w.op.semOp = 0) (hp : ¬Possible x.semval w.op.semOp) (hlen : P.length + 1 < 65536) :
    ∃ x', x.operate c alter true w.op.semOp = some (.asleep, x') ∧ x'.Lists (P ++ [w]) ∧ x'.semval = x.semval := by
  have hcnt (p : Wait → Bool) : (P.filter p).length + 1 < 65536 :=
    lt_of_le_of_lt (Nat.succ_le_succ (length_filter_le p P)) hlen
  have hentry : (⟨c.who, -w.op.semOp⟩ : Waiting) = w.entry := by rw [Wait.entry, hw]
  rw [Semaphore.operate]
  rcases lt_trichotomy 0 w.op.semOp with h0 | h0 | h0
  · exact absurd ⟨fun he => absurd he h0.ne', fun hlt => absurd hlt h0.not_gt⟩ hp
  · have hv : x.semval ≠ 0 := fun hv => hp ⟨fun _ => hv, fun hlt => absurd hlt h0.symm.not_lt⟩
    obtain ⟨ha, hl⟩ := h.zero.add (h.zero.2 ▸ hcnt _) w
    refine ⟨{ x with
      sempid := c.pid, semzcnt := (x.semzcnt + 1) % 65536,
      zlist := some ((P.filter fun w => w.op.semOp = 0).map Wait.entry ++ [w.entry]) }, ?_, ⟨?_, ?_⟩, rfl⟩
    · have hentry' : (⟨c.who, 0⟩ : Waiting) = w.entry := by rw [← hentry, ← h0, neg_zero]
      simp only [← h0, lt_irrefl, if_false, if_true, hv, hentry', ha, Option.map_some]
    · rw [filter_append, filter_singleton, h0.symm]
      exact hl
    · rw [filter_append, filter_singleton, h0.symm]
      simpa using h.increase
  · have ha : alter = true := hop.resolve_right h0.ne
    have hv : ¬-w.op.semOp ≤ x.semval := fun hle => hp ⟨fun he => absurd he h0.ne, fun _ => hle⟩
    obtain ⟨had, hl⟩ := h.increase.add (h.increase.2 ▸ hcnt _) w
    refine ⟨{ x with
      sempid := c.pid, semncnt := (x.semncnt + 1) % 65536,
      nlist := some ((P.filter fun w => w.op.semOp ≠ 0).map Wait.entry ++ [w.entry]) }, ?_, ⟨?_, ?_⟩, rfl⟩
    · simp only [h0.not_gt, h0.ne, ha, hv, if_false, if_true, hentry, had, Option.map_some]
    · rw [filter_append, filter_singleton, decide_eq_false h0.ne]
      simpa using h.zero
    · rw [filter_append, filter_singleton, decide_eq_true h0.ne]
      exact hl

end Semaphore

/-! ## The operations of a call -/

/-- The operations that are not possible. -/
def blockedOps (sems : List Semaphore) (sops : List Sembuf) : List Sembuf :=
  sops.filter fun op => ¬Possible (valueAt sems op.semNum) op.semOp

/-- The waiting lists of the semaphores of a set. -/
def AllListed (sems : List Semaphore) (ws : List Wait) (id : Nat) : Prop :=
  ∀ (num : Nat) (x : Semaphore), sems[num]? = some x → x.Lists (pending ws id num)

variable {sems : List Semaphore}

theorem valueAt_of_getElem? (h : sems[num]? = some x) : valueAt sems num = x.semval := by
  rw [valueAt, h]
  rfl

theorem valueAt_set {num' : Nat} (h : num' ≠ num) : valueAt (sems.set num x) num' = valueAt sems num' := by
  rw [valueAt, valueAt, getElem?_set_ne h.symm]

theorem filter_set (h : num ∉ sops.map (·.semNum)) (p : Nat → Int → Bool) :
    sops.filter (fun op => p (valueAt (sems.set num x) op.semNum) op.semOp) =
      sops.filter fun op => p (valueAt sems op.semNum) op.semOp := by
  refine filter_congr fun op hop => ?_
  have hne : op.semNum ≠ num := fun he => h (he ▸ mem_map_of_mem hop)
  rw [valueAt_set hne]

theorem blockedOps_set (h : num ∉ sops.map (·.semNum)) :
    blockedOps (sems.set num x) sops = blockedOps sems sops := filter_set h fun v op => ¬Possible v op

theorem AllListed.set {ws' : List Wait} {id : Nat} {x' : Semaphore}
    (h : AllListed sems ws id) (hx : x'.Lists (pending ws' id num))
    (ho : ∀ num', num' ≠ num → pending ws' id num' = pending ws id num') : AllListed (sems.set num x') ws' id := by
  intro num' y hy
  by_cases he : num' = num
  · subst he
    have hlt : num' < sems.length := by
      by_contra hge
      rw [getElem?_eq_none (by simpa using hge)] at hy
      cases hy
    rw [getElem?_set_self hlt] at hy
    cases hy
    exact hx
  · rw [getElem?_set_ne (Ne.symm he)] at hy
    rw [ho num' he]
    exact h num' y hy

/-- The values after operations that are applied. -/
def applied (v : Nat → Nat) (sops : List Sembuf) (num : Nat) : Nat :=
  match sops.find? fun op => op.semNum = num with
  | none => v num
  | some op => ((v num : Int) + op.semOp).toNat

/-- No operation makes a value too large for its type. -/
def Fit (sems : List Semaphore) (sops : List Sembuf) : Prop :=
  ∀ op ∈ sops, 0 < op.semOp → (valueAt sems op.semNum : Int) + op.semOp < 65536

theorem Fit.set {op : Sembuf} (h : Fit sems (op :: sops)) (x : Semaphore)
    (hn : op.semNum ∉ sops.map (·.semNum)) : Fit (sems.set op.semNum x) sops := by
  intro op' hop' hpos
  have hne : op'.semNum ≠ op.semNum := fun he => hn (he ▸ mem_map_of_mem hop')
  rw [valueAt_set hne]
  exact h op' (mem_cons_of_mem op hop') hpos

/-- The operations that are possible. -/
def possibleOps (sems : List Semaphore) (sops : List Sembuf) : List Sembuf :=
  sops.filter fun op => Possible (valueAt sems op.semNum) op.semOp

theorem possibleOps_set (h : num ∉ sops.map (·.semNum)) :
    possibleOps (sems.set num x) sops = possibleOps sems sops := filter_set h fun v op => Possible v op

theorem applied_set {op : Sembuf}
    (hlt : op.semNum < sems.length) (hx : x.semval = ((valueAt sems op.semNum : Int) + op.semOp).toNat)
    (hn : op.semNum ∉ sops.map (·.semNum)) (num : Nat) :
    applied (valueAt (sems.set op.semNum x)) sops num = applied (valueAt sems) (op :: sops) num := by
  rw [applied, applied]
  by_cases he : op.semNum = num
  · subst he
    have hnone : sops.find? (fun op' => op'.semNum = op.semNum) = none :=
      find?_eq_none.mpr fun op' hop' he => hn (of_decide_eq_true he ▸ mem_map_of_mem hop')
    rw [hnone, find?_cons_of_pos (by simp)]
    exact (valueAt_of_getElem? (getElem?_set_self hlt)).trans hx
  · rw [find?_cons_of_neg (by simpa using he), valueAt_set (Ne.symm he)]

/-- The result of the operations of a call. -/
structure Operated (c : Caller) (id : Nat) (all : List Sembuf) (alter : Bool) (ws : List Wait) (sems : List Semaphore)
    (sops : List Sembuf) (r : Ret) (sems' : List Semaphore) (asleep : Nat) : Prop where
  length : sems'.length = sems.length
  listed : AllListed sems' (ws ++ (blockedOps sems sops).map fun op => ⟨c.who, id, op, all⟩) id
  result : (r = .OK ∧ asleep = (blockedOps sems sops).length ∧
      (Fit sems sops → ∀ num, valueAt sems' num = applied (valueAt sems) (possibleOps sems sops) num)) ∨
    (r = .EACCES ∧ alter = false ∧ (∃ op ∈ sops, op.semOp ≠ 0) ∧ blockedOps sems sops = [] ∧
      ∀ num, valueAt sems' num = valueAt sems num)

section Operations

variable {c : Caller} {id : Nat} {all : List Sembuf} {alter : Bool} {ws : List Wait} {sems sems' : List Semaphore}
  {op : Sembuf} {sops : List Sembuf} {x' : Semaphore} {r : Ret} {asleep : Nat}

theorem blockedOps_cons_of_possible (h : Possible (valueAt sems op.semNum) op.semOp) :
    blockedOps sems (op :: sops) = blockedOps sems sops := filter_cons_of_neg (by simpa using h)

theorem blockedOps_cons_of_not (h : ¬Possible (valueAt sems op.semNum) op.semOp) :
    blockedOps sems (op :: sops) = op :: blockedOps sems sops := filter_cons_of_pos (by simpa using h)

theorem possibleOps_cons_of_possible (h : Possible (valueAt sems op.semNum) op.semOp) :
    possibleOps sems (op :: sops) = op :: possibleOps sems sops := filter_cons_of_pos (by simpa using h)

theorem possibleOps_cons_of_not (h : ¬Possible (valueAt sems op.semNum) op.semOp) :
    possibleOps sems (op :: sops) = possibleOps sems sops := filter_cons_of_neg (by simpa using h)

theorem valueAt_set_same (hlt : op.semNum < sems.length) (hv : x'.semval = valueAt sems op.semNum) (num : Nat) :
    valueAt (sems.set op.semNum x') num = valueAt sems num := by
  by_cases he : num = op.semNum
  · subst he
    exact (valueAt_of_getElem? (getElem?_set_self hlt)).trans hv
  · exact valueAt_set he

theorem Operated.cons_applied (hp : Possible (valueAt sems op.semNum) op.semOp) (ha : alter = true ∨ op.semOp = 0)
    (hlt : op.semNum < sems.length) (hn : op.semNum ∉ sops.map (·.semNum))
    (hv : (0 < op.semOp → (valueAt sems op.semNum : Int) + op.semOp < 65536) →
      x'.semval = ((valueAt sems op.semNum : Int) + op.semOp).toNat)
    (h : Operated c id all alter ws (sems.set op.semNum x') sops r sems' asleep) :
    Operated c id all alter ws sems (op :: sops) r sems' asleep where
  length := by rw [h.length, length_set]
  listed := by
    have := h.listed
    rw [blockedOps_set hn] at this
    rwa [blockedOps_cons_of_possible hp]
  result := by
    rw [blockedOps_cons_of_possible hp, possibleOps_cons_of_possible hp]
    have := h.result
    rw [blockedOps_set hn] at this
    refine this.imp ?_ ?_
    · rintro ⟨hr, hs, hvals⟩
      refine ⟨hr, hs, fun hfit num => ?_⟩
      rw [hvals (hfit.set x' hn) num, possibleOps_set hn]
      refine applied_set hlt (hv (hfit op mem_cons_self)) (fun hmem => hn ?_) num
      obtain ⟨op', hop', he⟩ := mem_map.mp hmem
      exact mem_map.mpr ⟨op', (mem_filter.mp hop').1, he⟩
    · rintro ⟨hr, hal, ⟨op', hop', hne⟩, hb, hvals⟩
      refine ⟨hr, hal, ⟨op', mem_cons_of_mem op hop', hne⟩, hb, fun num => ?_⟩
      -- only operations that wait for zero come before the one that is refused
      have h0 : op.semOp = 0 := ha.resolve_left (by rw [hal]; exact Bool.false_ne_true)
      have hv' := hv fun hpos => absurd h0 hpos.ne'
      rw [h0, add_zero, Int.toNat_natCast] at hv'
      rw [hvals num, valueAt_set_same hlt hv']

theorem Operated.cons_asleep (hp : ¬Possible (valueAt sems op.semNum) op.semOp) (hlt : op.semNum < sems.length)
    (hn : op.semNum ∉ sops.map (·.semNum)) (hv : x'.semval = valueAt sems op.semNum)
    (ha : alter = true ∨ ∀ op' ∈ sops, op'.semOp = 0)
    (h : Operated c id all alter (ws ++ [⟨c.who, id, op, all⟩]) (sems.set op.semNum x') sops r sems' asleep) :
    Operated c id all alter ws sems (op :: sops) r sems' (asleep + 1) where
  length := by rw [h.length, length_set]
  listed := by
    have := h.listed
    rw [blockedOps_set hn, append_assoc] at this
    rwa [blockedOps_cons_of_not hp]
  result := by
    rcases h.result with ⟨hr, hs, hvals⟩ | ⟨-, hal, ⟨op', hop', hne⟩, -⟩
    · rw [blockedOps_set hn] at hs
      refine .inl ⟨hr, ?_, fun hfit num => ?_⟩
      · rw [blockedOps_cons_of_not hp, length_cons, hs]
      · rw [hvals (hfit.set x' hn) num, possibleOps_set hn, possibleOps_cons_of_not hp, applied, applied,
          valueAt_set_same hlt hv]
    · rcases ha with ha | ha
      · rw [hal] at ha
        cases ha
      · exact absurd (ha op' hop') hne

theorem Operated.denied (hl : AllListed sems ws id) (hx' : x'.Lists (pending ws id op.semNum)) (hal : alter = false)
    (hop : op.semOp ≠ 0) (hb : blockedOps sems (op :: sops) = []) (hlt : op.semNum < sems.length)
    (hv : x'.semval = valueAt sems op.semNum) :
    Operated c id all alter ws sems (op :: sops) .EACCES (sems.set op.semNum x') 0 where
  length := length_set ..
  listed := by
    rw [hb, map_nil, append_nil]
    exact hl.set hx' fun _ _ => rfl
  result := .inr ⟨rfl, hal, ⟨op, mem_cons_self, hop⟩, hb, valueAt_set_same hlt hv⟩

end Operations

/-- The operations of a call. If it is put asleep, there is memory for it and it is not refused afterwards. -/
theorem operations_spec (c : Caller) (id : Nat) (all : List Sembuf) {alter : Bool} {lost : Option Nat} :
    ∀ {sops : List Sembuf} {sems : List Semaphore} {ws : List Wait} (i n : Nat), AllListed sems ws id →
      (sops.map (·.semNum)).Nodup → (∀ op ∈ sops, op.semNum < sems.length) →
      (blockedOps sems sops = [] ∨ (lost = none ∧ (alter = true ∨ ∀ op ∈ sops, op.semOp = 0) ∧
        ws.length + (blockedOps sems sops).length < 65536)) →
      ∃ r sems' asleep, operations c alter lost i sops sems n = some (r, sems', n + asleep) ∧
        Operated c id all alter ws sems sops r sems' asleep
  | [], sems, ws, i, n, hl, _, _, _ => by
    refine ⟨.OK, sems, 0, rfl, rfl, ?_, .inl ⟨rfl, rfl, fun _ num => rfl⟩⟩
    simpa [blockedOps] using hl
  | op :: sops, sems, ws, i, n, hl, hnd, hlt, hok => by
    have hlt0 := hlt op mem_cons_self
    obtain ⟨hn, hnd'⟩ := nodup_cons.mp hnd
    have hx : sems[op.semNum]? = some sems[op.semNum] := getElem?_eq_getElem hlt0
    have hval := valueAt_of_getElem? hx
    have hlist := hl op.semNum _ hx
    have hlt' (x : Semaphore) : ∀ op' ∈ sops, op'.semNum < (sems.set op.semNum x).length := fun op' hop' => by
      rw [length_set]
      exact hlt op' (mem_cons_of_mem op hop')
    have hzero : (∀ op' ∈ op :: sops, op'.semOp = 0) → ∀ op' ∈ sops, op'.semOp = 0 :=
      fun h op' hop' => h op' (mem_cons_of_mem op hop')
    rw [operations, hx]
    simp only [Option.bind_eq_bind, Option.bind_some]
    by_cases hp : Possible (valueAt sems op.semNum) op.semOp
    · rw [blockedOps_cons_of_possible hp] at hok
      by_cases ha : alter = true ∨ op.semOp = 0
      · obtain ⟨x', he, hx', hv⟩ := hlist.operate_applied c (lost ≠ some i) ha (hval ▸ hp)
        rw [← hval] at hv
        obtain ⟨r, sems', asleep, heq, ho⟩ :=
          operations_spec c id all (i + 1) n (hl.set hx' fun _ _ => rfl) hnd' (hlt' x')
          (by rw [blockedOps_set hn]; exact hok.imp_right (And.imp_right (And.imp_left (Or.imp_right hzero))))
        rw [he]
        exact ⟨r, sems', asleep, heq, ho.cons_applied hp ha hlt0 hn hv⟩
      · obtain ⟨hal, hop⟩ := not_or.mp ha
        have hal' : alter = false := Bool.eq_false_of_not_eq_true hal
        obtain ⟨x', he, hx', hv⟩ := hlist.operate_denied c (lost ≠ some i) hop
        have hb : blockedOps sems sops = [] :=
          hok.resolve_right fun ⟨_, h, _⟩ => h.elim hal fun h => hop (h op mem_cons_self)
        rw [← hal'] at he
        rw [he]
        refine ⟨.EACCES, _, 0, rfl, .denied hl hx' hal' hop ?_ hlt0 (hv.trans hval.symm)⟩
        rw [blockedOps_cons_of_possible hp, hb]
    · have hb : blockedOps sems (op :: sops) = op :: blockedOps sems sops := blockedOps_cons_of_not hp
      obtain ⟨rfl, hmay, hlen⟩ := hok.resolve_left (by rw [hb]; exact cons_ne_nil _ _)
      have hlen' : (ws ++ [(⟨c.who, id, op, all⟩ : Wait)]).length + (blockedOps sems sops).length < 65536 := by
        rw [hb, length_cons] at hlen
        rw [length_append, length_singleton]
        omega
      obtain ⟨x', he, hx', hv⟩ := hlist.operate_asleep (w := ⟨c.who, id, op, all⟩) c rfl
        (hmay.imp_right fun h => h op mem_cons_self) (hval ▸ hp) (by
          have : (pending ws id op.semNum).length ≤ ws.length := length_filter_le _ _
          rw [length_append, length_singleton] at hlen'
          omega)
      have hl' : AllListed (sems.set op.semNum x') (ws ++ [⟨c.who, id, op, all⟩]) id := by
        refine hl.set ?_ fun num hne => ?_
        · simpa [pending] using hx'
        · have : op.semNum ≠ num := hne.symm
          simp [pending, this]
      obtain ⟨r, sems', asleep, heq, ho⟩ := operations_spec c id all (i + 1) (n + 1) hl' hnd' (hlt' x')
        (by rw [blockedOps_set hn]; exact .inr ⟨rfl, hmay.imp_right hzero, hlen'⟩)
      have hre : decide ((none : Option Nat) ≠ some i) = true := rfl
      rw [hre, he]
      refine ⟨r, sems', asleep + 1, heq.trans ?_, ho.cons_asleep hp hlt0 hn (hv.trans hval.symm) (hmay.imp_right hzero)⟩
      rw [add_assoc, add_comm 1]

end Minix.Ipc
