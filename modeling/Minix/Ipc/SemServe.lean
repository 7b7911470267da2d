import Minix.Ipc.SemWait

/-!
# Requests and waiting lists

`Wf`: the waiting lists of all the semaphores are those of the processes that wait. `Wf.eachSemaphore` is the step of
going through all the semaphores, and `Acts` says what a request does before they are updated, who is told and who is
put asleep.
-/

namespace Minix.Ipc

open Minix.Lib List

section EachSemaphore

variable {f : Semaphore → Option (Semaphore × List Reply)} {R : List SemStruct → List Reply → List SemStruct → Prop}
  {s s' : Server} {out : List Reply}

/-- What holds of the update of one semaphore, and is kept when updates follow each other, holds of all of them. -/
theorem Server.eachSemaphore_ind (hrefl : ∀ sets, R sets [] sets)
    (htrans : ∀ sets1 sets2 sets3 o1 o2, R sets1 o1 sets2 → R sets2 o2 sets3 → R sets1 (o1 ++ o2) sets3)
    (hstep : ∀ sets i sem num x x' o, (∃ sem0 ∈ s.semList, x ∈ sem0.sems) → sets[i]? = some sem →
    sem.sems[num]? = some x →
      f x = some (x', o) → R sets o (sets.set i { sem with sems := sem.sems.set num x' }))
    (h : s.eachSemaphore f = some (s', out)) : R s.semList out s'.semList ∧ s'.identifier = s.identifier := by
  obtain ⟨⟨sets, o⟩, hall, h⟩ := Option.bind_eq_some_iff.mp h
  cases h
  refine ⟨updateAll_ind hrefl htrans hall fun sets i sem sem' o hmem hi hsem => ?_, rfl⟩
  obtain ⟨⟨sems, o⟩, hsems, h⟩ := Option.bind_eq_some_iff.mp hsem
  cases h
  -- the semaphores of one set, in any list that has the set
  have := updateAll_ind (R := fun A o B => ∀ sets : List SemStruct, sets[i]? = some { sem with sems := A } →
      R sets o (sets.set i { sem with sems := B })) ?_ ?_ hsems ?_
  · exact this sets hi
  · intro A sets hA
    obtain ⟨hlt, he⟩ := List.getElem?_eq_some_iff.mp hA
    rw [← he, set_getElem_self]
    exact hrefl sets
  · intro A B C o1 o2 h1 h₂ sets hA
    have hlt : i < sets.length := (List.getElem?_eq_some_iff.mp hA).1
    have h2 := h₂ (sets.set i { sem with sems := B }) (getElem?_set_self hlt)
    rw [set_set] at h2
    exact htrans _ _ _ _ _ (h1 sets hA) h2
  · intro A num x x' o hx hnum hf sets hA
    exact hstep sets i { sem with sems := A } num x x' o ⟨sem, hmem, hx⟩ hA hnum hf

theorem Server.eachSemaphore_getElem? (h : s.eachSemaphore f = some (s', out)) {sem' : SemStruct}
    (hs : sem' ∈ s'.semList)
    {num : Nat} {x' : Semaphore} (hx : sem'.sems[num]? = some x') :
    ∃ sem ∈ s.semList, ∃ x o, sem.id = sem'.id ∧ sem.sems[num]? = some x ∧ f x = some (x', o) ∧ o ⊆ out := by
  obtain ⟨⟨sets, o⟩, hall, h⟩ := Option.bind_eq_some_iff.mp h
  cases h
  obtain ⟨i, hi⟩ := mem_iff_getElem?.mp hs
  obtain ⟨sem, o, hsem, he, ho⟩ := updateAll_getElem? hall hi
  obtain ⟨⟨sems, o⟩, hsems, he⟩ := Option.bind_eq_some_iff.mp he
  cases he
  obtain ⟨x, o', hx0, hf, ho'⟩ := updateAll_getElem? hsems hx
  exact ⟨sem, mem_of_getElem? hsem, x, o', rfl, hx0, hf, List.Subset.trans ho' ho⟩

theorem Server.eachSemaphore_some (h : ∀ sem ∈ s.semList, ∀ x ∈ sem.sems, ∃ x' o, f x = some (x', o)) :
    ∃ s' out, s.eachSemaphore f = some (s', out) := by
  have hset : ∀ sem ∈ s.semList, ∃ sem' o, sem.eachSemaphore f = some (sem', o) := by
    intro sem hsem
    obtain ⟨sems, o, he⟩ := updateAll_some (h sem hsem)
    refine ⟨{ sem with sems }, o, ?_⟩
    rw [SemStruct.eachSemaphore, he]
    rfl
  obtain ⟨sets, out, he⟩ := updateAll_some hset
  refine ⟨{ s with semList := sets }, out, ?_⟩
  rw [Server.eachSemaphore, he]
  rfl

end EachSemaphore

/-! ## The waiting lists -/

/-- The waiting lists of all the semaphores are those of the processes `ws`. -/
structure Wf (s : Server) (ws : List Wait) : Prop where
  ids : (s.semList.map (·.id)).Nodup
  fresh : ∀ sem ∈ s.semList, sem.id < s.identifier
  lists : ∀ sem ∈ s.semList, AllListed sem.sems ws sem.id
  place : ∀ w ∈ ws, ∃ sem ∈ s.semList, sem.id = w.id ∧ w.op.semNum < sem.sems.length
  down : ∀ w ∈ ws, w.op.semOp ≤ 0
  procs : Distinct ws

namespace Wf

variable {s s' : Server} {ws ws' : List Wait} {i : Nat} {sem sem' : SemStruct} {out : List Reply}

theorem init : Wf Server.init [] where
  ids := nodup_nil
  fresh _ h := absurd h not_mem_nil
  lists _ h := absurd h not_mem_nil
  place _ h := absurd h not_mem_nil
  down _ h := absurd h not_mem_nil
  procs := nodup_nil

theorem id_ne (h : Wf s ws) {j : Nat} {sem' : SemStruct} (hi : s.semList[i]? = some sem)
    (hj : s.semList[j]? = some sem')
    (hne : j ≠ i) : sem'.id ≠ sem.id := by
  intro he
  obtain ⟨hlt, rfl⟩ := List.getElem?_eq_some_iff.mp hi
  obtain ⟨hlt', rfl⟩ := List.getElem?_eq_some_iff.mp hj
  have hi' : i < (s.semList.map (·.id)).length := by rwa [length_map]
  have hj' : j < (s.semList.map (·.id)).length := by rwa [length_map]
  have he' : (s.semList.map (·.id))[j] = (s.semList.map (·.id))[i] := by simpa using he
  exact hne ((List.Nodup.getElem_inj_iff h.ids).mp he')

theorem put (h : Wf s ws) (hi : s.semList[i]? = some sem) (hid : sem'.id = sem.id)
    (hlen : sem'.sems.length = sem.sems.length) (hl : AllListed sem'.sems ws' sem.id)
    (hother : ∀ id num, id ≠ sem.id → pending ws' id num = pending ws id num)
    (hplace : ∀ w ∈ ws', w ∈ ws ∨ w.id = sem.id ∧ w.op.semNum < sem.sems.length) (hdown : ∀ w ∈ ws', w.op.semOp ≤ 0)
    (hprocs : Distinct ws') : Wf (s.put i sem') ws' := by
  have hlt : i < s.semList.length := (List.getElem?_eq_some_iff.mp hi).1
  have hmem : ∀ x ∈ (s.put i sem').semList, x = sem' ∨ ∃ j, j ≠ i ∧ s.semList[j]? = some x := by
    intro x hx
    obtain ⟨j, hj⟩ := mem_iff_getElem?.mp hx
    by_cases he : j = i
    · subst he
      rw [Server.put, getElem?_set_self hlt] at hj
      cases hj
      exact .inl rfl
    · rw [Server.put, getElem?_set_ne (Ne.symm he)] at hj
      exact .inr ⟨j, he, hj⟩
  have hsem' : sem' ∈ (s.put i sem').semList := mem_of_getElem? (getElem?_set_self hlt)
  have hids : (s.put i sem').semList.map (·.id) = s.semList.map (·.id) := by
    rw [Server.put, map_set, hid]
    obtain ⟨hlt, rfl⟩ := List.getElem?_eq_some_iff.mp hi
    rw [← map_set, set_getElem_self]
  refine ⟨hids ▸ h.ids, ?_, ?_, ?_, hdown, hprocs⟩
  · intro x hx
    rcases hmem x hx with rfl | ⟨j, -, hj⟩
    · rw [hid]
      exact h.fresh sem (mem_of_getElem? hi)
    · exact h.fresh x (mem_of_getElem? hj)
  · intro x hx
    rcases hmem x hx with rfl | ⟨j, hne, hj⟩
    · rw [hid]
      exact hl
    · intro num y hy
      rw [hother x.id num (h.id_ne hi hj hne)]
      exact h.lists x (mem_of_getElem? hj) num y hy
  · intro w hw
    have hown (he : w.id = sem.id) (hn : w.op.semNum < sem.sems.length) :
        ∃ sem ∈ (s.put i sem').semList, sem.id = w.id ∧ w.op.semNum < sem.sems.length :=
      ⟨sem', hsem', hid.trans he.symm, hlen ▸ hn⟩
    rcases hplace w hw with hw | ⟨he, hn⟩
    · obtain ⟨x, hx, hxid, hxn⟩ := h.place w hw
      obtain ⟨j, hj⟩ := mem_iff_getElem?.mp hx
      by_cases he : j = i
      · subst he
        rw [hi] at hj
        cases hj
        exact hown hxid.symm hxn
      · refine ⟨x, ?_, hxid, hxn⟩
        exact mem_of_getElem? (by rw [Server.put, getElem?_set_ne (Ne.symm he)]; exact hj)
    · exact hown he hn

/-- The replies go to processes that waited, each of them gets one, and they are taken out of the lists. -/
structure Serves (s : Server) (ws : List Wait) (out : List Reply) : Prop where
  wf : Wf s (unanswered ws out)
  once : (out.map (·.who)).Nodup
  waits : ∀ m ∈ out, ∃ w ∈ ws, w.who = m.who

theorem Serves.append {o1 o2 : List Reply} (h1 : Serves s ws o1) (h2 : Serves s' (unanswered ws o1) o2) :
    Serves s' ws (o1 ++ o2) where
  wf := by
    rw [unanswered_append]
    exact h2.wf
  once := nodup_told h1.once h2.once h2.waits
  waits := told_append h1.waits h2.waits

theorem serve (h : Wf s ws) (hi : s.semList[i]? = some sem) {num : Nat} {x' : Semaphore}
    (hs : Semaphore.Served (pending ws sem.id num) x' out) :
    Serves (s.put i { sem with sems := sem.sems.set num x' }) ws out := by
  have hwaits : ∀ m ∈ out, ∃ w ∈ ws, w.id = sem.id ∧ w.op.semNum = num ∧ w.who = m.who := by
    intro m hm
    obtain ⟨w, hw, he⟩ := hs.waits m hm
    obtain ⟨hw, hid, hn⟩ := mem_pending.mp hw
    exact ⟨w, hw, hid, hn, he⟩
  -- the others are not affected by the replies
  have hother : ∀ id' num', (id' ≠ sem.id ∨ num' ≠ num) →
      pending (unanswered ws out) id' num' = pending ws id' num' := by
    intro id' num' hne
    rw [pending_unanswered]
    refine unanswered_eq_self fun w hw m hm he => ?_
    obtain ⟨hw, hid, hn⟩ := mem_pending.mp hw
    obtain ⟨w', hw', hid', hn', he'⟩ := hwaits m hm
    cases h.procs.inj hw hw' (he.symm.trans he'.symm)
    rcases hne with hne | hne
    · exact hne (hid.symm.trans hid')
    · exact hne (hn.symm.trans hn')
  refine ⟨?_, hs.once, fun m hm => ?_⟩
  · have hl : AllListed (sem.sems.set num x') (unanswered ws out) sem.id := by
      refine (h.lists sem (mem_of_getElem? hi)).set ?_ fun num' hne => hother _ _ (.inr hne)
      rw [pending_unanswered]
      exact hs.lists
    refine h.put hi ?_ ?_ hl (fun id num hne => hother id num (.inl hne)) ?_ ?_ (h.procs.unanswered out)
    · rfl
    · exact length_set ..
    · exact fun w hw => .inl (mem_unanswered.mp hw).1
    · exact fun w hw => h.down w (mem_unanswered.mp hw).1
  · obtain ⟨w, hw, -, -, he⟩ := hwaits m hm
    exact ⟨w, hw, he⟩

theorem eachSemaphore (h : Wf s ws) {f : Semaphore → Option (Semaphore × List Reply)}
    (hf : ∀ sem ∈ s.semList, ∀ x ∈ sem.sems, ∀ P, x.Lists P → Distinct P →
      ∃ x' o, f x = some (x', o) ∧ Semaphore.Served P x' o) :
    ∃ s' out, s.eachSemaphore f = some (s', out) ∧ Serves s' ws out := by
  have hlists : ∀ sem ∈ s.semList, ∀ x ∈ sem.sems, ∃ P, x.Lists P ∧ Distinct P := by
    intro sem hsem x hx
    obtain ⟨num, hnum⟩ := mem_iff_getElem?.mp hx
    exact ⟨_, h.lists sem hsem num x hnum, h.procs.pending _ _⟩
  obtain ⟨s', out, he⟩ := Server.eachSemaphore_some fun sem hsem x hx => by
    obtain ⟨P, hl, hP⟩ := hlists sem hsem x hx
    obtain ⟨x', o, hfx, -⟩ := hf sem hsem x hx P hl hP
    exact ⟨x', o, hfx⟩
  refine ⟨s', out, he, ?_⟩
  have hR := Server.eachSemaphore_ind (R := fun sets o sets' => ∀ ws, Wf ⟨sets, s.identifier⟩ ws →
      Serves ⟨sets', s.identifier⟩ ws o) ?_ ?_ ?_ he
  · have := hR.1 ws h
    rw [← hR.2] at this
    exact this
  · intro sets ws hwf
    refine ⟨?_, nodup_nil, nofun⟩
    rw [unanswered_nil]
    exact hwf
  · intro sets1 sets2 sets3 o1 o2 h1 h2 ws hwf
    exact (h1 ws hwf).append (h2 _ (h1 ws hwf).wf)
  · rintro sets i sem num x x' o ⟨sem0, hsem0, hx0⟩ hi hx hfx ws hwf
    obtain ⟨x'', o', hfx', hserved⟩ := hf sem0 hsem0 x hx0 (pending ws sem.id num)
      (hwf.lists sem (mem_of_getElem? hi) num x hx) (hwf.procs.pending _ _)
    rw [hfx] at hfx'
    cases hfx'
    exact hwf.serve hi hserved

end Wf

/-! ## Requests -/

/-- The process that makes a call. -/
def Event.caller : Event → Option Nat
  | .semget c .. => some c.who
  | .semctl c .. => some c.who
  | .semop c .. => some c.who
  | .exit _ => none
  | .shmget => none

/-- The operations that put the caller asleep. -/
def Server.blocked (s : Server) : Event → List Wait
  | .semop c id sops mem =>
    match s.semFindId id with
    | none => []
    | some (_, sem) =>
      if sem.refuses c sops mem = none then (blockedOps sem.sems sops).map fun op => ⟨c.who, id, op, sops⟩ else []
  | _ => []

/-- Has the caller the permission to alter the set? -/
def Server.mayAlter (s : Server) (c : Caller) (id : Nat) : Bool :=
  match s.semFindId id with
  | none => true
  | some (_, sem) => checkPerm sem.perm c 0o222

theorem Server.blocked_who {s : Server} {e : Event} {w : Wait} (hw : w ∈ s.blocked e) : e.caller = some w.who := by
  cases e with
  | semop c id sops mem =>
    rw [Server.blocked] at hw
    split at hw
    · cases hw
    · split at hw
      · obtain ⟨op, -, rfl⟩ := mem_map.mp hw
        rfl
      · cases hw
  | _ => cases hw

/-- Nobody can go on. -/
def AllSettled (s : Server) (ws : List Wait) : Prop :=
  ∀ sem ∈ s.semList, ∀ (num : Nat) (x : Semaphore), sem.sems[num]? = some x → x.Settled (pending ws sem.id num)

/-- What a request does before the semaphores are updated. -/
structure Acts (s : Server) (ws : List Wait) (e : Event) (a : Server.Act) : Prop where
  wf : Wf a.srv (unanswered (ws ++ s.blocked e) (a.sent ++ a.reply))
  once : ((a.sent ++ a.reply).map (·.who)).Nodup
  due : ∀ m ∈ a.sent ++ a.reply, e.caller = some m.who ∨ ∃ w ∈ ws, w.who = m.who
  calls : ∀ p, e.caller = some p → (∃ m ∈ a.sent ++ a.reply, m.who = p) ∨ ∃ w ∈ s.blocked e, w.who = p
  quiet : a.update = false → AllSettled s ws → AllSettled a.srv (unanswered (ws ++ s.blocked e) (a.sent ++ a.reply))

section Acts

variable {s : Server} {ws : List Wait} {e : Event} {a : Server.Act} {c : Caller} {i id : Nat} {sem sem' : SemStruct}
  {sops : List Sembuf} {mem : Memory}

theorem Server.semFindId_some (h : s.semFindId id = some (i, sem)) : s.semList[i]? = some sem ∧ sem.id = id := by
  obtain ⟨j, hj, h⟩ := Option.bind_eq_some_iff.mp h
  obtain ⟨sem0, hsem, h⟩ := Option.bind_eq_some_iff.mp h
  cases h
  refine ⟨hsem, ?_⟩
  obtain ⟨hlt, hp, -⟩ := findIdx?_eq_some_iff_getElem.mp hj
  rw [getElem?_eq_getElem hlt] at hsem
  cases hsem
  exact of_decide_eq_true hp

theorem Acts.replied {m : Reply} (hwf : Wf a.srv ws) (hm : a.sent ++ a.reply = [m]) (hc : e.caller = some m.who)
    (hfree : ∀ w ∈ ws, w.who ≠ m.who) (hq : a.update = false → AllSettled s ws → AllSettled a.srv ws) :
    Acts s ws e a := by
  have hws : unanswered (ws ++ s.blocked e) (a.sent ++ a.reply) = ws := by
    rw [hm, unanswered, filter_append, filter_eq_self.mpr, filter_eq_nil_iff.mpr, append_nil]
    · intro w hw
      have : m.who = w.who := Option.some.inj (hc.symm.trans (Server.blocked_who hw))
      simp [this]
    · intro w hw
      simpa using (hfree w hw).symm
  refine ⟨?_, ?_, ?_, ?_, ?_⟩
  · rw [hws]
    exact hwf
  · rw [hm]
    exact nodup_singleton _
  · intro m' hm'
    rw [hm] at hm'
    cases mem_singleton.mp hm'
    exact .inl hc
  · intro p hp
    rw [hm]
    rw [hc] at hp
    cases hp
    exact .inl ⟨m, mem_singleton_self m, rfl⟩
  · rw [hws]
    exact hq

theorem Acts.answer (hwf : Wf s ws) (hc : e.caller = some c.who) (hfree : ∀ w ∈ ws, w.who ≠ c.who)
    (ret : Ret) (val : Nat)
    (data : Data) : ∃ a, s.answer c ret val data = some a ∧ Acts s ws e a :=
  ⟨_, rfl, .replied hwf rfl hc hfree fun _ h => h⟩

/-- A set is written back with the same waiting lists, and the caller is answered. -/
theorem Acts.put (hwf : Wf s ws) (hc : e.caller = some c.who) (hfree : ∀ w ∈ ws, w.who ≠ c.who)
    (hi : s.semList[i]? = some sem) {sems : List Semaphore} (hlen : sems.length = sem.sems.length)
    (hl : AllListed sems ws sem.id) (ret : Ret) :
    Acts s ws e ⟨s.put i { sem with sems }, [], true, [sendMessageToProcess c.who ret]⟩ :=
  .replied
    (hwf.put hi rfl hlen hl (fun _ _ _ => rfl) (fun _ hw => .inl hw) hwf.down hwf.procs) rfl hc hfree nofun

theorem AllListed.of_values {sems sems' : List Semaphore} (h : AllListed sems ws id)
    (he : ∀ (num : Nat) (x' : Semaphore), sems'[num]? = some x' → ∃ x, sems[num]? = some x ∧
    x' = { x with semval := x'.semval }) :
    AllListed sems' ws id := by
  intro num x' hx'
  obtain ⟨x, hx, he⟩ := he num x' hx'
  rw [he]
  exact ⟨(h num x hx).zero, (h num x hx).increase⟩

theorem setValues_getElem? : ∀ (sems : List Semaphore) (buf : List Nat) (num : Nat) (x' : Semaphore),
    (setValues sems buf).2[num]? = some x' → ∃ x, sems[num]? = some x ∧ x' = { x with semval := x'.semval }
  | [], _, num, x', h => by
    rw [setValues] at h
    · cases h
    · intro _ _ _ _ h
      cases h
  | x :: sems, [], num, x', h => ⟨x', h, rfl⟩
  | x :: sems, val :: buf, num, x', h => by
    rw [setValues] at h
    split at h
    · exact ⟨x', h, rfl⟩
    · cases num with
      | zero =>
        cases h
        exact ⟨x, rfl, rfl⟩
      | succ num => exact setValues_getElem? sems buf num x' h

theorem setValues_length : ∀ (sems : List Semaphore) (buf : List Nat), (setValues sems buf).2.length = sems.length
  | [], _ => by
    rw [setValues]
    intro _ _ _ _ h
    cases h
  | x :: sems, [] => rfl
  | x :: sems, val :: buf => by
    rw [setValues]
    split
    · rfl
    · exact congrArg (· + 1) (setValues_length sems buf)

theorem Acts.getField (hwf : Wf s ws) (hc : e.caller = some c.who) (hfree : ∀ w ∈ ws, w.who ≠ c.who) (num : Int)
    (field : Semaphore → Nat) : ∃ a, s.getField c sem num field = some a ∧ Acts s ws e a := by
  rw [Server.getField]
  split
  · exact Acts.answer hwf hc hfree _ _ _
  · have hlt : num.toNat < sem.sems.length := by omega
    rw [getElem?_eq_getElem hlt]
    exact Acts.answer hwf hc hfree _ _ _

/-! ### The removal of a set -/

theorem Semaphore.Lists.removed {x : Semaphore} {P : List Wait} (h : x.Lists P) : ∃ out, x.removed = some (x, out) ∧
    out.map (·.who) = (P.filter (fun w => w.op.semOp = 0) ++ P.filter fun w => w.op.semOp ≠ 0).map (·.who) := by
  rw [Semaphore.removed, h.zero.entries_eq, h.increase.entries_eq]
  refine ⟨_, rfl, ?_⟩
  rw [← map_append, map_map, map_map]
  rfl

/-- The processes that wait for one of the semaphores from the `k`-th on are told that the set is gone. -/
theorem removed_all (id : Nat) : ∀ (sems : List Semaphore) (k : Nat),
    (∀ (num : Nat) (x : Semaphore), sems[num]? = some x → x.Lists (pending ws id (k + num))) →
      ∃ out, updateAll Semaphore.removed sems = some (sems, out) ∧
        out.map (·.who) ~ (ws.filter fun w => w.id = id ∧ k ≤ w.op.semNum ∧ w.op.semNum < k + sems.length).map (·.who)
  | [], k, _ => by
    refine ⟨[], rfl, ?_⟩
    rw [filter_eq_nil_iff.mpr fun w _ => by simp]
    exact .nil
  | x :: sems, k, hl => by
    obtain ⟨o, ho, how⟩ := (hl 0 x rfl).removed
    obtain ⟨out, hout, hperm⟩ := removed_all id sems (k + 1) fun num y hy => by
      rw [add_assoc, add_comm 1]
      exact hl (num + 1) y hy
    refine ⟨o ++ out, ?_, ?_⟩
    · rw [updateAll, ho, hout]
      rfl
    have hfirst : o.map (·.who) ~ (pending ws id k).map (·.who) := by
      rw [how]
      simpa using (filter_append_perm (fun w : Wait => w.op.semOp = 0) (pending ws id k)).map (·.who)
    rw [map_append]
    refine (hfirst.append hperm).trans ?_
    rw [← map_append, length_cons]
    -- the first semaphore, and those after it
    refine .map _ (.trans (.of_eq ?_) (filter_append_perm (fun w : Wait => w.op.semNum = k) _))
    rw [pending, filter_filter, filter_filter]
    congr 1
    · refine filter_congr fun w _ => ?_
      rw [Bool.eq_iff_iff]
      simp
      omega
    · refine filter_congr fun w _ => ?_
      rw [Bool.eq_iff_iff]
      simp
      omega

theorem Server.removeSemaphore_perm (hi : i < s.semList.length) :
    (s.removeSemaphore i).semList.Perm (s.semList.eraseIdx i) := by
  obtain ⟨l, x, hl⟩ := (eq_nil_or_concat s.semList).resolve_left (ne_nil_of_length_pos (Nat.zero_lt_of_lt hi))
  rw [concat_eq_append] at hl
  have hlast : (l ++ [x]).getLast? = some x := getLast?_concat
  rw [hl, length_append, length_singleton] at hi
  simp only [Server.removeSemaphore, hl, hlast]
  rcases Nat.eq_or_lt_of_le (Nat.lt_succ_iff.mp hi) with rfl | hlt
  · rw [eraseIdx_append_of_length_le le_rfl]
    simp
  · rw [set_append_left _ _ hlt, dropLast_concat, eraseIdx_append_of_lt_length hlt]
    exact (set_perm_cons_eraseIdx hlt x).trans (perm_append_singleton x _).symm

theorem Acts.remove (hwf : Wf s ws) (hc : e.caller = some c.who) (hfree : ∀ w ∈ ws, w.who ≠ c.who)
    (hb : s.blocked e = []) (hi : s.semList[i]? = some sem) {out : List Reply}
    (hout : sem.eachSemaphore Semaphore.removed = some (sem', out)) :
    Acts s ws e ⟨s.removeSemaphore i, out, false, [sendMessageToProcess c.who .OK]⟩ := by
  have hmem := mem_of_getElem? hi
  have hlt : i < s.semList.length := (List.getElem?_eq_some_iff.mp hi).1
  obtain ⟨out', he, hperm⟩ := removed_all sem.id sem.sems 0 fun num x hx => by
    rw [zero_add]
    exact hwf.lists sem hmem num x hx
  rw [SemStruct.eachSemaphore, he] at hout
  cases hout
  have honce : (out.map (·.who)).Nodup := hperm.nodup_iff.mpr (hwf.procs.sublist filter_sublist)
  have hall : ∀ p, p ∈ out.map (·.who) ↔ ∃ w ∈ ws, w.id = sem.id ∧ w.op.semNum < sem.sems.length ∧
      w.who = p := fun p => by
    rw [hperm.mem_iff]
    simp [and_assoc]
  have hfree' : ∀ m ∈ out, ∃ w ∈ ws, w.id = sem.id ∧ w.who = m.who := by
    intro m hm
    obtain ⟨w, hw, hid, -, he⟩ := (hall m.who).mp (mem_map_of_mem hm)
    exact ⟨w, hw, hid, he⟩
  -- those that waited for a semaphore of the set have been told, and no others
  have hws : unanswered (ws ++ s.blocked e) (out ++ [sendMessageToProcess c.who .OK]) = ws.filter fun w =>
      w.id ≠ sem.id := by
    rw [hb, append_nil]
    refine filter_congr fun w hw => ?_
    rw [decide_eq_decide]
    refine ⟨fun h hid => ?_, fun h m hm he => ?_⟩
    · obtain ⟨sem0, hsem0, hid0, hnum⟩ := hwf.place w hw
      cases inj_on_of_nodup_map hwf.ids hsem0 hmem (hid0.trans hid)
      obtain ⟨m, hm, he⟩ := mem_map.mp ((hall w.who).mpr ⟨w, hw, hid, hnum, rfl⟩)
      exact h m (mem_append_left _ hm) he
    · rcases mem_append.mp hm with hm | hm
      · obtain ⟨w', hw', hid, he'⟩ := hfree' m hm
        cases hwf.procs.inj hw hw' (he.symm.trans he'.symm)
        exact h hid
      · cases mem_singleton.mp hm
        exact hfree w hw he.symm
  have hleft : ∀ x, x ∈ (s.removeSemaphore i).semList ↔ ∃ j ≠ i, s.semList[j]? = some x := fun x => by
    rw [(Server.removeSemaphore_perm hlt).mem_iff, mem_eraseIdx_iff_getElem?]
  have hpending : ∀ x ∈ (s.removeSemaphore i).semList, x ∈ s.semList ∧
      ∀ num, pending (ws.filter fun w => w.id ≠ sem.id) x.id num = pending ws x.id num := by
    intro x hx
    obtain ⟨j, hne, hj⟩ := (hleft x).mp hx
    refine ⟨mem_of_getElem? hj, fun num => ?_⟩
    rw [pending, filter_filter]
    refine filter_congr fun w _ => ?_
    have := hwf.id_ne hi hj hne
    rw [Bool.eq_iff_iff]
    simp only [Bool.and_eq_true, decide_eq_true_eq]
    constructor
    · exact fun h => h.1
    · exact fun h => ⟨h, h.1 ▸ this⟩
  refine ⟨?_, ?_, ?_, ?_, ?_⟩
  · rw [hws]
    refine ⟨?_, fun x hx => hwf.fresh x (hpending x hx).1, fun x hx num y hy => ?_, fun w hw => ?_, ?_, ?_⟩
    · refine ((Server.removeSemaphore_perm hlt).map _).nodup_iff.mpr ?_
      exact hwf.ids.sublist ((eraseIdx_sublist ..).map _)
    · rw [(hpending x hx).2 num]
      exact hwf.lists x (hpending x hx).1 num y hy
    · obtain ⟨hw, hne⟩ := mem_filter.mp hw
      obtain ⟨sem0, hsem0, hid0, hnum⟩ := hwf.place w hw
      obtain ⟨j, hj⟩ := mem_iff_getElem?.mp hsem0
      refine ⟨sem0, (hleft sem0).mpr ⟨j, ?_, hj⟩, hid0, hnum⟩
      rintro rfl
      rw [hi] at hj
      cases hj
      exact of_decide_eq_true hne hid0.symm
    · exact fun w hw => hwf.down w (mem_filter.mp hw).1
    · exact hwf.procs.sublist filter_sublist
  · rw [map_append]
    refine honce.append (nodup_singleton _) fun p h1 h2 => ?_
    obtain ⟨w, hw, -, -, rfl⟩ := (hall p).mp h1
    exact hfree w hw (mem_singleton.mp h2)
  · intro m hm
    rcases mem_append.mp hm with hm | hm
    · obtain ⟨w, hw, -, he⟩ := hfree' m hm
      exact .inr ⟨w, hw, he⟩
    · cases mem_singleton.mp hm
      exact .inl hc
  · intro p hp
    refine .inl ⟨sendMessageToProcess c.who .OK, mem_append_right _ (mem_singleton_self _), ?_⟩
    exact Option.some.inj (hc.symm.trans hp)
  · intro _ hset x hx num y hy
    rw [hws, (hpending x hx).2 num]
    exact hset x (hpending x hx).1 num y hy

theorem Acts.create (hwf : Wf s ws) (hc : e.caller = some c.who) (hfree : ∀ w ∈ ws, w.who ≠ c.who)
    (hid : s.identifier + 1 < 2 ^ 32) (key : Int) (perm : IpcPerm) (n : Nat) :
    ∃ a, (⟨s.semList ++ [⟨key, s.identifier, perm, List.replicate n ⟨0, 0, 0, none, none, 0⟩⟩], s.nextIdentifier⟩ :
      Server).answer c .OK s.identifier .none = some a ∧ Acts s ws e a := by
  have hnext : s.nextIdentifier = s.identifier + 1 := Nat.mod_eq_of_lt hid
  have hnone : ∀ num, pending ws s.identifier num = [] := by
    intro num
    refine filter_eq_nil_iff.mpr fun w hw he => ?_
    obtain ⟨sem, hsem, hid, -⟩ := hwf.place w hw
    have := hwf.fresh sem hsem
    rw [hid, (of_decide_eq_true he).1] at this
    exact lt_irrefl _ this
  have hnew : ∀ sem ∈ s.semList ++ [⟨key, s.identifier, perm, List.replicate n ⟨0, 0, 0, none, none, 0⟩⟩],
      sem ∈ s.semList ∨ sem = ⟨key, s.identifier, perm, List.replicate n ⟨0, 0, 0, none, none, 0⟩⟩ := by
    intro sem hsem
    rcases mem_append.mp hsem with h | h
    · exact .inl h
    · exact .inr (mem_singleton.mp h)
  refine ⟨_, rfl, .replied ?_ rfl hc hfree ?_⟩
  · refine ⟨?_, ?_, ?_, ?_, hwf.down, hwf.procs⟩
    · rw [map_append]
      refine hwf.ids.append (nodup_singleton _) fun id h1 h2 => ?_
      obtain ⟨sem, hsem, rfl⟩ := mem_map.mp h1
      exact (hwf.fresh sem hsem).ne (mem_singleton.mp h2)
    · intro sem hsem
      show _ < s.nextIdentifier
      rw [hnext]
      rcases hnew sem hsem with h | rfl
      · exact (hwf.fresh sem h).trans (Nat.lt_succ_self _)
      · exact Nat.lt_succ_self _
    · intro sem hsem num x hx
      rcases hnew sem hsem with h | rfl
      · exact hwf.lists sem h num x hx
      · obtain ⟨-, rfl⟩ := mem_replicate.mp (mem_of_getElem? hx)
        rw [hnone num]
        exact ⟨⟨rfl, rfl⟩, ⟨rfl, rfl⟩⟩
    · intro w hw
      obtain ⟨sem, hsem, h⟩ := hwf.place w hw
      exact ⟨sem, mem_append_left _ hsem, h⟩
  · intro _ hset sem hsem num x hx
    rcases hnew sem hsem with h | rfl
    · exact hset sem h num x hx
    · rw [hnone num]
      exact nofun

/-! ### The requests one by one -/

theorem Semaphore.removeProcess_semval {x x' : Semaphore} {pt : Nat} {out : List Reply}
    (h : x.removeProcess pt = some (x', out)) : x'.semval = x.semval := by
  obtain ⟨⟨_, _, _⟩, -, h⟩ := Option.bind_eq_some_iff.mp h
  obtain ⟨⟨_, _, _⟩, -, h⟩ := Option.bind_eq_some_iff.mp h
  cases h
  rfl

theorem Acts.exit (hwf : Wf s ws) (pt : Nat) : ∃ a, s.act (.exit pt) = some a ∧ Acts s ws (.exit pt) a := by
  obtain ⟨s', out, he, hs⟩ := hwf.eachSemaphore fun _ _ x _ P hl hP => by
    obtain ⟨x', o, hx, ho, -⟩ := hl.removeProcess hP pt
    exact ⟨x', o, hx, ho⟩
  have hws : ws ++ s.blocked (.exit pt) = ws := append_nil ws
  refine ⟨⟨s', out, false, []⟩, ?_, ?_, ?_, fun m hm => ?_, nofun, fun _ hset sem' hsem num x' hx => ?_⟩
  · rw [Server.act, Server.removeProcess, he]
    rfl
  · rw [hws, append_nil]
    exact hs.wf
  · rw [append_nil]
    exact hs.once
  · rw [append_nil] at hm
    exact .inr (hs.waits m hm)
  · obtain ⟨sem, hmem, x, o, hid, hx0, hf, -⟩ := Server.eachSemaphore_getElem? he hsem hx
    rw [hws, append_nil, pending_unanswered, ← hid]
    intro w hw
    rw [Semaphore.removeProcess_semval hf]
    exact hset sem hmem num x hx0 w (mem_unanswered.mp hw).1

/-- `do_semget` changes nothing, or makes a new set. -/
theorem Server.doSemget_cases (s : Server) (c : Caller) (key nsems : Int) (flag : Nat) :
    (∃ r id, s.doSemget c key nsems flag = (s, r, id)) ∨
      ∃ perm n, s.doSemget c key nsems flag =
        (⟨s.semList ++ [⟨key, s.identifier, perm, List.replicate n ⟨0, 0, 0, none, none, 0⟩⟩], s.nextIdentifier⟩, .OK,
          s.identifier) := by
  rw [Server.doSemget]
  split
  · refine .inl ?_
    split
    · exact ⟨_, _, rfl⟩
    split
    · exact ⟨_, _, rfl⟩
    split
    · exact ⟨_, _, rfl⟩
    · exact ⟨_, _, rfl⟩
  · split
    · exact .inl ⟨_, _, rfl⟩
    split
    · exact .inl ⟨_, _, rfl⟩
    split
    · exact .inl ⟨_, _, rfl⟩
    · exact .inr ⟨_, _, rfl⟩

theorem Acts.semget (hwf : Wf s ws) (hfree : ∀ w ∈ ws, w.who ≠ c.who) (hid : s.identifier + 1 < 2 ^ 32)
    (key nsems : Int)
    (flag : Nat) : ∃ a, s.act (.semget c key nsems flag) = some a ∧ Acts s ws (.semget c key nsems flag) a := by
  rw [Server.act]
  rcases s.doSemget_cases c key nsems flag with ⟨r, id, he⟩ | ⟨perm, n, he⟩
  · rw [he]
    exact Acts.answer hwf rfl hfree _ _ _
  · rw [he]
    exact Acts.create hwf rfl hfree hid _ _ _

theorem Acts.command (hwf : Wf s ws) (hc : e.caller = some c.who) (hfree : ∀ w ∈ ws, w.who ≠ c.who)
    (hb : s.blocked e = []) (hi : s.semList[i]? = some sem) (num : Int) (cmd : Cmd) :
    ∃ a, s.command c i sem num cmd = some a ∧ Acts s ws e a := by
  have hmem := mem_of_getElem? hi
  have hl := hwf.lists sem hmem
  have ha := Acts.answer hwf hc hfree
  cases cmd with
  | ipcStat ds copy =>
    rw [Server.command]
    split
    · exact ha _ _ _
    split
    · exact ha _ _ _
    · exact ha _ _ _
  | ipcSet copy uid gid mode =>
    rw [Server.command]
    split
    · exact ha _ _ _
    split
    · exact ha _ _ _
    · refine ⟨_, rfl, .replied
        (hwf.put hi rfl rfl hl (fun _ _ _ => rfl) (fun _ hw => .inl hw) hwf.down hwf.procs) rfl hc hfree
          fun _ hset => ?_⟩
      intro x hx
      rcases mem_or_eq_of_mem_set hx with hx | rfl
      · exact hset x hx
      · exact hset sem hmem
  | ipcRmid =>
    rw [Server.command]
    split
    · exact ha _ _ _
    · obtain ⟨out, he, -⟩ := removed_all sem.id sem.sems 0 fun num x hx => by
        rw [zero_add]
        exact hl num x hx
      have hout : sem.eachSemaphore Semaphore.removed = some (sem, out) := by
        rw [SemStruct.eachSemaphore, he]
        rfl
      rw [hout]
      exact ⟨_, rfl, .remove hwf hc hfree hb hi hout⟩
  | ipcInfo => exact ha _ _ _
  | semInfo => exact ha _ _ _
  | semStat => exact ha _ _ _
  | getAll malloc copy =>
    rw [Server.command]
    split
    · exact ha _ _ _
    split
    · exact ha _ _ _
    · exact ha _ _ _
  | getNcnt => exact Acts.getField hwf hc hfree _ _
  | getPid => exact Acts.getField hwf hc hfree _ _
  | getVal => exact Acts.getField hwf hc hfree _ _
  | getZcnt => exact Acts.getField hwf hc hfree _ _
  | setAll malloc copy buf =>
    rw [Server.command]
    split
    · exact ha _ _ _
    split
    · exact ha _ _ _
    · exact ⟨_, rfl, .put hwf hc hfree hi (setValues_length ..) (hl.of_values (setValues_getElem? sem.sems buf)) _⟩
  | setVal val =>
    rw [Server.command]
    split
    · exact ha _ _ _
    split
    · exact ha _ _ _
    split
    · exact ha _ _ _
    · refine ⟨_, rfl, .put hwf hc hfree hi (length_modify ..) (hl.of_values fun num' x' hx' => ?_) _⟩
      rw [getElem?_modify] at hx'
      obtain ⟨x, hx, rfl⟩ := Option.map_eq_some_iff.mp hx'
      refine ⟨x, hx, ?_⟩
      split <;> rfl
  | unknown => exact ha _ _ _

theorem Acts.semctl (hwf : Wf s ws) (hfree : ∀ w ∈ ws, w.who ≠ c.who) (id : Nat) (num : Int) (cmd : Cmd) :
    ∃ a, s.act (.semctl c id num cmd) = some a ∧ Acts s ws (.semctl c id num cmd) a := by
  rw [Server.act, Server.doSemctl]
  split
  · exact Acts.answer hwf rfl hfree _ _ _
  next i sem hfind =>
    have hcmd := Acts.command (e := .semctl c id num cmd) hwf rfl hfree rfl (Server.semFindId_some hfind).1 num cmd
    split
    · exact hcmd
    · exact hcmd
    · split
      · exact Acts.answer hwf rfl hfree _ _ _
      · exact hcmd

theorem SemStruct.refuses_none (h : sem.refuses c sops mem = none) :
    (∀ op ∈ sops, op.semNum < sem.sems.length) ∧ (sops.map (·.semNum)).Nodup := by
  rw [SemStruct.refuses] at h
  split_ifs at h with h1 h2 h3 h4 h5 h6 h7 h8
  refine ⟨fun op hop => ?_, h7⟩
  by_contra hge
  exact h6 ⟨op, hop, not_lt.mp hge⟩

/-- What is required of a call of `semop`: if it is put asleep, it is so by one operation, there is memory for it, it is
not refused afterwards, and fewer processes wait than a counter can count. -/
def SleepOk (s : Server) (ws : List Wait) (c : Caller) (id : Nat) (sops : List Sembuf) (mem : Memory) : Prop :=
  s.blocked (.semop c id sops mem) = [] ∨
    ((s.blocked (.semop c id sops mem)).length = 1 ∧ mem.lost = none ∧
      (s.mayAlter c id = true ∨ ∀ op ∈ sops, op.semOp = 0) ∧ ws.length + 1 < 65536)

theorem Server.blocked_semop (hfind : s.semFindId id = some (i, sem))
    (href : sem.refuses c sops mem = none) : s.blocked (.semop c id sops mem) =
      (blockedOps sem.sems sops).map fun op => ⟨c.who, id, op, sops⟩ := by
  rw [Server.blocked, hfind]
  exact if_pos href

theorem semop_operated (hwf : Wf s ws) (hok : SleepOk s ws c id sops mem)
    (hfind : s.semFindId id = some (i, sem)) (href : sem.refuses c sops mem = none) :
    ∃ r sems asleep, operations c (checkPerm sem.perm c 0o222) mem.lost 0 sops sem.sems 0 = some (r, sems, asleep) ∧
      Operated c id sops (checkPerm sem.perm c 0o222) ws sem.sems sops r sems asleep := by
  obtain ⟨hi, rfl⟩ := Server.semFindId_some hfind
  obtain ⟨hlt, hnd⟩ := SemStruct.refuses_none href
  have halter : s.mayAlter c sem.id = checkPerm sem.perm c 0o222 := by rw [Server.mayAlter, hfind]
  rw [SleepOk, Server.blocked_semop hfind href, halter, length_map, map_eq_nil_iff] at hok
  obtain ⟨r, sems, asleep, he, ho⟩ := operations_spec c sem.id sops 0 0
    (hwf.lists sem (mem_of_getElem? hi)) hnd hlt
    (hok.imp_right fun ⟨h1, h2, h3, h4⟩ => ⟨h2, h3, by rw [h1]; exact h4⟩)
  rw [zero_add] at he
  exact ⟨r, sems, asleep, he, ho⟩

theorem Acts.semop (hwf : Wf s ws) (hfree : ∀ w ∈ ws, w.who ≠ c.who)
    (hok : SleepOk s ws c id sops mem) :
    ∃ a, s.act (.semop c id sops mem) = some a ∧ Acts s ws (.semop c id sops mem) a := by
  have hrefused (r : Ret) : Acts s ws (.semop c id sops mem) ⟨s, [sendMessageToProcess c.who r], true, []⟩ :=
    .replied hwf rfl rfl hfree nofun
  rw [Server.act, Server.doSemop]
  split
  · exact ⟨_, rfl, hrefused _⟩
  next i sem hfind =>
    split
    · exact ⟨_, rfl, hrefused _⟩
    next href =>
      obtain ⟨r, sems, asleep, he, ho⟩ := semop_operated hwf hok hfind href
      obtain ⟨hi, rfl⟩ := Server.semFindId_some hfind
      have hb := Server.blocked_semop hfind href
      rw [he]
      refine ⟨_, rfl, ?_⟩
      have hl := ho.listed
      by_cases hb' : blockedOps sem.sems sops = []
      · -- the caller is answered
        rw [hb', map_nil, append_nil] at hl
        have hsent : r ≠ .OK ∨ asleep = 0 := by
          rcases ho.result with ⟨-, h0, -⟩ | ⟨hr, -⟩
          · rw [h0, hb']
            exact .inr rfl
          · rw [hr]
            exact .inl (by decide)
        refine .replied (m := sendMessageToProcess c.who r) ?_ ?_ rfl hfree nofun
        · exact hwf.put hi rfl ho.length hl (fun _ _ _ => rfl) (fun _ hw => .inl hw) hwf.down hwf.procs
        · simp only [if_pos hsent, append_nil]
      · have hr : r = .OK ∧ asleep ≠ 0 := by
          rcases ho.result with ⟨hr, h0, -⟩ | ⟨-, -, -, h, -⟩
          · exact ⟨hr, by rw [h0]; exact fun h => hb' (eq_nil_of_length_eq_zero h)⟩
          · exact absurd h hb'
        have hone : (blockedOps sem.sems sops).length = 1 := by
          rcases hok with h | h
          · rw [hb, map_eq_nil_iff] at h
            exact absurd h hb'
          · rw [hb, length_map] at h
            exact h.1
        obtain ⟨op, hop⟩ := length_eq_one_iff.mp hone
        have hmem := mem_filter.mp (hop ▸ mem_singleton_self op : op ∈ blockedOps sem.sems sops)
        have hneg : op.semOp ≤ 0 := by
          by_contra hpos
          exact of_decide_eq_true hmem.2 ⟨fun h0 => absurd h0 (by omega), fun hlt => absurd hlt (by omega)⟩
        rw [hop] at hl hb
        have hws : unanswered (ws ++ s.blocked (.semop c sem.id sops mem)) ([] ++ []) =
            ws ++ [⟨c.who, sem.id, op, sops⟩] := by
          rw [hb]
          exact unanswered_nil _
        rw [if_neg (by simp [hr.1, hr.2])]
        refine ⟨?_, nodup_nil, nofun, fun p hp => .inr ?_, fun h => by cases h⟩
        · rw [hws]
          refine hwf.put hi rfl ho.length hl (fun id' num hne => ?_) (fun w hw => ?_) (fun w hw => ?_) ?_
          · have : sem.id ≠ id' := hne.symm
            simp [pending, this]
          · rcases mem_append.mp hw with hw | hw
            · exact .inl hw
            · cases mem_singleton.mp hw
              exact .inr ⟨rfl, (SemStruct.refuses_none href).1 op hmem.1⟩
          · rcases mem_append.mp hw with hw | hw
            · exact hwf.down w hw
            · cases mem_singleton.mp hw
              exact hneg
          · rw [Distinct, map_append]
            refine List.Nodup.append hwf.procs (nodup_singleton _) fun p h1 h2 => ?_
            obtain ⟨w, hw, rfl⟩ := mem_map.mp h1
            exact hfree w hw (mem_singleton.mp h2)
        · rw [hb]
          exact ⟨_, mem_singleton_self _, Option.some.inj hp⟩

end Acts

end Minix.Ipc
