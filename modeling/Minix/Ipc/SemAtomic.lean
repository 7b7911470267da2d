import Minix.Ipc.SemRun

/-!
# Is semop atomic?

`atomic_of_run`: in every run in which a call with more than one operation is not put asleep, and no value gets larger
than `SEMVMX`, the values change only by calls of `semop` as a whole: the operations of a call are performed together
when all of them are possible, and none is performed while the call waits or if it fails.

Without the condition this fails (`atomic_fails`): the operations other than the one that puts the process asleep are
performed at once, and an operation that increases the value does not look at `SEMVMX`.
-/

namespace Minix.Ipc

open Minix.Lib List Option Server

/-! ## The values of the semaphores -/

/-- The value of a semaphore, by the identifier of its set. -/
abbrev Values : Type := Nat → Nat → Option Nat

/-- The values of the semaphores of the sets. -/
def valuesOf (sets : List SemStruct) : Values := fun id num =>
  (sets.find? fun sem => sem.id = id).bind fun sem => sem.sems[num]?.map (·.semval)

/-- One value is changed. -/
def Values.update (v : Values) (id num x : Nat) : Values := fun id' num' =>
  if id' = id ∧ num' = num then some x else v id' num'

/-- The operations of a call are performed. -/
def Values.commit (v : Values) (id : Nat) (sops : List Sembuf) : Values := fun id' num =>
  if id' = id then
    match sops.find? fun op => op.semNum = num with
    | none => v id' num
    | some op => (v id' num).map fun (x : Nat) => ((x : Int) + op.semOp).toNat
  else v id' num

/-- All operations of a call are possible. -/
def Values.AllPossible (v : Values) (id : Nat) (sops : List Sembuf) : Prop :=
  ∀ op ∈ sops, ∃ x, v id op.semNum = some x ∧ Possible x op.semOp

/-- Calls that waited are performed one after the other, each when it is possible, and are told so. -/
inductive Commits (ws : List Wait) : Values → List Reply → Values → Prop
  | nil (v : Values) : Commits ws v [] v
  | cons {v v' : Values} {out : List Reply} {w : Wait} (hw : w ∈ ws) (hp : v.AllPossible w.id w.sops)
    (hs : Commits ws (v.commit w.id w.sops) out v') : Commits ws v (sendMessageToProcess w.who .OK :: out) v'

section

variable {ws ws' : List Wait} {v v1 v2 : Values} {o1 o2 : List Reply} {sets : List SemStruct} {sem : SemStruct}
  {i id num x : Nat}

theorem Commits.append (h1 : Commits ws v o1 v1) (h2 : Commits ws v1 o2 v2) : Commits ws v (o1 ++ o2) v2 := by
  induction h1 with
  | nil => exact h2
  | cons hw hp _ ih => exact .cons hw hp (ih h2)

theorem Commits.mono (h : Commits ws v o1 v1) (hs : ws ⊆ ws') : Commits ws' v o1 v1 := by
  induction h with
  | nil v => exact .nil v
  | cons hw hp _ ih => exact .cons (hs hw) hp ih

theorem valuesOf_of_mem (hn : (sets.map (·.id)).Nodup) (hs : sem ∈ sets) (num : Nat) :
    valuesOf sets sem.id num = sem.sems[num]?.map (·.semval) := by
  have : sets.find? (fun x => x.id = sem.id) = some sem := by
    cases hf : sets.find? (fun x => x.id = sem.id) with
    | none => exact absurd (find?_eq_none.mp hf sem hs) (by simp)
    | some x =>
      have hx := mem_of_find?_eq_some hf
      have hid := find?_some hf
      rw [inj_on_of_nodup_map hn hx hs (of_decide_eq_true hid)]
  rw [valuesOf, this]
  rfl

theorem valuesOf_eq_none (h : ∀ sem ∈ sets, sem.id ≠ id) (num : Nat) : valuesOf sets id num = none := by
  rw [valuesOf, find?_eq_none.mpr fun sem hs => by simpa using h sem hs]
  rfl

theorem valuesOf_set (hn : (sets.map (·.id)).Nodup) (hi : sets[i]? = some sem) (sem' : SemStruct)
    (hid : sem'.id = sem.id)
    (id num : Nat) :
    valuesOf (sets.set i sem') id num = if id = sem.id then sem'.sems[num]?.map (·.semval)
    else valuesOf sets id num := by
  obtain ⟨hlt, hsem⟩ := List.getElem?_eq_some_iff.mp hi
  have hn' : ((sets.set i sem').map (·.id)).Nodup := by
    have : (sets.set i sem').map (·.id) = sets.map (·.id) := by
      rw [map_set, hid, ← hsem, ← map_set, set_getElem_self]
    rwa [this]
  split
  next he =>
    rw [he, ← hid]
    exact valuesOf_of_mem hn' (mem_of_getElem? (getElem?_set_self hlt)) num
  next hne =>
    by_cases hex : ∃ x ∈ sets, x.id = id
    · obtain ⟨x, hx, rfl⟩ := hex
      obtain ⟨j, hj⟩ := mem_iff_getElem?.mp hx
      have hji : i ≠ j := by
        rintro rfl
        rw [hi] at hj
        cases hj
        exact hne rfl
      have hx' : (sets.set i sem')[j]? = some x := by rw [getElem?_set_ne hji, hj]
      rw [valuesOf_of_mem hn hx, valuesOf_of_mem hn' (mem_of_getElem? hx')]
    · rw [valuesOf_eq_none fun x hx he => hex ⟨x, hx, he⟩, valuesOf_eq_none]
      intro x hx he
      rcases mem_or_eq_of_mem_set hx with hx | rfl
      · exact hex ⟨x, hx, he⟩
      · exact hne (he.symm.trans hid)

theorem valuesOf_set_one (hn : (sets.map (·.id)).Nodup) (hi : sets[i]? = some sem) {x x' : Semaphore}
    (hx : sem.sems[num]? = some x) :
    valuesOf (sets.set i { sem with sems := sem.sems.set num x' }) = (valuesOf sets).update sem.id num x'.semval := by
  obtain ⟨hlt, -⟩ := List.getElem?_eq_some_iff.mp hx
  funext id' num'
  rw [valuesOf_set hn hi { sem with sems := sem.sems.set num x' } rfl, Values.update]
  by_cases hid : id' = sem.id
  · rw [if_pos hid]
    by_cases hnum : num' = num
    · rw [if_pos ⟨hid, hnum⟩, hnum, getElem?_set_self hlt]
      rfl
    · rw [if_neg fun h => hnum h.2, getElem?_set_ne (Ne.symm hnum), hid, valuesOf_of_mem hn (mem_of_getElem? hi)]
  · rw [if_neg hid, if_neg fun h => hid h.1]

theorem Values.commit_one {op : Sembuf} (hv : v id op.semNum = some x) :
    v.commit id [op] = v.update id op.semNum ((x : Int) + op.semOp).toNat := by
  funext id' num
  rw [Values.commit, Values.update]
  by_cases hid : id' = id
  · rw [if_pos hid]
    by_cases hnum : num = op.semNum
    · subst hid hnum
      rw [if_pos ⟨rfl, rfl⟩, find?_cons_of_pos (by simp)]
      simp only [hv, map_some]
    · rw [if_neg fun h => hnum h.2, find?_cons_of_neg (by simpa using Ne.symm hnum)]
      rfl
  · rw [if_neg hid, if_neg fun h => hid h.1]

theorem Values.update_update (v : Values) (id num x y : Nat) :
    (v.update id num x).update id num y = v.update id num y := by
  funext id' num'
  simp only [Values.update]
  split <;> rfl

theorem Values.update_self (hv : v id num = some x) : v.update id num x = v := by
  funext id' num'
  rw [Values.update]
  split
  next h => rw [h.1, h.2, hv]
  · rfl

/-- Processes that wait for one semaphore go on one after the other. -/
theorem Semaphore.Goes.commits {y : Nat} {gs : List Wait} (h : Semaphore.Goes x gs y)
    (hws : ∀ w ∈ gs, w ∈ ws ∧ w.id = id ∧ w.op.semNum = num ∧ w.sops = [w.op]) (hv : v id num = some x) :
    Commits ws v (gs.map fun w => sendMessageToProcess w.who .OK) (v.update id num y) := by
  induction h generalizing v with
  | nil x =>
    rw [Values.update_self hv]
    exact .nil v
  | @cons x y w gs hp _ ih =>
    obtain ⟨hw, rfl, rfl, hsops⟩ := hws w mem_cons_self
    refine .cons hw ?_ ?_
    · intro op hop
      rw [hsops] at hop
      cases mem_singleton.mp hop
      exact ⟨x, hv, hp⟩
    · rw [hsops, Values.commit_one hv]
      have := ih (v := v.update w.id w.op.semNum ((x : Int) + w.op.semOp).toNat)
        (fun w' hw' => hws w' (mem_cons_of_mem w hw')) (by simp [Values.update])
      rwa [Values.update_update] at this

end

/-- The calls that wait have one operation. -/
def Single (ws : List Wait) : Prop := ∀ w ∈ ws, w.sops = [w.op]

/-- Updating the semaphores performs calls that waited. -/
theorem Wf.updates {s s' : Server} {ws : List Wait} {out : List Reply} (hwf : Wf s ws) (h1 : Single ws)
    (hz : ∀ sem ∈ s.semList, ∀ x ∈ sem.sems, x.NotStale) (h : s.updateSemaphores = some (s', out)) :
    Commits ws (valuesOf s.semList) out (valuesOf s'.semList) := by
  have hR := eachSemaphore_ind (R := fun sets o sets' => ∀ ws, Wf ⟨sets, s.identifier⟩ ws → Single ws →
      Wf.Serves ⟨sets', s.identifier⟩ ws o ∧ Commits ws (valuesOf sets) o (valuesOf sets')) ?_ ?_ ?_ h
  · exact (hR.1 ws hwf h1).2
  · intro sets ws hwf _
    refine ⟨⟨?_, nodup_nil, nofun⟩, .nil _⟩
    rw [unanswered_nil]
    exact hwf
  · intro sets1 sets2 sets3 o1 o2 h₁ h2 ws hwf h1
    obtain ⟨hs1, hc1⟩ := h₁ ws hwf h1
    obtain ⟨hs2, hc2⟩ := h2 _ hs1.wf fun w hw => h1 w (mem_unanswered.mp hw).1
    exact ⟨hs1.append hs2, hc1.append (hc2.mono (filter_subset_self ..))⟩
  · rintro sets i sem num x x' o ⟨sem0, hsem0, hx0⟩ hi hx hf ws hwf h1
    obtain ⟨x'', o', hf', hw⟩ := (hwf.lists sem (mem_of_getElem? hi) num x hx).wake (hwf.procs.pending _ _)
      (hz sem0 hsem0 x hx0)
    rw [hf] at hf'
    cases hf'
    obtain ⟨gs, rfl, hgs, hgoes⟩ := hw.goes
    refine ⟨hwf.serve hi hw.served, ?_⟩
    rw [valuesOf_set_one hwf.ids hi hx]
    refine hgoes.commits (fun w hwg => ?_) ?_
    · obtain ⟨hw, hid, hnum⟩ := mem_pending.mp (hgs w hwg)
      exact ⟨hw, hid, hnum, h1 w hw⟩
    · rw [valuesOf_of_mem hwf.ids (mem_of_getElem? hi), hx]
      rfl

/-! ## Requests -/

/-- What a request does to the values itself, before the semaphores are updated: a call of `semop` is performed as a
whole and answered with `OK`, or changes nothing; `semctl` changes values of one set, and `semget` makes new ones. -/
def Own (e : Event) (sent : List Reply) (v v1 : Values) : Prop :=
  match e with
  | .semop c id sops _ =>
    (sent = [sendMessageToProcess c.who .OK] ∧ v.AllPossible id sops ∧ v1 = v.commit id sops) ∨
      (sendMessageToProcess c.who .OK ∉ sent ∧ v1 = v)
  | .semctl _ id _ _ => ∀ id' ≠ id, v1 id' = v id'
  | .semget .. => ∀ id num x, v id num = some x → v1 id num = some x
  | .exit _ => v1 = v
  | .shmget => v1 = v

/-- No value is larger than `SEMVMX`. -/
def Bounded (s : Server) : Prop := ∀ sem ∈ s.semList, ∀ x ∈ sem.sems, x.semval ≤ semVmx

/-- What is required of a call of `semop`: it is put asleep only if it has one operation, and makes no value too large.
-/
def CallOk (s : Server) (c : Caller) (id : Nat) (sops : List Sembuf) (mem : Memory) : Prop :=
  match s.semFindId id with
  | none => True
  | some (_, sem) => sem.refuses c sops mem = none →
    (blockedOps sem.sems sops ≠ [] → sops.length = 1) ∧
      ∀ op ∈ sops, (valueAt sem.sems op.semNum : Int) + op.semOp ≤ semVmx

instance (s : Server) (c : Caller) (id : Nat) (sops : List Sembuf) (mem : Memory) :
    Decidable (CallOk s c id sops mem) :=
  match h : s.semFindId id with
  | none => isTrue (by rw [CallOk, h]; trivial)
  | some (i, sem) =>
    decidable_of_iff (sem.refuses c sops mem = none → (blockedOps sem.sems sops ≠ [] → sops.length = 1) ∧
      ∀ op ∈ sops, (valueAt sem.sems op.semNum : Int) + op.semOp ≤ semVmx) (by rw [CallOk, h])

section

variable {s : Server} {ws : List Wait} {a : Server.Act} {c : Caller} {i id : Nat} {sem : SemStruct} {num : Int}
  {cmd : Cmd}

theorem setValues_bounded : ∀ (sems : List Semaphore) (buf : List Nat), ∀ x' ∈ (setValues sems buf).2,
    x'.semval ≤ semVmx ∨ ∃ x ∈ sems, x.semval = x'.semval
  | [], _, x', h => by
    rw [setValues] at h
    · cases h
    · intro _ _ _ _ h
      cases h
  | x :: sems, [], x', h => .inr ⟨x', h, rfl⟩
  | x :: sems, val :: buf, x', h => by
    rw [setValues] at h
    split at h
    · exact .inr ⟨x', h, rfl⟩
    next hle =>
      rcases mem_cons.mp h with rfl | h
      · exact .inl (not_lt.mp hle)
      · refine (setValues_bounded sems buf x' h).imp_right ?_
        rintro ⟨y, hy, he⟩
        exact ⟨y, mem_cons_of_mem x hy, he⟩

/-- What the commands of `semctl` do to the sets. -/
theorem Server.command_cases (h : s.command c i sem num cmd = some a) :
    a.srv = s ∨ a.srv = s.removeSemaphore i ∨ ∃ sem' : SemStruct, a.srv = s.put i sem' ∧ sem'.id = sem.id ∧
      ∀ x' ∈ sem'.sems, x'.semval ≤ semVmx ∨ ∃ x ∈ sem.sems, x.semval = x'.semval := by
  have hanswer {ret : Ret} {val : Nat} {data : Data} (h : s.answer c ret val data = some a) : a.srv = s := by
    cases h
    rfl
  have hfield {field : Semaphore → Nat} (h : s.getField c sem num field = some a) : a.srv = s := by
    rw [getField] at h
    split at h
    · exact hanswer h
    · obtain ⟨x, -, h⟩ := bind_eq_some_iff.mp h
      exact hanswer h
  cases cmd with
  | ipcStat ds copy =>
    rw [command] at h
    split_ifs at h <;> exact .inl (hanswer h)
  | ipcSet copy uid gid mode =>
    rw [command] at h
    split at h
    · exact .inl (hanswer h)
    split at h
    · exact .inl (hanswer h)
    · cases h
      exact .inr (.inr ⟨_, rfl, rfl, fun x' hx' => .inr ⟨x', hx', rfl⟩⟩)
  | ipcRmid =>
    rw [command] at h
    split at h
    · exact .inl (hanswer h)
    · obtain ⟨⟨_, out⟩, -, h⟩ := bind_eq_some_iff.mp h
      cases h
      exact .inr (.inl rfl)
  | ipcInfo => exact .inl (hanswer h)
  | semInfo => exact .inl (hanswer h)
  | semStat => exact .inl (hanswer h)
  | getAll malloc copy =>
    rw [command] at h
    split_ifs at h <;> exact .inl (hanswer h)
  | getNcnt => exact .inl (hfield h)
  | getPid => exact .inl (hfield h)
  | getVal => exact .inl (hfield h)
  | getZcnt => exact .inl (hfield h)
  | setAll malloc copy buf =>
    rw [command] at h
    split at h
    · exact .inl (hanswer h)
    split at h
    · exact .inl (hanswer h)
    · cases h
      exact .inr (.inr ⟨_, rfl, rfl, setValues_bounded sem.sems buf⟩)
  | setVal val =>
    rw [command] at h
    split at h
    · exact .inl (hanswer h)
    split at h
    · exact .inl (hanswer h)
    split at h
    · exact .inl (hanswer h)
    · cases h
      refine .inr (.inr ⟨_, rfl, rfl, fun x' hx' => ?_⟩)
      obtain ⟨k, hk⟩ := mem_iff_getElem?.mp hx'
      rw [getElem?_modify] at hk
      obtain ⟨x, hx, rfl⟩ := map_eq_some_iff.mp hk
      split
      · refine .inl ?_
        show val.toNat ≤ semVmx
        omega
      · exact .inr ⟨x, mem_of_getElem? hx, rfl⟩
  | unknown => exact .inl (hanswer h)

theorem Server.doSemctl_cases (h : s.doSemctl c id num cmd = some a) :
    a.srv = s ∨ ∃ i sem, s.semFindId id = some (i, sem) ∧ s.command c i sem num cmd = some a := by
  have hanswer {ret : Ret} {val : Nat} {data : Data} (h : s.answer c ret val data = some a) : a.srv = s := by
    cases h
    rfl
  rw [doSemctl] at h
  split at h
  · exact .inl (hanswer h)
  next i sem hfind =>
    split at h
    · exact .inr ⟨i, sem, hfind, h⟩
    · exact .inr ⟨i, sem, hfind, h⟩
    · split at h
      · exact .inl (hanswer h)
      · exact .inr ⟨i, sem, hfind, h⟩

theorem valuesOf_removeSemaphore (hwf : Wf s ws) (hi : s.semList[i]? = some sem) (hne : id ≠ sem.id) :
    valuesOf (s.removeSemaphore i).semList id = valuesOf s.semList id := by
  obtain ⟨hlt, -⟩ := List.getElem?_eq_some_iff.mp hi
  have hperm := removeSemaphore_perm hlt
  have hn : ((s.removeSemaphore i).semList.map (·.id)).Nodup :=
    (hperm.map _).nodup_iff.mpr (hwf.ids.sublist ((eraseIdx_sublist ..).map _))
  have hmem : ∀ x, x ∈ (s.removeSemaphore i).semList ↔ ∃ j ≠ i, s.semList[j]? = some x := fun x => by
    rw [hperm.mem_iff, mem_eraseIdx_iff_getElem?]
  funext num
  by_cases hex : ∃ x ∈ s.semList, x.id = id
  · obtain ⟨x, hx, rfl⟩ := hex
    obtain ⟨j, hj⟩ := mem_iff_getElem?.mp hx
    have hji : j ≠ i := by
      rintro rfl
      rw [hi] at hj
      cases hj
      exact hne rfl
    rw [valuesOf_of_mem hwf.ids hx, valuesOf_of_mem hn ((hmem x).mpr ⟨j, hji, hj⟩)]
  · rw [valuesOf_eq_none fun x hx he => hex ⟨x, hx, he⟩, valuesOf_eq_none]
    intro x hx he
    obtain ⟨j, -, hj⟩ := (hmem x).mp hx
    exact hex ⟨x, mem_of_getElem? hj, he⟩

theorem own_semctl (hwf : Wf s ws) (hb : Bounded s)
    (h : s.act (.semctl c id num cmd) = some a) :
    Own (.semctl c id num cmd) a.sent (valuesOf s.semList) (valuesOf a.srv.semList) ∧ Bounded a.srv := by
  rcases doSemctl_cases h with he | ⟨i, sem, hfind, hcmd⟩
  · rw [he]
    exact ⟨fun _ _ => rfl, hb⟩
  obtain ⟨hi, rfl⟩ := semFindId_some hfind
  rcases command_cases hcmd with he | he | ⟨sem', he, hid, hvals⟩
  · rw [he]
    exact ⟨fun _ _ => rfl, hb⟩
  · rw [he]
    refine ⟨fun id' hne => valuesOf_removeSemaphore hwf hi hne, fun x hx => hb x ?_⟩
    obtain ⟨hlt, -⟩ := List.getElem?_eq_some_iff.mp hi
    exact mem_of_mem_eraseIdx ((removeSemaphore_perm hlt).mem_iff.mp hx)
  · rw [he]
    refine ⟨fun id' hne => ?_, fun x hx y hy => ?_⟩
    · funext num
      rw [Server.put, valuesOf_set hwf.ids hi sem' hid, if_neg hne]
    · rcases mem_or_eq_of_mem_set hx with hx | rfl
      · exact hb x hx y hy
      · rcases hvals y hy with hle | ⟨z, hz, he⟩
        · exact hle
        · rw [← he]
          exact hb sem (mem_of_getElem? hi) z hz

theorem own_semget (hb : Bounded s) {key nsems : Int} {flag : Nat}
    (h : s.act (.semget c key nsems flag) = some a) :
    Own (.semget c key nsems flag) a.sent (valuesOf s.semList) (valuesOf a.srv.semList) ∧ Bounded a.srv := by
  rw [act] at h
  rcases s.doSemget_cases c key nsems flag with ⟨r, id, he⟩ | ⟨perm, n, he⟩
  · rw [he] at h
    cases h
    exact ⟨fun _ _ _ h => h, hb⟩
  · rw [he] at h
    cases h
    refine ⟨fun id num x hx => ?_, fun sem hsem x hx => ?_⟩
    · -- the sets that exist are found first
      show valuesOf (s.semList ++ _) id num = some x
      rw [valuesOf] at hx ⊢
      obtain ⟨sem, hf, hx⟩ := bind_eq_some_iff.mp hx
      rw [find?_append, hf]
      exact hx
    · rcases mem_append.mp hsem with hsem | hsem
      · exact hb sem hsem x hx
      · cases mem_singleton.mp hsem
        obtain ⟨-, rfl⟩ := mem_replicate.mp hx
        exact Nat.zero_le _

theorem own_exit (hwf : Wf s ws) (hb : Bounded s) {pt : Nat} (h : s.act (.exit pt) = some a) :
    Own (.exit pt) a.sent (valuesOf s.semList) (valuesOf a.srv.semList) ∧ Bounded a.srv := by
  obtain ⟨⟨s', out⟩, he, h⟩ := bind_eq_some_iff.mp h
  cases h
  have hR := eachSemaphore_ind (R := fun sets _ sets' => (sets.map (·.id)).Nodup →
      (sets'.map (·.id)).Nodup ∧ valuesOf sets' = valuesOf sets) ?_ ?_ ?_ he
  · refine ⟨(hR.1 hwf.ids).2, fun sem' hsem' x' hx' => ?_⟩
    obtain ⟨num, hnum⟩ := mem_iff_getElem?.mp hx'
    obtain ⟨sem, hsem, x, o, -, hx, hf, -⟩ := eachSemaphore_getElem? he hsem' hnum
    rw [Semaphore.removeProcess_semval hf]
    exact hb sem hsem x (mem_of_getElem? hx)
  · exact fun sets hn => ⟨hn, rfl⟩
  · intro sets1 sets2 sets3 o1 o2 h1 h2 hn
    obtain ⟨hn1, he1⟩ := h1 hn
    obtain ⟨hn2, he2⟩ := h2 hn1
    exact ⟨hn2, he2.trans he1⟩
  · intro sets i sem num x x' o _ hi hx hf hn
    obtain ⟨hlt, hsem⟩ := List.getElem?_eq_some_iff.mp hi
    constructor
    · have : (sets.set i { sem with sems := sem.sems.set num x' }).map (·.id) = sets.map (·.id) := by
        rw [map_set]
        show (sets.map (·.id)).set i sem.id = _
        rw [← hsem, ← map_set, set_getElem_self]
      rwa [this]
    · rw [valuesOf_set_one hn hi hx, Semaphore.removeProcess_semval hf, Values.update_self]
      rw [valuesOf_of_mem hn (mem_of_getElem? hi), hx]
      rfl

variable {sems : List Semaphore}

theorem map_semval_eq {sems' : List Semaphore} (hlen : sems'.length = sems.length) {num x : Nat}
    (h : sems[num]?.map (·.semval) = some x) : sems'[num]?.map (·.semval) = some (valueAt sems' num) := by
  obtain ⟨y, hy, -⟩ := map_eq_some_iff.mp h
  obtain ⟨hlt, -⟩ := List.getElem?_eq_some_iff.mp hy
  have hy' := getElem?_eq_getElem (hlen ▸ hlt : num < sems'.length)
  rw [valueAt_of_getElem? hy', hy']
  rfl

theorem valuesOf_put (hwf : Wf s ws) (hi : s.semList[i]? = some sem)
    (hlen : sems.length = sem.sems.length) (id num : Nat) :
    valuesOf (s.put i { sem with sems }).semList id num =
      if id = sem.id then (valuesOf s.semList id num).map fun _ => valueAt sems num else valuesOf s.semList id num := by
  rw [Server.put, valuesOf_set hwf.ids hi { sem with sems } rfl]
  by_cases he : id = sem.id
  · rw [if_pos he, if_pos he, he, valuesOf_of_mem hwf.ids (mem_of_getElem? hi)]
    cases hx : sem.sems[num]? with
    | none =>
      have : sems.length ≤ num := hlen ▸ getElem?_eq_none_iff.mp hx
      rw [getElem?_eq_none this]
      rfl
    | some x => exact map_semval_eq hlen (by rw [hx]; rfl)
  · rw [if_neg he, if_neg he]

theorem valuesOf_eq_valueAt (hwf : Wf s ws) (hi : s.semList[i]? = some sem) {num x : Nat}
    (h : valuesOf s.semList sem.id num = some x) : x = valueAt sem.sems num := by
  rw [valuesOf_of_mem hwf.ids (mem_of_getElem? hi)] at h
  obtain ⟨y, hy, rfl⟩ := map_eq_some_iff.mp h
  exact (valueAt_of_getElem? hy).symm

theorem valuesOf_put_same (hwf : Wf s ws) (hi : s.semList[i]? = some sem)
    (hlen : sems.length = sem.sems.length) (h : ∀ num, valueAt sems num = valueAt sem.sems num) :
    valuesOf (s.put i { sem with sems }).semList = valuesOf s.semList := by
  funext id num
  rw [valuesOf_put hwf hi hlen]
  split
  next he =>
    subst he
    cases hx : valuesOf s.semList sem.id num with
    | none => rfl
    | some x =>
      rw [valuesOf_eq_valueAt hwf hi hx, ← h num]
      rfl
  · rfl

variable {sops : List Sembuf}

theorem valuesOf_put_applied (hwf : Wf s ws) (hi : s.semList[i]? = some sem)
    (hlen : sems.length = sem.sems.length) (h : ∀ num, valueAt sems num = applied (valueAt sem.sems) sops num) :
    valuesOf (s.put i { sem with sems }).semList = (valuesOf s.semList).commit sem.id sops := by
  funext id num
  rw [valuesOf_put hwf hi hlen, Values.commit]
  by_cases he : id = sem.id
  · subst he
    rw [if_pos rfl, if_pos rfl]
    cases hx : valuesOf s.semList sem.id num with
    | none =>
      split <;> rfl
    | some x =>
      rw [map_some, h num, applied, valuesOf_eq_valueAt hwf hi hx]
      cases sops.find? fun op => decide (op.semNum = num) with
      | none => rfl
      | some op => rfl
  · rw [if_neg he, if_neg he]

theorem possibleOps_eq_self (h : blockedOps sems sops = []) : possibleOps sems sops = sops := by
  refine filter_eq_self.mpr fun op hop => ?_
  have := filter_eq_nil_iff.mp h op hop
  simpa using this

theorem applied_le (h : ∀ num, valueAt sems num ≤ semVmx)
    (hle : ∀ op ∈ sops, (valueAt sems op.semNum : Int) + op.semOp ≤ semVmx) (num : Nat) :
    applied (valueAt sems) sops num ≤ semVmx := by
  rw [applied]
  split
  · exact h num
  next op hf =>
    have hnum : op.semNum = num := by simpa using find?_some hf
    have := hle op (mem_of_find?_eq_some hf)
    rw [hnum] at this
    omega

theorem SemStruct.refuses_ne_ok {mem : Memory} {r : Ret} (h : sem.refuses c sops mem = some r) : r ≠ .OK := by
  rintro rfl
  rw [SemStruct.refuses] at h
  split_ifs at h <;> cases h

theorem own_semop (hwf : Wf s ws) (hb : Bounded s) {mem : Memory}
    (hok : SleepOk s ws c id sops mem) (hc : CallOk s c id sops mem) (h : s.act (.semop c id sops mem) = some a) :
    Own (.semop c id sops mem) a.sent (valuesOf s.semList) (valuesOf a.srv.semList) ∧ Bounded a.srv := by
  rw [act, doSemop] at h
  rw [CallOk] at hc
  split at h
  · cases h
    exact ⟨.inr ⟨by simp [sendMessageToProcess], rfl⟩, hb⟩
  next i sem hfind =>
  rw [hfind] at hc
  split at h
  next r href =>
    cases h
    refine ⟨.inr ⟨fun hm => SemStruct.refuses_ne_ok href ?_, rfl⟩, hb⟩
    exact (congrArg Reply.ret (mem_singleton.mp hm)).symm
  next href =>
  obtain ⟨hone, hle⟩ := hc href
  obtain ⟨r, sems, asleep, he, ho⟩ := semop_operated hwf hok hfind href
  obtain ⟨hi, rfl⟩ := semFindId_some hfind
  rw [he] at h
  cases h
  have hval : ∀ num, valueAt sem.sems num ≤ semVmx := by
    intro num
    rw [valueAt]
    cases hx : sem.sems[num]? with
    | none => exact Nat.zero_le _
    | some x => exact hb sem (mem_of_getElem? hi) x (mem_of_getElem? hx)
  have hfit : Fit sem.sems sops := by
    intro op hop _
    have := hle op hop
    rw [semVmx] at this
    omega
  have hbound (h : ∀ num, valueAt sems num ≤ semVmx) : Bounded (s.put i { sem with sems }) := by
    intro x hx y hy
    rcases mem_or_eq_of_mem_set hx with hx | rfl
    · exact hb x hx y hy
    · obtain ⟨num, hnum⟩ := mem_iff_getElem?.mp hy
      rw [← valueAt_of_getElem? hnum]
      exact h num
  rcases ho.result with ⟨rfl, has, hvals⟩ | ⟨rfl, -, -, -, hvals⟩
  · have hvals := hvals hfit
    by_cases hblk : blockedOps sem.sems sops = []
    · -- the whole call is performed
      rw [possibleOps_eq_self hblk] at hvals
      refine ⟨.inl ⟨?_, ?_, valuesOf_put_applied hwf hi ho.length hvals⟩, hbound fun num => ?_⟩
      · rw [has, hblk]
        rfl
      · intro op hop
        have hlt := (SemStruct.refuses_none href).1 op hop
        have hp := filter_eq_nil_iff.mp hblk op hop
        have hx := getElem?_eq_getElem hlt
        refine ⟨_, ?_, by simpa using hp⟩
        rw [valuesOf_of_mem hwf.ids (mem_of_getElem? hi), hx, valueAt_of_getElem? hx]
        rfl
      · rw [hvals num]
        exact applied_le hval hle num
    · -- the call waits, and has no other operation
      obtain ⟨op, rfl⟩ := length_eq_one_iff.mp (hone hblk)
      have hp : ¬Possible (valueAt sem.sems op.semNum) op.semOp := by
        intro hp
        exact hblk (blockedOps_cons_of_possible hp)
      have hsame : ∀ num, valueAt sems num = valueAt sem.sems num := by
        intro num
        rw [hvals num, possibleOps_cons_of_not hp]
        rfl
      refine ⟨.inr ⟨?_, valuesOf_put_same hwf hi ho.length hsame⟩, hbound fun num => hsame num ▸ hval num⟩
      have hne : asleep ≠ 0 := by
        rw [has]
        exact fun h0 => hblk (eq_nil_of_length_eq_zero h0)
      simp [hne]
  · refine ⟨.inr ⟨?_, valuesOf_put_same hwf hi ho.length hvals⟩, hbound fun num => hvals num ▸ hval num⟩
    simp [sendMessageToProcess]

end

/-! ## Runs -/

theorem Semaphore.Goes.le {x y : Nat} {gs : List Wait} (h : Semaphore.Goes x gs y) (hneg : ∀ w ∈ gs, w.op.semOp ≤ 0) :
    y ≤ x := by
  induction h with
  | nil => exact le_rfl
  | cons _ _ ih =>
    have h1 := ih fun w hw => hneg w (mem_cons_of_mem _ hw)
    have h2 := hneg _ mem_cons_self
    omega

namespace Traced

variable {t t' : Traced} {e : Event}

/-- A call with more than one operation is not put asleep, and no value gets too large. -/
def AtomicOk (t : Traced) (e : Event) : Prop :=
  t.Sane e ∧ t.srv.AtUpdate e Semaphore.NotStale ∧
    match e with
    | .semop c id sops mem => CallOk t.srv c id sops mem
    | _ => True

instance (t : Traced) (e : Event) : Decidable (t.AtomicOk e) :=
  match e with
  | .semget .. | .semctl .. | .semop .. | .exit _ | .shmget => inferInstanceAs (Decidable (_ ∧ _ ∧ _))

/-- The values of the semaphores change as they should. -/
structure Atomic (t : Traced) (e : Event) (t' : Traced) : Prop where
  bounded : ∀ sem ∈ t'.srv.semList, ∀ x ∈ sem.sems, x.semval ≤ semVmx
  /-- After what the request itself does, only calls that waited are performed, each once, as a whole and when it is
  possible. -/
  effect : ∃ first out last v1, t.srv.handle e = some (t'.srv, first ++ out ++ last) ∧ (out.map (·.who)).Nodup ∧
    Own e first (valuesOf t.srv.semList) v1 ∧ Commits (t.waits ++ t.srv.blocked e) v1 out (valuesOf t'.srv.semList)

/-- What holds between the turns of the server. -/
structure Inv (t : Traced) : Prop where
  wf : Wf t.srv t.waits
  single : Single t.waits
  bounded : Bounded t.srv

theorem own (h : t.Inv) (hok : t.AtomicOk e) {a : Server.Act} (ha : t.srv.act e = some a) :
    Own e a.sent (valuesOf t.srv.semList) (valuesOf a.srv.semList) ∧ Bounded a.srv := by
  cases e with
  | semget c key nsems flag => exact own_semget h.bounded ha
  | semctl c id num cmd => exact own_semctl h.wf h.bounded ha
  | semop c id sops mem => exact own_semop h.wf h.bounded hok.1.2 hok.2.2 ha
  | exit pt => exact own_exit h.wf h.bounded ha
  | shmget =>
    cases ha
    exact ⟨rfl, h.bounded⟩

theorem single_blocked (h : t.Inv) (hok : t.AtomicOk e) : Single (t.waits ++ t.srv.blocked e) := by
  intro w hw
  rcases mem_append.mp hw with hw | hw
  · exact h.single w hw
  cases e with
  | semop c id sops mem =>
    have hc : CallOk t.srv c id sops mem := hok.2.2
    rw [blocked] at hw
    rw [CallOk] at hc
    split at hw
    · cases hw
    next i sem hfind =>
      rw [hfind] at hc
      split at hw
      next href =>
        obtain ⟨op, hop, rfl⟩ := mem_map.mp hw
        obtain ⟨op', hop'⟩ := length_eq_one_iff.mp ((hc href).1 (ne_nil_of_mem hop))
        have := (mem_filter.mp hop).1
        rw [hop'] at this
        rw [hop', mem_singleton.mp this]
      · cases hw
  | _ => cases hw

/-- A request is atomic, and keeps the values in range. -/
theorem step_atomic (h : t.Inv) (hok : t.AtomicOk e) : ∃ t', t.step e = some t' ∧ Atomic t e t' ∧ t'.Inv := by
  obtain ⟨t', out, hstep, hh, -⟩ := handled h.wf hok.1 hok.2.1
  obtain ⟨a, hact, ha⟩ := acts h.wf hok.1
  obtain ⟨hown, hb⟩ := own h hok hact
  have hsingle := single_blocked h hok
  have hsingle' : Single t'.waits := fun w hw => by
    rw [hh.waits] at hw
    exact hsingle w (mem_unanswered.mp hw).1
  have hhandle := hh.handle
  have hz := hok.2.1
  simp only [Server.AtUpdate, hact] at hz
  cases hu : a.update with
  | false =>
    rw [handle_of_quiet hact hu] at hhandle
    obtain ⟨hs, ho⟩ := Prod.mk.inj (some.inj hhandle)
    have heff : Atomic t e t' := by
      refine ⟨hs ▸ hb, a.sent, [], a.reply, _, ?_, nodup_nil, hown, ?_⟩
      · rw [append_nil]
        exact hh.handle.trans (by rw [ho])
      · rw [hs]
        exact .nil _
    exact ⟨t', hstep, heff, hh.wf, hsingle', heff.bounded⟩
  | true =>
    rw [handle_of_update hact hu] at hhandle
    obtain ⟨⟨s', o⟩, hupd, hhandle⟩ := map_eq_some_iff.mp hhandle
    obtain ⟨rfl, ho⟩ := Prod.mk.inj hhandle
    have hbound : Bounded t'.srv := by
      intro sem' hsem' x' hx'
      obtain ⟨num, hnum⟩ := mem_iff_getElem?.mp hx'
      obtain ⟨sem, hsem, x, ox, -, hx, hwake, -⟩ := eachSemaphore_getElem? hupd hsem' hnum
      obtain ⟨x'', o'', hwake', hw⟩ := (ha.wf.lists sem hsem num x hx).wake (ha.wf.procs.pending _ _)
        (hz hu sem hsem x (mem_of_getElem? hx))
      rw [hwake] at hwake'
      cases hwake'
      obtain ⟨gs, -, hgs, hgoes⟩ := hw.goes
      refine (hgoes.le fun w hw => ha.wf.down w (mem_pending.mp (hgs w hw)).1).trans ?_
      exact hb sem hsem x (mem_of_getElem? hx)
    have hcommits := ha.wf.updates (fun w hw => hsingle w (mem_unanswered.mp hw).1) (hz hu) hupd
    have honce : (o.map (·.who)).Nodup := by
      have hall := hh.once
      rw [← ho, map_append, map_append] at hall
      exact (hall.sublist (sublist_append_left ..)).sublist (sublist_append_right ..)
    have heff : Atomic t e t' := by
      refine ⟨hbound, a.sent, o, a.reply, _, ?_, honce, hown, hcommits.mono (filter_subset_self ..)⟩
      exact hh.handle.trans (by rw [ho])
    exact ⟨t', hstep, heff, hh.wf, hsingle', hbound⟩

/-- In every run in which a call with more than one operation is not put asleep and no value gets too large. -/
theorem atomic_of_run {os : List Event} {e : Event} (hok : AllOk step AtomicOk (os ++ [e]) init) :
    ∃ t t', run step os init = some t ∧ t.step e = some t' ∧ Atomic t e t' := by
  obtain ⟨hos, he⟩ := allOk_concat hok
  have hinit : init.Inv :=
    ⟨Wf.init, nofun, nofun⟩
  obtain ⟨t, hrun, ht⟩ := run_total
    (fun t e ht hok => by
      obtain ⟨t', hstep, -, h⟩ := step_atomic ht hok
      exact ⟨t', hstep, h⟩) hinit hos
  obtain ⟨t', hstep, ha, -⟩ := step_atomic ht (he t hrun)
  exact ⟨t, t', hrun, hstep, ha⟩

/-- A call with an operation on each of the two semaphores. -/
def semop2 (p : Nat) (op₀ op₁ : Int) : Event :=
  .semop (rootCaller p) 0x1234 [⟨0, op₀, 0⟩, ⟨1, op₁, 0⟩] ⟨true, true, none⟩

/-- A process is woken up by a call with two operations. -/
theorem atomic_of_run_two : ∃ t t', run step [newSet, semop 2 0 (-1)] init = some t ∧
    t.step (semop2 1 1 1) = some t' ∧ Atomic t (semop2 1 1 1) t' :=
  atomic_of_run (by decide +kernel)

/-- A call that is put asleep by its second operation has performed the first, and a value gets larger than `SEMVMX`. -/
theorem atomic_fails :
    (∃ t t', run step [newSet] init = some t ∧ t.step (semop2 2 1 (-1)) = some t' ∧ (∃ w ∈ t'.waits, w.who = 2) ∧
      valuesOf t.srv.semList 0x1234 0 = some 0 ∧ valuesOf t'.srv.semList 0x1234 0 = some 1) ∧
    ∃ t, run step [newSet, semop 1 0 32767, semop 1 0 1] init = some t ∧
      ∃ x, valuesOf t.srv.semList 0x1234 0 = some x ∧ semVmx < x := by
  refine ⟨⟨_, _, rfl, rfl, ?_, ?_, ?_⟩, _, rfl, 32768, ?_, ?_⟩
  · decide +kernel
  · decide +kernel
  · decide +kernel
  · decide +kernel
  · decide

end Traced

end Minix.Ipc
