import Minix.Ipc.SemServe

/-!
# Waiting for semaphores

`waiting_of_run`: in every run in which, at every update of the semaphores, one process at most can go on for each of
them, the waiting lists and counters of each semaphore are those of the processes that wait for it, in their order.
Every process that waits gets one reply, and nobody waits who could go on.

Without the condition this fails (`waiting_fails`): `update_one_semaphore` wakes up one process of a list at most, and
takes a list that has been allocated for one that is not empty.
-/

namespace Minix.Ipc

open Minix.Lib List Server

/-! ## Turns of the server -/

theorem Server.handle_of_quiet {s : Server} {e : Event} {a : Server.Act} (ha : s.act e = some a)
    (hu : a.update = false) :
    s.handle e = some (a.srv, a.sent ++ a.reply) := by
  simp [handle, ha, hu]

theorem Server.handle_of_update {s : Server} {e : Event} {a : Server.Act} (ha : s.act e = some a)
    (hu : a.update = true) :
    s.handle e = a.srv.updateSemaphores.map fun r => (r.1, a.sent ++ r.2 ++ a.reply) := by
  simp only [handle, ha, hu, Option.bind_eq_bind, Option.bind_some, if_true]
  cases a.srv.updateSemaphores <;> rfl

/-- A condition on all the semaphores, when a request updates them. -/
def Server.AtUpdate (s : Server) (e : Event) (P : Semaphore → Prop) : Prop :=
  match s.act e with
  | none => True
  | some a => a.update = true → ∀ sem ∈ a.srv.semList, ∀ x ∈ sem.sems, P x

theorem Server.AtUpdate.mono {s : Server} {e : Event} {P Q : Semaphore → Prop} (h : s.AtUpdate e P)
    (hPQ : ∀ x, P x → Q x) :
    s.AtUpdate e Q := by
  rw [Server.AtUpdate] at h ⊢
  split at h
  · trivial
  · exact fun hu sem hsem x hx => hPQ x (h hu sem hsem x hx)

instance (s : Server) (e : Event) (P : Semaphore → Prop) [DecidablePred P] : Decidable (s.AtUpdate e P) :=
  match h : s.act e with
  | none => isTrue (by rw [Server.AtUpdate, h]; trivial)
  | some a =>
    decidable_of_iff (a.update = true → ∀ sem ∈ a.srv.semList, ∀ x ∈ sem.sems, P x) (by rw [Server.AtUpdate, h])

instance (s : Server) (ws : List Wait) (c : Caller) (id : Nat) (sops : List Sembuf) (mem : Memory) :
    Decidable (SleepOk s ws c id sops mem) := inferInstanceAs (Decidable (_ ∨ _))

/-- The server, and the processes that are asleep in the order in which they called it. -/
structure Traced where
  srv : Server
  waits : List Wait
  deriving DecidableEq

namespace Traced

def init : Traced := ⟨.init, []⟩

def step (t : Traced) (e : Event) : Option Traced := do
  let (srv, out) ← t.srv.handle e
  return ⟨srv, unanswered (t.waits ++ t.srv.blocked e) out⟩

/-- A process that is asleep makes no call, calls of `semop` are put asleep as required, and identifiers are not used
again. -/
def Sane (t : Traced) (e : Event) : Prop :=
  (∀ w ∈ t.waits, e.caller ≠ some w.who) ∧
    match e with
    | .semop c id sops mem => SleepOk t.srv t.waits c id sops mem
    | .semget .. => t.srv.identifier + 1 < 2 ^ 32
    | .shmget => t.srv.identifier + 1 < 2 ^ 32
    | _ => True

instance (t : Traced) (e : Event) : Decidable (t.Sane e) :=
  match e with
  | .semget .. | .semctl .. | .semop .. | .exit _ | .shmget => inferInstanceAs (Decidable (_ ∧ _))

variable {t t' : Traced} {e : Event} {out : List Reply}

/-- What a turn of the server does. -/
structure Handled (t : Traced) (e : Event) (t' : Traced) (out : List Reply) : Prop where
  handle : t.srv.handle e = some (t'.srv, out)
  waits : t'.waits = unanswered (t.waits ++ t.srv.blocked e) out
  wf : Wf t'.srv t'.waits
  once : (out.map (·.who)).Nodup
  due : ∀ m ∈ out, e.caller = some m.who ∨ ∃ w ∈ t.waits, w.who = m.who
  calls : ∀ p, e.caller = some p → ((∃ m ∈ out, m.who = p) ↔ ¬∃ w ∈ t'.waits, w.who = p)

theorem acts (hwf : Wf t.srv t.waits) (hs : t.Sane e) : ∃ a, t.srv.act e = some a ∧ Acts t.srv t.waits e a := by
  obtain ⟨hfree, hok⟩ := hs
  cases e with
  | semget c key nsems flag => exact Acts.semget hwf (fun w hw he => hfree w hw (congrArg some he.symm)) hok _ _ _
  | semctl c id num cmd => exact Acts.semctl hwf (fun w hw he => hfree w hw (congrArg some he.symm)) _ _ _
  | semop c id sops mem => exact Acts.semop hwf (fun w hw he => hfree w hw (congrArg some he.symm)) hok
  | exit pt => exact Acts.exit hwf pt
  | shmget =>
    have hnext : t.srv.nextIdentifier = t.srv.identifier + 1 := Nat.mod_eq_of_lt hok
    refine ⟨_, rfl, ?_, nodup_nil, nofun, nofun, ?_⟩
    · show Wf _ (unanswered (t.waits ++ []) [])
      rw [append_nil, unanswered_nil]
      refine ⟨hwf.ids, fun sem hsem => ?_, hwf.lists, hwf.place, hwf.down, hwf.procs⟩
      show _ < t.srv.nextIdentifier
      rw [hnext]
      exact (hwf.fresh sem hsem).trans (Nat.lt_succ_self _)
    · show _ → _ → AllSettled _ (unanswered (t.waits ++ []) [])
      rw [append_nil, unanswered_nil]
      exact fun _ h => h

/-- Who is told by a request and who waits after it, if other replies `o` to processes that wait follow. -/
theorem Handled.of_acts {a : Server.Act} {s' : Server} {o : List Reply} (ha : Acts t.srv t.waits e a)
    (hs : Wf.Serves s' (unanswered (t.waits ++ t.srv.blocked e) (a.sent ++ a.reply)) o)
    (hh : t.srv.handle e = some (s', a.sent ++ o ++ a.reply)) :
    Handled t e ⟨s', unanswered (t.waits ++ t.srv.blocked e) (a.sent ++ o ++ a.reply)⟩ (a.sent ++ o ++ a.reply) := by
  have hperm : (a.sent ++ a.reply ++ o).Perm (a.sent ++ o ++ a.reply) := by
    rw [append_assoc, append_assoc]
    exact perm_append_comm.append_left a.sent
  have hmem : ∀ m, m ∈ a.sent ++ o ++ a.reply ↔ m ∈ a.sent ++ a.reply ∨ m ∈ o := fun m => by
    rw [← hperm.mem_iff, mem_append]
  have hws : unanswered (t.waits ++ t.srv.blocked e) (a.sent ++ o ++ a.reply) =
      unanswered (t.waits ++ t.srv.blocked e) (a.sent ++ a.reply ++ o) := by
    refine filter_congr fun w _ => ?_
    simp only [hperm.mem_iff]
  refine ⟨hh, rfl, ?_, ?_, ?_, fun p hp => ⟨?_, fun hno => ?_⟩⟩
  · show Wf s' _
    rw [hws, unanswered_append]
    exact hs.wf
  · exact (hperm.map _).nodup_iff.mp (nodup_told ha.once hs.once hs.waits)
  · intro m hm
    rcases (hmem m).mp hm with hm | hm
    · exact ha.due m hm
    · obtain ⟨w, hw, he⟩ := hs.waits m hm
      rcases mem_append.mp (mem_unanswered.mp hw).1 with hw | hw
      · exact .inr ⟨w, hw, he⟩
      · rw [← he]
        exact .inl (blocked_who hw)
  · rintro ⟨m, hm, rfl⟩ ⟨w, hw, he⟩
    exact (mem_unanswered.mp hw).2 m hm he.symm
  · by_contra hnone
    rcases ha.calls p hp with ⟨m, hm, he⟩ | ⟨w, hw, rfl⟩
    · exact hnone ⟨m, (hmem m).mpr (.inl hm), he⟩
    · exact hno ⟨w, mem_unanswered.mpr ⟨mem_append_right _ hw, fun m hm he => hnone ⟨m, hm, he⟩⟩, rfl⟩

theorem step_of_handle {s' : Server} (h : t.srv.handle e = some (s', out)) :
    t.step e = some ⟨s', unanswered (t.waits ++ t.srv.blocked e) out⟩ := by
  rw [step, h]
  rfl

/-- A sane request is handled, and if all semaphores are calm then nobody waits who could go on. -/
theorem handled (hwf : Wf t.srv t.waits) (hs : t.Sane e) (hz : t.srv.AtUpdate e Semaphore.NotStale) :
    ∃ t' out, t.step e = some t' ∧ Handled t e t' out ∧
      (t.srv.AtUpdate e Semaphore.Calm → AllSettled t.srv t.waits → AllSettled t'.srv t'.waits) := by
  obtain ⟨a, hact, ha⟩ := acts hwf hs
  simp only [Server.AtUpdate, hact] at hz ⊢
  cases hu : a.update with
  | false =>
    have hh : t.srv.handle e = some (a.srv, a.sent ++ [] ++ a.reply) := by
      rw [append_nil]
      exact handle_of_quiet hact hu
    have hserves : Wf.Serves a.srv (unanswered (t.waits ++ t.srv.blocked e) (a.sent ++ a.reply)) [] := by
      refine ⟨?_, nodup_nil, nofun⟩
      rw [unanswered_nil]
      exact ha.wf
    refine ⟨_, _, step_of_handle hh, .of_acts ha hserves hh, fun _ hset => ?_⟩
    rw [append_nil]
    exact ha.quiet hu hset
  | true =>
    obtain ⟨s', o, he, hserves⟩ := ha.wf.eachSemaphore fun sem hsem x hx P hl hP => by
      obtain ⟨x', o, hwake, hw⟩ := hl.wake hP (hz hu sem hsem x hx)
      exact ⟨x', o, hwake, hw.served⟩
    have hh : t.srv.handle e = some (s', a.sent ++ o ++ a.reply) := by
      rw [handle_of_update hact hu, updateSemaphores, he]
      rfl
    have hhandled := Handled.of_acts ha hserves hh
    refine ⟨_, _, step_of_handle hh, hhandled, fun hcalm _ sem' hsem' num x' hx' => ?_⟩
    obtain ⟨sem, hsem, x, ox, hid, hx, hwake, hox⟩ := eachSemaphore_getElem? he hsem' hx'
    have hl := ha.wf.lists sem hsem num x hx
    have hset := hl.settled (ha.wf.procs.pending _ _)
      (fun w hw => ha.wf.down w (mem_pending.mp hw).1) (hcalm rfl sem hsem x (mem_of_getElem? hx)) hwake
    intro w hw
    obtain ⟨hw, hwid, hnum⟩ := mem_pending.mp hw
    obtain ⟨hw, hno⟩ := mem_unanswered.mp hw
    refine hset w (mem_unanswered.mpr ⟨mem_pending.mpr ⟨mem_unanswered.mpr ⟨hw, ?_⟩, hwid.trans hid.symm, hnum⟩, ?_⟩)
    · intro m hm
      rcases mem_append.mp hm with hm | hm
      · exact hno m (mem_append_left _ (mem_append_left _ hm))
      · exact hno m (mem_append_right _ hm)
    · exact fun m hm => hno m (mem_append_left _ (mem_append_right _ (hox hm)))

/-! ## Runs -/

/-- At every update, one process at most can go on for each semaphore. -/
def StepOk (t : Traced) (e : Event) : Prop := t.Sane e ∧ t.srv.AtUpdate e Semaphore.Calm

instance (t : Traced) (e : Event) : Decidable (t.StepOk e) := inferInstanceAs (Decidable (_ ∧ _))

/-- Processes wait and are woken up as they should. -/
structure Waiting (t : Traced) (e : Event) (t' : Traced) : Prop where
  /-- The counters and the lists of a semaphore are those of the processes that wait for it, in their order. -/
  lists : ∀ sem ∈ t'.srv.semList, ∀ (num : Nat) (x : Semaphore), sem.sems[num]? = some x →
    x.Lists (pending t'.waits sem.id num)
  /-- A process waits once. -/
  distinct : Distinct t'.waits
  /-- Replies go to the caller and to processes that wait, and nobody gets two. Those that get none go on waiting. -/
  replies : ∃ out, t.srv.handle e = some (t'.srv, out) ∧ (out.map (·.who)).Nodup ∧
    (∀ m ∈ out, e.caller = some m.who ∨ ∃ w ∈ t.waits, w.who = m.who) ∧
    (∀ w ∈ t.waits, w ∈ t'.waits ↔ ∀ m ∈ out, m.who ≠ w.who) ∧
    ∀ p, e.caller = some p → ((∃ m ∈ out, m.who = p) ↔ ¬∃ w ∈ t'.waits, w.who = p)
  /-- Nobody waits who could go on. -/
  settled : ∀ w ∈ t'.waits, ∃ sem ∈ t'.srv.semList, sem.id = w.id ∧ ¬Possible (valueAt sem.sems w.op.semNum) w.op.semOp

theorem Handled.waiting (h : Handled t e t' out) (hset : AllSettled t'.srv t'.waits) : Waiting t e t' where
  lists := h.wf.lists
  distinct := h.wf.procs
  replies := by
    refine ⟨out, h.handle, h.once, h.due, fun w hw => ?_, h.calls⟩
    rw [h.waits, mem_unanswered]
    exact ⟨fun h => h.2, fun hno => ⟨mem_append_left _ hw, hno⟩⟩
  settled w hw := by
    obtain ⟨sem, hsem, hid, hnum⟩ := h.wf.place w hw
    have hx := getElem?_eq_getElem hnum
    refine ⟨sem, hsem, hid, ?_⟩
    rw [valueAt_of_getElem? hx]
    exact hset sem hsem _ _ hx w (mem_pending.mpr ⟨hw, hid.symm, rfl⟩)

/-- A request keeps the waiting lists right. -/
theorem step_waiting (hwf : Wf t.srv t.waits) (hset : AllSettled t.srv t.waits) (hok : t.StepOk e) :
    ∃ t', t.step e = some t' ∧ Waiting t e t' ∧ Wf t'.srv t'.waits ∧ AllSettled t'.srv t'.waits := by
  obtain ⟨t', out, hstep, hh, hset'⟩ := handled hwf hok.1 (Server.AtUpdate.mono hok.2 fun _ h => h.notStale)
  exact ⟨t', hstep, hh.waiting (hset' hok.2 hset), hh.wf, hset' hok.2 hset⟩

/-- In every run in which at every update one process at most can go on for each semaphore. -/
theorem waiting_of_run {os : List Event} {e : Event} (hok : AllOk step StepOk (os ++ [e]) init) :
    ∃ t t', run step os init = some t ∧ t.step e = some t' ∧ Waiting t e t' := by
  obtain ⟨hos, he⟩ := allOk_concat hok
  have hinit : AllSettled init.srv init.waits := nofun
  obtain ⟨t, hrun, hwf, hset⟩ := run_total (I := fun t => Wf t.srv t.waits ∧ AllSettled t.srv t.waits)
    (fun t e ⟨hwf, hset⟩ hok => by
      obtain ⟨t', hstep, -, h⟩ := step_waiting hwf hset hok
      exact ⟨t', hstep, h⟩) ⟨Wf.init, hinit⟩ hos
  obtain ⟨t', hstep, hw, -⟩ := step_waiting hwf hset (he t hrun)
  exact ⟨t, t', hrun, hstep, hw⟩

/-- A process with endpoint `p` of the superuser. -/
def rootCaller (p : Nat) : Caller := ⟨p, 0, 0, p⟩

/-- A new set of two semaphores. -/
def newSet : Event := .semget (rootCaller 1) 0 2 0o1666

/-- A call with one operation on the set. -/
def semop (p num : Nat) (op : Int) : Event := .semop (rootCaller p) 0x1234 [⟨num, op, 0⟩] ⟨true, true, none⟩

/-- A process waits for an increase and one for zero, and both are woken up. -/
theorem waiting_of_run_two : ∃ t t', run step [newSet, semop 2 0 (-1), semop 1 1 1, semop 3 1 0, semop 1 0 1] init =
    some t ∧ t.step (semop 1 1 (-1)) = some t' ∧ Waiting t (semop 1 1 (-1)) t' :=
  waiting_of_run (by decide +kernel)

/-- Two processes wait for an increase by one. When the value is increased by two, one of them is woken up and the other
is left waiting although its amount is there. After a process that waited for zero was woken up, the next request
crashes. -/
theorem waiting_fails :
    (∃ t, run step [newSet, semop 2 0 (-1), semop 3 0 (-1), semop 1 0 2] init = some t ∧
      ∃ w ∈ t.waits, ∃ sem ∈ t.srv.semList, sem.id = w.id ∧ Possible (valueAt sem.sems w.op.semNum) w.op.semOp) ∧
    run step [newSet, semop 1 0 1, semop 2 0 0, semop 1 0 (-1), semop 1 1 1] init = none := by
  refine ⟨⟨_, rfl, ⟨3, 0x1234, ⟨0, -1, 0⟩, [⟨0, -1, 0⟩]⟩, ?_, ?_⟩, ?_⟩
  · decide +kernel
  · decide +kernel
  · decide +kernel

end Traced

end Minix.Ipc
