import Minix.Tmrs.Queue

/-!
# Runs of timers, and the clock

Runs of the calls of the timers library, and of the kernel's clock, which keeps the time of its first timer in
`next_timeout`: `set_timer`, `reset_timer`, and what `clock_handler` and `do_clocktick` do with timers.

- `timers_of_run`: in every run the queue has the timers that are armed in the order of expiry, every call ends, and
  `tmrs_exptimers` runs exactly the timers that are due if watchdogs arm timers for later only; `next_timeout` is the
  time of the first timer;
- `exptimers_forever`: two watchdogs that set each other's timer for now keep `tmrs_exptimers` from ending.
-/

namespace Minix.Tmrs

open Lib Option

variable {T W σ : Type}

namespace Timers

variable {s k : Timers T W σ} {q : List T}

/-- No timer is armed. -/
structure Start (s : Timers T W σ) : Prop where
  empty : s.tmrs = none
  unarmed : ∀ t, s.since t = none

theorem Start.queued (h : s.Start) : s.Queued [] := by
  refine ⟨h.empty, List.nodup_nil, List.Pairwise.nil, fun t => ?_, fun t n ht => ?_⟩
  · exact iff_of_false (List.not_mem_nil) (not_armed (h.unarmed t))
  · rw [h.unarmed] at ht
    cases ht

end Timers

/-- A call of the library. -/
inductive Op (T W σ : Type)
  | call (c : Call T W σ)
  | exptimers (now : Int) (fuel : Nat)

namespace Timers

variable [DecidableEq T] [Fintype T] {s k : Timers T W σ} {q : List T} {now : Int}

def step (prog : Prog T W σ) (s : Timers T W σ) : Op T W σ → Option (Timers T W σ)
  | .call c => s.call c
  | .exptimers now fuel => (s.tmrsExptimers prog now fuel).map Prod.fst

/-- Every call keeps the queue of timers right. -/
theorem Queued.step {prog : Prog T W σ} {o : Op T W σ} (h : ∃ q, s.Queued q) (hk : s.step prog o = some k) :
    ∃ q, k.Queued q := by
  obtain ⟨q, h⟩ := h
  cases o with
  | call c =>
    obtain ⟨k', q', hc, hq, -⟩ := h.call c
    cases hc.symm.trans hk
    exact ⟨q', hq⟩
  | exptimers now fuel =>
    obtain ⟨⟨k', ran⟩, hr, rfl⟩ := map_eq_some_iff.mp hk
    exact h.exptimers hr

end Timers

/-! ## The clock -/

/-- The variables of the clock. -/
structure Clock where
  nextTimeout : Int
  realtime : Int

/-- The time of the first timer, or `TMR_NEVER`. -/
def Timers.timeout (s : Timers T W σ) : Int := (s.tmrs.map s.tmrExpTime).getD TMR_NEVER

/-- `next_timeout` is set to the time of the first timer. -/
def refresh : Call T W Clock := .other fun s => { s.world with nextTimeout := s.timeout }

/-- The calls of the kernel. -/
inductive KCall (T W : Type)
  | setTimer (tp : T) (expTime : Int) (watchdog : W)
  | resetTimer (tp : T)

/-- `set_timer(tp, exp_time, watchdog)` and `reset_timer(tp)`. The queue is not empty after the call in `set_timer`. -/
def KCall.body : KCall T W → List (Call T W Clock)
  | .setTimer tp expTime watchdog => [.set tp expTime watchdog, refresh]
  | .resetTimer tp => [.clr tp, refresh]

/-- The calls that the kernel's watchdogs make. -/
abbrev KProg (T W : Type) := W → T → Timers T W Clock → List (KCall T W)

def KProg.prog (p : KProg T W) : Timers.Prog T W Clock := fun w t s => (p w t s).flatMap KCall.body

/-- What the kernel does with timers. -/
inductive KOp (T W : Type)
  | call (c : KCall T W)
  | handler (lostTicks : Nat)
  | clocktick (fuel : Nat)

namespace Timers

variable [DecidableEq T] [Fintype T] {s k : Timers T W Clock}

/-- The timers in `do_clocktick`. -/
def doClocktick (s : Timers T W Clock) (p : KProg T W) (fuel : Nat) : Option (Timers T W Clock) :=
  if s.world.nextTimeout ≤ s.world.realtime then
    (s.tmrsExptimers p.prog s.world.realtime fuel).bind fun (s, _) => s.call refresh
  else some s

def kstep (p : KProg T W) (s : Timers T W Clock) : KOp T W → Option (Timers T W Clock)
  | .call c => s.calls c.body
  -- `clock_handler`
  | .handler lostTicks => some { s with world := { s.world with realtime := s.world.realtime + (lostTicks + 1) } }
  | .clocktick fuel => s.doClocktick p fuel

theorem timeout_refresh (h : s.call refresh = some k) : k.world.nextTimeout = k.timeout := by
  cases h
  rfl

theorem timeout_body {c : KCall T W} (h : s.calls c.body = some k) : k.world.nextTimeout = k.timeout := by
  have hlast : ∀ c', s.calls [c', refresh] = some k → k.world.nextTimeout = k.timeout := by
    intro c' h'
    obtain ⟨s', -, h'⟩ := bind_eq_some_iff.mp h'
    obtain ⟨s'', hs'', h'⟩ := bind_eq_some_iff.mp h'
    cases h'
    exact timeout_refresh hs''
  cases c with
  | setTimer tp expTime watchdog => exact hlast _ h
  | resetTimer tp => exact hlast _ h

/-- Every call keeps `next_timeout` right. -/
theorem timeout_step {p : KProg T W} {o : KOp T W} (h : s.world.nextTimeout = s.timeout) (hk : s.kstep p o = some k) :
    k.world.nextTimeout = k.timeout := by
  cases o with
  | call c => exact timeout_body hk
  | handler lostTicks =>
    cases hk
    exact h
  | clocktick fuel =>
    rw [kstep, doClocktick] at hk
    split at hk
    · obtain ⟨⟨s', ran⟩, -, hk⟩ := bind_eq_some_iff.mp hk
      exact timeout_refresh hk
    · cases hk
      exact h

end Timers

/-! ## Runs -/

open Timers

/-- **Timers expire in order.** In every run the queue has the timers that are armed in the order of expiry and of
setting, and each call ends; `tmrs_exptimers` ends and runs exactly the timers that are due, once and in order, if its
watchdogs arm timers for later only. In every run of the kernel's clock, `next_timeout` is the time of the first timer,
or `TMR_NEVER`. -/
theorem timers_of_run [DecidableEq T] [Fintype T] (prog : Prog T W σ) {s k : Timers T W σ} {os : List (Op T W σ)}
    (h0 : s.Start)
    (hr : run (step prog) os s = some k) :
    (∃ q, k.Queued q) ∧ (∀ c, ∃ k', k.call c = some k') ∧
    (∀ now, Later prog now (k, []) → ∀ fuel > Fintype.card T, ∃ k' ran, k.tmrsExptimers prog now fuel = some (k', ran) ∧
      k.Expired now k' ran) ∧
    ∀ (p : KProg T W) (os : List (KOp T W)) (s k : Timers T W Clock), s.world.nextTimeout = s.timeout →
      run (kstep p) os s = some k → k.world.nextTimeout = k.timeout := by
  have hok : AllOk (step prog) (fun _ _ => True) os s := allOk_of_forall s fun _ _ _ => trivial
  obtain ⟨q, hq⟩ : ∃ q, k.Queued q :=
    run_invariant (I := fun s => ∃ q, s.Queued q) (fun _ _ _ hI _ hk => Queued.step hI hk) ⟨[], h0.queued⟩ hok hr
  refine ⟨⟨q, hq⟩, fun c => ?_, fun now hlater fuel hfuel => ?_, fun p os s k hs hr => ?_⟩
  · obtain ⟨k', -, hc, -⟩ := hq.call c
    exact ⟨k', hc⟩
  · exact hq.expired prog hlater (hq.nodup.length_le_card.trans_lt hfuel)
  · have hok : AllOk (kstep p) (fun _ _ => True) os s := allOk_of_forall s fun _ _ _ => trivial
    exact run_invariant (I := fun s => s.world.nextTimeout = s.timeout)
      (fun _ _ _ hI _ hk => timeout_step hI hk) hs hok hr

/-- Three timers, none of which is set. -/
def noTimers : Timers (Fin 3) Unit Unit := ⟨none, fun _ => none, fun _ => TMR_NEVER, fun _ => (), fun _ => none, 0, ()⟩

theorem noTimers_start : noTimers.Start := ⟨rfl, fun _ => rfl⟩

/-- The watchdog of timer 0 clears timer 1 and sets itself again. -/
def clearing : Prog (Fin 3) Unit Unit := fun _ t _ => if t = 0 then [.clr 1, .set 0 20 ()] else []

/-- The timers are set. -/
def threeSets : List (Op (Fin 3) Unit Unit) := [.call (.set 1 7 ()), .call (.set 0 5 ()), .call (.set 2 5 ())]

theorem timers_of_run_three : ∃ k, run (step clearing) threeSets noTimers = some k ∧
    ∃ k' ran, k.tmrsExptimers clearing 10 4 = some (k', ran) ∧ k.Expired 10 k' ran ∧ ran.map Prod.fst = [0, 2] := by
  have hlater : ∀ s, Later clearing 10 (s, []) := by
    intro s p' _ tp _ _ c hc
    unfold clearing at hc
    split at hc
    · rcases List.mem_cons.mp hc with rfl | hc
      · trivial
      · cases List.mem_singleton.mp hc
        exact (by decide : (10 : Int) < 20)
    · cases hc
  have hran : ((run (step clearing) threeSets noTimers).bind fun k =>
      (k.tmrsExptimers clearing 10 4).map fun p => p.2.map Prod.fst) = some [0, 2] := by decide +kernel
  obtain ⟨k, hk, hran⟩ := bind_eq_some_iff.mp hran
  obtain ⟨k', ran, hexp, hspec⟩ := (timers_of_run clearing noTimers_start hk).2.2.1 10 (hlater k) 4 (by decide)
  rw [hexp, map_some] at hran
  exact ⟨k, hk, k', ran, hexp, hspec, Option.some.inj hran⟩

/-- The watchdogs of timers 0 and 1 set each other's timer for time 0. -/
def pingPong : Prog (Fin 3) Unit Unit := fun _ t _ => [.set (1 - t) 0 ()]

/-- `tmrs_exptimers` does not end. -/
theorem exptimers_forever : ∃ k, noTimers.call (.set 0 0 ()) = some k ∧
    ∀ fuel, k.tmrsExptimers pingPong 0 fuel = none := by
  -- the queue is one timer that is due, round after round
  have hset : ∀ (s : Timers (Fin 3) Unit Unit) (t : Fin 3), s.Queued [] →
      ∃ k, s.call (.set t 0 ()) = some k ∧ k.Queued [t] ∧ k.tmrExpTime t = 0 := by
    intro s t h
    obtain ⟨k, r, u, hk, hru, hq, hexp, -⟩ := h.set t 0 ()
    obtain ⟨rfl, rfl⟩ := List.append_eq_nil_iff.mp hru.symm
    exact ⟨k, by rw [Timers.call, hk]; rfl, hq, hexp⟩
  have hloop : ∀ (fuel : Nat) (s : Timers (Fin 3) Unit Unit) (ran : Ran (Fin 3) Unit Unit) (t : Fin 3), s.Queued [t] →
      s.tmrExpTime t = 0 → loop (expTurn pingPong 0) fuel (s, ran) = none := by
    intro fuel
    induction fuel with
    | zero => exact fun _ _ _ _ _ => rfl
    | succ fuel ih =>
      intro s ran t h hexp
      obtain ⟨k, hcall, hq, hk⟩ := hset _ (1 - t) h.pop.1
      have hcalls : (s.pop t).calls (pingPong (s.tmrFunc t) t (s.pop t)) = some k := by
        rw [pingPong, Timers.calls, run, hcall]
        rfl
      rw [loop, expTurn_due h.chain.1 hexp.le hcalls ran]
      exact ih k _ (1 - t) hq hk
  obtain ⟨k, hk, hq, hexp⟩ := hset noTimers 0 noTimers_start.queued
  exact ⟨k, hk, fun fuel => hloop fuel k [] 0 hq hexp⟩

end Minix.Tmrs
