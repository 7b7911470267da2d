import Minix.Lib.Chain
import Minix.Lib.Loop
import Minix.Lib.Run

/-!
# The timers library

`tmrs_settimer`, `tmrs_clrtimer` and `tmrs_exptimers` of `lib/timers`, for timers `T` with watchdog functions `W`. The
queue is a linked list, walked through pointer pointers. A watchdog may set and clear timers and change the rest of the
world `σ`.

* `since` is a history variable: for a timer that is armed, which call of `tmrs_settimer` did that.
* A result `none` stands for a loop that does not end.
-/

namespace Minix.Tmrs

open Lib Function

/-- `TMR_NEVER`. -/
def TMR_NEVER : Int := 2147483647

/-- The timers of a queue, and the world. -/
structure Timers (T W σ : Type) where
  /-- The queue: its first timer. -/
  tmrs : Option T
  tmrNext : T → Option T
  tmrExpTime : T → Int
  tmrFunc : T → W
  since : T → Option Nat
  /-- The number of calls of `tmrs_settimer` so far. -/
  sets : Nat
  world : σ

/-- What a program does with timers. -/
inductive Call (T W σ : Type)
  | set (tp : T) (expTime : Int) (watchdog : W)
  | clr (tp : T)
  | other (f : Timers T W σ → σ)

/-- The results of a call: the times of the first timer before and after it. -/
structure Heads where
  old : Int
  new : Int
  deriving DecidableEq

namespace Timers

variable {T W σ : Type} [DecidableEq T] [Fintype T] (s : Timers T W σ)

/-- The time of the first timer, or 0. -/
def headTime : Int := (s.tmrs.map s.tmrExpTime).getD 0

/-- The loop that removes a timer from the queue. -/
def unlink (tp : T) : Option (Timers T W σ) :=
  (scan s.tmrs s.tmrNext (fun a => a = tp) (Fintype.card T + 1) .head).map fun atp =>
    if atp.get s.tmrs s.tmrNext = some tp then
      { s with tmrs := atp.setHead s.tmrs (s.tmrNext tp), tmrNext := atp.setNext s.tmrNext (s.tmrNext tp) }
    else s

/-- `tmrs_clrtimer(tmrs, tp, next_time)`. -/
def tmrsClrtimer (tp : T) : Option (Heads × Timers T W σ) :=
  let prevTime := s.headTime
  let s := { s with tmrExpTime := update s.tmrExpTime tp TMR_NEVER, since := update s.since tp none }
  (s.unlink tp).map fun s => (⟨prevTime, s.headTime⟩, s)

/-- The timer is put before the first one that expires later. -/
def link (tp : T) : Option (Timers T W σ) :=
  (scan s.tmrs s.tmrNext (fun a => s.tmrExpTime tp < s.tmrExpTime a) (Fintype.card T + 1) .head).map fun atp =>
    { s with
      tmrs := atp.setHead s.tmrs (some tp)
      tmrNext := atp.setNext (update s.tmrNext tp (atp.get s.tmrs s.tmrNext)) (some tp) }

/-- The fields of a timer that is armed. -/
def arm (tp : T) (expTime : Int) (watchdog : W) : Timers T W σ :=
  { s with
    tmrExpTime := update s.tmrExpTime tp expTime
    tmrFunc := update s.tmrFunc tp watchdog
    since := update s.since tp (some s.sets)
    sets := s.sets + 1 }

/-- `tmrs_settimer(tmrs, tp, exp_time, watchdog, new_head)`. -/
def tmrsSettimer (tp : T) (expTime : Int) (watchdog : W) : Option (Heads × Timers T W σ) :=
  let oldHead := s.headTime
  (s.tmrsClrtimer tp).bind fun (_, s) => ((s.arm tp expTime watchdog).link tp).map fun s => (⟨oldHead, s.headTime⟩, s)

/-- A call is made. -/
def call : Call T W σ → Option (Timers T W σ)
  | .set tp expTime watchdog => (s.tmrsSettimer tp expTime watchdog).map Prod.snd
  | .clr tp => (s.tmrsClrtimer tp).map Prod.snd
  | .other f => some { s with world := f s }

/-- Calls are made one after the other. -/
def calls (cs : List (Call T W σ)) : Option (Timers T W σ) := run call cs s

/-- The first timer is taken out of the queue. -/
def pop (tp : T) : Timers T W σ :=
  { s with
    tmrs := s.tmrNext tp
    tmrExpTime := update s.tmrExpTime tp TMR_NEVER
    since := update s.since tp none }

/-- The calls that watchdogs make. -/
abbrev Prog (T W σ : Type) := W → T → Timers T W σ → List (Call T W σ)

/-- The watchdogs that were run, and the calls that they made. -/
abbrev Ran (T W σ : Type) := List (T × List (Call T W σ))

/-- One round of the loop of `tmrs_exptimers`. -/
def expTurn (prog : Prog T W σ) (now : Int) : Timers T W σ × Ran T W σ →
    Turn (Timers T W σ × Ran T W σ) (Timers T W σ × Ran T W σ)
  | (s, ran) =>
    match s.tmrs with
    | none => .done (s, ran)
    | some tp =>
      if s.tmrExpTime tp ≤ now then
        let s := s.pop tp
        let cs := prog (s.tmrFunc tp) tp s
        match s.calls cs with
        | some s => .again (s, ran ++ [(tp, cs)])
        | none => .crash
      else .done (s, ran)

/-- `tmrs_exptimers(tmrs, now, new_head)`, with fuel. The new time of the first timer is `headTime`. -/
def tmrsExptimers (prog : Prog T W σ) (now : Int) (fuel : Nat) : Option (Timers T W σ × Ran T W σ) :=
  loop (expTurn prog now) fuel (s, [])

end Timers

end Minix.Tmrs
