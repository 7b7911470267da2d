import Minix.Kernel.Types
import Minix.Lib.Loop
import Minix.Lib.Run

/-!
# Alarms

The alarms of the process manager: `servers/pm/alarm.c` (the timer `ITIMER_REAL`), `servers/pm/timers.c`, and the timers
library `lib/timers`. Times are in ticks of the clock, of type `long`; `toLong` and `toUlong` are the conversions to 32
bits.

* `State.asked` and `State.raised` are history variables: what was asked for when the alarm of a process was set, and
  the alarms that were raised.
* `check_sig` may end the process. This is an argument of the operation.
* A result `none` of a step stands for a loop that does not end.
-/

namespace Minix.Pm

open Minix.Lib Function

open Minix.Kernel (OK EINVAL endpointP)

/-- The slots of `mproc`. -/
abbrev Slot := Fin 100

/-! ## Arithmetic -/

/-- The conversion to `long`. -/
def toLong (x : Int) : Int := (x + 2 ^ 31) % 2 ^ 32 - 2 ^ 31

/-- The conversion to `unsigned long`. -/
def toUlong (x : Int) : Int := x % 2 ^ 32

/-- `LONG_MAX`, and `TMR_NEVER`. -/
def longMax : Int := 2147483647

/-- `US`, the number of microseconds of a second. -/
def US : Int := 1000000

/-- `struct timeval`. -/
structure Timeval where
  tvSec : Int
  tvUsec : Int
  deriving DecidableEq

/-- The time in a timeval, in microseconds. -/
def Timeval.usecs (tv : Timeval) : Int := toUlong tv.tvSec * US + tv.tvUsec

/-- `struct itimerval`. -/
structure Itimerval where
  itInterval : Timeval
  itValue : Timeval
  deriving DecidableEq

/-- `ticks_from_timeval(tv)`. -/
def ticksFromTimeval (hz : Int) (tv : Timeval) : Int :=
  let ticks := toLong (toUlong (hz * toUlong tv.tvSec))
  let ticks :=
    if toUlong ticks / hz ≠ toUlong tv.tvSec then longMax
    else toLong (ticks + toLong (toUlong (hz * toUlong tv.tvUsec + (US - 1)) / US))
  if ticks < 0 then longMax else ticks

/-- `timeval_from_ticks(tv, ticks)`. -/
def timevalFromTicks (hz ticks : Int) : Timeval :=
  ⟨toLong (toUlong ticks / hz), toLong (toUlong (toUlong ticks % hz * US) / hz)⟩

/-- `is_sane_timeval(tv)`, where `MAX_SECS` is `LONG_MAX / system_hz`. -/
def isSaneTimeval (hz : Int) (tv : Timeval) : Bool :=
  tv.tvSec ≥ 0 && tv.tvSec ≤ longMax / hz && tv.tvUsec ≥ 0 && tv.tvUsec < US

/-- `IN_USE` and `EXITING`. -/
inductive Status
  | free | live | exiting
  deriving DecidableEq

/-- What was asked for when an alarm was set: the time then, and the time until the alarm in microseconds. -/
structure Asked where
  since : Int
  usecs : Int
  deriving DecidableEq

/-- An alarm that was raised: the process, the time, and what was asked for. -/
structure Raised where
  proc : Slot
  time : Int
  asked : Asked
  deriving DecidableEq

/-- The parts of `mproc` that belong to alarms, the queue `pm_timers`, and the alarm of PM at the kernel. -/
structure State where
  systemHz : Int
  uptime : Int
  mpEndpoint : Slot → Int
  status : Slot → Status
  alarmOn : Slot → Bool
  /-- `mp_interval[ITIMER_REAL]`. -/
  mpInterval : Slot → Int
  /-- `tmr_exp_time` of `mp_timer`. -/
  tmrExpTime : Slot → Int
  /-- `tmr_arg` of `mp_timer`. -/
  tmrArg : Slot → Int
  pmTimers : List Slot
  pmExpiring : Bool
  /-- The time of the last `sys_setalarm`. -/
  sysAlarm : Int
  asked : Slot → Asked
  /-- The interval that was asked for, in microseconds. -/
  intervalUsecs : Slot → Int
  raised : List Raised

namespace State

variable (s : State)

/-! ## The timers library -/

/-- The time of the first timer, or 0. -/
def headTime : Int := (s.pmTimers.head?.map s.tmrExpTime).getD 0

/-- `tmrs_clrtimer(tmrs, tp, next_time)`: the old time of the first timer. -/
def tmrsClrtimer (p : Slot) : Int × State :=
  (s.headTime, { s with tmrExpTime := update s.tmrExpTime p longMax, pmTimers := s.pmTimers.erase p })

/-- The timer is put before the first one that expires later. -/
def insertTimer (expTime : Slot → Int) (p : Slot) : List Slot → List Slot
  | [] => [p]
  | q :: qs => if expTime p < expTime q then p :: q :: qs else q :: insertTimer expTime p qs

/-- `tmrs_settimer(tmrs, tp, exp_time, watchdog, new_head)`: the old time of the first timer. -/
def tmrsSettimer (p : Slot) (expTime : Int) : Int × State :=
  let old := s.headTime
  let s := (s.tmrsClrtimer p).2
  let exp := update s.tmrExpTime p expTime
  (old, { s with tmrExpTime := exp, pmTimers := insertTimer exp p s.pmTimers })

/-- `pm_set_timer(tp, ticks, watchdog, arg)`. -/
def pmSetTimer (p : Slot) (ticks : Int) (arg : Int) : State :=
  let s := { s with tmrArg := update s.tmrArg p arg }
  match s.tmrsSettimer p (toLong (s.uptime + ticks)) with
  | (prev, s) =>
    if !s.pmExpiring && (prev = 0 || prev > s.headTime) then { s with sysAlarm := s.headTime } else s

/-- `pm_cancel_timer(tp)`. -/
def pmCancelTimer (p : Slot) : State :=
  match s.tmrsClrtimer p with
  | (prev, s) =>
    if !s.pmExpiring && (prev < s.headTime || s.headTime = 0) then { s with sysAlarm := s.headTime } else s

/-! ## Alarms -/

/-- `set_alarm(rmp, ticks)`. -/
def setAlarm (p : Slot) (ticks : Int) : State :=
  if ticks > 0 then
    let s := s.pmSetTimer p ticks (s.mpEndpoint p)
    { s with alarmOn := update s.alarmOn p true }
  else if s.alarmOn p then
    let s := s.pmCancelTimer p
    { s with alarmOn := update s.alarmOn p false }
  else s

/-- `set_realtimer(rmp, value)`. -/
def setRealtimer (p : Slot) (value : Itimerval) : State :=
  let ticks := ticksFromTimeval s.systemHz value.itValue
  let interval := ticksFromTimeval s.systemHz value.itInterval
  let interval := if ticks ≤ 0 then 0 else interval
  let s := s.setAlarm p ticks
  { s with
    mpInterval := update s.mpInterval p interval
    asked := update s.asked p ⟨s.uptime, value.itValue.usecs⟩
    intervalUsecs := update s.intervalUsecs p value.itInterval.usecs }

/-- `get_realtimer(rmp, value)`. -/
def getRealtimer (p : Slot) : Itimerval :=
  let remaining :=
    if s.alarmOn p then
      let remaining := toLong (s.tmrExpTime p - s.uptime)
      if remaining ≤ 0 then s.mpInterval p else remaining
    else 0
  ⟨timevalFromTicks s.systemHz (s.mpInterval p), timevalFromTicks s.systemHz remaining⟩

/-- `do_alarm()` by `p`: the seconds left on the previous alarm. -/
def doAlarm (p : Slot) (seconds : Int) : Int × State :=
  let ovalue := s.getRealtimer p
  let remaining := ovalue.itValue.tvSec + if ovalue.itValue.tvUsec > 0 then 1 else 0
  (remaining, s.setRealtimer p ⟨⟨0, 0⟩, ⟨seconds, 0⟩⟩)

/-- `do_itimer()` by `p` for `ITIMER_REAL`, with the values that are copied. -/
def doItimer (p : Slot) (value : Option Itimerval) (getval : Bool) : Int × Option Itimerval × State :=
  if value.isNone && !getval then (EINVAL, none, s)
  else if value.any fun v => !isSaneTimeval s.systemHz v.itValue || !isSaneTimeval s.systemHz v.itInterval then
    (EINVAL, none, s)
  else
    let ovalue := if getval then some (s.getRealtimer p) else none
    (OK, ovalue, match value with
      | some v => s.setRealtimer p v
      | none => s)

/-- The part of `exit_proc(rmp)` that is about alarms. -/
def exitProc (p : Slot) : State :=
  let s := if s.alarmOn p then s.setAlarm p 0 else s
  { s with status := update s.status p .exiting }

/-- `pm_isokendpt(endpoint, proc)`, for the endpoints of processes. -/
def pmIsokendpt (e : Int) : Option Slot :=
  if h : 0 ≤ endpointP e ∧ endpointP e < 100 then
    let p : Slot := ⟨(endpointP e).toNat, by omega⟩
    if e ≠ s.mpEndpoint p then none
    else if s.status p = .free then none
    else some p
  else none

/-- In `cause_sigalrm`: the alarm is set again for its interval, if there is one. -/
def rearm (p : Slot) : State :=
  if s.mpInterval p > 0 then
    { s.setAlarm p (s.mpInterval p) with asked := update s.asked p ⟨s.uptime, s.intervalUsecs p⟩ }
  else { s with alarmOn := update s.alarmOn p false }

/-- `cause_sigalrm(tp)`. The signal may end the process. -/
def causeSigalrm (tp : Slot) (kills : Slot → Bool) : State :=
  match s.pmIsokendpt (s.tmrArg tp) with
  | none => s
  | some p =>
    if s.status p ≠ .live then s
    else if !s.alarmOn p then s
    else
      let event : Raised := ⟨p, s.uptime, s.asked p⟩
      let s := s.rearm p
      let s := { s with raised := event :: s.raised }
      if kills p then s.exitProc p else s

/-- A round of the loop of `tmrs_exptimers`. -/
def expireTurn (now : Int) (kills : Slot → Bool) (s : State) : Turn State State :=
  match s.pmTimers with
  | [] => .done s
  | p :: ps =>
    if s.tmrExpTime p ≤ now then
      .again ({ s with pmTimers := ps, tmrExpTime := update s.tmrExpTime p longMax }.causeSigalrm p kills)
    else .done s

/-- `pm_expire_timers(now)`. A timer that is set again for a time that has passed expires again and again. -/
def pmExpireTimers (now : Int) (kills : Slot → Bool) : Option State :=
  (loop (expireTurn now kills) 101 { s with pmExpiring := true }).map fun s =>
    let s := { s with pmExpiring := false }
    if s.headTime > 0 then { s with sysAlarm := s.headTime } else s

/-- The table entry of a child is a copy of the parent's, without alarm and interval. -/
def forkProc (parent child : Slot) (e : Int) : State :=
  { s with
    mpEndpoint := update s.mpEndpoint child e
    status := update s.status child .live
    alarmOn := update s.alarmOn child false
    mpInterval := update s.mpInterval child 0
    tmrExpTime := update s.tmrExpTime child (s.tmrExpTime parent)
    tmrArg := update s.tmrArg child (s.tmrArg parent) }

end State

/-- What can happen. -/
inductive Op
  /-- Time goes on. -/
  | wait (ticks : Nat)
  | alarm (p : Slot) (seconds : Int)
  | itimer (p : Slot) (value : Option Itimerval) (getval : Bool)
  /-- A notification of `CLOCK`, which was sent at time `now`. -/
  | clock (now : Int) (kills : Slot → Bool)
  | exit (p : Slot)
  /-- The entry of a process that has exited is freed. -/
  | cleanup (p : Slot)
  | fork (parent child : Slot) (e : Int)

namespace State

variable (s : State)

/-- One step of PM, if it is possible. -/
def step : Op → Option State
  | .wait n => some { s with uptime := toLong (s.uptime + n) }
  | .alarm p seconds => if s.status p = .live then some (s.doAlarm p seconds).2 else none
  | .itimer p value getval => if s.status p = .live then some (s.doItimer p value getval).2.2 else none
  | .clock now kills => if now ≤ s.uptime then s.pmExpireTimers now kills else none
  | .exit p => if s.status p = .live then some (s.exitProc p) else none
  | .cleanup p =>
    if s.status p = .exiting then some { s with status := update s.status p .free } else none
  | .fork parent child e =>
    if s.status parent = .live ∧ s.status child = .free ∧ endpointP e = child.val then some (s.forkProc parent child e)
    else none

end State

end Minix.Pm
