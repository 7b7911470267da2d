import Minix.Pm.Alarm

/-!
# Alarms are not early

* `ticksFromTimeval_eq`: a time is converted to ticks and rounded up, or capped, if the conversion of microseconds does
  not overflow.
* `timevalFromTicks_le`: ticks are converted to a time and rounded down.
* `alarms_of_run`: in every run in which the times that are asked for fit and are whole numbers of ticks, an alarm is
  set for the time that was asked for, no alarm is raised before, and the time that is reported to be left is not more.
* `alarms_early`: otherwise alarms are raised at once, or too early, or more than the time that was asked for is left.
-/

namespace Minix.Pm

open Minix.Lib Function List Option

open Minix.Kernel (endpointP)

/-! ## Conversions -/

theorem toLong_eq {x : Int} (h : -2 ^ 31 ≤ x) (h' : x < 2 ^ 31) : toLong x = x := by
  unfold toLong
  omega

theorem toUlong_eq {x : Int} (h : 0 ≤ x) (h' : x < 2 ^ 32) : toUlong x = x := Int.emod_eq_of_lt h h'

theorem toUlong_bounds (x : Int) : 0 ≤ toUlong x ∧ toUlong x < 2 ^ 32 := by
  unfold toUlong
  omega

/-- A time in ticks, rounded up. -/
def ticksFor (hz usecs : Int) : Int := (usecs * hz + (US - 1)) / US

theorem ticksFor_bounds (hz usecs : Int) :
    usecs * hz ≤ ticksFor hz usecs * US ∧ ticksFor hz usecs * US < usecs * hz + US := by
  unfold ticksFor US
  generalize usecs * hz = x
  omega

theorem ticksFor_usecs (hz : Int) (tv : Timeval) :
    ticksFor hz tv.usecs = hz * toUlong tv.tvSec + (hz * tv.tvUsec + (US - 1)) / US := by
  unfold ticksFor Timeval.usecs
  have h : (toUlong tv.tvSec * US + tv.tvUsec) * hz + (US - 1) = hz * tv.tvUsec + (US - 1) +
      hz * toUlong tv.tvSec * US := by ring
  rw [h, Int.add_mul_ediv_right _ _ (by decide), add_comm]

/-- The conversion of microseconds does not overflow. -/
def UsecFits (hz : Int) (tv : Timeval) : Prop := 0 ≤ tv.tvUsec ∧ hz * tv.tvUsec + (US - 1) < 2 ^ 32

instance (hz : Int) (tv : Timeval) : Decidable (UsecFits hz tv) := inferInstanceAs (Decidable (_ ∧ _))

/-- A time in ticks, rounded up, or the largest time. -/
def cappedTicks (hz usecs : Int) : Int := min (ticksFor hz usecs) longMax

/-- The conversion of seconds overflows if and only if the division shows it. -/
theorem toUlong_ediv_ne {hz sec : Int} (hhz : 0 < hz) (h : 2 ^ 32 ≤ hz * sec) : toUlong (hz * sec) / hz ≠ sec := by
  have hlt : toUlong (hz * sec) < sec * hz := by
    rw [mul_comm sec]
    exact lt_of_lt_of_le (toUlong_bounds _).2 h
  exact (Int.ediv_lt_of_lt_mul hhz hlt).ne

theorem toUlong_toLong (x : Int) : toUlong (toLong x) = toUlong x := by
  unfold toUlong toLong
  omega

/-- `ticks_from_timeval` rounds up, or gives the largest time. -/
theorem ticksFromTimeval_eq {hz : Int} {tv : Timeval} (hhz : 0 < hz) (hu : UsecFits hz tv)
    (hs : tv.tvUsec = 0 ∨ hz * toUlong tv.tvSec ≤ longMax) : ticksFromTimeval hz tv = cappedTicks hz tv.usecs := by
  obtain ⟨hu0, hu1⟩ := hu
  have hL : longMax = 2147483647 := rfl
  have hp : tv.tvUsec ≤ hz * tv.tvUsec := by nlinarith
  have hm : 0 ≤ hz * toUlong tv.tvSec := Int.mul_nonneg hhz.le (toUlong_bounds _).1
  have hrest : toUlong (hz * toUlong tv.tvUsec + (US - 1)) = hz * tv.tvUsec + (US - 1) := by
    unfold US at *
    rw [toUlong_eq hu0 (by omega), toUlong_eq (by omega) (by omega)]
  -- the ticks of the microseconds
  obtain ⟨d, hd⟩ : ∃ d, (hz * tv.tvUsec + (US - 1)) / US = d := ⟨_, rfl⟩
  have hd0 : 0 ≤ d ∧ d ≤ 4294 ∧ (tv.tvUsec = 0 → d = 0) := by
    subst hd
    refine ⟨by unfold US at *; omega, by unfold US at *; omega, fun h0 => ?_⟩
    rw [h0, mul_zero]
    decide
  unfold ticksFromTimeval cappedTicks
  rw [ticksFor_usecs, hrest, hd]
  dsimp only
  rw [toUlong_toLong, toLong_eq (x := d) (by omega) (by omega)]
  have hmod : toUlong (toUlong (hz * toUlong tv.tvSec)) = toUlong (hz * toUlong tv.tvSec) :=
    toUlong_eq (toUlong_bounds _).1 (toUlong_bounds _).2
  rw [hmod]
  by_cases hbig : hz * toUlong tv.tvSec < 2 ^ 32
  · rw [toUlong_eq hm hbig, Int.mul_ediv_cancel_left _ hhz.ne', if_neg (not_not.mpr rfl)]
    generalize hz * toUlong tv.tvSec = m at *
    have hsum : m + d < 2 ^ 32 := by
      rcases hs with h0 | hle
      · rw [hd0.2.2 h0]
        omega
      · omega
    unfold toLong
    split <;> omega
  · rw [if_pos (toUlong_ediv_ne hhz (by omega)), if_neg (by omega)]
    omega

/-- What `timeval_from_ticks` gives is rounded down. -/
theorem timevalFromTicks_le {hz ticks : Int} (hhz : 2 ≤ hz) (ht : 0 ≤ ticks) (ht' : ticks ≤ longMax) :
    0 ≤ (timevalFromTicks hz ticks).tvSec ∧ 0 ≤ (timevalFromTicks hz ticks).tvUsec ∧
      (timevalFromTicks hz ticks).usecs * hz ≤ ticks * US := by
  have hL : longMax = 2147483647 := rfl
  have hmod0 : 0 ≤ ticks % hz := Int.emod_nonneg _ (by omega)
  have hdm : hz * (ticks / hz) + ticks % hz = ticks := Int.mul_ediv_add_emod ticks hz
  have hq0 : 0 ≤ ticks / hz := Int.ediv_nonneg ht (by omega)
  have hq1 : ticks / hz ≤ ticks := Int.ediv_le_self _ ht
  have hsec : (timevalFromTicks hz ticks).tvSec = ticks / hz := by
    unfold timevalFromTicks
    rw [toUlong_eq ht (by omega), toLong_eq (by omega) (by omega)]
  -- the product may overflow, and is smaller then
  have hw : 0 ≤ toUlong (ticks % hz * US) ∧ toUlong (ticks % hz * US) ≤ ticks % hz * US ∧
      toUlong (ticks % hz * US) < 2 ^ 32 := by
    refine ⟨(toUlong_bounds _).1, ?_, (toUlong_bounds _).2⟩
    unfold toUlong US
    omega
  have hv0 : 0 ≤ toUlong (ticks % hz * US) / hz := Int.ediv_nonneg hw.1 (by omega)
  have hv1 : toUlong (ticks % hz * US) / hz * hz ≤ toUlong (ticks % hz * US) := Int.ediv_mul_le _ (by omega)
  have husec : (timevalFromTicks hz ticks).tvUsec = toUlong (ticks % hz * US) / hz := by
    unfold timevalFromTicks
    dsimp only
    rw [toUlong_eq ht (by omega), toLong_eq (by omega) ?_]
    nlinarith
  refine ⟨by omega, by omega, ?_⟩
  unfold Timeval.usecs
  rw [hsec, husec, toUlong_eq hq0 (by omega)]
  calc (ticks / hz * US + toUlong (ticks % hz * US) / hz) * hz
      = hz * (ticks / hz) * US + toUlong (ticks % hz * US) / hz * hz := by ring
    _ ≤ hz * (ticks / hz) * US + ticks % hz * US := by omega
    _ = ticks * US := by rw [← Int.add_mul, hdm]

/-- A whole number of ticks, rounded down to a microsecond. -/
def WholeTicks (hz usecs : Int) : Prop := ticksFor hz usecs * US / hz ≤ usecs

instance (hz usecs : Int) : Decidable (WholeTicks hz usecs) := inferInstanceAs (Decidable (_ ≤ _))

/-- The time in a part of the ticks that were asked for is not more than the time that was asked for. -/
theorem timevalFromTicks_whole {hz ticks usecs : Int} (hhz : 2 ≤ hz) (h0 : 0 ≤ ticks) (hmax : ticks ≤ longMax)
    (hle : ticks ≤ ticksFor hz usecs) (hw : WholeTicks hz usecs) :
    0 ≤ (timevalFromTicks hz ticks).tvSec ∧ 0 ≤ (timevalFromTicks hz ticks).tvUsec ∧
      (timevalFromTicks hz ticks).usecs ≤ usecs := by
  obtain ⟨h1, h2, h3⟩ := timevalFromTicks_le hhz h0 hmax
  have h4 : ticks * US ≤ ticksFor hz usecs * US := Int.mul_le_mul_of_nonneg_right hle (by decide)
  exact ⟨h1, h2, (Int.le_ediv_of_mul_le (by omega) (h3.trans h4)).trans hw⟩

theorem ticksFor_nonneg {hz usecs : Int} (hhz : 0 < hz) (hu : 0 ≤ usecs) : 0 ≤ ticksFor hz usecs := by
  have h := (ticksFor_bounds hz usecs).1
  have hx : 0 ≤ usecs * hz := Int.mul_nonneg hu hhz.le
  unfold US at h
  omega

/-- The alarm was not early, or raised at the largest time. -/
def Raised.Timely (hz : Int) (e : Raised) : Prop :=
  e.asked.usecs * hz ≤ (e.time - e.asked.since) * US ∨ e.time = longMax

namespace State

variable {s s' : State} {p q : Slot} {now ticks : Int}

theorem mem_insertTimer {exp : Slot → Int} {l : List Slot} : q ∈ insertTimer exp p l ↔ q = p ∨ q ∈ l := by
  induction l with
  | nil => simp [insertTimer]
  | cons r l ih =>
    unfold insertTimer
    split
    · simp
    · rw [mem_cons, ih, mem_cons]
      tauto

theorem nodup_insertTimer {exp : Slot → Int} {l : List Slot} (h : l.Nodup) (hp : p ∉ l) :
    (insertTimer exp p l).Nodup := by
  induction l with
  | nil => simp [insertTimer]
  | cons r l ih =>
    rw [nodup_cons] at h
    rw [mem_cons, not_or] at hp
    unfold insertTimer
    split
    · rw [nodup_cons, mem_cons, not_or, nodup_cons]
      exact ⟨hp, h⟩
    · rw [nodup_cons, mem_insertTimer, not_or]
      exact ⟨⟨fun e => hp.1 e.symm, h.1⟩, ih h.2 hp.2⟩

theorem setAlarm_pos (h : 0 < ticks) : ∃ alarm, s.setAlarm p ticks =
    { s with
      tmrArg := update s.tmrArg p (s.mpEndpoint p)
      tmrExpTime := update s.tmrExpTime p (toLong (s.uptime + ticks))
      pmTimers := insertTimer (update s.tmrExpTime p (toLong (s.uptime + ticks))) p (s.pmTimers.erase p)
      alarmOn := update s.alarmOn p true
      sysAlarm := alarm } := by
  unfold setAlarm pmSetTimer tmrsSettimer tmrsClrtimer
  rw [if_pos h]
  dsimp only
  rw [update_idem]
  split
  · exact ⟨_, rfl⟩
  · exact ⟨_, rfl⟩

theorem setAlarm_cancel (h : ticks ≤ 0) (hon : s.alarmOn p = true) : ∃ alarm, s.setAlarm p ticks =
    { s with
      tmrExpTime := update s.tmrExpTime p longMax
      pmTimers := s.pmTimers.erase p
      alarmOn := update s.alarmOn p false
      sysAlarm := alarm } := by
  unfold setAlarm pmCancelTimer tmrsClrtimer
  rw [if_neg (by omega), if_pos hon]
  dsimp only
  split
  · exact ⟨_, rfl⟩
  · exact ⟨_, rfl⟩

theorem setAlarm_off (h : ticks ≤ 0) (hoff : s.alarmOn p = false) : s.setAlarm p ticks = s := by
  unfold setAlarm
  rw [if_neg (by omega), if_neg (by simp [hoff])]

/-! ## The invariant -/

/-- What holds of the whole state. -/
structure Base (s : State) : Prop where
  hz : 2 ≤ s.systemHz ∧ s.systemHz ≤ 50000
  uptime : 0 ≤ s.uptime ∧ s.uptime ≤ longMax
  endpoint : ∀ p, endpointP (s.mpEndpoint p) = p.val
  nodup : s.pmTimers.Nodup
  raised : ∀ e ∈ s.raised, Raised.Timely s.systemHz e

/-- The alarm of `p` is set for the time that was asked for. -/
structure RowOk (s : State) (p : Slot) : Prop where
  queue : p ∈ s.pmTimers → s.alarmOn p = true
  live : s.alarmOn p = true → s.status p = .live ∧ s.tmrArg p = s.mpEndpoint p
  due : s.alarmOn p = true → s.tmrExpTime p = (s.asked p).since + cappedTicks s.systemHz (s.asked p).usecs
  bound : s.alarmOn p = true → 0 ≤ s.tmrExpTime p ∧ s.tmrExpTime p ≤ longMax
  since : s.alarmOn p = true → 0 ≤ (s.asked p).since ∧ (s.asked p).since ≤ s.uptime
  whole : s.alarmOn p = true → WholeTicks s.systemHz (s.asked p).usecs
  interval : s.alarmOn p = true → s.mpInterval p = cappedTicks s.systemHz (s.intervalUsecs p) ∧ 0 ≤ s.intervalUsecs p ∧
    WholeTicks s.systemHz (s.intervalUsecs p)

structure Inv (s : State) : Prop where
  base : s.Base
  row : ∀ p, s.RowOk p

theorem RowOk.off (hq : p ∉ s.pmTimers) (hoff : s.alarmOn p = false) : s.RowOk p where
  queue h := absurd h hq
  live h := by rw [hoff] at h; cases h
  due h := by rw [hoff] at h; cases h
  bound h := by rw [hoff] at h; cases h
  since h := by rw [hoff] at h; cases h
  whole h := by rw [hoff] at h; cases h
  interval h := by rw [hoff] at h; cases h

/-- The entry of `q` has not changed. -/
structure SameRow (s s' : State) (q : Slot) : Prop where
  queue : q ∈ s'.pmTimers → q ∈ s.pmTimers
  endpoint : s'.mpEndpoint q = s.mpEndpoint q
  status : s'.status q = s.status q
  alarmOn : s'.alarmOn q = s.alarmOn q
  interval : s'.mpInterval q = s.mpInterval q
  expTime : s'.tmrExpTime q = s.tmrExpTime q
  arg : s'.tmrArg q = s.tmrArg q
  asked : s'.asked q = s.asked q
  intervalUsecs : s'.intervalUsecs q = s.intervalUsecs q

theorem RowOk.same (h : s.RowOk q) (hs : SameRow s s' q) (hhz : s'.systemHz = s.systemHz) (hup : s.uptime ≤ s'.uptime) :
    s'.RowOk q := by
  obtain ⟨h1, h2, h3, hb, h4, hw, h5⟩ := h
  constructor
  · rw [hs.alarmOn]
    exact fun hm => h1 (hs.queue hm)
  · rwa [hs.alarmOn, hs.status, hs.arg, hs.endpoint]
  · rwa [hs.alarmOn, hs.expTime, hs.asked, hhz]
  · rwa [hs.alarmOn, hs.expTime]
  · rw [hs.alarmOn, hs.asked]
    exact fun hon => ⟨(h4 hon).1, (h4 hon).2.trans hup⟩
  · rwa [hs.alarmOn, hs.asked, hhz]
  · rwa [hs.alarmOn, hs.interval, hs.intervalUsecs, hhz]

/-- What is asked for with an alarm of `p`. -/
def ask (s : State) (p : Slot) (usecs interval iusecs : Int) : State :=
  { s with
    mpInterval := update s.mpInterval p interval
    asked := update s.asked p ⟨s.uptime, usecs⟩
    intervalUsecs := update s.intervalUsecs p iusecs }

theorem setAlarm_inv (h : s.Base) (hrow : ∀ q, q ≠ p → s.RowOk q) (hoff : s.alarmOn p = false → p ∉ s.pmTimers)
    (hl : s.status p = .live) {usecs interval iusecs : Int} (hw : WholeTicks s.systemHz usecs)
    (hfit : s.uptime + cappedTicks s.systemHz usecs ≤ longMax)
    (hi : 0 < cappedTicks s.systemHz usecs →
      interval = cappedTicks s.systemHz iusecs ∧ 0 ≤ iusecs ∧ WholeTicks s.systemHz iusecs) :
    ((s.setAlarm p (cappedTicks s.systemHz usecs)).ask p usecs interval iusecs).Inv := by
  have hL : longMax = 2147483647 := rfl
  have hup := h.uptime
  have hmem : ∀ {q}, q ∈ s.pmTimers.erase p → q ∈ s.pmTimers := mem_of_mem_erase
  have hnot : p ∉ s.pmTimers.erase p := fun hm => absurd rfl (h.nodup.mem_erase_iff.mp hm).1
  by_cases hpos : 0 < cappedTicks s.systemHz usecs
  · obtain ⟨alarm, he⟩ := setAlarm_pos hpos
    rw [he, toLong_eq (by omega) (by omega)]
    refine ⟨⟨h.hz, h.uptime, h.endpoint, ?_, h.raised⟩, fun q => ?_⟩
    · exact nodup_insertTimer (h.nodup.erase p) hnot
    by_cases hq : q = p
    · subst hq
      constructor
      · intro _
        simp [ask]
      · intro _
        simpa [ask] using hl
      · intro _
        simp [ask]
      · intro _
        simpa [ask] using ⟨by omega, hfit⟩
      · intro _
        simpa [ask] using hup.1
      · intro _
        simpa [ask] using hw
      · intro _
        simpa [ask] using hi hpos
    · refine (hrow q hq).same ?_ rfl le_rfl
      constructor
      · intro hm
        exact hmem ((mem_insertTimer.mp hm).resolve_left hq)
      all_goals simp [ask, hq]
  · by_cases hon : s.alarmOn p = true
    · obtain ⟨alarm, he⟩ := setAlarm_cancel (not_lt.mp hpos) hon
      rw [he]
      refine ⟨⟨h.hz, h.uptime, h.endpoint, h.nodup.erase p, h.raised⟩, fun q => ?_⟩
      by_cases hq : q = p
      · subst hq
        exact .off hnot (by simp [ask])
      · refine (hrow q hq).same ?_ rfl le_rfl
        constructor
        · exact hmem
        all_goals simp [ask, hq]
    · have hfalse : s.alarmOn p = false := by simpa using hon
      rw [setAlarm_off (not_lt.mp hpos) hfalse]
      refine ⟨⟨h.hz, h.uptime, h.endpoint, h.nodup, h.raised⟩, fun q => ?_⟩
      by_cases hq : q = p
      · subst hq
        exact .off (hoff hfalse) hfalse
      · refine (hrow q hq).same ?_ rfl (le_refl _)
        constructor
        · exact id
        all_goals simp [ask, hq]

/-! ## Operations -/

theorem Inv.same (h : s.Inv) (hrow : ∀ q, SameRow s s' q) (hhz : s'.systemHz = s.systemHz) (hup : s.uptime ≤ s'.uptime)
    (hup' : s'.uptime ≤ longMax) (hq : s'.pmTimers = s.pmTimers) (hr : s'.raised = s.raised) : s'.Inv := by
  refine ⟨⟨by rw [hhz]; exact h.base.hz, ⟨by have := h.base.uptime; omega, hup'⟩, fun p => ?_,
    by rw [hq]; exact h.base.nodup,
    by rw [hr, hhz]; exact h.base.raised⟩, fun q => (h.row q).same (hrow q) hhz hup⟩
  rw [(hrow p).endpoint]
  exact h.base.endpoint p

/-- A time that can be asked for: the conversion does not overflow, and it is a whole number of ticks. -/
def IntervalFits (s : State) (tv : Timeval) : Prop := UsecFits s.systemHz tv ∧ WholeTicks s.systemHz tv.usecs

/-- A time that can be asked for now. -/
def Fits (s : State) (tv : Timeval) : Prop :=
  s.IntervalFits tv ∧ s.uptime + cappedTicks s.systemHz tv.usecs ≤ longMax

instance (s : State) (tv : Timeval) : Decidable (s.IntervalFits tv) := inferInstanceAs (Decidable (_ ∧ _))

instance (s : State) (tv : Timeval) : Decidable (s.Fits tv) := inferInstanceAs (Decidable (_ ∧ _))

theorem usecs_nonneg {hz : Int} {tv : Timeval} (h : UsecFits hz tv) : 0 ≤ tv.usecs := by
  have h1 := (toUlong_bounds tv.tvSec).1
  have h2 := h.1
  unfold Timeval.usecs US
  omega

/-- There are no seconds for which a sane time overflows. -/
theorem secs_of_sane {hz : Int} {tv : Timeval} (hhz : 0 < hz) (h : isSaneTimeval hz tv = true) :
    hz * toUlong tv.tvSec ≤ longMax := by
  have hL : longMax = 2147483647 := rfl
  simp only [isSaneTimeval, Bool.and_eq_true, decide_eq_true_eq] at h
  obtain ⟨⟨⟨h0, h1⟩, -⟩, -⟩ := h
  have hmul : tv.tvSec * hz ≤ longMax := Int.le_ediv_iff_mul_le hhz |>.mp h1
  have hle : tv.tvSec ≤ tv.tvSec * hz := by nlinarith
  rw [toUlong_eq h0 (by omega), mul_comm]
  exact hmul

theorem pos_of_cappedTicks_pos {hz usecs : Int} (hu : 0 ≤ usecs) (h : 0 < cappedTicks hz usecs) : 0 < usecs := by
  refine lt_of_le_of_ne hu fun h0 => ?_
  rw [← h0, cappedTicks, ticksFor, zero_mul] at h
  exact absurd h (by decide)

/-- A time without microseconds, or a sane one, that can be asked for is set. -/
theorem Inv.setRealtimer (h : s.Inv) (hl : s.status p = .live) {value : Itimerval} (hv : s.Fits value.itValue)
    (hi : 0 < value.itValue.usecs → s.IntervalFits value.itInterval)
    (hvs : value.itValue.tvUsec = 0 ∨ s.systemHz * toUlong value.itValue.tvSec ≤ longMax)
    (his : value.itInterval.tvUsec = 0 ∨ s.systemHz * toUlong value.itInterval.tvSec ≤ longMax) :
    (s.setRealtimer p value).Inv := by
  have hhz := h.base.hz
  have hticks : ticksFromTimeval s.systemHz value.itValue = cappedTicks s.systemHz value.itValue.usecs :=
    ticksFromTimeval_eq (by omega) hv.1.1 hvs
  unfold State.setRealtimer
  rw [hticks]
  refine setAlarm_inv h.base (fun q _ => h.row q) (fun hoff hm => ?_) hl hv.1.2 hv.2 fun hpos => ?_
  · rw [(h.row p).queue hm] at hoff
    cases hoff
  · obtain ⟨hi1, hi2⟩ := hi (pos_of_cappedTicks_pos (usecs_nonneg hv.1.1) hpos)
    rw [if_neg (not_le.mpr hpos)]
    exact ⟨ticksFromTimeval_eq (by omega) hi1 his, usecs_nonneg hi1, hi2⟩

theorem Inv.exitProc (h : s.Inv) (p : Slot) : (s.exitProc p).Inv := by
  have hmem : ∀ {q}, q ∈ s.pmTimers.erase p → q ∈ s.pmTimers := mem_of_mem_erase
  have hnot : p ∉ s.pmTimers.erase p := fun hm => absurd rfl (h.base.nodup.mem_erase_iff.mp hm).1
  unfold State.exitProc
  split
  · next hon =>
    obtain ⟨alarm, he⟩ := setAlarm_cancel (le_refl 0) hon
    rw [he]
    refine ⟨⟨h.base.hz, h.base.uptime, h.base.endpoint, h.base.nodup.erase p, h.base.raised⟩, fun q => ?_⟩
    by_cases hq : q = p
    · subst hq
      exact .off hnot (by simp)
    · refine (h.row q).same ?_ rfl le_rfl
      constructor
      · exact hmem
      all_goals simp [hq]
  · next hon =>
    have hoff : s.alarmOn p = false := by simpa using hon
    refine ⟨⟨h.base.hz, h.base.uptime, h.base.endpoint, h.base.nodup, h.base.raised⟩, fun q => ?_⟩
    by_cases hq : q = p
    · subst hq
      exact .off (fun hm => hon ((h.row q).queue hm)) hoff
    · refine (h.row q).same ?_ rfl le_rfl
      constructor
      · exact id
      all_goals simp [hq]

theorem Inv.forkProc (h : s.Inv) {parent child : Slot} (hc : s.status child = .free) {e : Int}
    (he : endpointP e = child.val) :
    (s.forkProc parent child e).Inv := by
  have hoff : s.alarmOn child ≠ true := fun hon => by
    rw [((h.row child).live hon).1] at hc
    cases hc
  refine ⟨⟨h.base.hz, h.base.uptime, fun p => ?_, h.base.nodup, h.base.raised⟩, fun q => ?_⟩
  · by_cases hp : p = child
    · subst hp
      simpa [State.forkProc] using he
    · simpa [State.forkProc, hp] using h.base.endpoint p
  by_cases hq : q = child
  · subst hq
    exact .off (fun hm => hoff ((h.row q).queue hm)) (by simp [State.forkProc])
  · refine (h.row q).same ?_ rfl le_rfl
    constructor
    · exact id
    all_goals simp [State.forkProc, hq]

/-! ## Expiry -/

/-- The alarms that expire can be set again for their intervals. -/
def ClockOk (s : State) (now : Int) : Prop :=
  ∀ p, s.alarmOn p = true → s.tmrExpTime p ≤ now → 0 < s.mpInterval p → s.uptime + s.mpInterval p ≤ longMax

instance (s : State) (now : Int) : Decidable (s.ClockOk now) := Nat.decidableForallFin _

theorem SameRow.trans {s'' : State} (h : SameRow s s' q) (h' : SameRow s' s'' q) : SameRow s s'' q where
  queue hm := h.queue (h'.queue hm)
  endpoint := h'.endpoint.trans h.endpoint
  status := h'.status.trans h.status
  alarmOn := h'.alarmOn.trans h.alarmOn
  interval := h'.interval.trans h.interval
  expTime := h'.expTime.trans h.expTime
  arg := h'.arg.trans h.arg
  asked := h'.asked.trans h.asked
  intervalUsecs := h'.intervalUsecs.trans h.intervalUsecs

/-- After the alarm of `p` has expired: the others are as before, and if it was set again then for later. -/
structure Expired (p : Slot) (s s' : State) : Prop where
  inv : s'.Inv
  uptime : s'.uptime = s.uptime
  others : ∀ q, q ≠ p → SameRow s s' q
  later : s'.alarmOn p = true → s.uptime < s'.tmrExpTime p

theorem Expired.exitProc (h : Expired p s s') : Expired p s (s'.exitProc p) := by
  have hmem : ∀ {q}, q ∈ s'.pmTimers.erase p → q ∈ s'.pmTimers := mem_of_mem_erase
  have hinv := h.inv.exitProc p
  unfold State.exitProc at hinv ⊢
  dsimp only at hinv ⊢
  split
  · next hon =>
    rw [if_pos hon] at hinv
    obtain ⟨alarm, he⟩ := setAlarm_cancel (le_refl 0) hon
    rw [he] at hinv ⊢
    refine ⟨hinv, h.uptime, fun q hq => (h.others q hq).trans ?_, ?_⟩
    · constructor
      · exact hmem
      all_goals simp [hq]
    · simp
  · next hon =>
    rw [if_neg hon] at hinv
    refine ⟨hinv, h.uptime, fun q hq => (h.others q hq).trans ?_, h.later⟩
    constructor
    · exact id
    all_goals simp [hq]

theorem pmIsokendpt_self (h : s.Base) (hl : s.status p = .live) : s.pmIsokendpt (s.mpEndpoint p) = some p := by
  have hp : 0 ≤ endpointP (s.mpEndpoint p) ∧ endpointP (s.mpEndpoint p) < 100 := by
    rw [h.endpoint]
    omega
  have hslot : (⟨(endpointP (s.mpEndpoint p)).toNat, by omega⟩ : Slot) = p := by
    ext
    simp [h.endpoint]
  unfold pmIsokendpt
  rw [dif_pos hp]
  rw [hslot, if_neg (not_not.mpr rfl), if_neg (by rw [hl]; decide)]

theorem Expired.record (h : Expired p s s') {e : Raised} (he : Raised.Timely s'.systemHz e) :
    Expired p s { s' with raised := e :: s'.raised } := by
  obtain ⟨⟨hb, hrow⟩, hup, ho, hlater⟩ := h
  refine ⟨⟨⟨hb.hz, hb.uptime, hb.endpoint, hb.nodup, ?_⟩, fun q => ?_⟩, hup, fun q hq => ?_, hlater⟩
  · intro x hx
    rcases mem_cons.mp hx with rfl | hx
    · exact he
    · exact hb.raised x hx
  · exact (hrow q).same ⟨id, rfl, rfl, rfl, rfl, rfl, rfl, rfl, rfl⟩ rfl le_rfl
  · exact (ho q hq).trans ⟨id, rfl, rfl, rfl, rfl, rfl, rfl, rfl, rfl⟩

/-- The alarm that has expired is set again for its interval, or is off. -/
theorem rearm_expired (h : s.Base) (hrow : ∀ q, q ≠ p → s.RowOk q) (hnot : p ∉ s.pmTimers) (hon : s.alarmOn p = true)
    (hl : s.status p = .live)
    (hi : s.mpInterval p = cappedTicks s.systemHz (s.intervalUsecs p) ∧ 0 ≤ s.intervalUsecs p ∧
      WholeTicks s.systemHz (s.intervalUsecs p))
    (hfit : 0 < s.mpInterval p → s.uptime + s.mpInterval p ≤ longMax) :
    Expired p s (s.rearm p) ∧ (s.rearm p).systemHz = s.systemHz := by
  have hL : longMax = 2147483647 := rfl
  have hup := h.uptime
  unfold rearm
  split
  · next hpos =>
    have hinv := setAlarm_inv h hrow (fun hf => by rw [hon] at hf; cases hf) hl hi.2.2
      (by rw [← hi.1]; exact hfit hpos) fun _ => hi
    rw [← hi.1] at hinv
    obtain ⟨alarm, he⟩ := setAlarm_pos hpos
    rw [he] at hinv ⊢
    simp only [ask, update_eq_self] at hinv
    refine ⟨⟨hinv, rfl, fun q hq => ?_, ?_⟩, rfl⟩
    · constructor
      · intro hm
        exact mem_of_mem_erase ((mem_insertTimer.mp hm).resolve_left hq)
      all_goals simp [hq]
    · intro _
      dsimp only
      rw [update_self, toLong_eq (by omega) (by have := hfit hpos; omega)]
      omega
  · refine ⟨⟨⟨⟨h.hz, h.uptime, h.endpoint, h.nodup, h.raised⟩, fun q => ?_⟩, rfl, fun q hq => ?_, ?_⟩, rfl⟩
    · by_cases hq : q = p
      · subst hq
        exact .off hnot (by simp)
      · refine (hrow q hq).same ?_ rfl le_rfl
        constructor
        · exact id
        all_goals simp [hq]
    · constructor
      · exact id
      all_goals simp [hq]
    · simp

theorem causeSigalrm_expired (h : s.Base) (hrow : ∀ q, q ≠ p → s.RowOk q) (hnot : p ∉ s.pmTimers)
    (hon : s.alarmOn p = true)
    (hl : s.status p = .live) (harg : s.tmrArg p = s.mpEndpoint p)
    (hi : s.mpInterval p = cappedTicks s.systemHz (s.intervalUsecs p) ∧ 0 ≤ s.intervalUsecs p ∧
      WholeTicks s.systemHz (s.intervalUsecs p))
    (hfit : 0 < s.mpInterval p → s.uptime + s.mpInterval p ≤ longMax)
    (ht : Raised.Timely s.systemHz ⟨p, s.uptime, s.asked p⟩) (kills : Slot → Bool) :
    Expired p s (s.causeSigalrm p kills) := by
  unfold State.causeSigalrm
  rw [harg, pmIsokendpt_self h hl]
  dsimp only
  rw [if_neg (not_not.mpr hl), if_neg (by simp [hon])]
  obtain ⟨hset, hhz⟩ := rearm_expired h hrow hnot hon hl hi hfit
  have hrec := hset.record (by rwa [hhz])
  split
  · exact hrec.exitProc
  · exact hrec

variable {kills : Slot → Bool}

theorem expireTurn_expired (h : s.Inv) (hnow : now ≤ s.uptime) (hc : s.ClockOk now)
    (ht : expireTurn now kills s = .again s') : ∃ p, p ∈ s.pmTimers ∧ s.tmrExpTime p ≤ now ∧ s'.Inv ∧
    s'.uptime = s.uptime ∧
      (∀ q, q ≠ p → SameRow s s' q) ∧ (s'.alarmOn p = true → now < s'.tmrExpTime p) := by
  unfold expireTurn at ht
  split at ht
  · cases ht
  next p ps hq =>
  split at ht
  · next hexp =>
    have hp : p ∈ s.pmTimers := by rw [hq]; exact mem_cons_self
    have hnd := h.base.nodup
    rw [hq, nodup_cons] at hnd
    have hon := (h.row p).queue hp
    have hdue := (h.row p).due hon
    have htime : Raised.Timely s.systemHz ⟨p, s.uptime, s.asked p⟩ := by
      have h1 := (ticksFor_bounds s.systemHz (s.asked p).usecs).1
      have hsince := ((h.row p).since hon).1
      have hmax := h.base.uptime.2
      unfold cappedTicks at hdue
      by_cases hcap : ticksFor s.systemHz (s.asked p).usecs ≤ longMax
      · have h2 : ticksFor s.systemHz (s.asked p).usecs ≤ s.uptime - (s.asked p).since := by omega
        exact .inl (h1.trans (Int.mul_le_mul_of_nonneg_right h2 (by decide)))
      · refine .inr (show s.uptime = longMax from ?_)
        omega
    cases ht
    set s1 : State := { s with pmTimers := ps, tmrExpTime := update s.tmrExpTime p longMax }
    have hsame : ∀ q, q ≠ p → SameRow s s1 q := by
      intro q hqp
      constructor
      · intro hm
        rw [hq]
        exact mem_cons_of_mem _ hm
      all_goals simp [s1, hqp]
    have he := causeSigalrm_expired (s := s1) ⟨h.base.hz, h.base.uptime, h.base.endpoint, hnd.2, h.base.raised⟩
      (fun q hqp => (h.row q).same (hsame q hqp) rfl le_rfl) hnd.1 hon ((h.row p).live hon).1 ((h.row p).live hon).2
      ((h.row p).interval hon) (hc p hon hexp) htime kills
    exact ⟨p, hp, hexp, he.inv, he.uptime, fun q hqp => (hsame q hqp).trans (he.others q hqp),
      fun hon' => lt_of_le_of_lt hnow (he.later hon')⟩
  · cases ht

/-- What a round of the loop keeps. -/
def Expiring (now : Int) (s : State) : Prop := s.Inv ∧ now ≤ s.uptime ∧ s.ClockOk now

/-- A turn of the loop over the timers that are due. -/
theorem Expiring.turn (h : Expiring now s) (ht : expireTurn now kills s = .again s') : Expiring now s' := by
  obtain ⟨p, -, -, hinv, hup, hsame, hlater⟩ := expireTurn_expired h.1 h.2.1 h.2.2 ht
  refine ⟨hinv, by rw [hup]; exact h.2.1, fun q hon hexp hpos => ?_⟩
  by_cases hq : q = p
  · subst hq
    exact absurd hexp (not_le.mpr (hlater hon))
  · have hs := hsame q hq
    rw [hs.alarmOn] at hon
    rw [hs.expTime] at hexp
    rw [hs.interval] at hpos ⊢
    rw [hup]
    exact h.2.2 q hon hexp hpos

/-- The timers that have expired. -/
def dueTimers (now : Int) (s : State) : Finset Slot := Finset.univ.filter fun q => q ∈ s.pmTimers ∧ s.tmrExpTime q ≤ now

theorem Expiring.due_lt (h : Expiring now s) (ht : expireTurn now kills s = .again s') :
    (dueTimers now s').card < (dueTimers now s).card := by
  obtain ⟨p, hp, hexp, hinv, -, hsame, hlater⟩ := expireTurn_expired h.1 h.2.1 h.2.2 ht
  have hgone : p ∉ dueTimers now s' := by
    intro hm
    obtain ⟨-, hm, hle⟩ := Finset.mem_filter.mp hm
    exact absurd hle (not_le.mpr (hlater ((hinv.row p).queue hm)))
  refine Finset.card_lt_card ⟨fun q hm => ?_, fun hsub => hgone (hsub ?_)⟩
  · have hq : q ≠ p := by
      rintro rfl
      exact hgone hm
    obtain ⟨-, hm, hle⟩ := Finset.mem_filter.mp hm
    rw [(hsame q hq).expTime] at hle
    exact Finset.mem_filter.mpr ⟨Finset.mem_univ q, (hsame q hq).queue hm, hle⟩
  · exact Finset.mem_filter.mpr ⟨Finset.mem_univ p, hp, hexp⟩

theorem Inv.quiet (h : s.Inv) (b : Bool) (alarm : Int) : Inv { s with pmExpiring := b, sysAlarm := alarm } :=
  h.same (fun _ => ⟨id, rfl, rfl, rfl, rfl, rfl, rfl, rfl, rfl⟩) rfl le_rfl h.base.uptime.2 rfl rfl

/-- The loop of expiring alarms ends. -/
theorem pmExpireTimers_ends (h : s.Inv) (hnow : now ≤ s.uptime) (hc : s.ClockOk now) (kills : Slot → Bool) :
    ∃ s', s.pmExpireTimers now kills = some s' := by
  have hstart : Expiring now { s with pmExpiring := true } := ⟨h.quiet true s.sysAlarm, hnow, hc⟩
  obtain ⟨r, hr⟩ : ∃ r, loop (expireTurn now kills) 101 { s with pmExpiring := true } = some r :=
    loop_total (μ := fun s => (dueTimers now s).card)
    (fun s hs => by
      cases ht : expireTurn now kills s with
      | again s' => exact .inr ⟨s', rfl, hs.turn ht, hs.due_lt ht⟩
      | done r => exact .inl ⟨r, rfl⟩
      | crash =>
        unfold expireTurn at ht
        split at ht
        · cases ht
        · split at ht <;> cases ht)
    101 _ hstart (by
      have := Finset.card_le_univ (dueTimers now { s with pmExpiring := true })
      rw [Fintype.card_fin] at this
      omega)
  exact ⟨_, by rw [pmExpireTimers, hr]; rfl⟩

theorem Inv.pmExpireTimers (h : s.Inv) (hnow : now ≤ s.uptime) (hc : s.ClockOk now)
    (hs : s.pmExpireTimers now kills = some s') : s'.Inv := by
  obtain ⟨r, hr, rfl⟩ := map_eq_some_iff.mp hs
  obtain ⟨t, hreach, hdone⟩ := loop_reaches hr
  have ht : Expiring now t :=
    hreach.invariant (fun _ _ hI ht => hI.turn ht) (⟨h.quiet true s.sysAlarm, hnow, hc⟩ :
      Expiring now { s with pmExpiring := true })
  have hrt : r = t := by
    unfold expireTurn at hdone
    split at hdone
    · cases hdone
      rfl
    · split at hdone
      · cases hdone
      · cases hdone
        rfl
  subst hrt
  dsimp only
  split
  · exact ht.1.quiet false _
  · exact ht.1.quiet false r.sysAlarm

/-! ## Runs -/

/-- The times that are asked for fit, and so do the intervals of the alarms that expire. An interval is used only if
there is an alarm. -/
def StepOk (s : State) : Op → Prop
  | .wait n => s.uptime + n ≤ longMax
  | .alarm _ seconds => s.Fits ⟨seconds, 0⟩
  | .itimer _ value _ => ∀ v, value = some v → isSaneTimeval s.systemHz v.itValue = true →
    isSaneTimeval s.systemHz v.itInterval = true →
      s.Fits v.itValue ∧ (0 < v.itValue.usecs → s.IntervalFits v.itInterval)
  | .clock now _ => s.ClockOk now
  | _ => True

instance (s : State) : ∀ o, Decidable (s.StepOk o)
  | .wait n => inferInstanceAs (Decidable (s.uptime + n ≤ longMax))
  | .alarm _ seconds => inferInstanceAs (Decidable (s.Fits ⟨seconds, 0⟩))
  | .itimer _ o _ => inferInstanceAs (Decidable (∀ v, o = some v → _ → _ →
    s.Fits v.itValue ∧ (0 < v.itValue.usecs → s.IntervalFits v.itInterval)))
  | .clock now _ => inferInstanceAs (Decidable (s.ClockOk now))
  | .exit _ | .cleanup _ | .fork .. => isTrue trivial

/-- A step keeps the alarms right. -/
theorem Inv.step (h : s.Inv) {o : Op} (hok : s.StepOk o) (hs : s.step o = some s') : s'.Inv := by
  have hL : longMax = 2147483647 := rfl
  have hup := h.base.uptime
  have hzero : s.IntervalFits ⟨0, 0⟩ := by
    have h1 : (Timeval.mk 0 0).usecs = 0 := rfl
    refine ⟨⟨le_refl 0, by simp [US]⟩, ?_⟩
    rw [h1, WholeTicks, ticksFor, zero_mul, show ((0 : Int) + (US - 1)) / US = 0 from rfl, zero_mul, Int.zero_ediv]
  cases o with
  | wait n =>
    cases hs
    have hn : toLong (s.uptime + n) = s.uptime + n := toLong_eq (by omega)
      (by have : s.uptime + n ≤ longMax := hok; omega)
    refine h.same (fun _ => ⟨id, rfl, rfl, rfl, rfl, rfl, rfl, rfl, rfl⟩) rfl ?_ ?_ rfl rfl
    · dsimp only
      omega
    · rw [hn]
      exact hok
  | alarm p seconds =>
    obtain ⟨hl, hs⟩ := ite_none_right_eq_some.mp hs
    cases hs
    exact h.setRealtimer hl hok (fun _ => hzero) (.inl rfl) (.inl rfl)
  | itimer p value getval =>
    obtain ⟨hl, hs⟩ := ite_none_right_eq_some.mp hs
    cases hs
    unfold doItimer
    split
    · exact h
    split
    · exact h
    next hsane =>
    cases value with
    | none => exact h
    | some v =>
      have hv : isSaneTimeval s.systemHz v.itValue = true ∧ isSaneTimeval s.systemHz v.itInterval = true := by
        simpa using hsane
      obtain ⟨h1, h2⟩ := hok v rfl hv.1 hv.2
      have hhz : 0 < s.systemHz := by have := h.base.hz; omega
      exact h.setRealtimer hl h1 h2 (.inr (secs_of_sane hhz hv.1)) (.inr (secs_of_sane hhz hv.2))
  | clock now kills =>
    obtain ⟨hnow, hs⟩ := ite_none_right_eq_some.mp hs
    exact h.pmExpireTimers hnow hok hs
  | exit p =>
    obtain ⟨-, hs⟩ := ite_none_right_eq_some.mp hs
    cases hs
    exact h.exitProc p
  | cleanup p =>
    obtain ⟨hex, hs⟩ := ite_none_right_eq_some.mp hs
    cases hs
    refine ⟨⟨h.base.hz, h.base.uptime, h.base.endpoint, h.base.nodup, h.base.raised⟩, fun q => ?_⟩
    by_cases hq : q = p
    · subst hq
      have hoff : s.alarmOn q ≠ true := fun hon => by
        rw [((h.row q).live hon).1] at hex
        cases hex
      exact .off (fun hm => hoff ((h.row q).queue hm)) (by simpa using hoff)
    · refine (h.row q).same ?_ rfl le_rfl
      constructor
      · exact id
      all_goals simp [hq]
  | fork parent child e =>
    obtain ⟨hf, hs⟩ := ite_none_right_eq_some.mp hs
    cases hs
    exact h.forkProc hf.2.1 hf.2.2

/-- A state in which no alarm was set yet. -/
structure Initial (s : State) : Prop where
  hz : 2 ≤ s.systemHz ∧ s.systemHz ≤ 50000
  uptime : 0 ≤ s.uptime ∧ s.uptime ≤ longMax
  endpoint : ∀ p, endpointP (s.mpEndpoint p) = p.val
  alarmOn : ∀ p, s.alarmOn p = false
  queue : s.pmTimers = []
  raised : s.raised = []

theorem Initial.inv (h : s.Initial) : s.Inv where
  base :=
    { hz := h.hz
      uptime := h.uptime
      endpoint := h.endpoint
      nodup := by rw [h.queue]; exact nodup_nil
      raised := by rw [h.raised]; exact fun _ he => by cases he }
  row p := .off (by rw [h.queue]; exact not_mem_nil) (h.alarmOn p)

/-- **Alarms are never early**, and the time left is not too long. -/
structure AlarmsRight (s : State) : Prop where
  /-- An alarm expires when the time that was asked for has passed, rounded up to a tick, or at the largest time. -/
  due : ∀ p, s.alarmOn p = true →
    ((s.asked p).usecs * s.systemHz ≤ (s.tmrExpTime p - (s.asked p).since) * US ∧
      (s.tmrExpTime p - (s.asked p).since) * US < (s.asked p).usecs * s.systemHz + US) ∨
    (s.tmrExpTime p = longMax ∧ (longMax - (s.asked p).since) * US ≤ (s.asked p).usecs * s.systemHz)
  /-- No alarm was raised before. -/
  timely : ∀ e ∈ s.raised, Raised.Timely s.systemHz e
  /-- The time left is at most what was asked for. If the alarm has expired and was not raised yet, it is that until the
  next. -/
  left : ∀ p, s.alarmOn p = true →
    0 ≤ (s.getRealtimer p).itValue.tvSec ∧ 0 ≤ (s.getRealtimer p).itValue.tvUsec ∧
    (s.getRealtimer p).itValue.usecs ≤ if s.uptime < s.tmrExpTime p then (s.asked p).usecs else s.intervalUsecs p
  /-- The alarms that have expired are raised. -/
  ends : ∀ now kills, now ≤ s.uptime → s.ClockOk now → ∃ s', s.pmExpireTimers now kills = some s'

theorem Inv.due (h : s.Inv) (hon : s.alarmOn p = true) :
    ((s.asked p).usecs * s.systemHz ≤ (s.tmrExpTime p - (s.asked p).since) * US ∧
      (s.tmrExpTime p - (s.asked p).since) * US < (s.asked p).usecs * s.systemHz + US) ∨
    (s.tmrExpTime p = longMax ∧ (longMax - (s.asked p).since) * US ≤ (s.asked p).usecs * s.systemHz) := by
  have hdue := (h.row p).due hon
  have hmax := (h.row p).bound hon
  have hsince := ((h.row p).since hon).1
  have hb := ticksFor_bounds s.systemHz (s.asked p).usecs
  unfold cappedTicks at hdue
  by_cases hcap : ticksFor s.systemHz (s.asked p).usecs ≤ longMax
  · rw [show s.tmrExpTime p - (s.asked p).since = ticksFor s.systemHz (s.asked p).usecs by omega]
    exact .inl hb
  · refine .inr ⟨by omega, ?_⟩
    unfold US at *
    omega

theorem Inv.left (h : s.Inv) (hon : s.alarmOn p = true) :
    0 ≤ (s.getRealtimer p).itValue.tvSec ∧ 0 ≤ (s.getRealtimer p).itValue.tvUsec ∧
    (s.getRealtimer p).itValue.usecs ≤ if s.uptime < s.tmrExpTime p then (s.asked p).usecs else s.intervalUsecs p := by
  have hL : longMax = 2147483647 := rfl
  have hmax := (h.row p).bound hon
  have hsince := (h.row p).since hon
  have hdue := (h.row p).due hon
  have hhz := h.base.hz
  have hup := h.base.uptime
  unfold getRealtimer
  dsimp only
  rw [if_pos hon, toLong_eq (by omega) (by omega)]
  by_cases hlt : s.uptime < s.tmrExpTime p
  · rw [if_neg (by omega), if_pos hlt]
    unfold cappedTicks at hdue
    exact timevalFromTicks_whole hhz.1 (by omega) (by omega) (by omega) ((h.row p).whole hon)
  · obtain ⟨hi, hi0, hiw⟩ := (h.row p).interval hon
    have hnonneg := ticksFor_nonneg (show 0 < s.systemHz by omega) hi0
    rw [if_pos (by omega), if_neg hlt, hi]
    unfold cappedTicks
    exact timevalFromTicks_whole hhz.1 (by omega) (by omega) (by omega) hiw

/-- **Alarms in every run** in which the times that are asked for fit. -/
theorem alarms_of_run {os : List Op} (h0 : s.Initial) (hok : AllOk step StepOk os s) (hr : run step os s = some s') :
    s'.AlarmsRight := by
  have h : s'.Inv := run_invariant (fun _ _ _ h => h.step) h0.inv hok hr
  exact ⟨fun p hon => h.due hon, h.base.raised, fun p hon => h.left hon, fun now kills hnow hc =>
    pmExpireTimers_ends h hnow hc kills⟩

end State

/-! ## Runs of one process -/

/-- One process, in slot 20. -/
def oneProcess (hz uptime : Int) : State where
  systemHz := hz
  uptime := uptime
  mpEndpoint p := p.val
  status p := if p = 20 then .live else .free
  alarmOn _ := false
  mpInterval _ := 0
  tmrExpTime _ := longMax
  tmrArg _ := 0
  pmTimers := []
  pmExpiring := false
  sysAlarm := 0
  asked _ := ⟨0, 0⟩
  intervalUsecs _ := 0
  raised := []

/-- An alarm after ten seconds, and again every two seconds. The clock is late. -/
def twice : List Op :=
  [.itimer 20 (some ⟨⟨2, 0⟩, ⟨10, 0⟩⟩) false, .wait 599, .clock 699 fun _ => false, .wait 3, .clock 702 fun _ => false,
    .wait 120, .clock 822 fun _ => false]

/-- Two alarms at the right times. -/
theorem alarms_of_run_twice : ∃ s, run State.step twice (oneProcess 60 100) = some s ∧ s.AlarmsRight ∧
    s.raised = [⟨20, 822, ⟨702, 2000000⟩⟩, ⟨20, 702, ⟨100, 10000000⟩⟩] := by
  obtain ⟨s, hs, hr⟩ : ∃ s, run State.step twice (oneProcess 60 100) = some s ∧
      s.raised = [⟨20, 822, ⟨702, 2000000⟩⟩, ⟨20, 702, ⟨100, 10000000⟩⟩] := by decide +kernel
  have h0 : (oneProcess 60 100).Initial :=
    ⟨by decide, by decide, by decide +kernel, fun _ => rfl, rfl, rfl⟩
  exact ⟨s, hs, State.alarms_of_run h0 (by decide +kernel) hs, hr⟩

/-- An alarm after a hundred million seconds is raised at once, as the time when it expires overflows. At 50000 ticks a
second the conversion of a tenth of a second overflows, and the alarm is raised after 706 ticks instead of 5000. And the
time that is left of one microsecond is a tick, which is longer. -/
theorem alarms_early :
    (∃ s, run State.step [.alarm 20 100000000, .clock 100 fun _ => false] (oneProcess 60 100) = some s ∧
      s.raised = [⟨20, 100, ⟨100, 100000000000000⟩⟩] ∧ ¬ s.AlarmsRight) ∧
    (∃ s, run State.step [.itimer 20 (some ⟨⟨0, 0⟩, ⟨0, 100000⟩⟩) false, .wait 706, .clock 706 fun _ => false]
      (oneProcess 50000 0) = some s ∧ s.raised = [⟨20, 706, ⟨0, 100000⟩⟩] ∧ ¬ s.AlarmsRight) ∧
    (∃ s, run State.step [.itimer 20 (some ⟨⟨0, 0⟩, ⟨0, 1⟩⟩) false] (oneProcess 60 0) = some s ∧
      (s.getRealtimer 20).itValue = ⟨0, 16666⟩ ∧ ¬ s.AlarmsRight) := by
  have early : ∀ {s : State} {e : Raised}, s.raised = [e] → ¬ Raised.Timely s.systemHz e → ¬ s.AlarmsRight :=
    fun hr hn h => hn (h.timely _ (by rw [hr]; exact mem_singleton_self _))
  refine ⟨?_, ?_, ?_⟩
  · obtain ⟨s, hs, hr, hz⟩ : ∃ s, run State.step [.alarm 20 100000000, .clock 100 fun _ => false] (oneProcess 60 100) =
        some s ∧
        s.raised = [⟨20, 100, ⟨100, 100000000000000⟩⟩] ∧ s.systemHz = 60 := by decide +kernel
    exact ⟨s, hs, hr, early hr (by rw [hz]; unfold Raised.Timely US; decide)⟩
  · obtain ⟨s, hs, hr, hz⟩ : ∃ s, run State.step [.itimer 20 (some ⟨⟨0, 0⟩, ⟨0, 100000⟩⟩) false, .wait 706,
        .clock 706 fun _ => false] (oneProcess 50000 0) = some s ∧ s.raised = [⟨20, 706, ⟨0, 100000⟩⟩] ∧
        s.systemHz = 50000 := by decide +kernel
    exact ⟨s, hs, hr, early hr (by rw [hz]; unfold Raised.Timely US; decide)⟩
  · obtain ⟨s, hs, hv, hon, hleft, hlt⟩ :
        ∃ s, run State.step [.itimer 20 (some ⟨⟨0, 0⟩, ⟨0, 1⟩⟩) false] (oneProcess 60 0) = some s ∧
        (s.getRealtimer 20).itValue = ⟨0, 16666⟩ ∧ s.alarmOn 20 = true ∧
        (if s.uptime < s.tmrExpTime 20 then (s.asked 20).usecs else s.intervalUsecs 20) = 1 ∧
        ¬ Timeval.usecs ⟨0, 16666⟩ ≤ 1 := by decide +kernel
    exact ⟨s, hs, hv, fun h => hlt (by rw [← hv, ← hleft]; exact (h.left 20 hon).2.2)⟩

end Minix.Pm
