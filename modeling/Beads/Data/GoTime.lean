import Mathlib

/-! The instants of Go's `time` package in UTC and their calendar, in the package's 64-bit
arithmetic. -/

namespace GoTime

/-- An integer as an `int64`. -/
def wrap (number : Int) : Int := number.bmod (2 ^ 64)

section
variable {number : Int}

theorem wrap_range (number : Int) : -2 ^ 63 ≤ wrap number ∧ wrap number < 2 ^ 63 := by
  rw [wrap, Int.bmod_def]
  split <;> omega

theorem wrap_small (low : -2 ^ 63 ≤ number) (high : number < 2 ^ 63) : wrap number = number :=
  Int.bmod_eq_of_le (by omega) (by omega)

theorem wrap_turn (number turns : Int) : wrap (number + 2 ^ 64 * turns) = wrap number :=
  Int.add_mul_bmod_self_left number (2 ^ 64) turns

theorem exists_turns (number : Int) : ∃ turns, wrap number = number + 2 ^ 64 * turns := by
  rw [wrap, Int.bmod_def]
  split
  · exact ⟨-(number / 2 ^ 64), by omega⟩
  · exact ⟨-(number / 2 ^ 64) - 1, by omega⟩

end

/-! ## The calendar

An absolute year starts in March, so that its last day is the leap day. -/

def absoluteYears : Int := 292277022400

/-- The months are counted from March of the absolute year 0. -/
@[ext] structure Date where
  months : Int
  day : Int
  deriving DecidableEq

def Date.year (date : Date) : Int := (date.months + 2) / 12 - absoluteYears

def Date.month (date : Date) : Int := (date.months + 2) % 12 + 1

def absYear (days : Int) : Int :=
  100 * ((4 * days + 3) / 146097) + (4 * ((4 * days + 3) % 146097 / 4) + 3) / 1461

def yearDay (days : Int) : Int := (4 * ((4 * days + 3) % 146097 / 4) + 3) % 1461 / 4

def civil (days : Int) : Date :=
  ⟨12 * absYear days + (5 * yearDay days + 461) / 153 - 3, 1 + (5 * yearDay days + 461) % 153 / 5⟩

def dateToAbsDays (date : Date) : Int :=
  let year := date.months / 12 % 2 ^ 64
  146097 * (year / 100) % 2 ^ 64 / 4 +
    (1461 * (year % 100) / 4 + (153 * (date.months % 12 + 3) - 457) / 5 + date.day - 1)

def yearDays (year : Int) : Int := 146097 * (year / 100) / 4 + 1461 * (year % 100) / 4

theorem yearDays_absYear (days : Int) :
    yearDays (absYear days) + yearDay days = days ∧ 0 ≤ yearDay days ∧ yearDay days ≤ 365 := by
  have split : 146097 * ((4 * days + 3) / 146097) / 4 + (4 * days + 3) % 146097 / 4 = days := by
    omega
  have rest : 0 ≤ (4 * days + 3) % 146097 / 4 ∧ (4 * days + 3) % 146097 / 4 ≤ 36524 := by omega
  unfold yearDays absYear yearDay
  generalize (4 * days + 3) / 146097 = century at *
  generalize (4 * days + 3) % 146097 / 4 = day at *
  have whole : (100 * century + (4 * day + 3) / 1461) / 100 = century ∧
      (100 * century + (4 * day + 3) / 1461) % 100 = (4 * day + 3) / 1461 := by omega
  rw [whole.1, whole.2]
  omega

theorem yearDays_succ (year : Int) :
    yearDays year + 365 ≤ yearDays (year + 1) ∧ yearDays (year + 1) ≤ yearDays year + 366 := by
  unfold yearDays
  by_cases last : year % 100 = 99
  · have next : (year + 1) / 100 = year / 100 + 1 ∧ (year + 1) % 100 = 0 := by omega
    rw [next.1, next.2, last]
    omega
  · have next : (year + 1) / 100 = year / 100 ∧ (year + 1) % 100 = year % 100 + 1 := by omega
    rw [next.1, next.2]
    omega

theorem yearDays_cycles (year cycles : Int) :
    yearDays (year + 400 * cycles) = yearDays year + 146097 * cycles := by
  have next : (year + 400 * cycles) / 100 = year / 100 + 4 * cycles ∧
      (year + 400 * cycles) % 100 = year % 100 := by omega
  rw [yearDays, yearDays, next.1, next.2]
  omega

def monthDays (months : Int) : Int := yearDays (months / 12) + (153 * (months % 12 + 3) - 457) / 5

/-- The seconds before a month. Below 0 the year is `2 ^ 64` years late, which are 16 years in the
cycle of 400 and, but for the cycles, `2 ^ 64 * 31556952` seconds. -/
def monthSec (months : Int) : Int :=
  if 0 ≤ months then 86400 * monthDays months else 86400 * monthDays (months + 192) - 504911232

theorem monthDays_succ (months : Int) :
    monthDays months + 28 ≤ monthDays (months + 1) ∧
      monthDays (months + 1) ≤ monthDays months + 31 := by
  have year := yearDays_succ (months / 12)
  unfold monthDays
  by_cases last : months % 12 = 11
  · have next : (months + 1) / 12 = months / 12 + 1 := by omega
    rw [next]
    omega
  · have next : (months + 1) / 12 = months / 12 := by omega
    rw [next]
    omega

theorem monthSec_succ (months : Int) :
    monthSec months + 2419200 ≤ monthSec (months + 1) ∧
      monthSec (months + 1) ≤ monthSec months + 2678400 := by
  obtain before | rfl | from0 : months + 1 < 0 ∨ months = -1 ∨ 0 ≤ months := by omega
  · have next := monthDays_succ (months + 192)
    rw [monthSec, if_neg (by omega), monthSec, if_neg (by omega), add_right_comm]
    omega
  · decide
  · have next := monthDays_succ months
    rw [monthSec, if_pos from0, monthSec, if_pos (by omega)]
    omega

theorem monthSec_add (months : Int) (more : Nat) :
    monthSec months + 2419200 * more ≤ monthSec (months + more) ∧
      monthSec (months + more) ≤ monthSec months + 2678400 * more := by
  induction more with
  | zero => simp
  | succ more ih =>
    have next := monthSec_succ (months + more)
    rw [Nat.cast_add, Nat.cast_one, ← add_assoc]
    omega

theorem monthDays_civil (days : Int) :
    monthDays (civil days).months + ((civil days).day - 1) = days := by
  have read := yearDays_absYear days
  have whole : (civil days).months / 12 = absYear days ∧
      (civil days).months % 12 + 3 = (5 * yearDay days + 461) / 153 := by
    simp only [civil]
    omega
  rw [monthDays, whole.1, whole.2]
  simp only [civil]
  omega

theorem exists_dateToAbsDays {date : Date} (low : -2 ^ 64 ≤ date.months / 12)
    (high : date.months / 12 < 2 ^ 64) : ∃ turns, 86400 * dateToAbsDays date =
      monthSec date.months + 86400 * (date.day - 1) + 2 ^ 64 * turns := by
  have word (year : Int) : ∃ turns, 86400 * (146097 * (year / 100) % 2 ^ 64 / 4) =
      86400 * (146097 * (year / 100) / 4) + 2 ^ 64 * turns :=
    ⟨-21600 * (146097 * (year / 100) / 2 ^ 64), by omega⟩
  rw [dateToAbsDays, monthSec]
  split
  · obtain ⟨turns, split⟩ := word (date.months / 12)
    rw [Int.emod_eq_of_lt (by omega) high, monthDays, yearDays]
    exact ⟨turns, by linarith⟩
  · have late : date.months / 12 % 2 ^ 64 = date.months / 12 + 16 + 400 * 46116860184273879 := by
      omega
    obtain ⟨turns, split⟩ := word (date.months / 12 % 2 ^ 64)
    have cycles := yearDays_cycles (date.months / 12 + 16) 46116860184273879
    have month : (date.months + 192) / 12 = date.months / 12 + 16 ∧
        (date.months + 192) % 12 = date.months % 12 := by omega
    rw [← late, yearDays] at cycles
    rw [monthDays, month.1, month.2]
    exact ⟨turns + 31556952, by linarith⟩

/-- The fields are added as words, and the months carry into the year. -/
def Date.move (date : Date) (years months days : Int) : Date :=
  let month := wrap (date.month + months - 1)
  ⟨12 * (wrap (date.year + years + month / 12) + absoluteYears) + month % 12 - 2, wrap (date.day + days)⟩

theorem months_move {date : Date} {years months : Int} (known : date.months.natAbs ≤ 2 ^ 60)
    (few : years.natAbs ≤ 2 ^ 60) (some : months.natAbs ≤ 2 ^ 60) (days : Int) :
    (date.move years months days).months = date.months + (12 * years + months) := by
  have carry : wrap (date.month + months - 1) = (date.months + 2) % 12 + months := by
    rw [Date.month, wrap_small (by omega) (by omega)]
    omega
  rw [Date.move, carry]
  unfold Date.year absoluteYears
  rw [wrap_small (by omega) (by omega)]
  dsimp only
  omega

theorem civil_injective : Function.Injective civil := by
  intro days other same
  rw [← monthDays_civil days, same, monthDays_civil]

/-! ## Instants -/

/-- The absolute seconds of the zero time. -/
def zeroSec : Int := 9223371966606163200

/-- The seconds from the zero time and the nanoseconds of the last one. -/
@[ext] structure Instant where
  sec : Int
  nsec : Nat
  range : -2 ^ 63 ≤ sec ∧ sec < 2 ^ 63
  fraction : nsec < 10 ^ 9
  deriving DecidableEq

namespace Instant

def nanos (t : Instant) : Int := t.sec * 10 ^ 9 + t.nsec

theorem nanos_injective : Function.Injective nanos := by
  intro t u same
  have left := t.fraction
  have right := u.fraction
  unfold nanos at same
  ext <;> omega

instance : LinearOrder Instant := LinearOrder.lift' nanos nanos_injective

def absSec (t : Instant) : Int := (t.sec + zeroSec) % 2 ^ 64

def days (t : Instant) : Int := t.absSec / 86400

def clock (t : Instant) : Int := t.absSec % 86400

def withSec (t : Instant) (sec : Int) : Instant := ⟨wrap sec, t.nsec, wrap_range sec, t.fraction⟩

/-- The instant of a Unix time. -/
def unix (sec : Int) : Instant := ⟨wrap (62135596800 + sec), 0, wrap_range _, by decide⟩

def truncate (t : Instant) (unit : Nat) : Instant :=
  ⟨t.sec, t.nsec - t.nsec % unit, t.range, (Nat.sub_le _ _).trans_lt t.fraction⟩

/-- The seconds saturate. -/
def add (t : Instant) (duration : Int) : Instant :=
  let total := t.nsec + duration
  let sum := t.sec + total / 10 ^ 9
  ⟨if sum < -2 ^ 63 then -(2 ^ 63 - 1) else min sum (2 ^ 63 - 1), (total % 10 ^ 9).toNat,
    by split <;> omega, by omega⟩

def addDate (t : Instant) (years months days : Int) : Instant :=
  t.withSec (86400 * dateToAbsDays ((civil t.days).move years months days) + t.clock - zeroSec)

/-- Within 146 billion years of the zero time. -/
def Near (t : Instant) : Prop := -2 ^ 62 ≤ t.sec ∧ t.sec < 2 ^ 62

variable {t : Instant}

theorem nanos_add (near : t.Near) {duration : Int} (low : -2 ^ 63 ≤ duration)
    (high : duration < 2 ^ 63) : (t.add duration).nanos = t.nanos + duration := by
  obtain ⟨after, before⟩ := near
  have fraction := t.fraction
  have sum : -2 ^ 63 ≤ t.sec + (t.nsec + duration) / 10 ^ 9 ∧
      t.sec + (t.nsec + duration) / 10 ^ 9 < 2 ^ 63 := by omega
  simp only [nanos, add, if_neg (Int.not_lt.mpr sum.1), min_eq_left (Int.le_sub_one_of_lt sum.2)]
  omega

theorem sec_eq (near : t.Near) : t.sec = monthSec (civil t.days).months +
    86400 * ((civil t.days).day - 1) + t.clock - zeroSec ∧ (civil t.days).months.natAbs ≤ 2 ^ 60 := by
  obtain ⟨after, before⟩ := near
  have abs : t.absSec = t.sec + zeroSec := by
    unfold absSec zeroSec
    omega
  have day : 0 ≤ t.days ∧ t.days < 2 ^ 48 := by
    rw [days, abs, zeroSec]
    omega
  have year : 0 ≤ absYear t.days ∧ absYear t.days < 2 ^ 50 := by
    unfold absYear
    omega
  have known : 0 ≤ (civil t.days).months ∧ (civil t.days).months ≤ 2 ^ 60 := by
    have read := yearDays_absYear t.days
    simp only [civil]
    omega
  have counted := monthDays_civil t.days
  have split : 86400 * t.days + t.clock = t.absSec := Int.mul_ediv_add_emod t.absSec 86400
  rw [monthSec, if_pos known.1]
  omega

theorem fields_range (t : Instant) : (0 ≤ t.clock ∧ t.clock < 86400) ∧
    (1 ≤ (civil t.days).day ∧ (civil t.days).day ≤ 31) ∧
      1 ≤ (civil t.days).month ∧ (civil t.days).month ≤ 12 := by
  simp only [clock, civil, Date.month]
  omega

theorem eq_of_civil {u : Instant} (date : civil t.days = civil u.days) (time : t.clock = u.clock)
    (fraction : t.nsec = u.nsec) : t = u := by
  have day := civil_injective date
  have left := t.range
  have right := u.range
  unfold days clock absSec at *
  exact Instant.ext (by omega) fraction

theorem withSec_small {sec : Int} (low : -2 ^ 63 ≤ sec) (high : sec < 2 ^ 63) : (t.withSec sec).sec = sec :=
  wrap_small low high

theorem withSec_turn (sec turns : Int) : t.withSec (sec + 2 ^ 64 * turns) = t.withSec sec := by
  simp only [withSec, wrap_turn]

/-- A move adds the seconds of the months between and of the days, and wraps. -/
theorem addDate_eq (near : t.Near) {years months : Int} (few : years.natAbs ≤ 2 ^ 60)
    (some : months.natAbs ≤ 2 ^ 60) (days : Int) : t.addDate years months days = t.withSec
      (t.sec + (monthSec ((civil t.days).months + (12 * years + months)) -
        monthSec (civil t.days).months) + 86400 * days) := by
  obtain ⟨now, known⟩ := sec_eq near
  have moved := months_move known few some days
  obtain ⟨turns, wrapped⟩ := exists_turns ((civil t.days).day + days)
  obtain ⟨more, counted⟩ := exists_dateToAbsDays
    (show -2 ^ 64 ≤ ((civil t.days).move years months days).months / 12 by omega) (by omega)
  rw [moved, show ((civil t.days).move years months days).day = _ from wrapped] at counted
  rw [addDate, counted, ← withSec_turn (t.sec + _ + _) (more + 86400 * turns)]
  congr 1
  linarith

end Instant

end GoTime
