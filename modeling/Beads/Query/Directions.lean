import Beads.Query.Durations

namespace Beads.Query

open GoTime

def goClock : Clock Instant := ⟨Instant.add, Instant.addDate⟩

def unitMonths (unit : List Char) : Int := if unit = ['m'] then 1 else if unit = ['y'] then 12 else 0

def unitDays (unit : List Char) : Int := if unit = ['d'] then 1 else if unit = ['w'] then 7 else 0

/-- The nanoseconds that are added, and for the units of the calendar the second that is reached. -/
def reach (now : Instant) (unit : List Char) (amount : Int) : Int :=
  if unit = "min".toList then amount * minute
  else if unit = ['h'] then amount * hour
  else now.sec + (monthSec ((civil now.days).months + amount * unitMonths unit) - monthSec (civil now.days).months) +
    86400 * (amount * unitDays unit)

section
variable {Time : Type} (clock : Clock Time) (now : Time) (unit : List Char)

/-- A duration of the unit and the amount, with or without a minus sign, is
accepted and ends at the time. -/
def Lands (minus : Bool) (amount : Nat) (time : Time) : Prop :=
  ∃ s sign digits, compactDurationRe s = some (sign, digits, unit) ∧ (sign = ['-'] ↔ minus = true) ∧
    numeral digits = amount ∧ parseCompactDuration clock s now = .ok time

/-- Up to the bound, no duration without a minus sign goes back, and none ends before one of a
smaller amount. -/
def Forward [LinearOrder Time] (bound : Nat) : Prop :=
  ∀ amount more time later, amount ≤ more → more ≤ bound → Lands clock now unit false amount time →
    Lands clock now unit false more later → now ≤ time ∧ time ≤ later

def Backward [LinearOrder Time] (bound : Nat) : Prop :=
  ∀ amount time, amount ≤ bound → Lands clock now unit true amount time → time ≤ now

end

variable {Time : Type} {clock : Clock Time} {now time : Time} {unit : List Char} {minus : Bool} {amount : Nat}

theorem lands_iff (listed : unit ∈ compactUnits) : Lands clock now unit minus amount time ↔
    amount ≤ maxInt ∧ applyDuration clock now (if minus then -(amount : Int) else amount) unit = time := by
  constructor
  · rintro ⟨s, sign, digits, groups, signed, rfl, parsed⟩
    rw [parseCompactDuration, groups] at parsed
    by_cases fits : numeral digits ≤ maxInt
    · simp only [atoi, if_pos fits, signed, Except.ok.injEq] at parsed
      exact ⟨fits, parsed⟩
    · simp [atoi, fits] at parsed
  · rintro ⟨fits, rfl⟩
    have decimal : ∀ char ∈ Nat.toDigits 10 amount, isDecimal char = true := fun char member =>
      Nat.isDigit_of_mem_toDigits (by decide) (by decide) member
    have number : numeral (Nat.toDigits 10 amount) = amount := Nat.ofDigitChars_toDigits (by decide) (by decide)
    have ends : ∀ unit ∈ compactUnits, ∀ char ∈ unit.head?, isDecimal char = false := by
      simp [compactUnits, isDecimal]
    have isSign : isSignChar (if minus then '-' else '+') = true := by cases minus <;> rfl
    have groups := compactDurationRe_signed isSign decimal Nat.toDigits_ne_nil (ends unit listed)
    rw [if_pos listed] at groups
    have signed : [if minus then '-' else '+'] = ['-'] ↔ minus = true := by cases minus <;> decide
    refine ⟨_, _, _, groups, signed, number, ?_⟩
    simp only [parseCompactDuration, groups, atoi, number, if_pos fits, signed]

variable [LinearOrder Time] {bound : Nat}

/-- The amounts of a unit are taken to places that wrap. -/
structure Wraps (clock : Clock Time) (now : Time) (unit : List Char) (place : Int → Time)
    (reach : Int → Int) : Prop where
  listed : unit ∈ compactUnits
  mono : StrictMonoOn place (Set.Ico (-2 ^ 63) (2 ^ 63))
  start : place (reach 0) = now
  near : -2 ^ 62 ≤ reach 0 ∧ reach 0 < 2 ^ 62
  steps : ∀ n, reach n + 16 ≤ reach (n + 1) ∧ reach (n + 1) ≤ reach n + 2 ^ 61
  lands : ∀ n : Int, n.natAbs ≤ 2 ^ 60 → applyDuration clock now n unit = place (wrap (reach n))

namespace Wraps
variable {place : Int → Time} {reach : Int → Int} (wraps : Wraps clock now unit place reach)
include wraps

theorem ordered {n more : Int} (less : n ≤ more) : reach n + 16 * (more - n) ≤ reach more := by
  have grows (more : Nat) : reach n + 16 * more ≤ reach (n + more) := by
    induction more with
    | zero => simp
    | succ more ih =>
      have next := wraps.steps (n + more)
      rw [Nat.cast_add, Nat.cast_one, ← add_assoc]
      omega
  have between := grows (more - n).toNat
  rwa [Int.toNat_of_nonneg (by omega), add_sub_cancel] at between

theorem forward_iff (accepted : bound ≤ maxInt) :
    Forward clock now unit bound ↔ reach bound < 2 ^ 63 := by
  have near := wraps.near
  simp only [Forward, lands_iff wraps.listed, Bool.false_eq_true, if_false]
  constructor
  · intro forward
    by_contra above
    -- the first amount past the limit is taken to a place before the start
    obtain ⟨n, within, past⟩ := Nat.exists_not_and_succ_of_not_zero_of_exists
      (p := fun n : Nat => 2 ^ 63 ≤ reach n) (by simp; omega) ⟨bound, not_lt.mp above⟩
    have less : n < bound := by
      by_contra more
      have later := wraps.ordered (Int.ofNat_le.mpr (not_lt.mp more))
      omega
    have some := wraps.ordered (Int.natCast_nonneg n)
    have next := wraps.steps n
    rw [Nat.cast_add, Nat.cast_one] at past
    have ahead := (forward (n + 1) (n + 1) _ _ le_rfl less ⟨by omega, rfl⟩ ⟨by omega, rfl⟩).1
    rw [Nat.cast_add, Nat.cast_one, wraps.lands _ (by omega), ← wraps.start, ← wrap_turn _ (-1),
      wrap_small (by omega) (by omega)] at ahead
    exact absurd (wraps.mono ⟨by omega, by omega⟩ ⟨by omega, by omega⟩ (by omega)) (not_lt.mpr ahead)
  · rintro fits amount more _ _ less within ⟨-, rfl⟩ ⟨-, rfl⟩
    have first := wraps.ordered (Int.natCast_nonneg amount)
    have between := wraps.ordered (Int.ofNat_le.mpr less)
    have last := wraps.ordered (Int.ofNat_le.mpr within)
    rw [wraps.lands _ (by omega), wraps.lands _ (by omega), wrap_small (by omega) (by omega),
      wrap_small (by omega) (by omega), ← wraps.start]
    exact ⟨wraps.mono.monotoneOn ⟨by omega, by omega⟩ ⟨by omega, by omega⟩ (by omega),
      wraps.mono.monotoneOn ⟨by omega, by omega⟩ ⟨by omega, by omega⟩ (by omega)⟩

theorem backward_iff (accepted : bound ≤ maxInt) :
    Backward clock now unit bound ↔ -2 ^ 63 ≤ reach (-bound) := by
  have near := wraps.near
  simp only [Backward, lands_iff wraps.listed, if_true]
  constructor
  · intro backward
    by_contra above
    obtain ⟨n, within, past⟩ := Nat.exists_not_and_succ_of_not_zero_of_exists
      (p := fun n : Nat => reach (-n) < -2 ^ 63) (by simp; omega) ⟨bound, not_le.mp above⟩
    have less : n < bound := by
      by_contra more
      have later := wraps.ordered (show -(n : Int) ≤ -bound by omega)
      omega
    have some := wraps.ordered (show -(n : Int) ≤ 0 by omega)
    have next := wraps.steps (-((n + 1 : Nat) : Int))
    rw [show -((n + 1 : Nat) : Int) + 1 = -n by omega] at next
    have behind := backward (n + 1) _ less ⟨by omega, rfl⟩
    rw [wraps.lands _ (by omega), ← wraps.start, ← wrap_turn _ 1, wrap_small (by omega) (by omega)] at behind
    exact absurd (wraps.mono ⟨by omega, by omega⟩ ⟨by omega, by omega⟩ (by omega)) (not_lt.mpr behind)
  · rintro fits amount _ within ⟨-, rfl⟩
    have first := wraps.ordered (show -(amount : Int) ≤ 0 by omega)
    have last := wraps.ordered (show -(bound : Int) ≤ -amount by omega)
    rw [wraps.lands _ (by omega), wrap_small (by omega) (by omega), ← wraps.start]
    exact wraps.mono.monotoneOn ⟨by omega, by omega⟩ ⟨by omega, by omega⟩ (by omega)

end Wraps

section
open Instant
variable {now : Instant} (near : now.Near)
include near

theorem timed_wraps (size : Int) (listed : unit ∈ compactUnits) (small : 16 ≤ size ∧ size ≤ 2 ^ 61)
    (moves : ∀ n, applyDuration goClock now n unit = now.add (wrap (n * size))) :
    Wraps goClock now unit now.add (· * size) := by
  refine ⟨listed, fun one first other second less => ?_, ?_, ?_, fun n => ?_, fun n _ => moves n⟩
  · show (now.add one).nanos < (now.add other).nanos
    rw [nanos_add near first.1 first.2, nanos_add near second.1 second.2]
    omega
  · apply nanos_injective
    rw [Int.zero_mul, nanos_add near (by decide) (by decide), Int.add_zero]
  · rw [Int.zero_mul]
    decide
  · rw [Int.add_mul]
    omega

theorem dated_wraps (listed : unit ∈ compactUnits ∧ unit ≠ "min".toList ∧ unit ≠ ['h'])
    (some : 0 ≤ unitMonths unit ∧ 0 ≤ unitDays unit ∧ 0 < unitMonths unit + unitDays unit ∧
      unitMonths unit + unitDays unit ≤ 12)
    (moves : ∀ n : Int, n.natAbs ≤ 2 ^ 60 → ∃ years months : Int, years.natAbs ≤ 2 ^ 60 ∧
      months.natAbs ≤ 2 ^ 60 ∧ 12 * years + months = n * unitMonths unit ∧
        applyDuration goClock now n unit = now.addDate years months (n * unitDays unit)) :
    Wraps goClock now unit now.withSec (reach now unit) := by
  have mono : StrictMonoOn now.withSec (Set.Ico (-2 ^ 63) (2 ^ 63)) := fun one first other second less => by
    show (now.withSec one).nanos < (now.withSec other).nanos
    rw [nanos, nanos, withSec_small first.1 first.2, withSec_small second.1 second.2]
    simp only [withSec]
    omega
  have read (n : Int) : reach now unit n = now.sec +
      (monthSec ((civil now.days).months + n * unitMonths unit) -
        monthSec (civil now.days).months) + 86400 * (n * unitDays unit) := by
    rw [reach, if_neg listed.2.1, if_neg listed.2.2]
  have start : reach now unit 0 = now.sec := by simp [read]
  refine ⟨listed.1, mono, ?_, start ▸ near, fun n => ?_, fun n few => ?_⟩
  · rw [start]
    exact Instant.ext (wrap_small now.range.1 now.range.2) rfl
  · have next := monthSec_add ((civil now.days).months + n * unitMonths unit) (unitMonths unit).toNat
    rw [Int.toNat_of_nonneg some.1, add_assoc, ← add_one_mul] at next
    rw [read, read, add_one_mul n (unitDays unit)]
    omega
  · obtain ⟨turns, turned⟩ := exists_turns (reach now unit n)
    obtain ⟨years, months, few, some, total, moved⟩ := moves n few
    rw [moved, turned, withSec_turn, addDate_eq near few some, total, read]

theorem exists_wraps (listed : unit ∈ compactUnits) :
    ∃ place, Wraps goClock now unit place (reach now unit) := by
  simp only [compactUnits, List.mem_cons, List.not_mem_nil, or_false] at listed
  rcases listed with rfl | rfl | rfl | rfl | rfl | rfl
  · exact ⟨_, timed_wraps near minute (by decide) (by decide) fun _ => rfl⟩
  · exact ⟨_, timed_wraps near hour (by decide) (by decide) fun _ => rfl⟩
  · exact ⟨_, dated_wraps near (by decide) (by decide) fun n few =>
      ⟨0, 0, by decide, by decide, by simp [unitMonths], by simp [applyDuration, goClock, unitDays]⟩⟩
  · refine ⟨_, dated_wraps near (by decide) (by decide) fun n few =>
      ⟨0, 0, by decide, by decide, by simp [unitMonths], ?_⟩⟩
    simp [applyDuration, goClock, unitDays, wrap_small (show -2 ^ 63 ≤ n * 7 by omega) (by omega)]
  · exact ⟨_, dated_wraps near (by decide) (by decide) fun n few =>
      ⟨0, n, by decide, few, by simp [unitMonths], by simp [applyDuration, goClock, unitDays]⟩⟩
  · exact ⟨_, dated_wraps near (by decide) (by decide) fun n few => ⟨n, 0,
      few, by decide, by simp [unitMonths, mul_comm], by simp [applyDuration, goClock, unitDays]⟩⟩

end

def newYear : Instant := .unix 1735689600

end Beads.Query
