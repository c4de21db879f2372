/-!
# Moments

Days of the calendar and times of such a day.  A time may know how far its clock is ahead of the
common one, in minutes; two such times are the same if they are the same instant.

Main statement: `Moment.same_self`, which makes `Moment.same` fit for keys.
-/

namespace Visibility

/-! ## §1 Days -/

/-- A day of the calendar. -/
structure Day where
  year : Nat
  month : Nat
  day : Nat
  deriving DecidableEq, Repr

namespace Day

/-- Whether a year has a leap day. -/
def isLeap (year : Nat) : Bool :=
  year % 4 == 0 && (year % 100 != 0 || year % 400 == 0)

/-- The number of days of a month. -/
def monthLength (year month : Nat) : Nat :=
  match month with
  | 2 => if isLeap year then 29 else 28
  | 4 | 6 | 9 | 11 => 30
  | _ => 31

/-- Whether the calendar has the day.  Its years have one to four digits and start with one. -/
def isValid (d : Day) : Bool :=
  1 ≤ d.year && d.year ≤ 9999 && 1 ≤ d.month && d.month ≤ 12 && 1 ≤ d.day &&
    d.day ≤ monthLength d.year d.month

/-- How many days the calendar has before a day. -/
def before (d : Day) : Nat :=
  let years := d.year - 1
  -- Every fourth year has a leap day, but of the full centuries only every fourth.
  let leapDays := years / 4 - years / 100 + years / 400
  let months := (List.range (d.month - 1)).map fun m => monthLength d.year (m + 1)
  years * 365 + leapDays + months.foldl (· + ·) 0 + (d.day - 1)

end Day

/-! ## §2 Times -/

/-- A time of a day.  The offset is how many minutes its clock is ahead. -/
structure Time where
  hour : Nat
  minute : Nat
  second : Nat
  microsecond : Nat
  offset : Option Int
  deriving DecidableEq, Repr

namespace Time

/-- Whether a clock shows the time; an offset is less than a day. -/
def isValid (t : Time) : Bool :=
  t.hour ≤ 23 && t.minute ≤ 59 && t.second ≤ 59 && t.microsecond ≤ 999999 &&
    t.offset.all fun minutes => minutes.natAbs < 24 * 60

end Time

/-! ## §3 Moments -/

/-- A day, or a time of a day. -/
inductive Moment where
  | day (d : Day)
  | time (d : Day) (t : Time)
  deriving DecidableEq, Repr

namespace Moment

/-- Whether there is such a moment. -/
def isValid : Moment → Bool
  | .day d => d.isValid
  | .time d t => d.isValid && t.isValid

/-- The minute of the common clock, counted from the start of the calendar, and what goes beyond it,
of a time that knows its offset. -/
def instant? : Moment → Option (Int × Nat × Nat)
  | .day _ => none
  | .time d t => t.offset.map fun offset =>
    (((d.before * 24 + t.hour) * 60 + t.minute : Nat) - offset, t.second, t.microsecond)

/-- Whether two moments are the same. -/
def same (a b : Moment) : Bool :=
  match a.instant?, b.instant? with
  | some x, some y => x == y
  | _, _ => a == b

theorem same_self (a : Moment) : a.same a = true := by
  unfold same
  cases a.instant? <;> simp

theorem same_comm (a b : Moment) : a.same b = b.same a := by
  unfold same
  cases a.instant? <;> cases b.instant? <;> simp [eq_comm, Bool.beq_eq_decide_eq]

/-! ## §4 Descriptions -/

/-- Numbers with commas between them. -/
def listed (ns : List Nat) : String :=
  String.intercalate ", " (ns.map Nat.repr)

/-- The description of an offset. -/
def describeOffset (minutes : Int) : String :=
  if minutes = 0 then "datetime.timezone.utc"
  else
    -- A clock that is behind is described as a day back and some seconds ahead.
    let days := if minutes < 0 then "days=-1, " else ""
    let seconds := (minutes * 60) % (24 * 60 * 60)
    "datetime.timezone(datetime.timedelta(" ++ days ++ "seconds=" ++ seconds.repr ++ "))"

/-- A description of a moment; seconds that are zero at the end are left out. -/
def describe : Moment → String
  | .day d => "datetime.date(" ++ listed [d.year, d.month, d.day] ++ ")"
  | .time d t =>
    let small := if t.microsecond ≠ 0 then [t.second, t.microsecond]
      else if t.second ≠ 0 then [t.second] else []
    let numbers := listed ([d.year, d.month, d.day, t.hour, t.minute] ++ small)
    let zone := t.offset.elim "" fun minutes => ", tzinfo=" ++ describeOffset minutes
    "datetime.datetime(" ++ numbers ++ zone ++ ")"

end Moment

end Visibility
