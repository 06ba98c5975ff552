import ThemePress.Time.Calendar

/-! # Instants

An instant is a number of seconds since the start of 1970 in UTC and a fraction of a second in
nanoseconds. Within a leap second the seconds stand still and the fraction goes on to two thousand
million. -/

namespace ThemePress.Time

structure Instant where
  seconds : Int
  nanos : Nat
  deriving DecidableEq, Repr, Inhabited

namespace Instant

/-- The order of instants. -/
def lt (a b : Instant) : Prop :=
  a.seconds < b.seconds ∨ a.seconds = b.seconds ∧ a.nanos < b.nanos

instance (a b : Instant) : Decidable (lt a b) := by
  unfold lt; infer_instance

/-- The day of an instant. -/
def day (t : Instant) : Int :=
  t.seconds / 86400

/-- The seconds since midnight. -/
def secondOfDay (t : Instant) : Nat :=
  (t.seconds % 86400).toNat

def date (t : Instant) : CivilDate :=
  CivilDate.ofDay t.day

def hour (t : Instant) : Nat :=
  t.secondOfDay / 3600

def minute (t : Instant) : Nat :=
  t.secondOfDay / 60 % 60

def second (t : Instant) : Nat :=
  t.secondOfDay % 60

/-- The milliseconds of the fraction, up to 1999 within a leap second. -/
def millis (t : Instant) : Nat :=
  t.nanos / 1000000

/-- The length of a second in nanoseconds. -/
def nanosPerSecond : Nat := 1000000000

/-- Does the instant fall within a leap second? -/
def inLeapSecond (t : Instant) : Bool :=
  nanosPerSecond ≤ t.nanos

/-- The nanoseconds from `earlier` to `later`. A leap second is counted when one of the two falls
into it and the other stands on a later second of the day. -/
def nanosBetween (earlier later : Instant) : Int :=
  let leap : Int :=
    if earlier.secondOfDay < later.secondOfDay ∧ earlier.inLeapSecond then 1
    else if later.secondOfDay < earlier.secondOfDay ∧ later.inLeapSecond then -1
    else 0
  (later.seconds - earlier.seconds + leap) * nanosPerSecond +
    ((later.nanos : Int) - earlier.nanos)

end Instant

end ThemePress.Time
