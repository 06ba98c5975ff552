import ThemePress.Text.Blank
import ThemePress.Text.Decimal
import ThemePress.Time.Instant

/-! # Reading instants

An instant is written as a date, a `T` or a space, a time and an offset from UTC, as in
`2024-05-01T08:00:00Z`. Blanks may stand before every part of the date and the time. Numbers need
not be padded, and a year with a sign may have any number of digits. Seconds may have a fraction, of
which nine digits count, and the second 60 is a leap second. The offset is `Z`, `UTC`, or hours and
minutes with a sign, with or without a colon between them. -/

namespace ThemePress.Time.Reading

open ThemePress.Text

/-- Takes something from the start of a text, or fails. -/
abbrev Taker := StateT (List Char) Option

def fail {α : Type} : Taker α :=
  fun _ => none

def require (b : Bool) : Taker Unit :=
  if b then pure () else fail

def skipBlanks : Taker Unit :=
  modify (·.dropWhile isBlank)

def isDigit (c : Char) : Bool :=
  '0' ≤ c && c ≤ '9'

/-- At most `most` digits, at least one. -/
def digits (most : Option Nat) : Taker (List Char) := do
  let s ← get
  let taken := (match most with
    | some n => s.take n
    | none => s).takeWhile isDigit
  require !taken.isEmpty
  set (s.drop taken.length)
  return taken

def valueOf (digits : List Char) : Nat :=
  digits.foldl (fun n c => n * 10 + (c.toNat - 48)) 0

/-- A number within bounds, of at most two digits. -/
def number (least most : Nat) : Taker Nat := do
  skipBlanks
  let n := valueOf (← digits (some 2))
  require (least ≤ n && n ≤ most)
  return n

/-- The given character, which blanks may precede. -/
def sign (c : Char) : Taker Unit := do
  skipBlanks
  require ((← get).head? == some c)
  modify List.tail

/-- A year: four digits at most, or any number of them behind a sign. -/
def year : Taker Int := do
  skipBlanks
  match ← get with
  | '-' :: s =>
    set s
    return -(valueOf (← digits none) : Int)
  | '+' :: s =>
    set s
    return valueOf (← digits none)
  | _ => return valueOf (← digits (some 4))

/-- A fraction of a second in nanoseconds. Digits after the ninth are passed over. -/
def fraction : Taker Nat := do
  match ← get with
  | '.' :: s =>
    set s
    let ds ← digits (some 9)
    modify (·.dropWhile isDigit)
    return valueOf ds * Nat.pow 10 (9 - ds.length)
  | _ => return 0

/-- Two digits that stand for a number up to `most`. -/
def twoDigits (most : Nat) : Taker Nat := do
  let ds := (← get).take 2
  require (ds.length == 2 && ds.all isDigit)
  modify (·.drop 2)
  require (valueOf ds ≤ most)
  return valueOf ds

/-- An offset from UTC in seconds. -/
def offset : Taker Int := do
  skipBlanks
  let s ← get
  if (s.take 3).map Char.toUpper = ['U', 'T', 'C'] then
    set (s.drop 3)
    return 0
  match s with
  | 'Z' :: r | 'z' :: r =>
    set r
    return 0
  | c :: r =>
    require (c = '+' || c = '-' || c = '\u2212')
    set r
    let hours ← twoDigits 99
    modify (·.dropWhile fun c => c = ':' || isBlank c)
    let minutes ← twoDigits 59
    let seconds : Int := hours * 3600 + minutes * 60
    require (seconds < 86400)
    return if c = '+' then seconds else -seconds
  | [] => fail

/-- The years in which instants lie. -/
def leastYear : Int := -262143
def greatestYear : Int := 262142

/-- A whole instant. -/
def instant : Taker Instant := do
  let year ← year
  sign '-'
  let month ← number 1 12
  sign '-'
  let day ← number 1 31
  let separator := (← get).head?
  require (separator == some 'T' || separator == some 't' || separator == some ' ')
  modify List.tail
  let hour ← number 0 23
  sign ':'
  let minute ← number 0 59
  sign ':'
  let second ← number 0 60
  let nanos ← fraction
  let offset ← offset
  skipBlanks
  require (← get).isEmpty
  match (⟨year, month, day⟩ : CivilDate).toDay? with
  | none => fail
  | some d =>
    let seconds := d * 86400 + hour * 3600 + minute * 60 + min second 59 - offset
    let t : Instant := ⟨seconds, nanos + if second = 60 then Instant.nanosPerSecond else 0⟩
    require (leastYear ≤ year && year ≤ greatestYear)
    require (leastYear ≤ t.date.year && t.date.year ≤ greatestYear)
    return t

end Reading

/-- The instant that a text writes. -/
def Instant.read? (text : String) : Option Instant :=
  (Reading.instant.run text.toList).map (·.1)

end ThemePress.Time
