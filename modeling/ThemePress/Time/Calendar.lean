/-! # The calendar

Days are counted from the first of January 1970 in the Gregorian calendar, which is used for all
years, before and after. `yearOf` finds the year of a day, and with it its place in the year, its
month and its place in the month. Weeks start on Monday and belong to the year of their Thursday.

The year of a day is the one whose first day is not after it and whose next first day is
(`firstDay_yearOf_le`, `lt_firstDay_yearOf`). -/

namespace ThemePress.Time

/-- The first day of a year. -/
def firstDay (year : Int) : Int :=
  365 * (year - 1970) + ((year - 1) / 4 - (year - 1) / 100 + (year - 1) / 400 - 477)

/-- Has the year a 29th of February? -/
def isLeap (year : Int) : Bool :=
  year % 4 == 0 && (year % 100 != 0 || year % 400 == 0)

/-- The year of a day: the mean length of a year gives it up to one. -/
def yearOf (day : Int) : Int :=
  let guess := 1970 + day * 400 / 146097
  if day < firstDay guess then guess - 1
  else if firstDay (guess + 1) ≤ day then guess + 1
  else guess

theorem firstDay_yearOf_le (day : Int) : firstDay (yearOf day) ≤ day := by
  unfold yearOf
  dsimp only
  split
  · simp only [firstDay] at *; omega
  · split <;> omega

theorem lt_firstDay_yearOf (day : Int) : day < firstDay (yearOf day + 1) := by
  unfold yearOf
  dsimp only
  split
  · rw [Int.sub_add_cancel]; assumption
  · split
    · simp only [firstDay] at *; omega
    · omega

theorem firstDay_succ (year : Int) :
    firstDay (year + 1) = firstDay year + if isLeap year then 366 else 365 := by
  simp only [firstDay, isLeap, Bool.and_eq_true, Bool.or_eq_true, beq_iff_eq, bne_iff_ne]
  split <;> omega

/-- The lengths of the months. -/
def monthLengths (leap : Bool) : List Nat :=
  [31, if leap then 29 else 28, 31, 30, 31, 30, 31, 31, 30, 31, 30, 31]

/-- The stretch that the place `n` falls into when stretches of the given lengths follow each other,
and its place in there. -/
def placeIn : List Nat → Nat → Nat × Nat
  | [], n => (0, n)
  | length :: rest, n =>
    if n < length then (0, n)
    else
      let p := placeIn rest (n - length)
      (p.1 + 1, p.2)

/-- A day by its year, its month and its place in the month, all counted from one but the year. -/
structure CivilDate where
  year : Int
  month : Nat
  day : Nat
  deriving DecidableEq, Repr

/-- The place of a day in its year, from zero. -/
def placeInYear (day : Int) : Nat :=
  (day - firstDay (yearOf day)).toNat

def CivilDate.ofDay (day : Int) : CivilDate :=
  let year := yearOf day
  let p := placeIn (monthLengths (isLeap year)) (placeInYear day)
  ⟨year, p.1 + 1, p.2 + 1⟩

/-- The day of a civil date, if there is one. -/
def CivilDate.toDay? (d : CivilDate) : Option Int :=
  let lengths := monthLengths (isLeap d.year)
  match lengths[d.month - 1]? with
  | some length =>
    if 1 ≤ d.month ∧ 1 ≤ d.day ∧ d.day ≤ length then
      some (firstDay d.year + ((lengths.take (d.month - 1)).foldl (· + ·) 0 + (d.day - 1) : Nat))
    else none
  | none => none

/-- The days since Monday: 1970 began on a Thursday. -/
def weekdayOf (day : Int) : Nat :=
  ((day + 3) % 7).toNat

/-- The number of the week of a day: the place of its Thursday among those of the year. -/
def weekOf (day : Int) : Nat :=
  placeInYear (day - weekdayOf day + 3) / 7 + 1

end ThemePress.Time
