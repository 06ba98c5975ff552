import ThemePress.Text.Decimal
import ThemePress.Time.Instant

/-! # Date formats

A format is text in which tokens such as `YYYY` or `Do` stand for parts of an instant. Text in
square brackets is copied without them, and what is no token stands for itself. Where several
tokens fit, the longest is meant; the table lists longer ones first. -/

namespace ThemePress.Time.Format

open ThemePress.Text.Decimal (padded)

def monthNames : List String :=
  ["January", "February", "March", "April", "May", "June", "July", "August", "September",
    "October", "November", "December"]

def weekdayNames : List String :=
  ["Monday", "Tuesday", "Wednesday", "Thursday", "Friday", "Saturday", "Sunday"]

/-- The first three letters of a name. -/
def short (name : String) : String :=
  String.ofList (name.toList.take 3)

def monthName (t : Instant) : String :=
  monthNames.getD (t.date.month - 1) ""

def weekdayName (t : Instant) : String :=
  weekdayNames.getD (weekdayOf t.day) ""

/-- The hour on a clock face, where noon and midnight are twelve. -/
def clockHour (t : Instant) : Nat :=
  if t.hour % 12 = 0 then 12 else t.hour % 12

/-- A day of the month with the ending of its ordinal. -/
def ordinal (day : Nat) : String :=
  let ending :=
    match day with
    | 1 | 21 | 31 => "st"
    | 2 | 22 => "nd"
    | 3 | 23 => "rd"
    | _ => "th"
  toString day ++ ending

def year (t : Instant) : String :=
  toString t.date.year

/-- The last two digits of the year. -/
def shortYear (t : Instant) : String :=
  padded 2 (t.date.year % 100).toNat

/-- The tokens with what they stand for. -/
def tokens : List (String × (Instant → String)) :=
  [("YYYY", year),
    ("MMMM", monthName),
    ("DDDD", fun t => padded 3 (placeInYear t.day + 1)),
    ("dddd", weekdayName),
    ("gggg", year),
    ("GGGG", year),
    ("MMM", fun t => short (monthName t)),
    ("DDD", fun t => toString (placeInYear t.day + 1)),
    ("ddd", fun t => short (weekdayName t)),
    ("SSS", fun t => padded 3 t.millis),
    ("YY", shortYear),
    ("MM", fun t => padded 2 t.date.month),
    ("Do", fun t => ordinal t.date.day),
    ("DD", fun t => padded 2 t.date.day),
    ("gg", shortYear),
    ("ww", fun t => padded 2 (weekOf t.day)),
    ("GG", shortYear),
    ("WW", fun t => padded 2 (weekOf t.day)),
    ("HH", fun t => padded 2 t.hour),
    ("hh", fun t => padded 2 (clockHour t)),
    ("mm", fun t => padded 2 t.minute),
    ("ss", fun t => padded 2 t.second),
    ("SS", fun t => padded 2 (t.millis / 10)),
    ("ZZ", fun _ => "+0000"),
    ("Q", fun t => toString ((t.date.month - 1) / 3 + 1)),
    ("M", fun t => toString t.date.month),
    ("D", fun t => toString t.date.day),
    ("X", fun t => toString t.seconds),
    ("w", fun t => toString (weekOf t.day)),
    ("e", fun t => toString ((weekdayOf t.day + 1) % 7)),
    ("W", fun t => toString (weekOf t.day)),
    ("E", fun t => toString (weekdayOf t.day + 1)),
    ("H", fun t => toString t.hour),
    ("h", fun t => toString (clockHour t)),
    ("a", fun t => if t.hour < 12 then "am" else "pm"),
    ("A", fun t => if t.hour < 12 then "AM" else "PM"),
    ("m", fun t => toString t.minute),
    ("s", fun t => toString t.second),
    ("S", fun t => toString (t.millis / 100)),
    ("Z", fun _ => "+00:00")]

theorem length_pos_of_mem_tokens : ∀ p ∈ tokens, 0 < p.1.length := by
  decide

/-- The first token that a format starts with, and the format behind it. -/
def token? (s : List Char) : Option ((Instant → String) × List Char) :=
  (tokens.find? fun (name, _) => name.toList.isPrefixOf s).map fun (name, value) =>
    (value, s.drop name.length)

theorem token?_lt {s r : List Char} {f : Instant → String} (h : token? s = some (f, r)) :
    r.length < s.length := by
  obtain ⟨⟨name, value⟩, hf, e⟩ := Option.map_eq_some_iff.1 h
  simp only [Prod.mk.injEq] at e
  obtain ⟨_, rfl⟩ := e
  have hp := List.find?_some hf
  have hn : 0 < name.length := length_pos_of_mem_tokens _ (List.mem_of_find?_eq_some hf)
  have hl := (List.isPrefixOf_iff_prefix.1 hp).length_le
  rw [String.length_toList] at hl
  simp only [List.length_drop]
  omega

/-- Writes an instant in a format. -/
def render (t : Instant) (s : List Char) : List Char :=
  match s with
  | [] => []
  | '[' :: s =>
    match h : s.dropWhile (· != ']') with
    | [] => s
    | _ :: rest =>
      have : rest.length < s.length := by
        have := (List.dropWhile_sublist (l := s) (· != ']')).length_le
        rw [h] at this
        simp only [List.length_cons] at this
        omega
      s.takeWhile (· != ']') ++ render t rest
  | c :: s =>
    match h : token? (c :: s) with
    | some (value, rest) =>
      have : rest.length < s.length + 1 := token?_lt h
      (value t).toList ++ render t rest
    | none => c :: render t s
termination_by s.length
decreasing_by
  all_goals simp only [List.length_cons]
  all_goals omega

/-- The format of a date when none is given. -/
def standard : String := "MMM Do, YYYY"

end Format

/-- The instant in the given format. -/
def Instant.format (t : Instant) (format : String) : String :=
  String.ofList (Format.render t format.toList)

end ThemePress.Time
