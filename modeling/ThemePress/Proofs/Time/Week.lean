import ThemePress.Proofs.Text.Decimal
import ThemePress.Proofs.Time.Format

/-! # Weeks and years

A week belongs to the year of its Thursday (`weekYear`), and the weeks of a year are counted from
its first Thursday (`week_iff`). So the year of a week, its number and the day of the week name one
day (`eq_of_week_date`).

The year of the day itself is another one on up to three days at either end of a year
(`weekYear_eq_iff`). With that year in its place, two days of one year have the same number and the
same day of the week if all the weeks of a year lie between them (`same_label_iff`). -/

namespace ThemePress.Time

open ThemePress.Text.Decimal

variable {d e : Int}

/-! ### Years -/

theorem firstDay_lt_succ (year : Int) :
    firstDay year + 365 ≤ firstDay (year + 1) ∧ firstDay (year + 1) ≤ firstDay year + 366 := by
  rw [firstDay_succ]
  split <;> omega

theorem firstDay_mono {year year' : Int} (h : year ≤ year') : firstDay year ≤ firstDay year' := by
  simp only [firstDay]
  omega

theorem yearOf_eq_iff {year : Int} :
    yearOf d = year ↔ firstDay year ≤ d ∧ d < firstDay (year + 1) := by
  constructor
  · rintro rfl
    exact ⟨firstDay_yearOf_le d, lt_firstDay_yearOf d⟩
  · rintro ⟨hle, hlt⟩
    have hle' := firstDay_yearOf_le d
    have hlt' := lt_firstDay_yearOf d
    rcases Int.lt_trichotomy (yearOf d) year with h | h | h
    · have := firstDay_mono (show yearOf d + 1 ≤ year from h)
      omega
    · exact h
    · have := firstDay_mono (show year + 1 ≤ yearOf d from h)
      omega

/-! ### Weeks -/

/-- The Thursday of the week of a day. -/
def thursday (day : Int) : Int :=
  day - weekdayOf day + 3

/-- The year that the week of a day belongs to. -/
def weekYear (day : Int) : Int :=
  yearOf (thursday day)

/-- The number of weeks of a year, the last of which has the 28th of December in it. -/
def weeksIn (year : Int) : Nat :=
  weekOf (firstDay (year + 1) - 4)

theorem weekdayOf_eq (day : Int) : (weekdayOf day : Int) = (day + 3) % 7 :=
  Int.toNat_of_nonneg (by omega)

theorem weekOf_eq (day : Int) :
    (weekOf day : Int) = (thursday day - firstDay (weekYear day)) / 7 + 1 := by
  have hle := firstDay_yearOf_le (thursday day)
  have hplace : weekOf day = placeInYear (thursday day) / 7 + 1 := rfl
  rw [hplace, placeInYear, weekYear]
  omega

/-- The last Thursday of a year is in its last week. -/
theorem weeksIn_eq (year : Int) :
    (weeksIn year : Int) =
      ((firstDay (year + 1) - 1) / 7 * 7 - firstDay year) / 7 + 1 := by
  have hlength := firstDay_lt_succ year
  have hday := weekdayOf_eq (firstDay (year + 1) - 4)
  have hthursday : thursday (firstDay (year + 1) - 4) = (firstDay (year + 1) - 1) / 7 * 7 := by
    unfold thursday
    omega
  have hyear : weekYear (firstDay (year + 1) - 4) = year := by
    rw [weekYear, hthursday, yearOf_eq_iff]
    omega
  rw [weeksIn, weekOf_eq, hyear, hthursday]

theorem weeksIn_bounds (year : Int) : 52 ≤ weeksIn year ∧ weeksIn year ≤ 53 := by
  have hlength := firstDay_lt_succ year
  have hweeks := weeksIn_eq year
  omega

/-- The Thursday of the first week of a year. -/
def firstThursday (year : Int) : Int :=
  (firstDay year + 6) / 7 * 7

theorem firstThursday_succ (year : Int) :
    firstThursday (year + 1) = firstThursday year + 7 * weeksIn year := by
  have hlength := firstDay_lt_succ year
  rw [weeksIn_eq]
  unfold firstThursday
  omega

theorem firstThursday_mono {year year' : Int} (h : year ≤ year') :
    firstThursday year ≤ firstThursday year' := by
  have := firstDay_mono h
  unfold firstThursday
  omega

/-- **The weeks of a year are counted from its first Thursday.** -/
theorem week_iff {day year : Int} {week : Nat} :
    weekYear day = year ∧ weekOf day = week ↔
      1 ≤ week ∧ week ≤ weeksIn year ∧ thursday day = firstThursday year + 7 * (week - 1) := by
  have hlength := firstDay_lt_succ year
  have hweeks := weeksIn_eq year
  have hweek := weekOf_eq day
  have hday := weekdayOf_eq day
  have hthursday : thursday day % 7 = 0 := by
    unfold thursday
    omega
  constructor
  · rintro ⟨hyear, rfl⟩
    obtain ⟨hfirst, hlast⟩ := yearOf_eq_iff.1 hyear
    rw [hyear] at hweek
    unfold firstThursday
    omega
  · rintro ⟨hpos, hle, heq⟩
    unfold firstThursday at heq
    have hyear : weekYear day = year := yearOf_eq_iff.2 (by omega)
    rw [hyear] at hweek
    exact ⟨hyear, by omega⟩

/-- The Thursday of a week, by its year and its number. -/
theorem thursday_eq (day : Int) :
    thursday day = firstThursday (weekYear day) + 7 * (weekOf day - 1) :=
  (week_iff.1 ⟨rfl, rfl⟩).2.2

theorem weekOf_le (day : Int) : weekOf day ≤ 53 :=
  (week_iff.1 ⟨rfl, rfl⟩).2.1.trans (weeksIn_bounds _).2

theorem thursday_sub (hday : weekdayOf d = weekdayOf e) : thursday e - thursday d = e - d := by
  unfold thursday
  omega

/-- **The year of a week, its number and the day of the week name one day.** -/
theorem eq_of_week_date (hyear : weekYear d = weekYear e) (hweek : weekOf d = weekOf e)
    (hday : weekdayOf d = weekdayOf e) : d = e := by
  have hsub := thursday_sub hday
  have hd := thursday_eq d
  rw [hyear, hweek, ← thursday_eq] at hd
  omega

/-! ### The year of a week and the year of its day -/

/-- The days of the year that lie behind a day. -/
def daysBehind (day : Int) : Nat :=
  (firstDay (yearOf day + 1) - 1 - day).toNat

/-- A week belongs to the year of its day except on a few days at either end of the year. -/
theorem weekYear_eq_iff (day : Int) : weekYear day = yearOf day ↔
    weekdayOf day ≤ placeInYear day + 3 ∧ 3 ≤ weekdayOf day + daysBehind day := by
  have hfirst := firstDay_yearOf_le day
  have hlast := lt_firstDay_yearOf day
  rw [weekYear, yearOf_eq_iff]
  unfold thursday placeInYear daysBehind
  omega

/-- On these days it is the year before or the year behind. -/
theorem weekYear_near (day : Int) :
    yearOf day - 1 ≤ weekYear day ∧ weekYear day ≤ yearOf day + 1 := by
  have hday := weekdayOf_eq day
  have hfirst := firstDay_yearOf_le day
  have hlast := lt_firstDay_yearOf day
  obtain ⟨hfirst', hlast'⟩ := yearOf_eq_iff.1 (rfl : weekYear day = _)
  unfold thursday at hfirst' hlast'
  constructor
  · by_contra h
    have hmono : firstDay (weekYear day + 1) ≤ firstDay (yearOf day - 1) :=
      firstDay_mono (by omega)
    have hlength := firstDay_lt_succ (yearOf day - 1)
    rw [Int.sub_add_cancel] at hlength
    omega
  · by_contra h
    have hmono : firstDay (yearOf day + 1 + 1) ≤ firstDay (weekYear day) :=
      firstDay_mono (by omega)
    have hlength := firstDay_lt_succ (yearOf day + 1)
    omega

/-! ### Days with the same label -/

/-- Two days of one year that are 52 weeks apart, where the year that the week of the first belongs
to has no more weeks. -/
structure Twins (d e : Int) : Prop where
  apart : e = d + 364
  year_eq : yearOf d = yearOf e
  weeks : weeksIn (weekYear d) = 52

/-- Of two days of one year with the same label the later one is a twin: its week belongs to the
next year, and so all weeks of the year before lie between them. -/
theorem twins_of_lt (hlt : d < e) (hyear : yearOf d = yearOf e) (hweek : weekOf d = weekOf e)
    (hday : weekdayOf d = weekdayOf e) : Twins d e := by
  have hsub := thursday_sub hday
  have hd := thursday_eq d
  have he := thursday_eq e
  rw [← hweek] at he
  have hshort : e - d < 366 := by
    have hfirst := firstDay_yearOf_le d
    have hlast := lt_firstDay_yearOf e
    have hlength := firstDay_lt_succ (yearOf d)
    rw [← hyear] at hlast
    omega
  have hnext := firstThursday_succ (weekYear d)
  have hbounds := weeksIn_bounds (weekYear d)
  rcases lt_trichotomy (weekYear e) (weekYear d + 1) with h | h | h
  · have := firstThursday_mono (show weekYear e ≤ weekYear d by omega)
    omega
  · rw [h] at he
    exact ⟨by omega, hyear, by omega⟩
  · have hmono := firstThursday_mono (show weekYear d + 1 + 1 ≤ weekYear e by omega)
    have hnext' := firstThursday_succ (weekYear d + 1)
    have hbounds' := weeksIn_bounds (weekYear d + 1)
    omega

theorem Twins.same_label (h : Twins d e) : weekOf d = weekOf e ∧ weekdayOf d = weekdayOf e := by
  obtain ⟨hapart, -, hweeks⟩ := h
  have hday : weekdayOf d = weekdayOf e := by
    have hd := weekdayOf_eq d
    have he := weekdayOf_eq e
    omega
  obtain ⟨hpos, hle, hd⟩ := week_iff.1 ⟨(rfl : weekYear d = _), (rfl : weekOf d = _)⟩
  have hsub := thursday_sub hday
  have hnext := firstThursday_succ (weekYear d)
  have hbounds := weeksIn_bounds (weekYear d + 1)
  have he : weekYear e = weekYear d + 1 ∧ weekOf e = weekOf d :=
    week_iff.2 ⟨hpos, by omega, by omega⟩
  exact ⟨he.2.symm, hday⟩

/-- The year of a day, the number of its week and the day of the week leave it open which of two
twins is meant. -/
theorem same_label_iff :
    (yearOf d = yearOf e ∧ weekOf d = weekOf e ∧ weekdayOf d = weekdayOf e) ↔
      d = e ∨ Twins d e ∨ Twins e d := by
  constructor
  · rintro ⟨hyear, hweek, hday⟩
    rcases Int.lt_trichotomy d e with h | h | h
    · exact .inr (.inl (twins_of_lt h hyear hweek hday))
    · exact .inl h
    · exact .inr (.inr (twins_of_lt h hyear.symm hweek.symm hday.symm))
  · rintro (rfl | h | h)
    · exact ⟨rfl, rfl, rfl⟩
    · exact ⟨h.year_eq, h.same_label⟩
    · exact ⟨h.year_eq.symm, h.same_label.1.symm, h.same_label.2.symm⟩

/-! ### Labels as texts -/

namespace Instant

open Format (render render_of_token render_of_no_token render_closed)

variable {t u : Instant}

/-- The number and the day of a week. -/
def weekText (t : Instant) : String :=
  padded 2 (weekOf t.day) ++ ("-" ++ toString (weekdayOf t.day + 1))

theorem format_weekLabel (t : Instant) :
    t.format "GGGG-[W]WW-E" = toString (yearOf t.day) ++ ("-W" ++ t.weekText) := by
  have hyear : Format.token? ['G', 'G', 'G', 'G', '-', '[', 'W', ']', 'W', 'W', '-', 'E'] =
      some (Format.year, ['-', '[', 'W', ']', 'W', 'W', '-', 'E']) := rfl
  have hweek : Format.token? ['W', 'W', '-', 'E'] =
      some (fun t => padded 2 (weekOf t.day), ['-', 'E']) := rfl
  have hday : Format.token? ['E'] = some (fun t => toString (weekdayOf t.day + 1), []) := rfl
  have hbracket : ∀ rest, render t ('[' :: 'W' :: ']' :: rest) = 'W' :: render t rest :=
    fun rest => @render_closed t ['W'] rest (by decide)
  have hrender : render t "GGGG-[W]WW-E".toList = (toString (yearOf t.day)).toList ++
      '-' :: 'W' :: ((padded 2 (weekOf t.day)).toList ++
        '-' :: (toString (weekdayOf t.day + 1)).toList) := by
    change render t ['G', 'G', 'G', 'G', '-', '[', 'W', ']', 'W', 'W', '-', 'E'] = _
    rw [render_of_token (by decide) hyear, render_of_no_token (by decide) rfl, hbracket,
      render_of_token (by decide) hweek, render_of_no_token (by decide) rfl,
      render_of_token (by decide) hday, render, List.append_nil]
    rfl
  have hbar : "-".toList = ['-'] := rfl
  have hmark : "-W".toList = ['-', 'W'] := rfl
  rw [format, hrender, weekText, ← String.toList_inj, String.toList_ofList]
  simp only [String.toList_append, hbar, hmark, List.cons_append, List.nil_append]

theorem weekText_inj : t.weekText = u.weekText ↔
    weekOf t.day = weekOf u.day ∧ weekdayOf t.day = weekdayOf u.day := by
  have hlength : ∀ t : Instant, (padded 2 (weekOf t.day)).toList.length = 2 := fun t => by
    rw [String.length_toList]
    exact length_padded (by decide) ((weekOf_le t.day).trans_lt (by decide))
  constructor
  · intro h
    have hlist := String.toList_inj.2 h
    simp only [weekText, String.toList_append] at hlist
    obtain ⟨hweek, hday⟩ := List.append_inj hlist ((hlength t).trans (hlength u).symm)
    have hday' := List.append_cancel_left hday
    have hnumber := toString_inj.1 (String.toList_inj.1 hday')
    exact ⟨padded_inj.1 (String.toList_inj.1 hweek), by omega⟩
  · rintro ⟨hweek, hday⟩
    rw [weekText, weekText, hweek, hday]

theorem toString_year {year : Int} (h : 0 ≤ year) : toString year = toString year.toNat := by
  obtain ⟨n, rfl⟩ := Int.eq_ofNat_of_zero_le h
  rfl

theorem format_year (t : Instant) : t.format "GGGG" = toString (yearOf t.day) :=
  Format.format_token (List.mem_of_getElem? (rfl : Format.tokens[5]? = _)) t

theorem format_shortYear (t : Instant) :
    t.format "GG" = padded 2 (yearOf t.day % 100).toNat :=
  Format.format_token (List.mem_of_getElem? (rfl : Format.tokens[16]? = _)) t

/-- Years from zero on are written in digits, so that a label shows where its year ends. -/
theorem format_weekLabel_inj (ht : 0 ≤ yearOf t.day) (hu : 0 ≤ yearOf u.day) :
    t.format "GGGG-[W]WW-E" = u.format "GGGG-[W]WW-E" ↔
      yearOf t.day = yearOf u.day ∧ weekOf t.day = weekOf u.day ∧
        weekdayOf t.day = weekdayOf u.day := by
  have hbreaks : ∀ t : Instant, Breaks ("-W" ++ t.weekText) := fun t => by
    rw [Breaks, String.toList_append]
    rfl
  rw [format_weekLabel, format_weekLabel, toString_year ht, toString_year hu,
    toString_append_inj (hbreaks t) (hbreaks u), String.append_right_inj, weekText_inj]
  exact and_congr_left fun _ => by omega

/-- **Two days have the same week label just when they are twins.** The label has the year of the
day in it where the year of the week is meant. So the two days of a pair of twins share one, and
`GGGG` and `GG` are the year of the week except on the days at the ends of a year whose week belongs
to another one. With the year of the week the label names one day. -/
theorem same_week_label_iff (ht : 1000 ≤ t.date.year ∧ t.date.year ≤ 9999)
    (hu : 1000 ≤ u.date.year ∧ u.date.year ≤ 9999) :
    (t.format "GGGG-[W]WW-E" = u.format "GGGG-[W]WW-E" ↔
      t.day = u.day ∨ Twins t.day u.day ∨ Twins u.day t.day) ∧
    (t.format "GGGG" = toString (weekYear t.day) ↔
      weekdayOf t.day ≤ placeInYear t.day + 3 ∧ 3 ≤ weekdayOf t.day + daysBehind t.day) ∧
    (t.format "GG" = padded 2 (weekYear t.day % 100).toNat ↔
      weekdayOf t.day ≤ placeInYear t.day + 3 ∧ 3 ≤ weekdayOf t.day + daysBehind t.day) ∧
    (weekYear t.day = weekYear u.day ∧ weekOf t.day = weekOf u.day ∧
      weekdayOf t.day = weekdayOf u.day ↔ t.day = u.day) := by
  have hyear : 1000 ≤ yearOf t.day := ht.1
  have hyear' : 1000 ≤ yearOf u.day := hu.1
  have hnear := weekYear_near t.day
  refine ⟨?_, ?_, ?_, fun h => eq_of_week_date h.1 h.2.1 h.2.2, fun h => h ▸ ⟨rfl, rfl, rfl⟩⟩
  · rw [format_weekLabel_inj (by omega) (by omega), same_label_iff]
  · rw [format_year, toString_year (by omega), toString_year (by omega), toString_inj,
      ← weekYear_eq_iff]
    omega
  · rw [format_shortYear, padded_inj, ← weekYear_eq_iff]
    omega

/-- A year of 53 weeks has no twins on its first day. -/
theorem same_week_label_iff_in_long_year :
    let newYear : Instant := ⟨1577836800, 0⟩
    let later : Instant := ⟨1609286400, 0⟩
    later.day = newYear.day + 364 ∧
      newYear.format "GGGG-[W]WW-E" ≠ later.format "GGGG-[W]WW-E" := by
  intro newYear later
  obtain ⟨hlabel, -⟩ := @same_week_label_iff newYear later (by decide) (by decide)
  have hday : newYear.day ≠ later.day := by decide
  have hweeks : weeksIn (weekYear newYear.day) ≠ 52 := by decide
  have hapart : newYear.day ≠ later.day + 364 := by decide
  refine ⟨by decide, fun h => ?_⟩
  rcases hlabel.1 h with h | h | h
  · exact hday h
  · exact hweeks h.weeks
  · exact hapart h.apart

/-- **Two Mondays of 2018 have one label.** The later one is in the first week of 2019. -/
theorem week_label_of_two_days :
    let first : Instant := ⟨1514764800, 0⟩
    let last : Instant := ⟨1546214400, 0⟩
    first.format "GGGG-[W]WW-E" = "2018-W01-1" ∧ last.format "GGGG-[W]WW-E" = "2018-W01-1" ∧
      first.date.year = 2018 ∧ last.date.year = 2018 ∧ first.day ≠ last.day ∧
      weekYear last.day = 2019 := by
  intro first last
  refine ⟨?_, ?_, by decide, by decide, by decide, by decide⟩
  · rw [format_weekLabel]
    decide +kernel
  · rw [format_weekLabel]
    decide +kernel

end Instant

end ThemePress.Time
