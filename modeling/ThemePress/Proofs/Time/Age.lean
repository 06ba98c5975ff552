import ThemePress.Proofs.Text.Decimal
import ThemePress.Time.Age

/-! # The order of ages

The age of an instant is a *phrase*: either just now, or a number of minutes, hours, days, months or
years, where a number of one is put in words. Phrases have an order, first by their units and then
by their numbers, and a phrase in range can be told from its text (`text_inj`).

An age is told by the whole seconds that have passed (`age_eq`), and more seconds never make a
smaller phrase (`ofSeconds_mono`): within a unit the number grows with the seconds (`count_mono`),
and every unit takes over from a smaller one. -/

namespace ThemePress.Time

open ThemePress.Text.Decimal

/-! ### Phrases -/

/-- The units of an age. -/
inductive AgeUnit where
  | minute
  | hour
  | day
  | month
  | year
  deriving DecidableEq, Repr

namespace AgeUnit

def rank : AgeUnit → Nat
  | minute => 0
  | hour => 1
  | day => 2
  | month => 3
  | year => 4

/-- The greatest number of the unit, if there is one. -/
def most : AgeUnit → Option Nat
  | minute => some 59
  | hour => some 23
  | day => some 24
  | month => some 11
  | year => none

/-- One of the unit, in words. -/
def one : AgeUnit → String
  | minute => "a minute ago"
  | hour => "an hour ago"
  | day => "a day ago"
  | month => "a month ago"
  | year => "a year ago"

/-- What is put behind a greater number of the unit. -/
def many : AgeUnit → String
  | minute => " minutes ago"
  | hour => " hours ago"
  | day => " days ago"
  | month => " months ago"
  | year => " years ago"

end AgeUnit

/-- An age as it is put in words. -/
inductive Phrase where
  | justNow
  | ago (unit : AgeUnit) (count : Nat)
  deriving DecidableEq, Repr

namespace Phrase

def text : Phrase → String
  | justNow => "a few seconds ago"
  | ago unit count => if count = 1 then unit.one else toString count ++ unit.many

theorem text_one (unit : AgeUnit) {count : Nat} (h : count = 1) :
    (ago unit count).text = unit.one :=
  if_pos h

theorem text_many (unit : AgeUnit) {count : Nat} {number : Int} (h : count ≠ 1)
    (hnumber : number = count) : (ago unit count).text = toString number ++ unit.many := by
  rw [hnumber]
  exact if_neg h

/-- The numbers from one to the greatest of their unit. -/
def InRange : Phrase → Prop
  | justNow => True
  | ago unit count => 1 ≤ count ∧ ∀ most ∈ unit.most, count ≤ most

/-- Phrases by the age they name. -/
instance : LE Phrase where
  le
    | justNow, _ => True
    | ago _ _, justNow => False
    | ago unit count, ago unit' count' =>
      unit.rank < unit'.rank ∨ unit = unit' ∧ count ≤ count'

theorem justNow_le (p : Phrase) : justNow ≤ p :=
  trivial

theorem ago_le_ago {unit unit' : AgeUnit} {count count' : Nat} :
    ago unit count ≤ ago unit' count' ↔
      unit.rank < unit'.rank ∨ unit = unit' ∧ count ≤ count' :=
  Iff.rfl

theorem breaks_one (unit : AgeUnit) : Breaks unit.one := by
  cases unit <;> decide

theorem breaks_many (unit : AgeUnit) : Breaks unit.many := by
  cases unit <;> decide

/-- No two phrases have the same text. -/
theorem text_inj {p q : Phrase} (h : p.text = q.text) : p = q := by
  have hjust : ∀ unit : AgeUnit, "a few seconds ago" ≠ unit.one := by
    intro unit
    cases unit <;> decide
  have hone : ∀ unit unit' : AgeUnit, unit.one = unit'.one → unit = unit' := by
    intro unit unit'
    cases unit <;> cases unit' <;> decide
  have hmany : ∀ unit unit' : AgeUnit, unit.many = unit'.many → unit = unit' := by
    intro unit unit'
    cases unit <;> cases unit' <;> decide
  have hbreaks : Breaks "a few seconds ago" := by decide
  -- A number in digits stands only in front of its unit, and words begin with no digit.
  cases p with
  | justNow =>
    cases q with
    | justNow => rfl
    | ago unit count =>
      simp only [text] at h
      split_ifs at h
      · exact absurd h (hjust unit)
      · exact absurd h.symm (toString_append_ne hbreaks)
  | ago unit count =>
    cases q with
    | justNow =>
      simp only [text] at h
      split_ifs at h
      · exact absurd h.symm (hjust unit)
      · exact absurd h (toString_append_ne hbreaks)
    | ago unit' count' =>
      simp only [text] at h
      split_ifs at h with hc hc'
      · rw [hone _ _ h, hc, hc']
      · exact absurd h.symm (toString_append_ne (breaks_one unit))
      · exact absurd h (toString_append_ne (breaks_one unit'))
      · obtain ⟨hcount, hunit⟩ := (toString_append_inj (breaks_many _) (breaks_many _)).1 h
        rw [hcount, hmany _ _ hunit]

end Phrase

/-! ### From seconds to phrases -/

namespace AgeUnit

/-- The largest unit for an age of a minute or more. -/
def largest (seconds : Int) : AgeUnit :=
  if seconds < 3600 then minute
  else if seconds < 86400 then hour
  else if seconds < 25 * 86400 then day
  else if seconds < 345 * 86400 then month
  else year

/-- The number of the unit that is named. A month goes on for 45 days and a year for 548. -/
def count (seconds : Int) : AgeUnit → Nat
  | minute => (seconds / 60).toNat
  | hour => (seconds / 3600).toNat
  | day => (seconds / 86400).toNat
  | month => if seconds / 86400 < 45 then 1 else max 2 (seconds / 86400 / 30).toNat
  | year => if seconds / 86400 < 548 then 1 else max 2 (seconds / 86400 / 365).toNat

variable {s t : Int}

/-- The seconds for which the unit is the largest. -/
def Covers (s : Int) : AgeUnit → Prop
  | minute => 60 ≤ s ∧ s < 3600
  | hour => 3600 ≤ s ∧ s < 86400
  | day => 86400 ≤ s ∧ s < 25 * 86400
  | month => 25 * 86400 ≤ s ∧ s < 345 * 86400
  | year => 345 * 86400 ≤ s

theorem largest_eq {unit : AgeUnit} (h : unit.Covers s) : largest s = unit := by
  unfold largest
  cases unit with
  | minute => exact if_pos h.2
  | hour =>
    obtain ⟨hleast, hnext⟩ : 3600 ≤ s ∧ s < 86400 := h
    rw [if_neg (by omega), if_pos hnext]
  | day =>
    obtain ⟨hleast, hnext⟩ : 86400 ≤ s ∧ s < 25 * 86400 := h
    rw [if_neg (by omega), if_neg (by omega), if_pos hnext]
  | month =>
    obtain ⟨hleast, hnext⟩ : 25 * 86400 ≤ s ∧ s < 345 * 86400 := h
    rw [if_neg (by omega), if_neg (by omega), if_neg (by omega), if_pos hnext]
  | year =>
    have hleast : 345 * 86400 ≤ s := h
    rw [if_neg (by omega), if_neg (by omega), if_neg (by omega), if_neg (by omega)]

theorem exists_covers (h : 60 ≤ s) : ∃ unit : AgeUnit, unit.Covers s := by
  by_cases hminute : s < 3600
  · exact ⟨minute, h, hminute⟩
  by_cases hhour : s < 86400
  · exact ⟨hour, by omega, hhour⟩
  by_cases hday : s < 25 * 86400
  · exact ⟨day, by omega, hday⟩
  by_cases hmonth : s < 345 * 86400
  · exact ⟨month, by omega, hmonth⟩
  · exact ⟨year, show 345 * 86400 ≤ s by omega⟩

theorem rank_inj (unit unit' : AgeUnit) : unit.rank = unit'.rank → unit = unit' := by
  cases unit <;> cases unit' <;> decide

/-- Smaller units come first. -/
theorem rank_largest_mono (h : s ≤ t) : (largest s).rank ≤ (largest t).rank := by
  unfold largest
  split_ifs <;> simp only [rank] <;> omega

theorem count_mono (h : s ≤ t) (unit : AgeUnit) : unit.count s ≤ unit.count t := by
  cases unit with
  | minute | hour | day => simp only [count]; omega
  | month | year => simp only [count]; split_ifs <;> omega

theorem inRange_of_covers {unit : AgeUnit} (h : unit.Covers s) :
    1 ≤ unit.count s ∧ ∀ most ∈ unit.most, unit.count s ≤ most := by
  cases unit <;> simp only [Covers] at h <;> simp only [count, most]
  case minute | hour | day => exact ⟨by omega, by rintro _ ⟨⟩; omega⟩
  case month => exact ⟨by split_ifs <;> omega, by rintro _ ⟨⟩; split_ifs <;> omega⟩
  case year => exact ⟨by split_ifs <;> omega, by rintro _ ⟨⟩⟩

end AgeUnit

namespace Phrase

/-- The phrase for a number of seconds that have passed. -/
def ofSeconds (seconds : Int) : Phrase :=
  if seconds < 60 then justNow
  else ago (AgeUnit.largest seconds) ((AgeUnit.largest seconds).count seconds)

theorem ofSeconds_eq {s : Int} {unit : AgeUnit} (h : 60 ≤ s) (hunit : unit.Covers s) :
    ofSeconds s = ago unit (unit.count s) := by
  rw [ofSeconds, if_neg (Int.not_lt.2 h), AgeUnit.largest_eq hunit]

theorem inRange_ofSeconds (s : Int) : (ofSeconds s).InRange := by
  by_cases h : s < 60
  · rw [ofSeconds, if_pos h]
    trivial
  · obtain ⟨unit, hunit⟩ := AgeUnit.exists_covers (Int.not_lt.1 h)
    rw [ofSeconds_eq (Int.not_lt.1 h) hunit]
    exact AgeUnit.inRange_of_covers hunit

theorem ofSeconds_mono {s t : Int} (h : s ≤ t) : ofSeconds s ≤ ofSeconds t := by
  unfold ofSeconds
  by_cases hs : s < 60
  · rw [if_pos hs]
    exact justNow_le _
  · have ht : ¬ t < 60 := by omega
    rw [if_neg hs, if_neg ht, ago_le_ago]
    rcases Nat.lt_or_eq_of_le (AgeUnit.rank_largest_mono h) with hlt | heq
    · exact .inl hlt
    · rw [AgeUnit.rank_inj _ _ heq]
      exact .inr ⟨rfl, AgeUnit.count_mono h _⟩

end Phrase

namespace Instant

/-- The whole seconds from `t` to `now`. -/
def secondsUntil (t now : Instant) : Int :=
  (t.nanosBetween now).tdiv nanosPerSecond

/-- **An age is the phrase for the seconds that have passed.** -/
theorem age_eq (t now : Instant) : t.age now = (Phrase.ofSeconds (t.secondsUntil now)).text := by
  unfold age secondsUntil
  dsimp only
  generalize (t.nanosBetween now).tdiv nanosPerSecond = s
  by_cases hs : s < 60
  · have hminutes : s.tdiv 60 < 1 := by
      by_cases h0 : 0 ≤ s
      · rw [Int.tdiv_eq_ediv_of_nonneg h0]
        omega
      · have h := Int.tdiv_nonneg (a := -s) (b := 60) (by omega) (by omega)
        rw [Int.neg_tdiv] at h
        omega
    rw [if_pos hminutes, Phrase.ofSeconds, if_pos hs]
    rfl
  have hleast : 60 ≤ s := Int.not_lt.1 hs
  have hs0 : 0 ≤ s := by omega
  have hdays : 0 ≤ s / 86400 := by omega
  simp only [Int.tdiv_eq_ediv_of_nonneg hs0, Int.tdiv_eq_ediv_of_nonneg hdays]
  -- Each unit has two lines in the table, one for a single one and one for more.
  refine ite_eq_iff'.2 ⟨fun _ => by omega, fun _ => ?_⟩
  refine ite_eq_iff'.2 ⟨fun hone => ?_, fun _ => ?_⟩
  · rw [@Phrase.ofSeconds_eq s .minute hleast ⟨by omega, by omega⟩]
    exact (Phrase.text_one .minute (show (s / 60).toNat = 1 by omega)).symm
  refine ite_eq_iff'.2 ⟨fun hmany => ?_, fun _ => ?_⟩
  · rw [@Phrase.ofSeconds_eq s .minute hleast ⟨by omega, by omega⟩]
    refine (Phrase.text_many .minute ?_ ?_).symm <;> simp only [AgeUnit.count] <;> omega
  refine ite_eq_iff'.2 ⟨fun hone => ?_, fun _ => ?_⟩
  · rw [@Phrase.ofSeconds_eq s .hour hleast ⟨by omega, by omega⟩]
    exact (Phrase.text_one .hour (show (s / 3600).toNat = 1 by omega)).symm
  refine ite_eq_iff'.2 ⟨fun hmany => ?_, fun _ => ?_⟩
  · rw [@Phrase.ofSeconds_eq s .hour hleast ⟨by omega, by omega⟩]
    refine (Phrase.text_many .hour ?_ ?_).symm <;> simp only [AgeUnit.count] <;> omega
  refine ite_eq_iff'.2 ⟨fun hone => ?_, fun _ => ?_⟩
  · rw [@Phrase.ofSeconds_eq s .day hleast ⟨by omega, by omega⟩]
    exact (Phrase.text_one .day (show (s / 86400).toNat = 1 by omega)).symm
  refine ite_eq_iff'.2 ⟨fun hmany => ?_, fun _ => ?_⟩
  · rw [@Phrase.ofSeconds_eq s .day hleast ⟨by omega, by omega⟩]
    refine (Phrase.text_many .day ?_ ?_).symm <;> simp only [AgeUnit.count] <;> omega
  refine ite_eq_iff'.2 ⟨fun hone => ?_, fun hmore => ?_⟩
  · rw [@Phrase.ofSeconds_eq s .month hleast ⟨by omega, by omega⟩]
    exact (Phrase.text_one .month (if_pos hone)).symm
  refine ite_eq_iff'.2 ⟨fun hmany => ?_, fun _ => ?_⟩
  · rw [@Phrase.ofSeconds_eq s .month hleast ⟨by omega, by omega⟩]
    refine (Phrase.text_many .month ?_ ?_).symm <;>
      simp only [AgeUnit.count, if_neg hmore] <;> omega
  have hyear : AgeUnit.year.Covers s := show 345 * 86400 ≤ s by omega
  rw [Phrase.ofSeconds_eq hleast hyear]
  refine ite_eq_iff'.2 ⟨fun hone => ?_, fun hmore => ?_⟩
  · exact (Phrase.text_one .year (if_pos hone)).symm
  · refine (Phrase.text_many .year ?_ ?_).symm <;>
      simp only [AgeUnit.count, if_neg hmore] <;> omega

/-! ### Older instants -/

variable {d d₁ d₂ now : Instant}

/-- The instant is in no leap second, or in one at the end of a day. -/
def OnClock (t : Instant) : Prop :=
  t.nanos < nanosPerSecond ∨ t.nanos < 2 * nanosPerSecond ∧ t.secondOfDay = 86399

theorem secondOfDay_lt (t : Instant) : t.secondOfDay < 86400 := by
  unfold secondOfDay
  omega

theorem nanos_lt (hd : ¬ d.inLeapSecond) : d.nanos < nanosPerSecond :=
  Nat.not_le.1 fun h => hd (decide_eq_true h)

/-- A leap second at the end of a day is not counted apart. -/
theorem nanosBetween_eq (hd : ¬ d.inLeapSecond) (hnow : now.OnClock) :
    d.nanosBetween now =
      (now.seconds - d.seconds) * nanosPerSecond + ((now.nanos : Int) - d.nanos) := by
  have hlt := d.secondOfDay_lt
  have hlast : ¬ (now.secondOfDay < d.secondOfDay ∧ now.inLeapSecond) := by
    rintro ⟨hearlier, hleap⟩
    rcases hnow with hnow | ⟨-, hnow⟩
    · exact Nat.not_le.2 hnow (of_decide_eq_true hleap)
    · omega
  unfold nanosBetween
  dsimp only
  rw [if_neg fun h => hd h.2, if_neg hlast, Int.add_zero]

theorem secondsUntil_anti (h₁ : ¬ d₁.inLeapSecond) (h₂ : ¬ d₂.inLeapSecond) (hnow : now.OnClock)
    (hle : ¬ d₂.lt d₁) : d₂.secondsUntil now ≤ d₁.secondsUntil now := by
  have hnanos : d₂.nanosBetween now ≤ d₁.nanosBetween now := by
    have hnanos₁ := nanos_lt h₁
    have hnanos₂ := nanos_lt h₂
    rw [nanosBetween_eq h₁ hnow, nanosBetween_eq h₂ hnow]
    unfold lt at hle
    unfold nanosPerSecond at *
    omega
  exact Int.tdiv_le_tdiv (by decide) hnanos

/-- Even a leap second makes less than two seconds of an instant that is not past. -/
theorem secondsUntil_lt (hd : ¬ d.inLeapSecond) (hnow : now.OnClock) (hle : ¬ d.lt now) :
    d.secondsUntil now < 60 := by
  have hnanos : d.nanosBetween now < 2 * nanosPerSecond := by
    rw [nanosBetween_eq hd hnow]
    unfold lt at hle
    unfold OnClock at hnow
    unfold nanosPerSecond at *
    omega
  have hseconds : d.secondsUntil now ≤ (2 * nanosPerSecond : Int).tdiv nanosPerSecond :=
    Int.tdiv_le_tdiv (by decide) hnanos.le
  have htwo : (2 * nanosPerSecond : Int).tdiv nanosPerSecond = 2 := by decide
  omega

/-- **Ages never run backwards.** Of two instants the earlier one is at least as old in words: each
of the two ages is the text of one phrase, with a number in the range of its unit, and the phrases
are in order. An instant that is not past is a few seconds old. Neither instant is in a leap second,
and the present is in none but one at the end of a day. -/
theorem ages_in_order (h₁ : ¬ d₁.inLeapSecond) (h₂ : ¬ d₂.inLeapSecond) (hnow : now.OnClock)
    (hle : ¬ d₂.lt d₁) :
    (∃ p₁ p₂ : Phrase, (∀ p : Phrase, p.text = d₁.age now ↔ p = p₁) ∧
      (∀ p : Phrase, p.text = d₂.age now ↔ p = p₂) ∧ p₁.InRange ∧ p₂.InRange ∧ p₂ ≤ p₁) ∧
      (¬ d₁.lt now → d₁.age now = "a few seconds ago") := by
  have hnames : ∀ (d : Instant) (p : Phrase),
      p.text = d.age now ↔ p = Phrase.ofSeconds (d.secondsUntil now) := fun d p => by
    rw [age_eq]
    exact ⟨Phrase.text_inj, congrArg Phrase.text⟩
  refine ⟨⟨_, _, hnames d₁, hnames d₂, Phrase.inRange_ofSeconds _, Phrase.inRange_ofSeconds _,
    Phrase.ofSeconds_mono (secondsUntil_anti h₁ h₂ hnow hle)⟩, fun hpast => ?_⟩
  rw [age_eq, Phrase.ofSeconds, if_pos (secondsUntil_lt h₁ hnow hpast)]
  rfl

/-- Within the leap second at the end of 2016. -/
theorem ages_in_order_at_end_of_day :
    let midnight : Instant := ⟨1483142400, 0⟩
    let eleven : Instant := ⟨1483225200, 0⟩
    let now : Instant := ⟨1483228799, 1500000000⟩
    midnight.age now = "a day ago" ∧ eleven.age now = "an hour ago" ∧
      ∃ p₁ p₂ : Phrase, p₁.text = "a day ago" ∧ p₂.text = "an hour ago" ∧ p₂ ≤ p₁ := by
  intro midnight eleven now
  have hday : midnight.age now = "a day ago" := by decide +kernel
  have hhour : eleven.age now = "an hour ago" := by decide +kernel
  obtain ⟨⟨p₁, p₂, hp₁, hp₂, -, -, hle⟩, -⟩ :=
    @ages_in_order midnight eleven now (by decide) (by decide) (.inr ⟨by decide, by decide⟩)
      (by decide)
  exact ⟨hday, hhour, p₁, p₂, hday ▸ (hp₁ p₁).2 rfl, hhour ▸ (hp₂ p₂).2 rfl, hle⟩

/-- A leap second in the course of a day is counted apart from the seconds behind it, so an age may
run backwards within it. -/
example : (Instant.mk (-1) 900000000).age ⟨59, 1500000000⟩ = "a few seconds ago" ∧
    (Instant.mk 0 0).age ⟨59, 1500000000⟩ = "a minute ago" := by decide +kernel

end Instant

end ThemePress.Time
