import ThemePress.Proofs.Time.Week
import ThemePress.Time.Reading

/-! # The width of padded tokens

A token such as `MM` pads a number with zeros, and its width is fixed as long as the number has no
more digits. This depends on the range of what it counts: the months and days of a calendar day
(`month_le`, `day_le`) and the hours, minutes and seconds of an instant.

The fraction of a second is another matter. It goes past a second within a leap second, and `SS` and
`SSS` are then one digit wider (`padded_tokens_have_digits`). Read as a number, `ssSSS` still never
decreases within a minute, because only the last second of a minute is followed by a leap second.
That is so for every instant that a text writes (`admitted_of_read?`). -/

namespace ThemePress.Time

open ThemePress.Text.Decimal

/-! ### Months and days -/

theorem placeIn_lt {lengths : List Nat} {n : Nat} (h : n < lengths.sum) :
    (placeIn lengths n).1 < lengths.length ∧
      ∃ length ∈ lengths, (placeIn lengths n).2 < length := by
  induction lengths generalizing n with
  | nil => simp at h
  | cons first rest ih =>
    rw [placeIn]
    split
    · next hfirst => exact ⟨Nat.succ_pos _, first, List.mem_cons_self, hfirst⟩
    · next hfirst =>
      rw [List.sum_cons] at h
      obtain ⟨hstretch, length, hlength, hplace⟩ := ih (n := n - first) (by omega)
      exact ⟨Nat.succ_lt_succ hstretch, length, List.mem_cons_of_mem _ hlength, hplace⟩

theorem placeInYear_lt (day : Int) :
    placeInYear day < (monthLengths (isLeap (yearOf day))).sum := by
  have hfirst := firstDay_yearOf_le day
  have hlast := lt_firstDay_yearOf day
  rw [firstDay_succ] at hlast
  unfold placeInYear
  cases hleap : isLeap (yearOf day) with
  | true =>
    have hsum : (monthLengths true).sum = 366 := rfl
    rw [hleap, if_pos rfl] at hlast
    omega
  | false =>
    have hsum : (monthLengths false).sum = 365 := rfl
    rw [hleap, if_neg Bool.false_ne_true] at hlast
    omega

theorem placeInYear_le (day : Int) : placeInYear day ≤ 365 := by
  have hsum : (monthLengths (isLeap (yearOf day))).sum ≤ 366 := by
    cases isLeap (yearOf day) <;> decide
  exact Nat.le_of_lt_succ ((placeInYear_lt day).trans_le hsum)

theorem month_le (day : Int) : (CivilDate.ofDay day).month ≤ 12 :=
  (placeIn_lt (placeInYear_lt day)).1

theorem day_le (day : Int) : (CivilDate.ofDay day).day ≤ 31 := by
  have hlengths : ∀ leap, ∀ length ∈ monthLengths leap, length ≤ 31 := by decide
  obtain ⟨-, length, hlength, hplace⟩ := placeIn_lt (placeInYear_lt day)
  exact hplace.trans_le (hlengths _ length hlength)

/-! ### Instants that texts write -/

/-- The fraction of an instant stays below two seconds, and it goes past one only behind the last
second of a minute. -/
structure Instant.Admitted (t : Instant) : Prop where
  nanos_lt : t.nanos < 2 * nanosPerSecond
  second_eq : t.inLeapSecond → t.second = 59

namespace Reading

variable {α β : Type} {P : α → Prop} {Q : β → Prop}

/-- Whatever is taken has the property. -/
def Gives (x : Taker α) (P : α → Prop) : Prop :=
  ∀ s r, x s = some r → P r.1

theorem Gives.pure {a : α} (h : P a) : Gives (pure a) P := by
  intro s r hr
  cases hr
  exact h

theorem gives_fail : Gives fail P := by
  intro s r hr
  cases hr

theorem Gives.bind {x : Taker α} {f : α → Taker β} (hx : Gives x P)
    (hf : ∀ a, P a → Gives (f a) Q) : Gives (x >>= f) Q := by
  intro s r h
  obtain ⟨⟨a, s'⟩, hs, hr⟩ := Option.bind_eq_some_iff.1 h
  exact hf a (hx s _ hs) s' r hr

/-- Nothing needs to be known of what is taken first. -/
theorem Gives.skip {x : Taker α} {f : α → Taker β} (hf : ∀ a, Gives (f a) Q) : Gives (x >>= f) Q :=
  Gives.bind (P := fun _ => True) (fun _ _ _ => trivial) fun a _ => hf a

theorem valueOf_append (ds : List Char) (c : Char) :
    valueOf (ds ++ [c]) = valueOf ds * 10 + (c.toNat - 48) := by
  rw [valueOf, List.foldl_append]
  rfl

theorem valueOf_lt {ds : List Char} (h : ∀ c ∈ ds, isDigit c = true) :
    valueOf ds < 10 ^ ds.length := by
  induction ds using List.reverseRecOn with
  | nil => decide
  | append_singleton ds c ih =>
    have hds := ih fun d hd => h d (List.mem_append_left _ hd)
    have hc : c.toNat ≤ 57 := by
      have hdigit := h c (List.mem_append_right _ (List.mem_singleton.2 rfl))
      rw [isDigit, Bool.and_eq_true, decide_eq_true_eq, decide_eq_true_eq] at hdigit
      exact hdigit.2
    rw [valueOf_append, List.length_append, List.length_singleton, Nat.pow_succ]
    omega

theorem gives_digits (most : Nat) :
    Gives (digits (some most)) fun ds => ds.length ≤ most ∧ ∀ c ∈ ds, isDigit c = true := by
  unfold digits
  refine .skip fun s => .skip fun _ => .skip fun _ => .pure ⟨?_, fun c hc => ?_⟩
  · exact (List.takeWhile_sublist _).length_le.trans (List.length_take_le ..)
  · exact List.mem_takeWhile_imp hc

theorem gives_fraction : Gives fraction fun nanos => nanos < Instant.nanosPerSecond := by
  unfold fraction
  refine .skip fun s => ?_
  split
  · refine .skip fun _ => .bind (gives_digits 9) fun ds ⟨hlength, hdigits⟩ => .skip fun _ => .pure ?_
    calc valueOf ds * 10 ^ (9 - ds.length)
        < 10 ^ ds.length * 10 ^ (9 - ds.length) :=
          Nat.mul_lt_mul_of_pos_right (valueOf_lt hdigits) (Nat.pow_pos (by decide))
      _ = Instant.nanosPerSecond := by
          rw [← Nat.pow_add, Nat.add_sub_cancel' hlength]
          rfl
  · exact .pure (by decide)

/-- Offsets are whole minutes. -/
theorem gives_offset : Gives offset fun seconds => seconds % 60 = 0 := by
  unfold offset
  refine .skip fun _ => .skip fun s => ?_
  split
  · exact .skip fun _ => .pure rfl
  split
  · exact .skip fun _ => .pure rfl
  · exact .skip fun _ => .pure rfl
  · refine .skip fun _ => .skip fun _ => .skip fun hours => .skip fun _ => .skip fun minutes =>
      .skip fun _ => .pure ?_
    split <;> omega
  · exact gives_fail

theorem gives_instant : Gives instant Instant.Admitted := by
  unfold instant
  refine .skip fun year => .skip fun _ => .skip fun month => .skip fun _ => .skip fun day =>
    .skip fun _ => .skip fun _ => .skip fun _ => .skip fun hour => .skip fun _ =>
    .skip fun minute => .skip fun _ => .skip fun second =>
    .bind gives_fraction fun nanos hnanos => .bind gives_offset fun offset hoffset =>
    .skip fun _ => .skip fun _ => .skip fun _ => ?_
  split
  · exact gives_fail
  · next d _ =>
    refine .skip fun _ => .skip fun _ => .pure ⟨?_, fun hleap => ?_⟩
    · dsimp only
      split <;> omega
    · have hle : Instant.nanosPerSecond ≤
          nanos + if second = 60 then Instant.nanosPerSecond else 0 := of_decide_eq_true hleap
      have hlast : second = 60 := by
        by_contra hsecond
        rw [if_neg hsecond] at hle
        omega
      subst hlast
      unfold Instant.second Instant.secondOfDay
      dsimp only
      omega

end Reading

namespace Instant

open Format (token? render render_of_token format_of_token?)

variable {t u : Instant}

theorem admitted_of_read? {text : String} (h : read? text = some t) : t.Admitted := by
  obtain ⟨⟨t', rest⟩, hrun, rfl⟩ := Option.map_eq_some_iff.1 h
  exact Reading.gives_instant _ _ hrun

/-! ### Tokens -/

theorem hasDigits_format {name : String} {width : Nat} {value : Instant → Nat}
    (h : token? name.toList = some (fun t => padded width (value t), [])) (hwidth : 0 < width)
    (hlt : value t < 10 ^ width) : HasDigits width (t.format name) := by
  rw [format_of_token? h]
  exact hasDigits_padded hwidth hlt

theorem hour_lt (t : Instant) : t.hour < 24 := by
  unfold hour secondOfDay
  omega

theorem clockHour_le (t : Instant) : Format.clockHour t ≤ 12 := by
  unfold Format.clockHour
  split <;> omega

theorem minute_lt (t : Instant) : t.minute < 60 :=
  Nat.mod_lt _ (by decide)

theorem second_lt (t : Instant) : t.second < 60 :=
  Nat.mod_lt _ (by decide)

/-- In a leap second the milliseconds have four digits. -/
theorem inLeapSecond_iff (t : Instant) : t.inLeapSecond ↔ 1000 ≤ t.millis := by
  rw [inLeapSecond, decide_eq_true_eq, millis, nanosPerSecond]
  omega

theorem Admitted.millis_lt (h : t.Admitted) : t.millis < 2000 := by
  have := h.nanos_lt
  unfold nanosPerSecond at this
  unfold millis
  omega

theorem Admitted.hasDigits_millis (h : t.Admitted) :
    HasDigits (if t.inLeapSecond then 4 else 3) (padded 3 t.millis) := by
  have hmillis := h.millis_lt
  rw [if_congr t.inLeapSecond_iff rfl rfl]
  exact @hasDigits_padded_of_lt_succ 3 t.millis (by decide) (by omega)

theorem Admitted.hasDigits_centis (h : t.Admitted) :
    HasDigits (if t.inLeapSecond then 3 else 2) (padded 2 (t.millis / 10)) := by
  have hmillis := h.millis_lt
  have hleap : t.inLeapSecond ↔ 100 ≤ t.millis / 10 := by
    rw [inLeapSecond_iff]
    omega
  rw [if_congr hleap rfl rfl]
  exact @hasDigits_padded_of_lt_succ 2 (t.millis / 10) (by decide) (by omega)

/-! ### Seconds with their fractions -/

theorem format_seconds (t : Instant) :
    t.format "ssSSS" = padded 2 t.second ++ padded 3 t.millis := by
  have hseconds : token? ['s', 's', 'S', 'S', 'S'] =
      some (fun t => padded 2 t.second, ['S', 'S', 'S']) := rfl
  have hmillis : token? ['S', 'S', 'S'] = some (fun t => padded 3 t.millis, []) := rfl
  have hrender : render t "ssSSS".toList =
      (padded 2 t.second).toList ++ (padded 3 t.millis).toList := by
    change render t ['s', 's', 'S', 'S', 'S'] = _
    rw [render_of_token (by decide) hseconds, render_of_token (by decide) hmillis, render,
      List.append_nil]
  rw [format, hrender, ← String.toList_append, String.ofList_toList]

theorem Admitted.digits?_format_seconds (h : t.Admitted) :
    digits? (t.format "ssSSS").toList =
      some (10 ^ (if t.inLeapSecond then 4 else 3) * t.second + t.millis) := by
  have hsecond : HasDigits 2 (padded 2 t.second) :=
    hasDigits_padded (by decide) (t.second_lt.trans (by decide))
  rw [format_seconds, digits?_append hsecond h.hasDigits_millis (by decide),
    ofDigitChars_padded, ofDigitChars_padded]

/-- Of two instants in a minute the later one is not at an earlier second, and if it is not at a
later second either, its fraction is not smaller. -/
theorem second_le_of_not_lt (hminute : t.seconds / 60 = u.seconds / 60) (hle : ¬ u.lt t) :
    t.second < u.second ∨ t.second = u.second ∧ t.nanos ≤ u.nanos := by
  unfold lt at hle
  unfold second secondOfDay
  omega

theorem Admitted.number_mono (ht : t.Admitted) (hminute : t.seconds / 60 = u.seconds / 60)
    (hle : ¬ u.lt t) :
    10 ^ (if t.inLeapSecond then 4 else 3) * t.second + t.millis ≤
      10 ^ (if u.inLeapSecond then 4 else 3) * u.second + u.millis := by
  have hsecond := second_le_of_not_lt hminute hle
  have hmillis : t.nanos ≤ u.nanos → t.millis ≤ u.millis := fun h => Nat.div_le_div_right h
  have hlast := u.second_lt
  by_cases hleap : t.inLeapSecond
  · -- the leap second ends the minute, so the later instant is in it as well
    have h59 := ht.second_eq hleap
    have hleap' : u.inLeapSecond := by
      rw [inLeapSecond_iff] at hleap ⊢
      omega
    rw [if_pos hleap, if_pos hleap']
    omega
  · have hshort : t.millis < 1000 := Nat.not_le.1 (mt t.inLeapSecond_iff.2 hleap)
    rw [if_neg hleap]
    split <;> omega

/-- **Padded tokens have a fixed width, but for fractions of a leap second.** The tokens for years,
months, days, weeks, hours, minutes and seconds are written with two digits and the day of the year
with three. Fractions have two and three digits outside of leap seconds, and one more within one.
Seconds with their milliseconds behind them, read as one number, never decrease from one instant of
a minute to a later one. -/
theorem padded_tokens_have_digits (ht : t.Admitted) :
    (∀ name ∈ ["YY", "MM", "DD", "HH", "hh", "mm", "ss", "ww", "WW"],
      HasDigits 2 (t.format name)) ∧
    HasDigits 3 (t.format "DDDD") ∧
    HasDigits (if t.inLeapSecond then 3 else 2) (t.format "SS") ∧
    HasDigits (if t.inLeapSecond then 4 else 3) (t.format "SSS") ∧
    ∀ u : Instant, u.Admitted → t.seconds / 60 = u.seconds / 60 → ¬ u.lt t →
      ∃ earlier later, digits? (t.format "ssSSS").toList = some earlier ∧
        digits? (u.format "ssSSS").toList = some later ∧ earlier ≤ later := by
  have htwo : 0 < 2 := by decide
  have hmonth := month_le t.day
  have hday := day_le t.day
  have hplace := placeInYear_le t.day
  have hweek := weekOf_le t.day
  have hhour := t.hour_lt
  have hclock := t.clockHour_le
  have hminute := t.minute_lt
  have hsecond := t.second_lt
  refine ⟨?_, hasDigits_format rfl (by decide) (by omega), ?_, ?_, fun u hu hsame hle => ?_⟩
  · simp only [List.forall_mem_cons]
    refine ⟨hasDigits_format rfl htwo (by omega), hasDigits_format rfl htwo ?_,
      hasDigits_format rfl htwo ?_, hasDigits_format rfl htwo (by omega),
      hasDigits_format rfl htwo (by omega), hasDigits_format rfl htwo (by omega),
      hasDigits_format rfl htwo (by omega), hasDigits_format rfl htwo (by omega),
      hasDigits_format rfl htwo (by omega), List.forall_mem_nil _⟩
    · exact hmonth.trans_lt (by decide)
    · exact hday.trans_lt (by decide)
  · rw [format_of_token? (rfl : token? "SS".toList = some (fun t => padded 2 (t.millis / 10), []))]
    exact ht.hasDigits_centis
  · rw [format_of_token? (rfl : token? "SSS".toList = some (fun t => padded 3 t.millis, []))]
    exact ht.hasDigits_millis
  · exact ⟨_, _, ht.digits?_format_seconds, hu.digits?_format_seconds,
      ht.number_mono hsame hle⟩

/-- At the end of a minute in a year before zero, from its last second into the leap second. -/
theorem padded_tokens_have_digits_before_zero :
    let last : Instant := ⟨-63549273601, 990000000⟩
    let leap : Instant := ⟨-63549273601, 1500000000⟩
    read? "-0044-03-15T23:59:59.99Z" = some last ∧ read? "-0044-03-15T23:59:60.5Z" = some leap ∧
      HasDigits 2 (last.format "YY") ∧ HasDigits 3 (last.format "SSS") ∧
      HasDigits 2 (leap.format "ss") ∧ HasDigits 4 (leap.format "SSS") ∧
      ∃ earlier later, digits? (last.format "ssSSS").toList = some earlier ∧
        digits? (leap.format "ssSSS").toList = some later ∧ earlier ≤ later := by
  intro last leap
  have hlast : read? "-0044-03-15T23:59:59.99Z" = some last := by decide +kernel
  have hleap : read? "-0044-03-15T23:59:60.5Z" = some leap := by decide +kernel
  obtain ⟨hnames, -, -, hmillis, hmono⟩ := padded_tokens_have_digits (admitted_of_read? hlast)
  obtain ⟨hnames', -, -, hmillis', -⟩ := padded_tokens_have_digits (admitted_of_read? hleap)
  exact ⟨hlast, hleap, hnames "YY" (by decide), hmillis, hnames' "ss" (by decide), hmillis',
    hmono leap (admitted_of_read? hleap) (by decide) (by decide)⟩

/-- **A fraction of a leap second is too wide.** -/
theorem leap_fraction_too_wide :
    let leap : Instant := ⟨78796799, 1999999999⟩
    read? "1972-06-30T23:59:60.999999999Z" = some leap ∧ leap.format "SS" = "199" ∧
      leap.format "SSS" = "1999" ∧ ¬ HasDigits 2 (leap.format "SS") ∧
      ¬ HasDigits 3 (leap.format "SSS") := by
  intro leap
  have hcentis : leap.format "SS" = "199" :=
    (format_of_token? (rfl : token? "SS".toList = some (fun t => padded 2 (t.millis / 10), []))
      leap).trans (by decide)
  have hmillis : leap.format "SSS" = "1999" :=
    (format_of_token? (rfl : token? "SSS".toList = some (fun t => padded 3 t.millis, []))
      leap).trans (by decide)
  refine ⟨by decide +kernel, hcentis, hmillis, fun h => ?_, fun h => ?_⟩
  · exact absurd (hcentis ▸ h.length_eq) (by decide)
  · exact absurd (hmillis ▸ h.length_eq) (by decide)

end Instant

end ThemePress.Time
