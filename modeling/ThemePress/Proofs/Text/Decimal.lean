import Mathlib.Data.List.Induction
import Mathlib.Data.Nat.Digits.Defs
import ThemePress.Text.Decimal

/-! # Numbers that texts write

`Writes s n` says, without any reading, that a text is the number `n` in decimal digits, perhaps
with a plus sign in front, and that `n` fits into a word of 64 bits. These are the texts and numbers
of `word?` (`word?_eq_some_iff`).

A number can be read back from its digits, also where other text comes behind them
(`toString_append_inj`) or zeros are put in front (`padded_inj`). With zeros in front it has the
width that was asked for, unless it has more digits than that (`hasDigits_padded_of_lt_succ`). -/

namespace ThemePress.Text.Decimal

/-- The value of a character as a decimal digit. -/
def digitValue (c : Char) : Nat :=
  c.toNat - '0'.toNat

/-- The text is the number in decimal digits, perhaps with a plus sign in front. -/
structure Writes (s : String) (n : Nat) : Prop where
  digits : ∃ digits : List Char, digits ≠ [] ∧ (∀ c ∈ digits, c.isDigit = true) ∧
    (s.toList = digits ∨ s.toList = '+' :: digits) ∧
    n = Nat.ofDigits 10 (digits.reverse.map digitValue)
  fits : n < wordCount

theorem digit?_eq_some_iff {c : Char} {d : Nat} :
    digit? c = some d ↔ c.isDigit = true ∧ d = digitValue c := by
  have hdigit : c.isDigit = true ↔ '0' ≤ c ∧ c ≤ '9' := by
    simp only [Char.isDigit, Bool.and_eq_true, decide_eq_true_eq, ge_iff_le]
    rfl
  rw [digit?, hdigit, Option.ite_none_right_eq_some, Option.some_inj, digitValue]
  exact and_congr_right fun _ => eq_comm

/-- Digits are read from the left. -/
theorem value?_append (s : List Char) (c : Char) :
    value? digit? 10 (s ++ [c]) =
      (value? digit? 10 s).bind fun v => (digit? c).map (v * 10 + ·) := by
  rw [value?, List.foldl_append, List.foldl_cons, List.foldl_nil]
  cases digit? c <;> rfl

theorem value?_eq_some_iff {s : List Char} {n : Nat} : value? digit? 10 s = some n ↔
    (∀ c ∈ s, c.isDigit = true) ∧ n = Nat.ofDigits 10 (s.reverse.map digitValue) := by
  induction s using List.reverseRecOn generalizing n with
  | nil => exact ⟨fun h => ⟨by simp, (Option.some_inj.1 h).symm⟩, fun h => congrArg some h.2.symm⟩
  | append_singleton s c ih =>
    simp only [value?_append, Option.bind_eq_some_iff, Option.map_eq_some_iff, ih,
      digit?_eq_some_iff, List.mem_append, List.mem_singleton, List.reverse_append,
      List.reverse_singleton, List.singleton_append, List.map_cons, Nat.ofDigits_cons]
    constructor
    · rintro ⟨v, ⟨hs, rfl⟩, d, ⟨hc, rfl⟩, rfl⟩
      exact ⟨fun x hx => hx.elim (hs x) fun hx => hx ▸ hc, by rw [Nat.mul_comm, Nat.add_comm]⟩
    · rintro ⟨h, rfl⟩
      exact ⟨_, ⟨fun x hx => h x (.inl hx), rfl⟩, _, ⟨h c (.inr rfl), rfl⟩,
        by rw [Nat.mul_comm, Nat.add_comm]⟩

theorem digits?_eq_some_iff {s : List Char} {n : Nat} : digits? s = some n ↔
    s ≠ [] ∧ (∀ c ∈ s, c.isDigit = true) ∧ n = Nat.ofDigits 10 (s.reverse.map digitValue) := by
  rw [digits?, ← value?_eq_some_iff]
  cases s <;> simp

/-- A plus sign in front is left out, and then digits are read. -/
theorem exists_unsigned (s : String) : ∃ digits,
    (s.toList = '+' :: digits ∨ s.toList = digits ∧ digits.head? ≠ some '+') ∧
      ∀ n, word? s = some n ↔ digits? digits = some n ∧ n < wordCount := by
  have hguard : ∀ digits n, ((do
      let n ← digits? digits
      guard (n < wordCount)
      return n) : Option Nat) = some n ↔ digits? digits = some n ∧ n < wordCount := by
    intro digits n
    cases digits? digits with
    | none => simp
    | some v =>
      by_cases hv : v < wordCount
      · simpa [guard, hv] using fun h : v = n => h ▸ hv
      · simpa [guard, hv] using fun h : v = n => h ▸ Nat.not_lt.1 hv
  unfold word?
  dsimp only
  split
  · next r hs => exact ⟨r, .inl hs, hguard r⟩
  · next hs =>
    refine ⟨_, .inr ⟨rfl, fun hplus => ?_⟩, hguard _⟩
    obtain ⟨r, hr⟩ := List.head?_eq_some_iff.1 hplus
    exact hs r hr

/-- **What is read as a number is what writes one.** -/
theorem word?_eq_some_iff {s : String} {n : Nat} : word? s = some n ↔ Writes s n := by
  obtain ⟨digits, hs, hread⟩ := exists_unsigned s
  rw [hread, digits?_eq_some_iff]
  constructor
  · rintro ⟨⟨hne, hdigits, hn⟩, hfits⟩
    exact ⟨⟨digits, hne, hdigits, hs.symm.imp And.left id, hn⟩, hfits⟩
  · rintro ⟨⟨digits', hne, hdigits, hs', hn⟩, hfits⟩
    have hplus : digits'.head? ≠ some '+' := fun h =>
      absurd (hdigits '+' (List.mem_of_mem_head? h)) (by decide)
    obtain rfl : digits' = digits := by
      rcases hs with hs | ⟨hs, hdigit⟩ <;> rcases hs' with hs' | hs' <;> rw [hs] at hs'
      · exact absurd (by rw [← hs']; rfl) hplus
      · exact (List.cons.inj hs').2.symm
      · exact hs'.symm
      · exact absurd (by rw [hs']; rfl) hdigit
    exact ⟨⟨hne, hdigits, hn⟩, hfits⟩

/-! ### Numbers as they are printed -/

theorem toList_toString (n : Nat) : (toString n).toList = Nat.toDigits 10 n :=
  String.toList_ofList

theorem isDigit_of_mem_toString {n : Nat} {c : Char} (h : c ∈ (toString n).toList) :
    c.isDigit = true := by
  rw [toList_toString] at h
  exact Nat.isDigit_of_mem_toDigits (by decide) (by decide) h

theorem toString_inj {m n : Nat} : toString m = toString n ↔ m = n := by
  refine ⟨fun h => ?_, congrArg toString⟩
  have hread := congrArg (Nat.ofDigitChars 10 ·.toList 0) h
  simpa only [toList_toString, Nat.ofDigitChars_ten_toDigits] using hread

/-- The text does not go on with a digit. -/
def Breaks (s : String) : Prop :=
  s.toList.head?.all (!·.isDigit) = true

instance (s : String) : Decidable (Breaks s) := by
  unfold Breaks; infer_instance

theorem Breaks.head {s : String} (hs : Breaks s) {c : Char} {r : List Char}
    (h : s.toList = c :: r) : c.isDigit = false := by
  rw [Breaks, h] at hs
  simpa using hs

theorem takeWhile_toString (n : Nat) {s : String} (hs : Breaks s) :
    (toString n ++ s).toList.takeWhile Char.isDigit = (toString n).toList := by
  have hrest : s.toList.takeWhile Char.isDigit = [] := by
    cases h : s.toList with
    | nil => rfl
    | cons c r => exact List.takeWhile_cons_of_neg (by simp [hs.head h])
  rw [String.toList_append, List.takeWhile_append_of_pos fun c hc => isDigit_of_mem_toString hc,
    hrest, List.append_nil]

/-- A number can be read back from its digits when other text comes behind them. -/
theorem toString_append_inj {m n : Nat} {s t : String} (hs : Breaks s) (ht : Breaks t) :
    toString m ++ s = toString n ++ t ↔ m = n ∧ s = t := by
  refine ⟨fun h => ?_, fun ⟨hmn, hst⟩ => by rw [hmn, hst]⟩
  have hdigits : (toString m).toList = (toString n).toList := by
    rw [← takeWhile_toString m hs, h, takeWhile_toString n ht]
  obtain rfl : m = n := toString_inj.1 (String.toList_inj.1 hdigits)
  exact ⟨rfl, String.append_right_inj _ |>.1 h⟩

theorem toString_append_ne {n : Nat} {s t : String} (ht : Breaks t) : toString n ++ s ≠ t := by
  rintro rfl
  obtain ⟨c, r, hc⟩ := List.exists_cons_of_ne_nil (Nat.toDigits_ne_nil (n := n) (b := 10))
  rw [← toList_toString] at hc
  have hfalse : c.isDigit = false := ht.head (by rw [String.toList_append, hc, List.cons_append])
  have htrue : c.isDigit = true :=
    isDigit_of_mem_toString (n := n) (hc ▸ List.mem_cons_self ..)
  exact Bool.false_ne_true (hfalse.symm.trans htrue)

/-! ### Numbers with zeros in front -/

theorem toList_padded (width n : Nat) : (padded width n).toList =
    List.replicate (width - (toString n).length) '0' ++ (toString n).toList := by
  rw [padded, String.toList_append, String.toList_ofList]

/-- A number that has no more digits than the width is written in that many. -/
theorem length_padded {width n : Nat} (hwidth : 0 < width) (h : n < 10 ^ width) :
    (padded width n).length = width := by
  have hle : (toString n).length ≤ width := by
    rw [← String.length_toList, toList_toString]
    exact (Nat.length_toDigits_le_iff (by decide) hwidth).2 h
  rw [← String.length_toList, toList_padded, List.length_append, List.length_replicate,
    String.length_toList]
  omega

/-- A number that has more digits than the width gets no zeros. -/
theorem padded_succ {width n : Nat} (hwidth : 0 < width) (h : 10 ^ width ≤ n) :
    padded (width + 1) n = padded width n := by
  have hlt : width < (toString n).length := by
    rw [← String.length_toList, toList_toString, ← Nat.not_le,
      Nat.length_toDigits_le_iff (by decide) hwidth]
    exact Nat.not_lt.2 h
  rw [← String.toList_inj, toList_padded, toList_padded, Nat.sub_eq_zero_of_le hlt.le,
    Nat.sub_eq_zero_of_le hlt]

theorem ofDigitChars_padded (width n : Nat) : Nat.ofDigitChars 10 (padded width n).toList 0 = n := by
  rw [toList_padded, toList_toString, Nat.ofDigitChars_append, Nat.ofDigitChars_replicate_zero,
    Nat.mul_zero, Nat.ofDigitChars_ten_toDigits]

theorem padded_inj {width m n : Nat} : padded width m = padded width n ↔ m = n := by
  refine ⟨fun h => ?_, congrArg (padded width)⟩
  rw [← ofDigitChars_padded width m, h, ofDigitChars_padded]

/-! ### Texts of a fixed width -/

/-- The text is made of `width` decimal digits. -/
structure HasDigits (width : Nat) (s : String) : Prop where
  length_eq : s.length = width
  isDigit : ∀ c ∈ s.toList, c.isDigit = true

theorem hasDigits_padded {width n : Nat} (hwidth : 0 < width) (h : n < 10 ^ width) :
    HasDigits width (padded width n) := by
  refine ⟨length_padded hwidth h, fun c hc => ?_⟩
  rw [toList_padded, List.mem_append] at hc
  rcases hc with hc | hc
  · rw [List.eq_of_mem_replicate hc]
    rfl
  · exact isDigit_of_mem_toString hc

/-- A number with one digit too many makes the text wider by that digit. -/
theorem hasDigits_padded_of_lt_succ {width n : Nat} (hwidth : 0 < width)
    (h : n < 10 ^ (width + 1)) :
    HasDigits (if 10 ^ width ≤ n then width + 1 else width) (padded width n) := by
  split
  · next hle => exact padded_succ hwidth hle ▸ hasDigits_padded (Nat.succ_pos width) h
  · next hlt => exact hasDigits_padded hwidth (Nat.not_le.1 hlt)

theorem ofDigitChars_eq_ofDigits (s : List Char) :
    Nat.ofDigitChars 10 s 0 = Nat.ofDigits 10 (s.reverse.map digitValue) := by
  induction s using List.reverseRecOn with
  | nil => rfl
  | append_singleton s c ih =>
    rw [Nat.ofDigitChars_append, ih, List.reverse_append, List.reverse_singleton,
      List.singleton_append, List.map_cons, Nat.ofDigits_cons, Nat.add_comm]
    rfl

/-- Two texts of digits one behind the other are read as one number. -/
theorem digits?_append {width width' : Nat} {s s' : String} (hs : HasDigits width s)
    (hs' : HasDigits width' s') (hwidth : 0 < width) :
    digits? (s ++ s').toList = some (10 ^ width' * Nat.ofDigitChars 10 s.toList 0 +
      Nat.ofDigitChars 10 s'.toList 0) := by
  refine digits?_eq_some_iff.2 ⟨fun hnil => ?_, fun c hc => ?_, ?_⟩
  · rw [String.toList_append, List.append_eq_nil_iff, ← List.length_eq_zero_iff,
      String.length_toList, hs.length_eq] at hnil
    omega
  · rw [String.toList_append, List.mem_append] at hc
    exact hc.elim (hs.isDigit c) (hs'.isDigit c)
  · rw [← ofDigitChars_eq_ofDigits, String.toList_append, Nat.ofDigitChars_append, ← hs'.length_eq,
      ← String.length_toList]
    exact Nat.ofDigitChars_eq_ofDigitChars_zero.symm

end ThemePress.Text.Decimal
