import Mathlib.Algebra.Order.Field.Power
import Mathlib.Data.Rat.Cast.Order
import Mathlib.Tactic.Linarith
import Mathlib.Tactic.FieldSimp
import Mathlib.Tactic.Positivity
import Mathlib.Tactic.Ring
import ThemePress.Numeric.Binary64

/-! # What rounding keeps

Rounding to 53 binary digits does not cross a number that has no more of them: what is below such a
number stays below it, and what is above stays above (`nearest_le`, `le_nearest`). So these numbers
are not changed at all, and a chain of rounded operations can be bounded by bounding the exact one. -/

namespace ThemePress.Numeric.Binary64

theorem twoTo_eq (e : Int) : twoTo e = (2 : ℚ) ^ e := by
  unfold twoTo
  split
  · next h =>
    obtain ⟨k, rfl⟩ := Int.eq_ofNat_of_zero_le h
    rw [Int.toNat_natCast, zpow_natCast]
    exact Nat.cast_pow 2 k
  · next h =>
    obtain ⟨k, hk⟩ := Int.eq_ofNat_of_zero_le (show 0 ≤ -e by omega)
    have he : e = -(k : Int) := by omega
    rw [hk, he, Int.toNat_natCast, zpow_neg, zpow_natCast, Rat.mkRat_eq_div]
    have hpow : ((Nat.pow 2 k : Nat) : ℚ) = 2 ^ k := Nat.cast_pow 2 k
    rw [hpow, Int.cast_one, one_div]

/-! ### Integers -/

theorem le_nearestInt {k : Int} {x : ℚ} (h : (k : ℚ) ≤ x) : k ≤ nearestInt x := by
  have hfloor : k ≤ x.floor := Rat.le_floor_iff.2 h
  unfold nearestInt
  dsimp only
  split_ifs <;> omega

theorem nearestInt_le {k : Int} {x : ℚ} (h : x ≤ k) : nearestInt x ≤ k := by
  have hle : (x.floor : ℚ) ≤ x := Rat.floor_le x
  have hfloor : x.floor ≤ k := by exact_mod_cast hle.trans h
  -- the result is beyond the floor only if `x` is, and then the floor is not yet `k`
  have hup : ¬ x - x.floor < 1 / 2 → x.floor + 1 ≤ k := by
    intro hrest
    have hlt : (x.floor : ℚ) < k := by linarith
    have : x.floor < k := by exact_mod_cast hlt
    omega
  unfold nearestInt
  dsimp only
  split_ifs with h1 h2 h3
  · exact hfloor
  · exact hup h1
  · exact hfloor
  · exact hup h1

/-! ### The leading digit -/

theorem le_log2 {n : Nat} (h : n ≠ 0) : (2 : ℚ) ^ (n.log2 : Int) ≤ n := by
  rw [zpow_natCast]
  exact_mod_cast Nat.log2_self_le h

theorem log2_lt (n : Nat) : (n : ℚ) < 2 ^ (n.log2 + 1 : Int) := by
  have h : (n : ℚ) < ((2 ^ (n.log2 + 1) : Nat) : ℚ) := by exact_mod_cast Nat.lt_log2_self
  rw [Nat.cast_pow] at h
  exact_mod_cast h

/-- The exponent is the place of the leading digit. -/
theorem exponent_spec {x : ℚ} (hx : 0 < x) :
    (2 : ℚ) ^ exponent x ≤ x ∧ x < 2 ^ (exponent x + 1) := by
  have hnum : x.num.natAbs ≠ 0 := by
    have := Rat.num_pos.2 hx
    omega
  have hnum' : (x.num.natAbs : ℚ) = x.num :=
    (Int.cast_natCast _).symm.trans
      (congrArg Int.cast (Int.natAbs_of_nonneg (Rat.num_nonneg.2 hx.le)))
  have hden : (0 : ℚ) < x.den := by exact_mod_cast x.den_pos
  have hxd : x * x.den = x.num := Rat.mul_den_eq_num x
  have hlow := le_log2 hnum
  have hhigh := log2_lt x.num.natAbs
  have hlow' := le_log2 x.den_nz
  have hhigh' := log2_lt x.den
  rw [hnum'] at hlow hhigh
  generalize hguess : (x.num.natAbs.log2 : Int) - (x.den.log2 : Int) = guess
  have hbelow : (2 : ℚ) ^ (guess - 1) ≤ x := by
    have e : (x.num.natAbs.log2 : Int) = (guess - 1) + (x.den.log2 + 1) := by omega
    rw [e, zpow_add₀ two_ne_zero, ← hxd] at hlow
    have hle : (2 : ℚ) ^ (guess - 1) * x.den ≤ x * x.den :=
      (mul_le_mul_of_nonneg_left hhigh'.le (by positivity)).trans hlow
    exact le_of_mul_le_mul_right hle hden
  have habove : x < (2 : ℚ) ^ (guess + 1) := by
    have e : (x.num.natAbs.log2 + 1 : Int) = (guess + 1) + x.den.log2 := by omega
    rw [e, zpow_add₀ two_ne_zero, ← hxd] at hhigh
    have hlt : x * x.den < (2 : ℚ) ^ (guess + 1) * x.den :=
      hhigh.trans_le (mul_le_mul_of_nonneg_left hlow' (by positivity))
    exact lt_of_mul_lt_mul_right hlt hden.le
  unfold exponent
  dsimp only
  rw [hguess, twoTo_eq]
  split_ifs with h
  · exact ⟨hbelow, by rw [sub_add_cancel]; exact h⟩
  · exact ⟨not_lt.1 h, habove⟩

/-! ### Numbers of 53 digits -/

/-- The number has at most 53 binary digits between its first and its last one. -/
def Fits53 (r : ℚ) : Prop :=
  ∃ (m : Nat) (e : Int), m < 2 ^ 53 ∧ r = m * 2 ^ e

theorem nearest_of_pos {x : ℚ} (hx : 0 < x) :
    nearest x = nearestInt (x / 2 ^ (exponent x - 52)) * 2 ^ (exponent x - 52) := by
  unfold nearest
  rw [if_neg hx.ne', if_neg hx.le.not_gt, twoTo_eq]

theorem nearest_le {x r : ℚ} (hx : 0 ≤ x) (hr : Fits53 r) (h : x ≤ r) : nearest x ≤ r := by
  rcases hx.eq_or_lt with rfl | hx
  · simpa [nearest] using h
  obtain ⟨m, e, hm, rfl⟩ := hr
  obtain ⟨hlow, -⟩ := exponent_spec hx
  -- the last digit of the bound is not behind the last one that is kept
  have hexp : exponent x - 52 ≤ e := by
    have hlt : (2 : ℚ) ^ exponent x < 2 ^ (53 + e) := by
      have hm' : (m : ℚ) < 2 ^ (53 : Int) := by exact_mod_cast hm
      rw [zpow_add₀ two_ne_zero]
      exact (hlow.trans h).trans_lt (mul_lt_mul_of_pos_right hm' (by positivity))
    have := (zpow_lt_zpow_iff_right₀ one_lt_two).1 hlt
    omega
  obtain ⟨k, hk⟩ := Int.eq_ofNat_of_zero_le (show 0 ≤ e - (exponent x - 52) by omega)
  rw [nearest_of_pos hx]
  generalize exponent x - 52 = last at *
  have hsplit : (m : ℚ) * 2 ^ e = ((m * 2 ^ k : Nat) : Int) * 2 ^ last := by
    have e' : e = k + last := by omega
    rw [e', zpow_add₀ two_ne_zero, zpow_natCast]
    push_cast
    ring
  rw [hsplit] at h ⊢
  have hpos : (0 : ℚ) < 2 ^ last := by positivity
  have hint : nearestInt (x / 2 ^ last) ≤ ((m * 2 ^ k : Nat) : Int) :=
    nearestInt_le ((div_le_iff₀ hpos).2 h)
  exact mul_le_mul_of_nonneg_right (by exact_mod_cast hint) hpos.le

theorem le_nearest {x r : ℚ} (hx : 0 ≤ x) (hr : Fits53 r) (h : r ≤ x) : r ≤ nearest x := by
  rcases hx.eq_or_lt with rfl | hx
  · simpa [nearest] using h
  obtain ⟨m, e, hm, rfl⟩ := hr
  obtain ⟨hlow, -⟩ := exponent_spec hx
  rw [nearest_of_pos hx]
  have hpos : (0 : ℚ) < 2 ^ (exponent x - 52) := by positivity
  by_cases hexp : exponent x - 52 ≤ e
  · obtain ⟨k, hk⟩ := Int.eq_ofNat_of_zero_le (show 0 ≤ e - (exponent x - 52) by omega)
    generalize exponent x - 52 = last at *
    have hsplit : (m : ℚ) * 2 ^ e = ((m * 2 ^ k : Nat) : Int) * 2 ^ last := by
      have e' : e = k + last := by omega
      rw [e', zpow_add₀ two_ne_zero, zpow_natCast]
      push_cast
      ring
    rw [hsplit] at h ⊢
    have hint : ((m * 2 ^ k : Nat) : Int) ≤ nearestInt (x / 2 ^ last) :=
      le_nearestInt ((le_div_iff₀ hpos).2 h)
    exact mul_le_mul_of_nonneg_right (by exact_mod_cast hint) hpos.le
  · -- the bound is smaller than the leading digit alone, which is kept
    have hsmall : (m : ℚ) * 2 ^ e ≤ 2 ^ exponent x := by
      have hm' : (m : ℚ) ≤ 2 ^ (53 : Int) := by exact_mod_cast hm.le
      have hle : (2 : ℚ) ^ (53 + e) ≤ 2 ^ exponent x :=
        zpow_le_zpow_right₀ one_le_two (by omega)
      rw [zpow_add₀ two_ne_zero] at hle
      exact (mul_le_mul_of_nonneg_right hm' (by positivity)).trans hle
    have hlead : (2 : ℚ) ^ exponent x = ((2 ^ 52 : Nat) : Int) * 2 ^ (exponent x - 52) := by
      have e' : exponent x = 52 + (exponent x - 52) := by omega
      conv_lhs => rw [e', zpow_add₀ two_ne_zero]
      norm_num
    rw [hlead] at hlow hsmall
    have hint : ((2 ^ 52 : Nat) : Int) ≤ nearestInt (x / 2 ^ (exponent x - 52)) :=
      le_nearestInt ((le_div_iff₀ hpos).2 hlow)
    exact hsmall.trans (mul_le_mul_of_nonneg_right (by exact_mod_cast hint) hpos.le)

/-- **A number of 53 digits is not changed.** -/
theorem nearest_of_fits53 {r : ℚ} (h0 : 0 ≤ r) (hr : Fits53 r) : nearest r = r :=
  le_antisymm (nearest_le h0 hr le_rfl) (le_nearest h0 hr le_rfl)

theorem fits53_natCast {m : Nat} (h : m < 2 ^ 53) : Fits53 m :=
  ⟨m, 0, h, by rw [zpow_zero, mul_one]⟩

theorem fits53_div {m : Nat} (h : m < 2 ^ 53) (j : Nat) : Fits53 (m / 2 ^ j) :=
  ⟨m, -j, h, by rw [zpow_neg, zpow_natCast, div_eq_mul_inv]⟩

/-- So has the number in front of one that has them, one last digit below it. -/
theorem fits53_pred {m : Nat} (h0 : 0 < m) (h : m ≤ 2 ^ 53) (j : Nat) :
    Fits53 (m / 2 ^ j - 1 / 2 ^ j) := by
  obtain ⟨m, rfl⟩ := Nat.exists_eq_succ_of_ne_zero h0.ne'
  have e : ((m + 1 : Nat) : ℚ) / 2 ^ j - 1 / 2 ^ j = m / 2 ^ j := by
    push_cast
    ring
  rw [e]
  exact fits53_div (by omega) j

/-! ### A half going up -/

/-- Going up from a half gives the exact result for a number that is in front of the next half by at
least its last digit. -/
theorem floor_nearest_add_half {x : ℚ} {k j : Nat} (h0 : 0 ≤ x) (hlow : (k : ℚ) - 1 / 2 ≤ x)
    (hhigh : x ≤ k + 1 / 2 - 1 / 2 ^ (j + 1)) (hfit : (k + 1) * 2 ^ (j + 1) < 2 ^ 53) :
    (nearest (nearest x + 1 / 2)).floor = k := by
  have hj : 0 < 2 ^ j := Nat.two_pow_pos j
  have hk : (k + 1) * 2 ≤ (k + 1) * 2 ^ (j + 1) := Nat.mul_le_mul_left _ (by omega)
  have hq0 : 0 ≤ nearest x := le_nearest h0 (fits53_natCast (m := 0) (by norm_num)) h0
  -- neither step goes below the number, or below the half in front of it
  have hbelow : (k : ℚ) ≤ nearest (nearest x + 1 / 2) := by
    refine le_nearest (by linarith) (fits53_natCast (by omega)) ?_
    rcases k with - | k
    · rw [Nat.cast_zero]
      linarith
    · have hhalf : ((2 * k + 1 : Nat) : ℚ) / 2 ^ 1 = (k + 1 : Nat) - 1 / 2 := by
        push_cast
        ring
      have := le_nearest h0 (fits53_div (by omega) 1) (hhalf.trans_le hlow)
      linarith
  -- neither step goes beyond the last digit in front of the next half, or of the next number
  have habove : nearest (nearest x + 1 / 2) < (k : ℚ) + 1 := by
    have hhalf : (((2 * k + 1) * 2 ^ j : Nat) : ℚ) / 2 ^ (j + 1) - 1 / 2 ^ (j + 1) =
        k + 1 / 2 - 1 / 2 ^ (j + 1) := by
      push_cast
      rw [pow_succ]
      field_simp
    have hone : (((k + 1) * 2 ^ (j + 1) : Nat) : ℚ) / 2 ^ (j + 1) - 1 / 2 ^ (j + 1) =
        k + 1 - 1 / 2 ^ (j + 1) := by
      push_cast
      field_simp
    have hm : (2 * k + 1) * 2 ^ j ≤ (k + 1) * 2 ^ (j + 1) :=
      calc (2 * k + 1) * 2 ^ j ≤ (k + 1) * 2 * 2 ^ j := Nat.mul_le_mul_right _ (by omega)
        _ = (k + 1) * 2 ^ (j + 1) := by ring
    have hq := nearest_le h0 (fits53_pred (by positivity) (by omega) (j + 1))
      (hhigh.trans_eq hhalf.symm)
    have hy := nearest_le (x := nearest x + 1 / 2) (by linarith)
      (fits53_pred (by positivity) hfit.le (j + 1)) (by linarith)
    have : (0 : ℚ) < 1 / 2 ^ (j + 1) := by positivity
    linarith
  have hlow' : (k : Int) ≤ (nearest (nearest x + 1 / 2)).floor :=
    Rat.le_floor_iff.2 (by exact_mod_cast hbelow)
  have hhigh' : (nearest (nearest x + 1 / 2)).floor < (k : Int) + 1 :=
    Rat.floor_lt_iff.2 (by exact_mod_cast habove)
  omega

end ThemePress.Numeric.Binary64
