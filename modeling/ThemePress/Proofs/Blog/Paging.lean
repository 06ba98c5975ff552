import Mathlib.Tactic.Lift
import Mathlib.Tactic.NormNum
import Mathlib.Tactic.Zify
import ThemePress.Blog.Paging
import ThemePress.Proofs.Numeric.Binary64

/-! # How many pages there are, and how many are counted

The pages that are there reach as far as the posts do (`lastPage`). The pages that are counted are
the posts over the size of a page to the nearest integer (`halfUp`). So the count is never beyond the
last page that is there, and behind it by one at most: just when there are posts left over for one
more page, but fewer than half of it (`halfUp_lt_lastPage_iff`).

The count is taken in double precision. Up to 2 ^ 48 posts no rounding changes it, whatever the size
of a page (`pageCount_eq_halfUp`): the quotient keeps a distance from the next half that is too large
to be rounded away. -/

namespace ThemePress.Blog.Paging

open Numeric.Binary64

/-- The quotient of posts and size of a page to the nearest integer, a half going up. -/
def halfUp (count perPage : Int) : Int :=
  ((count : ℚ) / pageSize perPage + 1 / 2).floor

/-- The number of the last page with posts, or of the first page if there are none. -/
def lastPage (count perPage : Int) : Int :=
  max 1 ((count : ℚ) / pageSize perPage).ceil

variable {count perPage k : Int}

theorem pageSize_pos (perPage : Int) : 0 < pageSize perPage := by
  unfold pageSize
  omega

theorem cast_pageSize_pos (perPage : Int) : (0 : ℚ) < pageSize perPage := by
  exact_mod_cast pageSize_pos perPage

/-! ### Where pages begin and counting goes up -/

theorem lt_ceil_iff : k < ((count : ℚ) / pageSize perPage).ceil ↔ k * pageSize perPage < count := by
  rw [Rat.lt_ceil_iff, lt_div_iff₀ (cast_pageSize_pos perPage)]
  norm_cast

/-- A page is behind the first only if it has posts in front. -/
theorem lt_lastPage_iff (hk : 1 ≤ k) : k < lastPage count perPage ↔ k * pageSize perPage < count := by
  rw [← lt_ceil_iff]
  unfold lastPage
  omega

theorem le_halfUp_iff :
    k ≤ halfUp count perPage ↔ (2 * k - 1) * pageSize perPage ≤ 2 * count := by
  have hs := cast_pageSize_pos perPage
  have hq : (k : ℚ) ≤ count / pageSize perPage + 1 / 2 ↔
      ((2 * k - 1 : Int) : ℚ) * pageSize perPage ≤ (2 * count : Int) := by
    push_cast
    rw [← sub_le_iff_le_add, le_div_iff₀ hs]
    constructor <;> intro h <;> linarith
  unfold halfUp
  rw [Rat.le_floor_iff, hq]
  norm_cast

theorem halfUp_nonneg (perPage : Int) (h0 : 0 ≤ count) : 0 ≤ halfUp count perPage := by
  have := pageSize_pos perPage
  rw [le_halfUp_iff]
  omega

/-! ### The count against the pages -/

/-- No page is counted that is not there. -/
theorem halfUp_le_lastPage (count perPage : Int) : halfUp count perPage ≤ lastPage count perPage := by
  by_contra hlt
  rw [not_le] at hlt
  have hone : 1 ≤ lastPage count perPage := le_max_left ..
  have hlast := mt (lt_lastPage_iff hone).2 (lt_irrefl _)
  have hcount := le_halfUp_iff.1 (show lastPage count perPage + 1 ≤ halfUp count perPage by omega)
  have hs := pageSize_pos perPage
  nlinarith

/-- All pages but the last are counted. -/
theorem lastPage_le_succ (count perPage : Int) :
    lastPage count perPage ≤ max 1 (halfUp count perPage) + 1 := by
  by_contra hlt
  rw [not_le] at hlt
  generalize hm : max 1 (halfUp count perPage) = m at hlt
  have hfill := (lt_lastPage_iff (show 1 ≤ m + 1 by omega)).1 hlt
  have hcount : ¬ m + 1 ≤ halfUp count perPage := by omega
  rw [le_halfUp_iff] at hcount
  have hs := pageSize_pos perPage
  nlinarith

/-- The count goes up by one from half of a page on. -/
theorem halfUp_eq (count perPage : Int) :
    halfUp count perPage =
      if 2 * (count % pageSize perPage) < pageSize perPage then count / pageSize perPage
      else count / pageSize perPage + 1 := by
  have hs := pageSize_pos perPage
  have hle : ∀ k, k ≤ halfUp count perPage ↔ (2 * k - 1) * pageSize perPage ≤ 2 * count :=
    fun k => le_halfUp_iff
  generalize halfUp count perPage = m at hle ⊢
  generalize pageSize perPage = s at hs hle ⊢
  have hdiv := Int.mul_ediv_add_emod count s
  have hr0 := Int.emod_nonneg count hs.ne'
  have hrs := Int.emod_lt_of_pos count hs
  generalize count / s = q at hdiv ⊢
  generalize count % s = r at hdiv hr0 hrs ⊢
  rw [← hdiv] at hle
  split_ifs with h
  · have hlow := (hle q).2 (by nlinarith)
    have hhigh := mt (hle (q + 1)).1 (by nlinarith)
    omega
  · have hlow := (hle (q + 1)).2 (by nlinarith)
    have hhigh := mt (hle (q + 2)).1 (by nlinarith)
    omega

/-- **The count misses a page just when less than half of it is filled.** The first page is not
missed. -/
theorem halfUp_lt_lastPage_iff (h0 : 0 ≤ count) :
    max 1 (halfUp count perPage) < lastPage count perPage ↔
      pageSize perPage < count ∧ 0 < 2 * (count % pageSize perPage) ∧
        2 * (count % pageSize perPage) < pageSize perPage := by
  have hs := pageSize_pos perPage
  rw [lt_lastPage_iff (le_max_left ..), halfUp_eq]
  generalize pageSize perPage = s at hs ⊢
  have hdiv := Int.mul_ediv_add_emod count s
  have hr0 := Int.emod_nonneg count hs.ne'
  have hrs := Int.emod_lt_of_pos count hs
  have hq0 : 0 ≤ count / s := Int.ediv_nonneg h0 hs.le
  generalize count / s = q at hdiv hq0 ⊢
  generalize count % s = r at hdiv hr0 hrs ⊢
  rw [← hdiv]
  split_ifs with hr
  · constructor
    · intro hfill
      have hq : q ≤ max 1 q := le_max_right ..
      have hone : 1 ≤ max 1 q := le_max_left ..
      exact ⟨by nlinarith, by nlinarith, hr⟩
    · rintro ⟨hmore, hrest, -⟩
      have hq : 1 ≤ q := by nlinarith
      rw [max_eq_right hq]
      nlinarith
  · constructor
    · intro hfill
      have hq : q + 1 ≤ max 1 (q + 1) := le_max_right ..
      nlinarith
    · rintro ⟨-, -, hr'⟩
      exact absurd hr' hr

/-! ### Counting in double precision -/

theorem fits_iff {n : Int} :
    Text.Decimal.fits n ↔ -0x8000000000000000 ≤ n ∧ n ≤ 0x7FFFFFFFFFFFFFFF := by
  unfold Text.Decimal.fits Text.Decimal.least Text.Decimal.greatest
  rw [Bool.and_eq_true, decide_eq_true_eq, decide_eq_true_eq]

theorem clamp_eq {n : Int} (h : Text.Decimal.fits n) : clamp n = n := by
  have := fits_iff.1 h
  unfold clamp Text.Decimal.least Text.Decimal.greatest
  omega

theorem pageCount_le (count perPage : Int) : pageCount count perPage ≤ 0x7FFFFFFFFFFFFFFF := by
  unfold pageCount clamp Text.Decimal.least Text.Decimal.greatest
  dsimp only
  omega

/-- A quotient that is in front of a half is in front of it by a half of what the divisor makes
one of. -/
theorem div_le_of_lt_half {n s k j : Nat} (hs : 0 < s) (hn : 2 * n < (2 * k + 1) * s)
    (hj : 2 * s ≤ 2 ^ (j + 1)) : (n : ℚ) / s ≤ k + 1 / 2 - 1 / 2 ^ (j + 1) := by
  have hs' : (0 : ℚ) < s := by exact_mod_cast hs
  have hn' : 2 * (n : ℚ) + 1 ≤ (2 * k + 1) * s := by exact_mod_cast hn
  have hj' : 2 * (s : ℚ) ≤ 2 ^ (j + 1) := by exact_mod_cast hj
  have hpart : (s : ℚ) * (1 / 2 ^ (j + 1)) ≤ 1 / 2 := by
    rw [mul_one_div, div_le_iff₀ (by positivity)]
    linarith
  rw [div_le_iff₀ hs']
  nlinarith

/-- Rounding at every step gives the exact count. -/
theorem floor_rounded {n s k : Nat} (hs : 0 < s) (hn : n < 2 ^ 48) (hlow : 2 * k * s ≤ 2 * n + s)
    (hhigh : 2 * n < (2 * k + 1) * s) :
    (nearest (nearest (nearest n / nearest s) + 1 / 2)).floor = k := by
  rw [nearest_of_fits53 (r := n) (by positivity) (fits53_natCast (by omega))]
  by_cases hlarge : s ≤ 2 ^ 50
  · rw [nearest_of_fits53 (r := s) (by positivity) (fits53_natCast (by omega))]
    -- the leading digit of the divisor says how many digits the quotient may need
    have hj : 2 * s < 2 ^ ((2 * s).log2 + 1) := Nat.lt_log2_self
    have hj' : 2 ^ (2 * s).log2 ≤ 2 * s := Nat.log2_self_le (by omega)
    refine floor_nearest_add_half (by positivity) ?_ (div_le_of_lt_half hs hhigh hj.le) ?_
    · have hs' : (0 : ℚ) < s := by exact_mod_cast hs
      have hlow' : 2 * (k : ℚ) * s ≤ 2 * n + s := by exact_mod_cast hlow
      rw [le_div_iff₀ hs']
      linarith
    · calc (k + 1) * 2 ^ ((2 * s).log2 + 1) ≤ (k + 1) * (2 * s * 2) := by
            rw [pow_succ]
            exact Nat.mul_le_mul_left _ (Nat.mul_le_mul_right _ hj')
        _ = 2 * (2 * k * s) + 4 * s := by ring
        _ < 2 ^ 53 := by omega
  · -- pages this large are not half filled, and the quotient is nowhere near a half
    have hk : k = 0 := by
      by_contra hk
      have : 2 * s ≤ 2 * k * s := Nat.mul_le_mul_right _ (by omega)
      omega
    have hsize : ((2 ^ 50 : Nat) : ℚ) ≤ nearest s :=
      le_nearest (by positivity) (fits53_natCast (by norm_num)) (by exact_mod_cast (not_le.1 hlarge).le)
    have hpos : 0 < nearest (s : ℚ) := lt_of_lt_of_le (by norm_num) hsize
    have hn' : (n : ℚ) ≤ 2 ^ 48 := by exact_mod_cast hn.le
    have hquarter : (n : ℚ) / nearest s ≤ 1 / 4 := by
      rw [div_le_iff₀ hpos]
      push_cast at hsize
      linarith
    have h0 : (0 : ℚ) ≤ n / nearest s := by positivity
    rw [hk]
    exact floor_nearest_add_half (j := 1) h0 (by norm_num; linarith) (by norm_num; linarith)
      (by norm_num)

/-- **The count is exact up to 2 ^ 48 posts**, for pages of any size. -/
theorem pageCount_eq_halfUp (perPage : Int) (h0 : 0 ≤ count) (h : count < 2 ^ 48) :
    pageCount count perPage = halfUp count perPage := by
  have hs := pageSize_pos perPage
  have hk := halfUp_nonneg perPage h0
  have hlow := le_halfUp_iff.1 (le_refl (halfUp count perPage))
  have hhigh := mt le_halfUp_iff.2 (not_le.2 (lt_add_one (halfUp count perPage)))
  unfold pageCount
  generalize halfUp count perPage = k at *
  generalize pageSize perPage = s at *
  lift k to Nat using hk
  lift s to Nat using hs.le
  lift count to Nat using h0
  have hlow' : 2 * k * s ≤ 2 * count + s := by zify; linarith
  have hhigh' : 2 * count < (2 * k + 1) * s := by zify; linarith
  have hfits : Text.Decimal.fits k := by
    have hsmall : 2 * (k : Int) ≤ 2 * count + 1 := by nlinarith
    rw [fits_iff]
    omega
  dsimp only
  rw [Int.cast_natCast, Int.cast_natCast,
    floor_rounded (by exact_mod_cast hs) (by exact_mod_cast h) hlow' hhigh', clamp_eq hfits]

end ThemePress.Blog.Paging
