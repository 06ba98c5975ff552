import Mathlib.Data.List.Chain
import ThemePress.Text.Lowercase

/-! # Small letters are final

No small letter in the table is a capital of it (`misses_capitals`), so what lower case produces
stays as it is, wherever it stands (`isSmall_of_mem_lowercase`, `lowercase_eq_self`). The special
capitals make no difference: `I` with a dot becomes two characters that are both small, and the two
forms of sigma depend on what is beside the capital only. -/

namespace ThemePress.Text

/-! ### Runs of capitals and their small letters -/

namespace CapitalRun

variable {c : Char} {r q : CapitalRun} {l : List CapitalRun}

/-- The code point of the first small letter of a run. -/
def firstSmall (r : CapitalRun) : Nat :=
  (r.first + r.shift).toNat

/-- The code point of the last small letter of a run. -/
def lastSmall (r : CapitalRun) : Nat :=
  (r.last + r.shift).toNat

/-- The small letters of a run are characters. -/
structure Proper (r : CapitalRun) : Prop where
  nonneg : 0 ≤ r.first + r.shift
  valid : r.lastSmall < 0xD800 ∨ 0xDFFF < r.firstSmall ∧ r.lastSmall < 0x110000

instance (r : CapitalRun) : Decidable r.Proper :=
  decidable_of_iff _ ⟨fun ⟨h, h'⟩ => ⟨h, h'⟩, fun ⟨h, h'⟩ => And.intro h h'⟩

/-- No small letter of `r` is a capital in a list of runs that are in order. They lie in front of
the capitals of a run or behind them, or every other code point is a capital there and the small
letters are the others. -/
def misses (r : CapitalRun) : List CapitalRun → Bool
  | [] => true
  | q :: rest =>
    r.lastSmall.blt q.first ||
      (q.last.blt r.firstSmall ||
        q.step == 2 && (r.step == 2 || r.first == r.last) &&
          (r.firstSmall + q.first) % 2 == 1) && r.misses rest

theorem contains_iff : r.contains c ↔
    r.first ≤ c.toNat ∧ c.toNat ≤ r.last ∧ (c.toNat - r.first) % r.step = 0 := by
  rw [contains, Bool.and_eq_true, Bool.and_eq_true, decide_eq_true_eq, decide_eq_true_eq,
    beq_iff_eq, and_assoc]

theorem Proper.toNat_small (hr : r.Proper) (hc : r.contains c) :
    ((Char.ofNat (c.toNat + r.shift).toNat).toNat : Int) = c.toNat + r.shift := by
  obtain ⟨hfirst, hlast, -⟩ := contains_iff.1 hc
  obtain ⟨hnonneg, hvalid⟩ := hr
  unfold firstSmall lastSmall at hvalid
  have hchar : (c.toNat + r.shift).toNat.isValidChar := by
    unfold Nat.isValidChar
    omega
  have hsmall : (Char.ofNat (c.toNat + r.shift).toNat).toNat = (c.toNat + r.shift).toNat := by
    rw [Char.ofNat, dif_pos hchar]
    rfl
  omega

/-- What is small in a run that misses others is no capital of theirs. -/
theorem Proper.not_contains_small (hr : r.Proper) (hc : r.contains c)
    (hl : l.Pairwise fun p q => p.first < q.first) (hmisses : r.misses l) :
    ∀ q ∈ l, q.contains (Char.ofNat (c.toNat + r.shift).toNat) = false := by
  have hsmall := hr.toNat_small hc
  obtain ⟨hfirst, hlast, hstep⟩ := contains_iff.1 hc
  have hnonneg := hr.nonneg
  have hends : r.firstSmall = r.first + r.shift ∧ r.lastSmall = r.last + r.shift := by
    unfold firstSmall lastSmall
    omega
  generalize Char.ofNat (c.toNat + r.shift).toNat = small at hsmall
  induction l with
  | nil => simp
  | cons q rest ih =>
    obtain ⟨hq, hrest⟩ := List.pairwise_cons.1 hl
    simp only [misses, Bool.or_eq_true, Bool.and_eq_true, Nat.blt_eq, beq_iff_eq] at hmisses
    simp only [List.forall_mem_cons, ← Bool.not_eq_true, contains_iff]
    rcases hmisses with hbehind | ⟨hmisses, hmore⟩
    · refine ⟨by omega, fun p hp => ?_⟩
      have := hq p hp
      omega
    · refine ⟨?_, fun p hp => by rw [← contains_iff, ih hrest hmore p hp]; exact Bool.false_ne_true⟩
      rintro ⟨hfirst', hlast', hstep'⟩
      rcases hmisses with hfront | ⟨⟨htwo, hothers⟩, hodd⟩
      · omega
      · rw [htwo] at hstep'
        rcases hothers with hothers | hothers
        · rw [hothers] at hstep
          omega
        · omega

end CapitalRun

/-! ### The table -/

theorem proper_of_mem : ∀ r ∈ capitals, r.Proper := by
  decide +kernel

/-- The runs of the table are in order. -/
theorem pairwise_capitals : capitals.Pairwise fun p q => p.first < q.first := by
  have hchain : (capitals.map (·.first)).IsChain (· < ·) := by decide +kernel
  exact List.pairwise_map.1 (List.isChain_iff_pairwise.1 hchain)

theorem misses_capitals : ∀ r ∈ capitals, r.misses capitals = true := by
  decide +kernel

/-- The capital `I` with a dot, which has no single small letter. -/
def dotted : CapitalRun :=
  ⟨0x130, 0x130, 1, 0⟩

theorem misses_dotted : ∀ r ∈ capitals, r.misses [dotted] = true := by
  decide +kernel

/-! ### Small letters -/

variable {c : Char} {s before : List Char}

/-- The character is its own small letter, whatever is beside it. -/
structure IsSmall (c : Char) : Prop where
  not_capital : ∀ r ∈ capitals, r.contains c = false
  not_dotted : c ≠ '\u0130'

instance (c : Char) : Decidable (IsSmall c) :=
  decidable_of_iff _ ⟨fun ⟨h, h'⟩ => ⟨h, h'⟩, fun ⟨h, h'⟩ => And.intro h h'⟩

theorem IsSmall.ne_sigma (h : IsSmall c) : c ≠ '\u03A3' := by
  rintro rfl
  have hsigma : ∃ r ∈ capitals, r.contains '\u03A3' = true := by decide +kernel
  obtain ⟨r, hr, hc⟩ := hsigma
  exact Bool.false_ne_true ((h.not_capital r hr).symm.trans hc)

theorem IsSmall.lowerChar_eq (h : IsSmall c) : lowerChar c = c := by
  have hnone : capitals.find? (·.contains c) = none :=
    List.find?_eq_none.2 fun r hr => by simp [h.not_capital r hr]
  rw [lowerChar, hnone]

theorem isSmall_lowerChar (hc : c ≠ '\u0130') : IsSmall (lowerChar c) := by
  unfold lowerChar
  split
  · next r hfind =>
    have hr := List.mem_of_find?_eq_some hfind
    have hcontains := List.find?_some hfind
    refine ⟨(proper_of_mem r hr).not_contains_small hcontains pairwise_capitals
      (misses_capitals r hr), fun hdotted => ?_⟩
    have hmissed := (proper_of_mem r hr).not_contains_small hcontains (List.pairwise_singleton ..)
      (misses_dotted r hr) dotted List.mem_cons_self
    rw [hdotted] at hmissed
    exact absurd hmissed (by decide)
  · next hnone =>
    exact ⟨fun r hr => Bool.not_eq_true _ ▸ List.find?_eq_none.1 hnone r hr, hc⟩

theorem isSmall_of_mem_lowerAfter (h : c ∈ lowerAfter before s) : IsSmall c := by
  induction s generalizing before with
  | nil => cases h
  | cons a s ih =>
    have hspecial : IsSmall '\u03C2' ∧ IsSmall '\u03C3' ∧ IsSmall 'i' ∧ IsSmall '\u0307' := by
      decide +kernel
    obtain ⟨hfinal, hsigma, hi, hdot⟩ := hspecial
    rw [lowerAfter, List.mem_append] at h
    rcases h with h | h
    · split_ifs at h with _ _ hdotted
      · exact List.mem_singleton.1 h ▸ hfinal
      · exact List.mem_singleton.1 h ▸ hsigma
      · rcases List.mem_pair.1 h with rfl | rfl
        · exact hi
        · exact hdot
      · exact List.mem_singleton.1 h ▸ isSmall_lowerChar hdotted
    · exact ih h

/-- **Lower case produces small letters.** -/
theorem isSmall_of_mem_lowercase (h : c ∈ lowercase s) : IsSmall c :=
  isSmall_of_mem_lowerAfter h

theorem lowerAfter_eq_self (h : ∀ c ∈ s, IsSmall c) : lowerAfter before s = s := by
  induction s generalizing before with
  | nil => rfl
  | cons a s ih =>
    obtain ⟨ha, hs⟩ := List.forall_mem_cons.1 h
    rw [lowerAfter, if_neg ha.ne_sigma, if_neg ha.not_dotted, ha.lowerChar_eq, ih hs]
    rfl

/-- **Small letters stay as they are.** -/
theorem lowercase_eq_self (h : ∀ c ∈ s, IsSmall c) : lowercase s = s :=
  lowerAfter_eq_self h

end ThemePress.Text
