import ThemePress.Proofs.Text.Lowercase
import ThemePress.Proofs.Text.Words
import ThemePress.Text.Slug

/-! # The form of slugs

`Written` says, character by character, what a label in small letters becomes when its length does
not matter. A slug is the beginning of this: all of it if it is short enough, and otherwise what is
in front of its last dash within the range for cuts (`shorten_of_isCut`), or as much as the limit
allows. A slug has no blanks and no capitals, and none of its characters is changed or dropped, so
it is its own slug (`ofLabel_eq_self`). -/

namespace ThemePress.Text.Slug

/-! ### Letters and numbers are no blanks -/

/-- The stretches without a blank, each by the code points in front of it and behind it. -/
def stretches : List (Nat × Nat) :=
  [(0x3000, 0x110000), (0x205F, 0x3000), (0x202F, 0x205F), (0x2029, 0x202F), (0x200A, 0x2028),
    (0x1680, 0x2000), (0xA0, 0x1680), (0x85, 0xA0), (0x20, 0x85), (13, 0x20)]

theorem stretch_of_mem_alphanumeric : ∀ p ∈ alphanumeric,
    (stretches.any fun q => q.1.blt p.1 && p.2.blt q.2) = true := by
  decide +kernel

theorem isBlank_of_mem_stretches {c : Char} {q : Nat × Nat} (hq : q ∈ stretches)
    (hfirst : q.1 < c.toNat) (hlast : c.toNat < q.2) : isBlank c = false := by
  have hcode : isBlank c ↔ (9 ≤ c.toNat ∧ c.toNat ≤ 13) ∨ c.toNat = 0x20 ∨ c.toNat = 0x85 ∨
      c.toNat = 0xA0 ∨ c.toNat = 0x1680 ∨ (0x2000 ≤ c.toNat ∧ c.toNat ≤ 0x200A) ∨
      c.toNat = 0x2028 ∨ c.toNat = 0x2029 ∨ c.toNat = 0x202F ∨ c.toNat = 0x205F ∨
      c.toNat = 0x3000 := by
    simp [isBlank, or_assoc]
  rw [← Bool.not_eq_true, hcode]
  simp only [stretches, List.mem_cons, List.not_mem_nil, or_false] at hq
  rcases hq with rfl | rfl | rfl | rfl | rfl | rfl | rfl | rfl | rfl | rfl <;>
    dsimp only at hfirst hlast <;> omega

theorem isBlank_of_isAlphanumeric {c : Char} (h : isAlphanumeric c) : isBlank c = false := by
  obtain ⟨p, hp, hc⟩ := List.any_eq_true.1 h
  obtain ⟨q, hq, hbounds⟩ := List.any_eq_true.1 (stretch_of_mem_alphanumeric p hp)
  simp only [Bool.and_eq_true, decide_eq_true_eq, Nat.blt_eq] at hc hbounds
  exact isBlank_of_mem_stretches hq (by omega) (by omega)

/-! ### Characters -/

/-- The characters that slugs are made of. -/
def IsSlugChar (c : Char) : Prop :=
  isAlphanumeric c ∨ c = '_' ∨ c = '-'

/-- What a text becomes, with no limit to its length. -/
inductive Written : List Char → List Char → Prop where
  | nil : Written [] []
  | dash {c : Char} {s m : List Char} (hc : c = ' ' ∨ c = '-' ∨ c = '/') (hs : Written s m) :
    Written (c :: s) ('-' :: m)
  | kept {c : Char} {s m : List Char} (hc : isAlphanumeric c ∨ c = '_') (hs : Written s m) :
    Written (c :: s) (c :: m)
  | dropped {c : Char} {s m : List Char} (hseparator : c ≠ ' ' ∧ c ≠ '-' ∧ c ≠ '/')
    (hc : ¬ (isAlphanumeric c ∨ c = '_')) (hs : Written s m) : Written (c :: s) m

variable {c : Char} {s m : List Char} {i : Nat}

theorem ofChar?_dash (hc : c = ' ' ∨ c = '-' ∨ c = '/') : ofChar? c = some '-' :=
  if_pos hc

/-- Separators are neither letters nor numbers. -/
theorem ofChar?_kept (hc : isAlphanumeric c ∨ c = '_') : ofChar? c = some c := by
  have hseparator : ¬ (c = ' ' ∨ c = '-' ∨ c = '/') := by
    rintro (rfl | rfl | rfl) <;> revert hc <;> decide +kernel
  rw [ofChar?, if_neg hseparator, if_pos hc.symm]

theorem ofChar?_dropped (hseparator : c ≠ ' ' ∧ c ≠ '-' ∧ c ≠ '/')
    (hc : ¬ (isAlphanumeric c ∨ c = '_')) : ofChar? c = none := by
  rw [ofChar?, if_neg (by simpa [not_or] using hseparator), if_neg (mt Or.symm hc)]

theorem written_iff : Written s m ↔ m = s.filterMap ofChar? := by
  constructor
  · intro h
    induction h with
    | nil => rfl
    | dash hc _ ih => rw [List.filterMap_cons_some (ofChar?_dash hc), ih]
    | kept hc _ ih => rw [List.filterMap_cons_some (ofChar?_kept hc), ih]
    | dropped hseparator hc _ ih => rw [List.filterMap_cons_none (ofChar?_dropped hseparator hc), ih]
  · rintro rfl
    induction s with
    | nil => exact .nil
    | cons c s ih =>
      by_cases hseparator : c = ' ' ∨ c = '-' ∨ c = '/'
      · rw [List.filterMap_cons_some (ofChar?_dash hseparator)]
        exact .dash hseparator ih
      by_cases hc : isAlphanumeric c ∨ c = '_'
      · rw [List.filterMap_cons_some (ofChar?_kept hc)]
        exact .kept hc ih
      · simp only [not_or] at hseparator
        rw [List.filterMap_cons_none (ofChar?_dropped hseparator hc)]
        exact .dropped hseparator hc ih

/-- What is written is a dash or a character of the text. -/
theorem Written.mem (h : Written s m) (hc : c ∈ m) :
    c = '-' ∨ c ∈ s ∧ (isAlphanumeric c ∨ c = '_') := by
  induction h with
  | nil => cases hc
  | dash _ _ ih =>
    rcases List.mem_cons.1 hc with rfl | hc
    · exact .inl rfl
    · exact (ih hc).imp_right (And.imp_left (List.mem_cons_of_mem _))
  | kept hkept _ ih =>
    rcases List.mem_cons.1 hc with rfl | hc
    · exact .inr ⟨List.mem_cons_self, hkept⟩
    · exact (ih hc).imp_right (And.imp_left (List.mem_cons_of_mem _))
  | dropped _ _ _ ih => exact (ih hc).imp_right (And.imp_left (List.mem_cons_of_mem _))

theorem Written.isSlugChar (h : Written s m) (hc : c ∈ m) : IsSlugChar c := by
  rcases h.mem hc with rfl | ⟨-, hc | rfl⟩
  · exact .inr (.inr rfl)
  · exact .inl hc
  · exact .inr (.inl rfl)

theorem IsSlugChar.isBlank_eq (h : IsSlugChar c) : isBlank c = false := by
  rcases h with h | rfl | rfl
  · exact isBlank_of_isAlphanumeric h
  · rfl
  · rfl

theorem written_self (h : ∀ c ∈ s, IsSlugChar c) : Written s s := by
  induction s with
  | nil => exact .nil
  | cons c s ih =>
    obtain ⟨hc, hs⟩ := List.forall_mem_cons.1 h
    rcases hc with hc | rfl | rfl
    · exact .kept (.inl hc) (ih hs)
    · exact .kept (.inr rfl) (ih hs)
    · exact .dash (.inr (.inl rfl)) (ih hs)

/-! ### Cuts -/

/-- The last dash within the range for cuts is here. -/
structure IsCut (m : List Char) (i : Nat) : Prop where
  least : 39 ≤ i
  most : i ≤ 74
  dash : m[i]? = some '-'
  last : ∀ j, i < j → j ≤ 74 → m[j]? ≠ some '-'

theorem IsCut.unique {j : Nat} (hi : IsCut m i) (hj : IsCut m j) : i = j := by
  rcases Nat.lt_trichotomy i j with h | h | h
  · exact absurd hj.dash (hi.last j h hj.most)
  · exact h
  · exact absurd hi.dash (hj.last i h hi.most)

theorem mem_range_iff : i ∈ List.range' lowestCut (limit - lowestCut) ↔ 39 ≤ i ∧ i ≤ 74 := by
  have hlowest : lowestCut = 39 := rfl
  have hlimit : limit = 75 := rfl
  rw [List.mem_range'_1, hlowest, hlimit]
  omega

theorem isCut_of_cut? (h : cut? m = some i) : IsCut m i := by
  obtain ⟨hdash, behind, before, hrange, hbehind⟩ := List.find?_eq_some_iff_append.1 h
  have hmem := mem_range_iff.1 (List.mem_reverse.1 (List.mem_of_find?_eq_some h))
  refine ⟨hmem.1, hmem.2, beq_iff_eq.1 hdash, fun j hj hmost => ?_⟩
  -- what is looked at before `i` lies behind it
  have hsorted : (behind ++ i :: before).Pairwise (· > ·) := by
    rw [← hrange, List.pairwise_reverse]
    exact List.pairwise_lt_range' _ (by decide)
  have hjmem : j ∈ behind ++ i :: before := by
    rw [← hrange, List.mem_reverse, mem_range_iff]
    omega
  rcases List.mem_append.1 hjmem with hjmem | hjmem
  · simpa using hbehind j hjmem
  · have hle : j ≤ i := by
      rcases List.mem_cons.1 hjmem with rfl | hjmem
      · exact le_rfl
      · exact (List.rel_of_pairwise_cons (List.pairwise_append.1 hsorted).2.1 hjmem).le
    omega

theorem cut?_eq_none_iff : cut? m = none ↔ ∀ i, 39 ≤ i → i ≤ 74 → m[i]? ≠ some '-' := by
  rw [cut?, List.find?_eq_none]
  simp only [List.mem_reverse, mem_range_iff, beq_iff_eq, and_imp, ne_eq]

theorem cut?_eq_some_iff : cut? m = some i ↔ IsCut m i := by
  refine ⟨isCut_of_cut?, fun h => ?_⟩
  cases hcut : cut? m with
  | none => exact absurd h.dash (cut?_eq_none_iff.1 hcut i h.least h.most)
  | some j => rw [(isCut_of_cut? hcut).unique h]

theorem shorten_of_le (h : m.length ≤ 75) : shorten m = m :=
  if_pos h

theorem shorten_of_isCut (h : 75 < m.length) (hi : IsCut m i) : shorten m = m.take i := by
  rw [shorten, if_neg (show ¬ m.length ≤ limit from Nat.not_le.2 h), cut?_eq_some_iff.2 hi]
  rfl

theorem shorten_of_no_cut (h : 75 < m.length) (hnone : ∀ i, 39 ≤ i → i ≤ 74 → m[i]? ≠ some '-') :
    shorten m = m.take 75 := by
  rw [shorten, if_neg (show ¬ m.length ≤ limit from Nat.not_le.2 h), cut?_eq_none_iff.2 hnone]
  rfl

theorem shorten_prefix (m : List Char) : shorten m <+: m := by
  unfold shorten
  split
  · exact List.prefix_rfl
  · exact List.take_prefix _ _

theorem length_shorten_le (m : List Char) : (shorten m).length ≤ 75 := by
  rcases Nat.lt_or_ge 75 m.length with h | h
  · cases hcut : cut? m with
    | none =>
      rw [shorten_of_no_cut h (cut?_eq_none_iff.1 hcut), List.length_take]
      omega
    | some i =>
      have hi := isCut_of_cut? hcut
      have hmost := hi.most
      rw [shorten_of_isCut h hi, List.length_take]
      omega
  · rwa [shorten_of_le h]

/-! ### Slugs -/

/-- A short text of characters for slugs without capitals is its own slug. -/
theorem ofLabel_eq_self {label : String} (hchars : ∀ c ∈ label.toList, IsSlugChar c)
    (hsmall : ∀ c ∈ label.toList, IsSmall c) (hlength : label.toList.length ≤ 75) :
    ofLabel label = label := by
  have htrim : trimChars label.toList = label.toList := by
    cases hlabel : label.toList with
    | nil => rfl
    | cons c s =>
      rw [hlabel] at hchars
      exact trimChars_eq_self (hchars c List.mem_cons_self).isBlank_eq fun d hd =>
        (hchars d (List.mem_cons_of_mem _ (List.mem_of_getLast? hd))).isBlank_eq
  rw [ofLabel, htrim, lowercase_eq_self hsmall, ← written_iff.1 (written_self hchars),
    shorten_of_le hlength, String.ofList_toList]

/-- **Slugs are normal forms.** The characters of a label, trimmed and in small letters, are written
in one way. The slug has at most 75 of them, which are letters, numbers, `_` and `-`, and it is the
slug of itself. It is the beginning of what is written: all of it when that has at most 75
characters, and otherwise what stands in front of the last dash at one of the places from 39 to 74,
or the first 75 characters if there is no dash there. -/
theorem slug_is_normal (label : String) :
    ∃ m, (∀ m', Written (lowercase (trimChars label.toList)) m' ↔ m' = m) ∧
      (ofLabel label).toList.length ≤ 75 ∧ (∀ c ∈ (ofLabel label).toList, IsSlugChar c) ∧
      ofLabel (ofLabel label) = ofLabel label ∧ (ofLabel label).toList <+: m ∧
      (m.length ≤ 75 → (ofLabel label).toList = m) ∧
      (75 < m.length → (∀ i, IsCut m i → (ofLabel label).toList = m.take i) ∧
        ((∀ i, 39 ≤ i → i ≤ 74 → m[i]? ≠ some '-') → (ofLabel label).toList = m.take 75)) := by
  let m := (lowercase (trimChars label.toList)).filterMap ofChar?
  have hwritten : Written (lowercase (trimChars label.toList)) m := written_iff.2 rfl
  have hslug : (ofLabel label).toList = shorten m := String.toList_ofList
  have hstart : (ofLabel label).toList <+: m := hslug ▸ shorten_prefix m
  have hlength : (ofLabel label).toList.length ≤ 75 := hslug ▸ length_shorten_le m
  have hchars : ∀ c ∈ (ofLabel label).toList, IsSlugChar c := fun c hc =>
    hwritten.isSlugChar (hstart.subset hc)
  have hsmall : ∀ c ∈ (ofLabel label).toList, IsSmall c := by
    intro c hc
    rcases hwritten.mem (hstart.subset hc) with rfl | ⟨hmem, -⟩
    · decide +kernel
    · exact isSmall_of_mem_lowercase hmem
  refine ⟨m, fun _ => written_iff, hlength, hchars, ofLabel_eq_self hchars hsmall hlength, hstart,
    fun h => ?_, fun h => ⟨fun i hi => ?_, fun hnone => ?_⟩⟩
  · rw [hslug, shorten_of_le h]
  · rw [hslug, shorten_of_isCut h hi]
  · rw [hslug, shorten_of_no_cut h hnone]

end ThemePress.Text.Slug
