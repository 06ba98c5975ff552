import Mathlib.Data.String.Basic
import ThemePress.Text.Utf8

/-! # Text as bytes

What is written as UTF-8 is read back (`readLossy_bytesOf`), and texts stand in the order of their
bytes (`bytesOf_lt_iff`). Both are facts about one character in front of any bytes: it is read
before the rest (`decode_encodeChar`), and of two characters the bytes differ before either of them
ends (`encodeChar_lt`). A byte below `80` stands only for its own character (`mem_bytesOf_iff`). -/

namespace ThemePress.Text.Utf8

open String (utf8EncodeChar)

/-! ### The bytes of a character -/

/-- The bytes of the code point `v`, by its size. -/
inductive Encoded (v : Nat) : List UInt8 → Prop where
  | one (h : v < 0x80) : Encoded v [UInt8.ofNat v]
  | two (low : 0x80 ≤ v) (high : v < 0x800) :
    Encoded v [UInt8.ofNat (v / 64 + 0xC0), UInt8.ofNat (v % 64 + 0x80)]
  | three (low : 0x800 ≤ v) (high : v < 0x10000) (valid : v < 0xD800 ∨ 0xDFFF < v) :
    Encoded v [UInt8.ofNat (v / 4096 + 0xE0), UInt8.ofNat (v / 64 % 64 + 0x80),
      UInt8.ofNat (v % 64 + 0x80)]
  | four (low : 0x10000 ≤ v) (high : v < 0x110000) :
    Encoded v [UInt8.ofNat (v / 262144 + 0xF0), UInt8.ofNat (v / 4096 % 64 + 0x80),
      UInt8.ofNat (v / 64 % 64 + 0x80), UInt8.ofNat (v % 64 + 0x80)]

theorem encoded (c : Char) : Encoded c.toNat (utf8EncodeChar c) := by
  have hvalid : c.toNat < 0xD800 ∨ 0xDFFF < c.toNat ∧ c.toNat < 0x110000 := c.valid
  have hval : c.val.toNat = c.toNat := rfl
  simp only [utf8EncodeChar, hval]
  split
  · exact .one (by omega)
  · split
    · rw [Nat.mod_eq_of_lt (by omega)]
      exact .two (by omega) (by omega)
    · split
      · rw [Nat.mod_eq_of_lt (by omega)]
        exact .three (by omega) (by omega) (by omega)
      · rw [Nat.mod_eq_of_lt (by omega)]
        exact .four (by omega) (by omega)

/-! ### Reading a character -/

theorem toNat_ofNat {n : Nat} (h : n < 256) : (UInt8.ofNat n).toNat = n :=
  UInt8.toNat_ofNat_of_lt' h

theorem ofNat_lt_ofNat {m n : Nat} (hm : m < 256) (hn : n < 256) :
    UInt8.ofNat m < UInt8.ofNat n ↔ m < n := by
  rw [UInt8.lt_iff_toNat_lt, toNat_ofNat hm, toNat_ofNat hn]

theorem ofNat_inj {m n : Nat} (hm : m < 256) (hn : n < 256) :
    UInt8.ofNat m = UInt8.ofNat n ↔ m = n := by
  rw [← UInt8.toNat_inj, toNat_ofNat hm, toNat_ofNat hn]

section
variable {a b c d : UInt8}

theorem isTail_iff : isTail b ↔ 0x80 ≤ b.toNat ∧ b.toNat ≤ 0xBF := by
  simp [isTail, UInt8.le_iff_toNat_le]

theorem isThirds_iff : isThirds a b ↔ isTail b ∧ (a.toNat = 0xE0 → 0xA0 ≤ b.toNat) ∧
    (a.toNat = 0xED → b.toNat ≤ 0x9F) := by
  have h₁ : a = 0xE0 ↔ a.toNat = 0xE0 := UInt8.toNat_inj.symm
  have h₂ : a = 0xED ↔ a.toNat = 0xED := UInt8.toNat_inj.symm
  rw [isTail_iff]
  unfold isThirds
  simp only [h₁, h₂]
  split
  · simp [UInt8.le_iff_toNat_le]; omega
  · split
    · simp [UInt8.le_iff_toNat_le]; omega
    · rw [isTail_iff]; omega

theorem isFourths_iff : isFourths a b ↔ isTail b ∧ (a.toNat = 0xF0 → 0x90 ≤ b.toNat) ∧
    (a.toNat = 0xF4 → b.toNat ≤ 0x8F) := by
  have h₁ : a = 0xF0 ↔ a.toNat = 0xF0 := UInt8.toNat_inj.symm
  have h₂ : a = 0xF4 ↔ a.toNat = 0xF4 := UInt8.toNat_inj.symm
  rw [isTail_iff]
  unfold isFourths
  simp only [h₁, h₂]
  split
  · simp [UInt8.le_iff_toNat_le]; omega
  · split
    · simp [UInt8.le_iff_toNat_le]; omega
    · rw [isTail_iff]; omega

theorem decode_one (h : a.toNat < 0x80) (s : List UInt8) :
    decode (a :: s) = some (Char.ofNat a.toNat) :: decode s := by
  have hlt : a < 0x80 := UInt8.lt_iff_toNat_lt.2 h
  rw [decode.eq_def]
  simp only [hlt, if_true]

/-- The size of a character shows in the range of its first byte. -/
theorem ranges (a : UInt8) :
    (a < 0x80 ↔ a.toNat < 0x80) ∧
    ((0xC2 ≤ a && a ≤ 0xDF) = true ↔ 0xC2 ≤ a.toNat ∧ a.toNat ≤ 0xDF) ∧
    ((0xE0 ≤ a && a ≤ 0xEF) = true ↔ 0xE0 ≤ a.toNat ∧ a.toNat ≤ 0xEF) ∧
    ((0xF0 ≤ a && a ≤ 0xF4) = true ↔ 0xF0 ≤ a.toNat ∧ a.toNat ≤ 0xF4) := by
  simp [UInt8.le_iff_toNat_le, UInt8.lt_iff_toNat_lt]

theorem decode_two (h : 0xC2 ≤ a.toNat ∧ a.toNat ≤ 0xDF) (hb : isTail b) (s : List UInt8) :
    decode (a :: b :: s) = some (char2 a b) :: decode s := by
  obtain ⟨h₁, h₂, -⟩ := ranges a
  rw [decode.eq_def]
  dsimp only
  rw [if_neg (by rw [h₁]; omega), if_pos (h₂.2 h), if_pos hb]

theorem decode_three (h : 0xE0 ≤ a.toNat ∧ a.toNat ≤ 0xEF) (hb : isThirds a b) (hc : isTail c)
    (s : List UInt8) : decode (a :: b :: c :: s) = some (char3 a b c) :: decode s := by
  obtain ⟨h₁, h₂, h₃, -⟩ := ranges a
  rw [decode.eq_def]
  dsimp only
  rw [if_neg (by rw [h₁]; omega), if_neg (by rw [h₂]; omega), if_pos (h₃.2 h), hb, if_neg (by simp),
    if_pos hc]

theorem decode_four (h : 0xF0 ≤ a.toNat ∧ a.toNat ≤ 0xF4) (hb : isFourths a b) (hc : isTail c)
    (hd : isTail d) (s : List UInt8) :
    decode (a :: b :: c :: d :: s) = some (char4 a b c d) :: decode s := by
  obtain ⟨h₁, h₂, h₃, h₄⟩ := ranges a
  rw [decode.eq_def]
  dsimp only
  rw [if_neg (by rw [h₁]; omega), if_neg (by rw [h₂]; omega), if_neg (by rw [h₃]; omega),
    if_pos (h₄.2 h), hb, hc, hd]
  rfl

end

theorem decode_encodeChar (c : Char) (s : List UInt8) :
    decode (utf8EncodeChar c ++ s) = some c :: decode s := by
  have hc := Char.ofNat_toNat c
  have h := encoded c
  generalize utf8EncodeChar c = bytes at h
  generalize c.toNat = v at h hc
  cases h with
  | one h =>
    have ha : (UInt8.ofNat v).toNat = v := toNat_ofNat (by omega)
    rw [List.singleton_append, decode_one (by rw [ha]; exact h), ha, hc]
  | two low high =>
    have ha := @toNat_ofNat (v / 64 + 0xC0) (by omega)
    have hb := @toNat_ofNat (v % 64 + 0x80) (by omega)
    have hv : (v / 64 + 0xC0) % 32 * 64 + (v % 64 + 0x80) % 64 = v := by omega
    simp only [List.cons_append, List.nil_append]
    rw [decode_two (by rw [ha]; omega) (isTail_iff.2 (by rw [hb]; omega)), char2, payload, ha, hb,
      hv, hc]
  | three low high valid =>
    have ha := @toNat_ofNat (v / 4096 + 0xE0) (by omega)
    have hb := @toNat_ofNat (v / 64 % 64 + 0x80) (by omega)
    have hd := @toNat_ofNat (v % 64 + 0x80) (by omega)
    have hv : (v / 4096 + 0xE0) % 16 * 4096 + (v / 64 % 64 + 0x80) % 64 * 64 +
        (v % 64 + 0x80) % 64 = v := by omega
    simp only [List.cons_append, List.nil_append]
    rw [decode_three (by rw [ha]; omega) (isThirds_iff.2 ?_) (isTail_iff.2 (by rw [hd]; omega)),
      char3, payload, payload, ha, hb, hd, hv, hc]
    rw [isTail_iff, ha, hb]
    omega
  | four low high =>
    have ha := @toNat_ofNat (v / 262144 + 0xF0) (by omega)
    have hb := @toNat_ofNat (v / 4096 % 64 + 0x80) (by omega)
    have hd := @toNat_ofNat (v / 64 % 64 + 0x80) (by omega)
    have he := @toNat_ofNat (v % 64 + 0x80) (by omega)
    have hv : (v / 262144 + 0xF0) % 8 * 262144 + (v / 4096 % 64 + 0x80) % 64 * 4096 +
        (v / 64 % 64 + 0x80) % 64 * 64 + (v % 64 + 0x80) % 64 = v := by omega
    simp only [List.cons_append, List.nil_append]
    rw [decode_four (by rw [ha]; omega) (isFourths_iff.2 ?_) (isTail_iff.2 (by rw [hd]; omega))
      (isTail_iff.2 (by rw [he]; omega)), char4, payload, payload, payload, ha, hb, hd, he, hv, hc]
    rw [isTail_iff, ha, hb]
    omega

theorem decode_flatMap_append (l : List Char) (s : List UInt8) :
    decode (l.flatMap utf8EncodeChar ++ s) = l.map some ++ decode s := by
  induction l with
  | nil => rfl
  | cons c l ih => rw [List.flatMap_cons, List.append_assoc, decode_encodeChar, ih]; rfl

theorem decode_flatMap (l : List Char) : decode (l.flatMap utf8EncodeChar) = l.map some := by
  have h := decode_flatMap_append l []
  rwa [List.append_nil, decode, List.append_nil] at h

/-- **What is written is read back.** -/
theorem readLossy_bytesOf (s : String) : readLossy (bytesOf s) = s := by
  rw [readLossy, bytesOf, decode_flatMap, List.map_map]
  exact (congrArg String.ofList (List.map_id s.toList)).trans String.ofList_toList

theorem toNat_charOfNat {n : Nat} (hn : n < 0x80) : (Char.ofNat n).toNat = n := by
  rw [Char.ofNat, dif_pos (Or.inl (by omega))]
  rfl

/-- A character below `80` is written as one byte. -/
theorem encodeChar_ofNat {n : Nat} (hn : n < 0x80) :
    utf8EncodeChar (Char.ofNat n) = [UInt8.ofNat n] := by
  have h := encoded (Char.ofNat n)
  rw [toNat_charOfNat hn] at h
  generalize utf8EncodeChar (Char.ofNat n) = bytes at h
  cases h
  · rfl
  all_goals omega

/-- A byte below `80` is found only in its own character. -/
theorem mem_encodeChar_iff {n : Nat} (hn : n < 0x80) {c : Char} :
    UInt8.ofNat n ∈ utf8EncodeChar c ↔ c = Char.ofNat n := by
  have hinj : c = Char.ofNat n ↔ c.toNat = n := by
    rw [← Char.toNat_inj, toNat_charOfNat hn]
  rw [hinj]
  have h := encoded c
  generalize utf8EncodeChar c = bytes at h
  generalize c.toNat = v at h
  cases h <;> simp (disch := omega) only [List.mem_cons, List.not_mem_nil, or_false, ofNat_inj]
  all_goals omega

theorem mem_flatMap_encodeChar_iff {s : List Char} {n : Nat} (hn : n < 0x80) :
    UInt8.ofNat n ∈ s.flatMap utf8EncodeChar ↔ Char.ofNat n ∈ s := by
  simp [List.mem_flatMap, mem_encodeChar_iff hn]

/-- A byte below `80` stands for its own character. -/
theorem mem_bytesOf_iff {s : String} {n : Nat} (hn : n < 0x80) :
    UInt8.ofNat n ∈ bytesOf s ↔ Char.ofNat n ∈ s.toList :=
  mem_flatMap_encodeChar_iff hn

/-! ### Texts within texts -/

/-- No character begins with a byte that continues one. -/
theorem not_tail_of_head {s : List Char} {b : UInt8}
    (h : b ∈ (s.flatMap utf8EncodeChar).head?) : isTail b = false := by
  cases s with
  | nil => cases h
  | cons c s =>
    have hc := encoded c
    rw [List.flatMap_cons] at h
    generalize utf8EncodeChar c = bytes at h hc
    generalize c.toNat = v at hc
    cases hc <;>
      · rw [List.cons_append, List.head?_cons, Option.mem_some_iff] at h
        subst h
        rw [Bool.eq_false_iff, ne_eq, isTail_iff, toNat_ofNat (by omega)]
        omega

/-- A text begins with another just when its bytes do. -/
theorem flatMap_encodeChar_prefix_iff {l r : List Char} :
    l.flatMap utf8EncodeChar <+: r.flatMap utf8EncodeChar ↔ l <+: r := by
  constructor
  · rintro ⟨s, hs⟩
    have hdecode := congrArg decode hs
    rw [decode_flatMap_append, decode_flatMap] at hdecode
    obtain ⟨l', hl', heq⟩ := List.prefix_map_iff.1 ⟨_, hdecode⟩
    rwa [(List.map_inj_right fun _ _ => Option.some_inj.1).1 heq]
  · rintro ⟨s, rfl⟩
    rw [List.flatMap_append]
    exact List.prefix_append ..

/-! ### The order of texts -/

/-- Of two characters in order, the bytes come in order, and neither end before they differ. -/
theorem encodeChar_lt {c d : Char} (h : c < d) (s t : List UInt8) :
    utf8EncodeChar c ++ s < utf8EncodeChar d ++ t := by
  have h : c.toNat < d.toNat := h
  have hc := encoded c
  have hd := encoded d
  generalize utf8EncodeChar c = bytes at hc
  generalize utf8EncodeChar d = bytes' at hd
  generalize c.toNat = v at h hc
  generalize d.toNat = w at h hd
  cases hc <;> cases hd <;>
    simp (disch := omega) only [List.cons_append, List.nil_append, List.cons_lt_cons_iff,
      ofNat_lt_ofNat, ofNat_inj]
  all_goals omega

/-- **Texts are in the order of their bytes.** -/
theorem bytesOf_lt_iff {s t : String} : bytesOf s < bytesOf t ↔ s < t := by
  have hlist : ∀ l l' : List Char, l < l' →
      l.flatMap utf8EncodeChar < l'.flatMap utf8EncodeChar := by
    intro l
    induction l with
    | nil =>
      intro l' h
      cases l' with
      | nil => exact absurd h (List.not_lt_nil _)
      | cons d l' =>
        have hd := encoded d
        rw [List.flatMap_cons]
        generalize utf8EncodeChar d = bytes at hd
        cases hd <;> exact List.nil_lt_cons ..
    | cons c l ih =>
      intro l' h
      cases l' with
      | nil => exact absurd h (List.not_lt_nil _)
      | cons d l' =>
        rw [List.flatMap_cons, List.flatMap_cons]
        rcases List.cons_lt_cons_iff.1 h with hlt | ⟨rfl, hlt⟩
        · exact encodeChar_lt hlt _ _
        · exact List.append_left_lt (ih l' hlt)
  have hmono : ∀ {s t : String}, s < t → bytesOf s < bytesOf t := fun h =>
    hlist _ _ (String.lt_iff.1 h)
  refine ⟨fun h => ?_, hmono⟩
  rcases lt_trichotomy s t with hst | rfl | hts
  · exact hst
  · exact absurd h (List.lt_irrefl _)
  · exact absurd h (List.lt_asymm (hmono hts))

end ThemePress.Text.Utf8
