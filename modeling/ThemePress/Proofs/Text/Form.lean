import ThemePress.Proofs.Text.Utf8
import ThemePress.Text.Form

/-! # Reading values of a query

A value in a query is read by taking a plus sign for a space and a percent sign with two hexadecimal
digits for a byte; every other character stands for its own bytes (`decodeBytes`). A byte that is
written into a query is read back whatever comes behind it (`decodeBytes_ofByte`), and so a whole
text is (`decode_encode`).

What is written is in the form `InForm`. It is also what becomes of the text in percent encoding
when a plus sign takes the place of each `%20` (`swapSpaces_percentByte`): no byte but a space is
written `%20`, and no two bytes next to each other show a `%20` between them. -/

namespace ThemePress.Text

/-- The value of a hexadecimal digit, small or capital. -/
def Hex.value? (c : Char) : Option Nat :=
  Hex.digits.idxOf? c.toLower

theorem Hex.value?_capital {n : Nat} (h : n < 16) : Hex.value? (Hex.capital n) = some n := by
  have hall : ∀ n < 16, Hex.value? (Hex.capital n) = some n := by decide
  exact hall n h

namespace Form

/-- The bytes that a value in a query stands for. -/
def decodeBytes : List Char → List UInt8
  | [] => []
  | '+' :: s => 0x20 :: decodeBytes s
  | '%' :: a :: b :: s =>
    match Hex.value? a, Hex.value? b with
    | some high, some low => UInt8.ofNat (high * 16 + low) :: decodeBytes s
    | _, _ => 0x25 :: decodeBytes (a :: b :: s)
  | c :: s => String.utf8EncodeChar c ++ decodeBytes s

/-- The text that a value in a query stands for. -/
def decode (s : String) : String :=
  Utf8.readLossy (decodeBytes s.toList)

theorem decodeBytes_cons {c : Char} (hplus : c ≠ '+') (hpercent : c ≠ '%') (s : List Char) :
    decodeBytes (c :: s) = String.utf8EncodeChar c ++ decodeBytes s := by
  rw [decodeBytes.eq_def]
  split <;> simp_all

/-- A byte that stands for itself is neither the plus sign nor the percent sign. -/
theorem plain_of_isKept {b : UInt8} (h : isKept b = true) :
    b.toNat < 0x80 ∧ b.toNat ≠ 0x2B ∧ b.toNat ≠ 0x25 := by
  simp only [isKept, Bool.or_eq_true, Bool.and_eq_true, decide_eq_true_eq, beq_iff_eq,
    UInt8.le_iff_toNat_le, ← UInt8.toNat_inj] at h
  simp at h
  omega

theorem decodeBytes_ofByte (b : UInt8) (s : List Char) :
    decodeBytes (ofByte b ++ s) = b :: decodeBytes s := by
  unfold ofByte
  split
  · next h =>
    obtain ⟨hlow, hplus, hpercent⟩ := plain_of_isKept h
    have hne : ∀ c : Char, b.toNat ≠ c.toNat → Char.ofNat b.toNat ≠ c := fun c hc he =>
      hc (by rw [← he, Utf8.toNat_charOfNat hlow])
    rw [List.singleton_append, decodeBytes_cons (hne '+' hplus) (hne '%' hpercent),
      Utf8.encodeChar_ofNat hlow, UInt8.ofNat_toNat]
    rfl
  · split
    · next h => rw [h, List.singleton_append, decodeBytes]
    · have hb : b.toNat / 16 * 16 + b.toNat % 16 = b.toNat := by omega
      simp only [List.cons_append, List.nil_append]
      rw [decodeBytes, Hex.value?_capital (by have := b.toNat_lt; omega),
        Hex.value?_capital (by omega)]
      simp only [hb, UInt8.ofNat_toNat]

theorem decodeBytes_encode (s : String) : decodeBytes (encode s).toList = Utf8.bytesOf s := by
  rw [encode, String.toList_ofList]
  induction Utf8.bytesOf s with
  | nil => rfl
  | cons b bytes ih => rw [List.flatMap_cons, decodeBytes_ofByte, ih]

/-- **A text that is written into a query is read back.** -/
theorem decode_encode (s : String) : decode (encode s) = s := by
  rw [decode, decodeBytes_encode, Utf8.readLossy_bytesOf]

/-! ### The form of what is written -/

/-- The characters that stand for themselves. -/
def IsPlain (c : Char) : Prop :=
  c.isAlphanum = true ∨ c ∈ ['-', '_', '.', '~']

instance (c : Char) : Decidable (IsPlain c) := by
  unfold IsPlain; infer_instance

/-- The digits that a byte is written with. -/
def hexDigits : List Char :=
  ['0', '1', '2', '3', '4', '5', '6', '7', '8', '9', 'A', 'B', 'C', 'D', 'E', 'F']

/-- Values in a query: plain characters, plus signs for spaces, and other bytes in two digits. -/
inductive InForm : List Char → Prop where
  | nil : InForm []
  | plain {c : Char} {s : List Char} (hc : IsPlain c) (hs : InForm s) : InForm (c :: s)
  | space {s : List Char} (hs : InForm s) : InForm ('+' :: s)
  | byte {high low : Char} {s : List Char} (hhigh : high ∈ hexDigits) (hlow : low ∈ hexDigits)
    (hspace : ¬ (high = '2' ∧ low = '0')) (hs : InForm s) : InForm ('%' :: high :: low :: s)

/-- How a byte is written in percent encoding, where a space is not set apart. -/
def percentByte (b : UInt8) : List Char :=
  if b.toNat < 0x80 ∧ IsPlain (Char.ofNat b.toNat) then [Char.ofNat b.toNat]
  else ['%', Hex.capital (b.toNat / 16), Hex.capital (b.toNat % 16)]

/-- Puts a plus sign in place of each `%20`, from the left. -/
def swapSpaces : List Char → List Char
  | '%' :: '2' :: '0' :: s => '+' :: swapSpaces s
  | c :: s => c :: swapSpaces s
  | [] => []

theorem isKept_iff (b : UInt8) :
    isKept b = true ↔ b.toNat < 0x80 ∧ IsPlain (Char.ofNat b.toNat) := by
  have hlow : ∀ n < 0x80, isKept (UInt8.ofNat n) = true ↔ IsPlain (Char.ofNat n) := by decide
  refine ⟨fun h => ?_, fun ⟨hb, hplain⟩ => ?_⟩
  · obtain ⟨hb, -⟩ := plain_of_isKept h
    exact ⟨hb, (hlow _ hb).1 (by rwa [UInt8.ofNat_toNat])⟩
  · rw [← UInt8.ofNat_toNat (x := b)]
    exact (hlow _ hb).2 hplain

theorem capital_mem {n : Nat} (h : n < 16) : Hex.capital n ∈ hexDigits := by
  have hall : ∀ n < 16, Hex.capital n ∈ hexDigits := by decide
  exact hall n h

/-- A byte is plain, a space, or written in two digits. -/
theorem byte_cases (b : UInt8) :
    (∃ c, IsPlain c ∧ ofByte b = [c] ∧ percentByte b = [c]) ∨
      (ofByte b = ['+'] ∧ percentByte b = ['%', '2', '0']) ∨
      ∃ high ∈ hexDigits, ∃ low ∈ hexDigits, ¬ (high = '2' ∧ low = '0') ∧
        ofByte b = ['%', high, low] ∧ percentByte b = ['%', high, low] := by
  have hlt := b.toNat_lt
  unfold ofByte percentByte
  by_cases hkept : isKept b = true
  · have hplain := (isKept_iff b).1 hkept
    rw [if_pos hkept, if_pos hplain]
    exact .inl ⟨_, hplain.2, rfl, rfl⟩
  rw [if_neg hkept, if_neg fun h => hkept ((isKept_iff b).2 h)]
  by_cases hspace : b = 0x20
  · subst hspace
    exact .inr (.inl ⟨rfl, by decide⟩)
  · rw [if_neg hspace]
    refine .inr (.inr ⟨_, capital_mem (by omega), _, capital_mem (by omega), ?_, rfl, rfl⟩)
    rintro ⟨hhigh, hlow⟩
    -- Only a space has these two digits, since the digits can be read back.
    have h₁ := Hex.value?_capital (n := b.toNat / 16) (by omega)
    have h₂ := Hex.value?_capital (n := b.toNat % 16) (by omega)
    rw [hhigh] at h₁
    rw [hlow] at h₂
    have htwo : 2 = b.toNat / 16 := Option.some_inj.1 h₁
    have hzero : 0 = b.toNat % 16 := Option.some_inj.1 h₂
    exact hspace (UInt8.toNat_inj.1 (show b.toNat = 32 by omega))

theorem ne_percent {c : Char} (h : IsPlain c ∨ c ∈ hexDigits) : c ≠ '%' := by
  rintro rfl
  revert h
  decide

/-- A character that begins no percent sign is passed over. -/
theorem swapSpaces_cons {c : Char} (hc : c ≠ '%') (s : List Char) :
    swapSpaces (c :: s) = c :: swapSpaces s := by
  rw [swapSpaces.eq_def]
  split <;> simp_all

theorem swapSpaces_percent {high low : Char} (h : ¬ (high = '2' ∧ low = '0')) (s : List Char) :
    swapSpaces ('%' :: high :: low :: s) = '%' :: swapSpaces (high :: low :: s) := by
  rw [swapSpaces.eq_def]
  split
  · next heq => exact absurd (by simp_all) h
  · next heq =>
    obtain ⟨rfl, rfl⟩ := List.cons.inj heq
    rfl
  · next heq => cases heq

theorem swapSpaces_percentByte (b : UInt8) (s : List Char) :
    swapSpaces (percentByte b ++ s) = ofByte b ++ swapSpaces s := by
  obtain ⟨c, hc, h, h'⟩ | ⟨h, h'⟩ | ⟨high, hhigh, low, hlow, hspace, h, h'⟩ := byte_cases b
  · rw [h, h', List.singleton_append, swapSpaces_cons (ne_percent (.inl hc))]
    rfl
  · rw [h, h']
    rfl
  · rw [h, h']
    simp only [List.cons_append, List.nil_append]
    rw [swapSpaces_percent hspace, swapSpaces_cons (ne_percent (.inr hhigh)),
      swapSpaces_cons (ne_percent (.inr hlow))]

/-- Percent encoding of texts: a byte that does not stand for itself is written in two digits. -/
def PercentEncodes (percent : String → String) : Prop :=
  ∀ s, (percent s).toList = (Utf8.bytesOf s).flatMap percentByte

theorem swapSpaces_percent_eq {percent : String → String} (h : PercentEncodes percent)
    (s : String) : swapSpaces (percent s).toList = (encode s).toList := by
  rw [h, encode, String.toList_ofList]
  induction Utf8.bytesOf s with
  | nil => rfl
  | cons b bytes ih => rw [List.flatMap_cons, List.flatMap_cons, swapSpaces_percentByte, ih]

theorem inForm_ofByte (b : UInt8) {s : List Char} (hs : InForm s) : InForm (ofByte b ++ s) := by
  obtain ⟨c, hc, h, -⟩ | ⟨h, -⟩ | ⟨high, hhigh, low, hlow, hspace, h, -⟩ := byte_cases b <;> rw [h]
  · exact .plain hc hs
  · exact .space hs
  · exact .byte hhigh hlow hspace hs

theorem inForm_encode (s : String) : InForm (encode s).toList := by
  rw [encode, String.toList_ofList]
  induction Utf8.bytesOf s with
  | nil => exact .nil
  | cons b bytes ih => exact inForm_ofByte b ih

/-- A text in this form has no `%20` anywhere, be it across two bytes. -/
theorem not_infix_of_inForm {s : List Char} (h : InForm s) : ¬ ['%', '2', '0'] <:+: s := by
  -- A character in front makes a `%20` only if it is the percent sign.
  have hcons : ∀ {c : Char} {s : List Char}, c ≠ '%' → ¬ ['%', '2', '0'] <:+: s →
      ¬ ['%', '2', '0'] <:+: c :: s := by
    intro c s hc hs hinfix
    rcases List.infix_cons_iff.1 hinfix with hhead | hinfix
    · exact hc (List.cons_prefix_cons.1 hhead).1.symm
    · exact hs hinfix
  induction h with
  | nil => simp
  | plain hc _ ih => exact hcons (ne_percent (.inl hc)) ih
  | space _ ih => exact hcons (by decide) ih
  | byte hhigh hlow hspace _ ih =>
    have hdigits := hcons (ne_percent (.inr hhigh)) (hcons (ne_percent (.inr hlow)) ih)
    intro hinfix
    rcases List.infix_cons_iff.1 hinfix with hhead | hinfix
    · simp only [List.cons_prefix_cons] at hhead
      exact hspace ⟨hhead.2.1.symm, hhead.2.2.1.symm⟩
    · exact hdigits hinfix

theorem encode_append (s t : String) : encode (s ++ t) = encode s ++ encode t := by
  rw [encode, Utf8.bytesOf, String.toList_append, List.flatMap_append, List.flatMap_append,
    String.ofList_append]
  rfl

/-- **Writing into a query can be undone.** What is written is the text in percent encoding with its
`%20` swapped for plus signs; it has plain characters, plus signs and bytes in two digits, and no
`%20` is left. Reading gives back the bytes of the text, and so the text: different texts are
written differently. Texts are written one behind the other. -/
theorem encode_invertible {percent : String → String} (h : PercentEncodes percent)
    (s t : String) :
    String.ofList (swapSpaces (percent s).toList) = encode s ∧
      InForm (encode s).toList ∧ ¬ ['%', '2', '0'] <:+: (encode s).toList ∧
      decodeBytes (encode s).toList = Utf8.bytesOf s ∧ decode (encode s) = s ∧
      (encode s = encode t ↔ s = t) ∧ encode (s ++ t) = encode s ++ encode t := by
  have hinj : encode s = encode t → s = t := fun he => by
    rw [← decode_encode s, he, decode_encode t]
  refine ⟨?_, inForm_encode s, not_infix_of_inForm (inForm_encode s), decodeBytes_encode s,
    decode_encode s, ⟨hinj, congrArg encode⟩, encode_append s t⟩
  rw [swapSpaces_percent_eq h, String.ofList_toList]

/-- A plus sign and a `%20` of the text itself are not taken for spaces. -/
theorem encode_invertible_plus :
    let percent (s : String) := String.ofList ((Utf8.bytesOf s).flatMap percentByte)
    percent "a +%20" = "a%20%2B%2520" ∧ encode "a +%20" = "a+%2B%2520" ∧
      decode "a+%2B%2520" = "a +%20" := by
  intro percent
  have hpercent : PercentEncodes percent := fun _ => String.toList_ofList
  have hencode : encode "a +%20" = "a+%2B%2520" := by decide +kernel
  obtain ⟨-, -, -, -, hdecode, -⟩ := encode_invertible hpercent "a +%20" ""
  exact ⟨by decide +kernel, hencode, hencode ▸ hdecode⟩

end Form

end ThemePress.Text
