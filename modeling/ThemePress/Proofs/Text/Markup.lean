import Mathlib.Data.List.Basic
import Mathlib.Data.List.Forall2
import ThemePress.Text.Entity
import ThemePress.Text.Quoted

/-! # Markup in texts

Angle brackets and quotes are what a reader of a page takes for markup. `markup` are those of a
text, in order. A text written with entities has none (`markup_escape`), and one in structured data
has its own between the two quotes that are put around it (`markup_quote`).

To tell the markup that a writer puts down itself from the markup in what it is given, its text is
compared with the one it writes when it is given nothing. `Takes raw text blank` says that the
markup of the two differs by that of the texts `raw`, and `Follows raw text blank` that it differs
by no more than that. Both are kept when texts are put together, and markup then stays the same just
when no text of `raw` has any (`Takes.markup_eq_iff`). -/

namespace ThemePress.Text

/-- The characters that markup is made of. -/
def isMarkup (c : Char) : Bool :=
  c = '<' || c = '>' || c = '"' || c = '\''

/-- The characters of a text that could be markup. -/
def markup (s : String) : List Char :=
  s.toList.filter isMarkup

theorem markup_append (s t : String) : markup (s ++ t) = markup s ++ markup t := by
  rw [markup, String.toList_append, List.filter_append]
  rfl

/-- The markup of a text that is written character by character. -/
theorem markup_ofList_flatMap {f g : Char → List Char} (h : ∀ c, (f c).filter isMarkup = g c)
    (s : String) : markup (String.ofList (s.toList.flatMap f)) = s.toList.flatMap g := by
  rw [markup, String.toList_ofList, List.filter_flatMap]
  exact List.flatMap_congr fun c _ => h c

/-! ### Entities and quotes -/

/-- **A text with entities has no markup.** -/
theorem markup_escape (s : String) : markup (Entity.escape s) = [] := by
  have h : ∀ c, (Entity.ofChar c).filter isMarkup = [] := by
    intro c
    unfold Entity.ofChar
    split <;> simp_all [isMarkup]
  rw [Entity.escape, markup_ofList_flatMap h, List.flatMap_eq_nil_iff]
  exact fun _ _ => rfl

theorem length_le_flatMap_ofChar (l : List Char) : l.length ≤ (l.flatMap Entity.ofChar).length := by
  have hone : ∀ c, 1 ≤ (Entity.ofChar c).length := fun c => by
    unfold Entity.ofChar
    split <;> simp
  induction l with
  | nil => exact Nat.le_refl _
  | cons c l ih =>
    have := hone c
    rw [List.flatMap_cons, List.length_append, List.length_cons]
    omega

theorem ofChar_cases (c : Char) :
    c ≠ '&' ∧ isMarkup c = false ∧ Entity.ofChar c = [c] ∨
      (c = '&' ∨ isMarkup c = true) ∧ 1 < (Entity.ofChar c).length := by
  unfold Entity.ofChar
  split <;> simp_all [isMarkup]

/-- A text is written as it is when it has neither markup nor an ampersand. -/
theorem escape_eq_self_iff {s : String} :
    Entity.escape s = s ↔ ∀ c ∈ s.toList, c ≠ '&' ∧ isMarkup c = false := by
  have h : ∀ l : List Char,
      l.flatMap Entity.ofChar = l ↔ ∀ c ∈ l, c ≠ '&' ∧ isMarkup c = false := by
    intro l
    induction l with
    | nil => simp
    | cons c l ih =>
      rw [List.flatMap_cons, List.forall_mem_cons]
      obtain ⟨hne, hmarkup, hself⟩ | ⟨hspecial, hlong⟩ := ofChar_cases c
      · rw [hself, List.singleton_append, List.cons_inj_right, ih]
        exact (and_iff_right ⟨hne, hmarkup⟩).symm
      · refine iff_of_false (fun he => ?_) fun hc => ?_
        · have hlength := congrArg List.length he
          have := length_le_flatMap_ofChar l
          rw [List.length_append, List.length_cons] at hlength
          omega
        · exact hspecial.elim hc.1.1 fun hm => by simp [hc.1.2] at hm
  rw [← h, Entity.escape, ← String.toList_inj, String.toList_ofList]

theorem isMarkup_digit (n : Nat) : isMarkup (Hex.digit n) = false := by
  have hdigits : ∀ c ∈ Hex.digits, isMarkup c = false := by simp [Hex.digits, isMarkup]
  rw [Hex.digit, List.getD_eq_getElem?_getD]
  cases h : Hex.digits[n]? with
  | none => rfl
  | some c => exact hdigits c (List.mem_of_getElem? h)

theorem isMarkup_control {c : Char} (h : c.toNat < 32) : isMarkup c = false := by
  by_contra hc
  simp only [isMarkup, Bool.not_eq_false, Bool.or_eq_true, decide_eq_true_eq] at hc
  rcases hc with ((rfl | rfl) | rfl) | rfl <;> exact absurd h (by decide)

theorem filter_quotedChar (c : Char) : (Quoted.ofChar c).filter isMarkup = [c].filter isMarkup := by
  unfold Quoted.ofChar
  split_ifs with hquote hslash hline hreturn htab hback hform hcontrol
  · rw [hquote]; rfl
  · rw [hslash]; rfl
  · rw [hline]; rfl
  · rw [hreturn]; rfl
  · rw [htab]; rfl
  · rw [hback]; rfl
  · rw [hform]; rfl
  · have hletters : ∀ l, (['\\', 'u', '0', '0'] ++ l).filter isMarkup = l.filter isMarkup :=
      fun _ => rfl
    have hdigits := hletters [Hex.digit (c.toNat / 16), Hex.digit (c.toNat % 16)]
    simp only [List.filter_cons, isMarkup_digit] at hdigits
    simpa [isMarkup_control hcontrol] using hdigits
  · rfl

theorem markup_quote (s : String) : markup (Quoted.quote s) = '"' :: (markup s ++ ['"']) := by
  have hquote : markup "\"" = ['"'] := by decide
  have hself : s.toList.flatMap (fun c => [c].filter isMarkup) = markup s := by
    rw [← List.filter_flatMap, List.flatMap_singleton' s.toList]
    rfl
  rw [Quoted.quote, markup_append, markup_append, markup_ofList_flatMap filter_quotedChar, hquote,
    hself]
  rfl

/-! ### Texts that take over others -/

/-- The markup of `text` is that of `blank`, with no more in between than the markup of the texts
`raw`. -/
structure Follows (raw : List String) (text blank : String) : Prop where
  same : (∀ s ∈ raw, markup s = []) → markup text = markup blank
  le : (markup blank).length ≤ (markup text).length

/-- The markup of `text` is that of `blank`, with that of the texts `raw` in between. -/
structure Takes (raw : List String) (text blank : String) : Prop extends
  Follows raw text blank where
  lt : ∀ s ∈ raw, markup s ≠ [] → (markup blank).length < (markup text).length

/-- **Markup stays the same just when there is none in what is taken over.** -/
theorem Takes.markup_eq_iff {raw : List String} {text blank : String} (h : Takes raw text blank) :
    markup text = markup blank ↔ ∀ s ∈ raw, markup s = [] := by
  refine ⟨fun he s hs => ?_, h.same⟩
  by_contra hne
  have := h.lt s hs hne
  rw [he] at this
  exact Nat.lt_irrefl _ this

section
variable {raw raw' : List String} {text text' blank blank' : String}

namespace Follows

theorem own (s : String) : Follows raw s s :=
  ⟨fun _ => rfl, Nat.le_refl _⟩

theorem silent (h : markup text = []) (h' : markup blank = []) : Follows raw text blank :=
  ⟨fun _ => h.trans h'.symm, by simp [h, h']⟩

theorem append (h : Follows raw text blank) (h' : Follows raw text' blank') :
    Follows raw (text ++ text') (blank ++ blank') := by
  constructor
  · intro hraw
    rw [markup_append, markup_append, h.same hraw, h'.same hraw]
  · have := h.le
    have := h'.le
    rw [markup_append, markup_append, List.length_append, List.length_append]
    omega

theorem quote (h : Follows raw text blank) :
    Follows raw (Quoted.quote text) (Quoted.quote blank) := by
  constructor
  · intro hraw
    rw [markup_quote, markup_quote, h.same hraw]
  · have := h.le
    simp only [markup_quote, List.length_cons, List.length_append]
    omega

theorem join {texts blanks : List String} (h : List.Forall₂ (Follows raw) texts blanks) :
    Follows raw (String.join texts) (String.join blanks) := by
  induction h with
  | nil => exact own _
  | cons h _ ih =>
    rw [String.join_cons, String.join_cons]
    exact h.append ih

theorem intercalate {separator : String} {texts blanks : List String}
    (h : List.Forall₂ (Follows raw) texts blanks) :
    Follows raw (separator.intercalate texts) (separator.intercalate blanks) := by
  induction h with
  | nil => exact own _
  | cons h hrest ih =>
    cases hrest with
    | nil => simpa using h
    | cons h' hrest =>
      rw [String.intercalate_cons_cons, String.intercalate_cons_cons]
      exact (h.append (own _)).append ih

/-- Texts under the same names, written in the same way. -/
theorem map_named (write : String → String → String) {fields blanks : List (String × String)}
    (hwrite : ∀ name {text blank}, Follows raw text blank →
      Follows raw (write name text) (write name blank))
    (h : List.Forall₂ (fun f b => f.1 = b.1 ∧ Follows raw f.2 b.2) fields blanks) :
    List.Forall₂ (Follows raw) (fields.map fun (name, value) => write name value)
      (blanks.map fun (name, value) => write name value) := by
  rw [List.forall₂_map_left_iff, List.forall₂_map_right_iff]
  refine h.imp ?_
  rintro ⟨name, text⟩ ⟨_, blank⟩ ⟨rfl, hvalue⟩
  exact hwrite name hvalue

theorem object {fields blanks : List (String × String)}
    (h : List.Forall₂ (fun f b => f.1 = b.1 ∧ Follows raw f.2 b.2) fields blanks) :
    Follows raw (Quoted.object fields) (Quoted.object blanks) := by
  have hfields := map_named
    (fun key value => "    " ++ Quoted.quote key ++ ": " ++ Quoted.quote value)
    (fun _ _ _ hvalue => (own _).append hvalue.quote) h
  unfold Quoted.object
  exact ((own _).append (intercalate hfields)).append (own _)

end Follows

namespace Takes

theorem own (s : String) : Takes [] s s :=
  ⟨.own s, by simp⟩

theorem silent (h : markup text = []) (h' : markup blank = []) : Takes [] text blank :=
  ⟨.silent h h', by simp⟩

/-- A text that is taken over where there would be nothing. -/
theorem whole (h : markup blank = []) : Takes [text] text blank := by
  refine ⟨⟨fun hraw => ?_, by simp [h]⟩, fun s hs hne => ?_⟩
  · rw [hraw text (List.mem_singleton_self _), h]
  · obtain rfl := List.mem_singleton.1 hs
    rw [h]
    exact List.length_pos_iff.2 hne

theorem append (h : Takes raw text blank) (h' : Takes raw' text' blank') :
    Takes (raw ++ raw') (text ++ text') (blank ++ blank') := by
  have hle := h.le
  have hle' := h'.le
  refine ⟨⟨fun hraw => ?_, ?_⟩, fun s hs hne => ?_⟩
  · rw [List.forall_mem_append] at hraw
    rw [markup_append, markup_append, h.same hraw.1, h'.same hraw.2]
  · simp only [markup_append, List.length_append]
    omega
  · simp only [markup_append, List.length_append]
    rcases List.mem_append.1 hs with hs | hs
    · have := h.lt s hs hne
      omega
    · have := h'.lt s hs hne
      omega

/-- What follows may take over the same texts once more. -/
theorem append_follows (h : Takes raw text blank) (h' : Follows raw text' blank') :
    Takes raw (text ++ text') (blank ++ blank') := by
  refine ⟨h.toFollows.append h', fun s hs hne => ?_⟩
  have := h.lt s hs hne
  have := h'.le
  simp only [markup_append, List.length_append]
  omega

section
variable {α : Type} {raws : α → List String} {f g : α → String}

theorem join {l : List α} (h : ∀ a ∈ l, Takes (raws a) (f a) (g a)) :
    Takes (l.flatMap raws) (String.join (l.map f)) (String.join (l.map g)) := by
  induction l with
  | nil => exact own _
  | cons a l ih =>
    rw [List.forall_mem_cons] at h
    simp only [List.map_cons, List.flatMap_cons, String.join_cons]
    exact h.1.append (ih h.2)

theorem intercalate {separator : String} {l : List α} (h : ∀ a ∈ l, Takes (raws a) (f a) (g a)) :
    Takes (l.flatMap raws) (separator.intercalate (l.map f)) (separator.intercalate (l.map g)) := by
  induction l with
  | nil => exact own _
  | cons a l ih =>
    rw [List.forall_mem_cons] at h
    cases l with
    | nil => simpa using h.1
    | cons b l =>
      have hfirst := (h.1.append (own separator)).append (ih h.2)
      rw [List.append_nil] at hfirst
      simpa only [List.map_cons, String.intercalate_cons_cons, List.flatMap_cons] using hfirst

end

end Takes

end

end ThemePress.Text
