/-! # White space

The characters with the White_Space property of Unicode, and the two ways in which text is cut at
them: `trim` takes them off both ends, `words` splits at every run of them. Tag text, settings and
excerpts all use this one set. Core's `Char.isWhitespace` knows four characters of it
(`isBlank_of_isWhitespace`); `words` leaves no blank inside a word (`not_blank_of_mem_words`) and
no word empty (`ne_nil_of_mem_words`). -/

namespace ThemePress.Text

/-- The White_Space characters of Unicode: 25 code points in ten ranges. -/
def isBlank (c : Char) : Bool :=
  let n := c.toNat
  (9 ≤ n && n ≤ 13) || n == 0x20 || n == 0x85 || n == 0xA0 || n == 0x1680 ||
    (0x2000 ≤ n && n ≤ 0x200A) || n == 0x2028 || n == 0x2029 || n == 0x202F || n == 0x205F ||
    n == 0x3000

theorem isBlank_of_isWhitespace {c : Char} (h : c.isWhitespace = true) : isBlank c = true := by
  simp only [Char.isWhitespace, Bool.or_eq_true, decide_eq_true_eq] at h
  rcases h with ((rfl | rfl) | rfl) | rfl <;> decide

/-- Drops the longest end of a list on which `p` holds. -/
def dropTail {α : Type} (p : α → Bool) (l : List α) : List α :=
  (l.reverse.dropWhile p).reverse

/-- The text without the blanks at its two ends. -/
def trimChars (s : List Char) : List Char :=
  dropTail isBlank (s.dropWhile isBlank)

/-- The text without the blanks at its two ends. -/
def trim (s : String) : String :=
  String.ofList (trimChars s.toList)

/-- Does the text hold blanks only? -/
def isBlankText (s : String) : Bool :=
  s.toList.all isBlank

/-- Puts a character in front of the first word. -/
def prolong (c : Char) : List (List Char) → List (List Char)
  | [] => [[c]]
  | w :: ws => (c :: w) :: ws

/-- Does the text start inside a word? -/
def startsWord (s : List Char) : Bool :=
  s.head?.any (!isBlank ·)

/-- The maximal runs of characters that are not blank, in order. -/
def words : List Char → List (List Char)
  | [] => []
  | c :: s =>
    if isBlank c then words s
    else if startsWord s then prolong c (words s)
    else [c] :: words s

theorem mem_prolong {c : Char} {ws : List (List Char)} {w : List Char} (h : w ∈ prolong c ws) :
    w ∈ ws ∨ w = [c] ∨ ∃ v ∈ ws, w = c :: v := by
  cases ws with
  | nil => simp [prolong] at h; simp [h]
  | cons v vs =>
    rcases List.mem_cons.1 h with rfl | h
    · exact .inr (.inr ⟨v, List.mem_cons_self .., rfl⟩)
    · exact .inl (List.mem_cons_of_mem _ h)

theorem ne_nil_of_mem_words {s w : List Char} (h : w ∈ words s) : w ≠ [] := by
  induction s with
  | nil => simp [words] at h
  | cons c s ih =>
    rw [words] at h
    split at h
    · exact ih h
    · split at h
      · rcases mem_prolong h with h | rfl | ⟨v, _, rfl⟩
        · exact ih h
        · simp
        · simp
      · rcases List.mem_cons.1 h with rfl | h
        · simp
        · exact ih h

theorem not_blank_of_mem_words {s w : List Char} (h : w ∈ words s) {c : Char} (hc : c ∈ w) :
    isBlank c = false := by
  induction s generalizing w with
  | nil => simp [words] at h
  | cons a s ih =>
    rw [words] at h
    split at h
    · exact ih h hc
    · rename_i ha
      have ha : isBlank a = false := by simpa using ha
      split at h
      · rcases mem_prolong h with h | rfl | ⟨v, hv, rfl⟩
        · exact ih h hc
        · exact List.mem_singleton.1 hc ▸ ha
        · rcases List.mem_cons.1 hc with rfl | hc
          · exact ha
          · exact ih hv hc
      · rcases List.mem_cons.1 h with rfl | h
        · exact List.mem_singleton.1 hc ▸ ha
        · exact ih h hc

end ThemePress.Text
