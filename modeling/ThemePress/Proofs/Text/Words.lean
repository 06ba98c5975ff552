import ThemePress.Text.Blank

/-! # Words and trimming

Blanks at the ends of a text do not change its words (`words_trimChars`), and a run without blanks
that ends before a blank is a word of it (`words_word_append`). So words with single spaces between
them are the words of the text that they make (`words_intercalate`). -/

namespace ThemePress.Text

theorem dropTail_append {α : Type} (p : α → Bool) (l : List α) :
    ∃ t, l = dropTail p l ++ t ∧ ∀ a ∈ t, p a = true := by
  refine ⟨(l.reverse.takeWhile p).reverse, ?_, fun a ha => ?_⟩
  · rw [dropTail, ← List.reverse_append, List.takeWhile_append_dropWhile, List.reverse_reverse]
  · rw [List.mem_reverse] at ha
    exact List.all_eq_true.1 List.all_takeWhile a ha

theorem dropTail_cons {α : Type} {p : α → Bool} {a : α} (h : p a = false) (l : List α) :
    dropTail p (a :: l) = a :: dropTail p l := by
  unfold dropTail
  rw [List.reverse_cons, List.dropWhile_append]
  split
  · rename_i hl
    rw [List.isEmpty_iff.1 hl, List.dropWhile_cons_of_neg (by simp [h])]
    rfl
  · rw [List.reverse_append]
    rfl

theorem dropTail_eq_self {α : Type} {p : α → Bool} {l : List α}
    (h : ∀ a ∈ l.getLast?, p a = false) : dropTail p l = l := by
  rw [← List.head?_reverse] at h
  unfold dropTail
  cases hl : l.reverse with
  | nil => exact (List.reverse_eq_nil_iff.1 hl).symm
  | cons a r =>
    rw [hl] at h
    rw [List.dropWhile_cons_of_neg (by simp [h a rfl]), ← hl, List.reverse_reverse]

theorem trimChars_cons {c : Char} (h : isBlank c = false) (s : List Char) :
    trimChars (c :: s) = c :: dropTail isBlank s := by
  rw [trimChars, List.dropWhile_cons_of_neg (by simp [h]), dropTail_cons h]

/-- A text without blanks at its ends is not trimmed. -/
theorem trimChars_eq_self {c : Char} {s : List Char} (h : isBlank c = false)
    (hs : ∀ c ∈ s.getLast?, isBlank c = false) : trimChars (c :: s) = c :: s := by
  rw [trimChars_cons h, dropTail_eq_self hs]

theorem words_dropWhile (s : List Char) : words (s.dropWhile isBlank) = words s := by
  induction s with
  | nil => rfl
  | cons c s ih =>
    by_cases hc : isBlank c = true
    · rw [List.dropWhile_cons_of_pos hc, ih, words, if_pos hc]
    · rw [List.dropWhile_cons_of_neg hc]

theorem words_blanks {t : List Char} (ht : ∀ c ∈ t, isBlank c = true) : words t = [] := by
  induction t with
  | nil => rfl
  | cons c t ih =>
    rw [words, if_pos (ht c (List.mem_cons_self ..))]
    exact ih fun c hc => ht c (List.mem_cons_of_mem _ hc)

theorem words_append_blanks (s : List Char) {t : List Char} (ht : ∀ c ∈ t, isBlank c = true) :
    words (s ++ t) = words s := by
  induction s with
  | nil => rw [List.nil_append, words_blanks ht, words]
  | cons c s ih =>
    have hs : startsWord (s ++ t) = startsWord s := by
      cases s with
      | nil =>
        cases t with
        | nil => rfl
        | cons c t => simp [startsWord, ht c (List.mem_cons_self ..)]
      | cons d s => rfl
    rw [List.cons_append, words, words, hs, ih]

theorem words_dropTail (s : List Char) : words (dropTail isBlank s) = words s := by
  obtain ⟨t, ht, hb⟩ := dropTail_append isBlank s
  have h := words_append_blanks (dropTail isBlank s) hb
  rw [← ht] at h
  exact h.symm

theorem words_trimChars (s : List Char) : words (trimChars s) = words s := by
  rw [trimChars, words_dropTail, words_dropWhile]

theorem words_blanks_append {t : List Char} (ht : ∀ c ∈ t, isBlank c = true) (s : List Char) :
    words (t ++ s) = words s := by
  induction t with
  | nil => rfl
  | cons c t ih =>
    rw [List.cons_append, words, if_pos (ht c (List.mem_cons_self ..))]
    exact ih fun c hc => ht c (List.mem_cons_of_mem _ hc)

theorem words_word_append {w s : List Char} (hne : w ≠ []) (hw : ∀ c ∈ w, isBlank c = false)
    (hs : startsWord s = false) : words (w ++ s) = w :: words s := by
  induction w with
  | nil => exact absurd rfl hne
  | cons c w ih =>
    have hc := hw c (List.mem_cons_self ..)
    rw [List.cons_append, words, hc, if_neg Bool.false_ne_true]
    cases w with
    | nil => rw [List.nil_append, hs, if_neg Bool.false_ne_true]
    | cons d w =>
      have hd := hw d (List.mem_cons_of_mem _ (List.mem_cons_self ..))
      have hstart : startsWord (d :: w ++ s) = true := by simp [startsWord, hd]
      rw [hstart, if_pos rfl,
        ih (List.cons_ne_nil _ _) fun c hc => hw c (List.mem_cons_of_mem _ hc)]
      rfl

theorem flatten_prolong (c : Char) (ws : List (List Char)) :
    (prolong c ws).flatten = c :: ws.flatten := by
  cases ws <;> rfl

/-- The words of a text are the text without its blanks. -/
theorem flatten_words (s : List Char) : (words s).flatten = s.filter (!isBlank ·) := by
  induction s with
  | nil => rfl
  | cons c s ih =>
    rw [words]
    split
    · next hc => rw [ih, List.filter_cons_of_neg (by simp [hc])]
    · next hc =>
      rw [List.filter_cons_of_pos (by simpa using hc), ← ih]
      split
      · exact flatten_prolong c _
      · rfl

theorem words_intercalate {ws : List (List Char)} (hne : ∀ w ∈ ws, w ≠ [])
    (hws : ∀ w ∈ ws, ∀ c ∈ w, isBlank c = false) : words ([' '].intercalate ws) = ws := by
  induction ws with
  | nil => rfl
  | cons w ws ih =>
    have hword : ∀ s, startsWord s = false → words (w ++ s) = w :: words s := fun _ =>
      words_word_append (hne w (List.mem_cons_self ..)) (hws w (List.mem_cons_self ..))
    cases ws with
    | nil =>
      rw [List.intercalate_singleton, ← List.append_nil w, hword [] rfl, List.append_nil]
      rfl
    | cons v vs =>
      have hrest := ih (fun w hw => hne w (List.mem_cons_of_mem _ hw))
        fun w hw => hws w (List.mem_cons_of_mem _ hw)
      rw [List.intercalate_cons_cons, List.append_assoc, List.singleton_append,
        hword _ rfl, words, if_pos (by decide), hrest]

/-- The first words of a text, with single spaces between them, are words again. -/
theorem words_intercalate_take (s : List Char) (k : Nat) :
    words ([' '].intercalate ((words s).take k)) = (words s).take k :=
  words_intercalate (fun _ hw => ne_nil_of_mem_words (List.mem_of_mem_take hw))
    fun _ hw _ hc => not_blank_of_mem_words (List.mem_of_mem_take hw) hc

end ThemePress.Text
