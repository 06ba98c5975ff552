import Mathlib.Data.List.TakeWhile
import ThemePress.Proofs.Text.Words
import ThemePress.Template.TagText

/-! # Tags as they are written

The text of a tag is written part by part, with blanks between them: words, which may stand in
quotes, and keyed arguments, which may have blanks around their `=`. `Written parts text` says that
the text is one way to write these parts. All ways are read back as the same node: its name is the
first word, and its arguments are the other words and then the keyed arguments, each in the order in
which they were written (`ofText_of_written`).

Reading looks for a keyed argument at every place. It finds none inside a word, because an `=` would
have to follow it, behind blanks or not, and no part starts with one (`Written.assigns_nothing`). At
a key it finds just the argument that was written there (`keyedAt?_part`). -/

namespace ThemePress.Template.TagText

open ThemePress.Text

/-! ### Parts of a tag -/

inductive Quote where
  | single
  | double
  deriving DecidableEq

def Quote.char : Quote → Char
  | single => '\''
  | double => '"'

/-- A part of a tag as it is written. -/
inductive Part where
  /-- The name or a positional argument, in quotes or not. -/
  | word (word : String) (quotes : Option Quote)
  /-- A keyed argument with blanks before and after its `=`. -/
  | keyed (key value : String) (before after : List Char) (quotes : Quote)

/-- Neither empty nor with blanks, quotes or `=` in it. -/
structure IsToken (w : String) : Prop where
  ne_empty : w ≠ ""
  plain : ∀ c ∈ w.toList, isBlank c = false ∧ isQuote c = false ∧ c ≠ '='

theorem isToken_iff {w : String} :
    IsToken w ↔ w ≠ "" ∧ w.toList.all (fun c => !isBlank c && !isQuote c && c != '=') = true := by
  refine ⟨fun h => ⟨h.ne_empty, List.all_eq_true.2 fun c hc => ?_⟩, fun h => ⟨h.1, fun c hc => ?_⟩⟩
  · obtain ⟨hblank, hquote, hassign⟩ := h.plain c hc
    simp [hblank, hquote, hassign]
  · simpa [and_assoc] using List.all_eq_true.1 h.2 c hc

instance (w : String) : Decidable (IsToken w) :=
  decidable_of_iff _ isToken_iff.symm

/-- The characters that a value in quotes can have. -/
def isInside (c : Char) : Bool :=
  !isQuote c && c != '\n'

namespace Part

/-- The text of a part. -/
def chars : Part → List Char
  | word w none => w.toList
  | word w (some q) => q.char :: (w.toList ++ [q.char])
  | keyed key value before after q =>
    key.toList ++ (before ++ '=' :: (after ++ q.char :: (value.toList ++ [q.char])))

/-- The part can be written: words and keys are tokens, values have no quotes and no line ends in
them, and there are only blanks around an `=`. -/
def Writable : Part → Prop
  | word w _ => IsToken w
  | keyed key value before after _ =>
    IsToken key ∧ (∀ c ∈ value.toList, isInside c = true) ∧
      (∀ c ∈ before, isBlank c = true) ∧ ∀ c ∈ after, isBlank c = true

instance (part : Part) : Decidable part.Writable :=
  match part with
  | word w _ => inferInstanceAs (Decidable (IsToken w))
  | keyed key value before after _ =>
    decidable_of_iff (IsToken key ∧ value.toList.all isInside = true ∧
      before.all isBlank = true ∧ after.all isBlank = true) (by simp [Writable])

/-- What the part starts with, apart from quotes. -/
def token : Part → String
  | word w _ => w
  | keyed key .. => key

def word? : Part → Option String
  | word w _ => some w
  | keyed .. => none

def keyed? : Part → Option (String × String)
  | word .. => none
  | keyed key value .. => some (key, value)

end Part

/-- The text is one way to write the parts, in their order: there may be blanks in front of the
first and behind the last, and there are some between any two. -/
inductive Written : List Part → List Char → Prop where
  | nil {blanks : List Char} (h : ∀ c ∈ blanks, isBlank c = true) : Written [] blanks
  | cons {part : Part} {parts : List Part} {blanks rest : List Char}
      (h : ∀ c ∈ blanks, isBlank c = true) (writable : part.Writable)
      (apart : startsWord rest = false) (written : Written parts rest) :
    Written (part :: parts) (blanks ++ (part.chars ++ rest))

/-! ### What stands at the start of a text -/

theorem Quote.isQuote_char (q : Quote) : isQuote q.char = true := by
  cases q <;> decide

theorem Quote.plain (q : Quote) : isBlank q.char = false ∧ q.char ≠ '=' := by
  cases q <;> decide

theorem dropWhile_blanks {blanks s : List Char} (h : ∀ c ∈ blanks, isBlank c = true)
    (hs : ∀ c, s.head? = some c → isBlank c = false) :
    (blanks ++ s).dropWhile isBlank = s := by
  rw [List.dropWhile_append_of_pos h]
  cases s with
  | nil => rfl
  | cons c s => rw [List.dropWhile_cons_of_neg (by simp [hs c rfl])]

/-- Without an `=` behind its first blanks, a text assigns nothing. -/
theorem assigned?_eq_none {s : List Char} (h : (s.dropWhile isBlank).head? ≠ some '=') :
    assigned? s = none := by
  unfold assigned?
  split
  · rename_i hd
    exact absurd (by rw [hd]; rfl) h
  · rfl

theorem keyedAt?_of_not_startsWord {s : List Char} (h : startsWord s = false) :
    keyedAt? s = none := by
  cases s with
  | nil => rfl
  | cons c s =>
    have hc : isBlank c = true := by simpa [startsWord] using h
    rw [keyedAt?, if_pos hc]

/-- A part with a token at its start starts with a character that is no blank and no `=`. -/
theorem Part.chars_eq {part : Part} (h : IsToken part.token) :
    ∃ c s, part.chars = c :: s ∧ isBlank c = false ∧ c ≠ '=' := by
  have token : ∀ {w : String} (s : List Char), IsToken w →
      ∃ c s', w.toList ++ s = c :: s' ∧ isBlank c = false ∧ c ≠ '=' := by
    intro w s hw
    cases hl : w.toList with
    | nil => exact absurd (String.toList_eq_nil_iff.1 hl) hw.ne_empty
    | cons c s' =>
      have hc := hw.plain c (by simp [hl])
      exact ⟨c, s' ++ s, rfl, hc.1, hc.2.2⟩
  cases part with
  | word w quotes =>
    cases quotes with
    | none => simpa [chars, Part.token] using token [] h
    | some q => exact ⟨q.char, _, rfl, q.plain⟩
  | keyed key value before after q => exact token _ h

theorem Part.Writable.token {part : Part} (h : part.Writable) : IsToken part.token := by
  cases part with
  | word w quotes => exact h
  | keyed key value before after q => exact h.1

section
variable {blanks : List Char} (h : ∀ c ∈ blanks, isBlank c = true)

include h

theorem assigned?_blanks : assigned? blanks = none :=
  assigned?_eq_none (by rw [List.dropWhile_eq_nil_iff.2 h]; simp)

theorem assigned?_part {part : Part} (hpart : IsToken part.token) (rest : List Char) :
    assigned? (blanks ++ (part.chars ++ rest)) = none := by
  obtain ⟨c, s, hchars, hblank, heq⟩ := Part.chars_eq hpart
  refine assigned?_eq_none ?_
  rw [hchars, dropWhile_blanks h (by simpa using hblank)]
  simpa using heq

end

/-- What is written starts with no `=`, not even behind blanks. -/
theorem Written.assigns_nothing {parts : List Part} {s : List Char} (h : Written parts s) :
    assigned? s = none := by
  cases h with
  | nil h => exact assigned?_blanks h
  | cons h writable => exact assigned?_part h writable.token _

/-! ### Reading words -/

section
variable {w s : List Char}

/-- In a run without blanks and `=`, no keyed argument starts. -/
theorem keyedAt?_word (hw : ∀ c ∈ w, isBlank c = false ∧ c ≠ '=') (hs : assigned? s = none)
    (apart : startsWord s = false) : keyedAt? (w ++ s) = none := by
  induction w with
  | nil => exact keyedAt?_of_not_startsWord apart
  | cons c w ih =>
    have hc := hw c (List.mem_cons_self ..)
    have hw : ∀ c ∈ w, isBlank c = false ∧ c ≠ '=' := fun c hc => hw c (List.mem_cons_of_mem _ hc)
    have hnone : assigned? (w ++ s) = none := by
      cases w with
      | nil => exact hs
      | cons d w =>
        have hd := hw d (List.mem_cons_self ..)
        refine assigned?_eq_none ?_
        rw [List.cons_append, List.dropWhile_cons_of_neg (by simp [hd.1])]
        simpa using hd.2
    rw [List.cons_append, keyedAt?, if_neg (by simp [hc.1]), hnone]
    simp [ih hw]

theorem takeKeyed_of_none {c : Char} (h : keyedAt? (c :: s) = none) :
    takeKeyed (c :: s) = ((takeKeyed s).1, c :: (takeKeyed s).2) := by
  rw [takeKeyed]
  split
  · rename_i h'
    cases h.symm.trans h'
  · rfl

theorem takeKeyed_of_some {key value rest : List Char} (h : keyedAt? s = some (key, value, rest)) :
    takeKeyed s = ((key, value) :: (takeKeyed rest).1, (takeKeyed rest).2) := by
  rw [takeKeyed]
  split
  · rename_i h'
    obtain ⟨rfl, rfl, rfl⟩ : key = _ ∧ value = _ ∧ rest = _ := by simpa using h.symm.trans h'
    rfl
  · rename_i h'
    cases h.symm.trans h'

theorem takeKeyed_word (hw : ∀ c ∈ w, isBlank c = false ∧ c ≠ '=') (hs : assigned? s = none)
    (apart : startsWord s = false) :
    takeKeyed (w ++ s) = ((takeKeyed s).1, w ++ (takeKeyed s).2) := by
  induction w with
  | nil => rfl
  | cons c w ih =>
    have hnone := keyedAt?_word hw hs apart
    rw [List.cons_append] at hnone ⊢
    rw [takeKeyed_of_none hnone, ih fun c hc => hw c (List.mem_cons_of_mem _ hc)]
    rfl

theorem takeKeyed_blanks {blanks : List Char} (h : ∀ c ∈ blanks, isBlank c = true)
    (s : List Char) : takeKeyed (blanks ++ s) = ((takeKeyed s).1, blanks ++ (takeKeyed s).2) := by
  induction blanks with
  | nil => rfl
  | cons c blanks ih =>
    have hc : keyedAt? (c :: (blanks ++ s)) = none := by
      rw [keyedAt?, if_pos (h c (List.mem_cons_self ..))]
    rw [List.cons_append, takeKeyed_of_none hc, ih fun c hc => h c (List.mem_cons_of_mem _ hc)]
    rfl

theorem takeKeyed_nil : takeKeyed [] = ([], []) := by
  rw [takeKeyed]
  rfl

/-- A value in quotes has its two quotes. -/
theorem two_le_countP_of_quoted? {value rest : List Char} (h : quoted? s = some (value, rest)) :
    2 ≤ s.countP isQuote := by
  cases s with
  | nil => cases h
  | cons q s =>
    simp only [quoted?] at h
    split at h
    · next q' rest' hdrop =>
      split at h
      · next hquotes =>
        obtain ⟨hq, hq'⟩ := Bool.and_eq_true_iff.1 hquotes
        have hmem : q' ∈ s := (List.dropWhile_sublist _).subset (by rw [hdrop]; simp)
        have hpos : 0 < s.countP isQuote := List.countP_pos_iff.2 ⟨q', hmem, hq'⟩
        rw [List.countP_cons_of_pos hq]
        omega
      · cases h
    · cases h

/-- A text in which no `=` has two quotes behind it assigns nothing anywhere. -/
theorem takeKeyed_eq_self (h : ∀ t, '=' :: t <:+ s → t.countP isQuote < 2) :
    takeKeyed s = ([], s) := by
  have hassigned : ∀ s' : List Char, s' <:+ s → assigned? s' = none := by
    intro s' hs'
    unfold assigned?
    split
    · next t hdrop =>
      have ht : '=' :: t <:+ s := by
        rw [← hdrop]
        exact (List.dropWhile_suffix _).trans hs'
      rw [Option.eq_none_iff_forall_ne_some]
      rintro ⟨value, rest⟩ hvalue
      have htwo := two_le_countP_of_quoted? hvalue
      have hle : (t.dropWhile isBlank).countP isQuote ≤ t.countP isQuote :=
        (List.dropWhile_sublist _).countP_le
      have := h t ht
      omega
    · rfl
  have hkeyed : ∀ s' : List Char, s' <:+ s → keyedAt? s' = none := by
    intro s' hs'
    induction s' with
    | nil => rfl
    | cons c s' ih =>
      rw [keyedAt?, hassigned s' ((List.suffix_cons c s').trans hs'),
        ih ((List.suffix_cons c s').trans hs')]
      simp
  have hall : ∀ s' : List Char, s' <:+ s → takeKeyed s' = ([], s') := by
    intro s' hs'
    induction s' with
    | nil => exact takeKeyed_nil
    | cons c s' ih =>
      rw [takeKeyed_of_none (hkeyed _ hs'), ih ((List.suffix_cons c s').trans hs')]
  exact hall s (List.suffix_refl s)

/-- A word is read without the quotes around it. -/
theorem unquote_chars {w : String} (hw : IsToken w) (quotes : Option Quote) :
    unquote (Part.word w quotes).chars = w.toList := by
  have hplain : ∀ c ∈ w.toList, (!isQuote c) = true := fun c hc => by simp [(hw.plain c hc).2.1]
  cases quotes with
  | none =>
    show unquote w.toList = w.toList
    rw [unquote, List.dropWhile_eq_nil_iff.2 hplain]
  | some q =>
    have hlen : w.toList.length ≠ 0 := fun h =>
      hw.ne_empty (String.toList_eq_nil_iff.1 (List.length_eq_zero_iff.1 h))
    have hdrop : (Part.word w (some q)).chars.dropWhile (!isQuote ·) =
        q.char :: (w.toList ++ [q.char]) := by
      rw [Part.chars, List.dropWhile_cons_of_neg (by simp [q.isQuote_char])]
    have hlong : (1 < (w.toList ++ [q.char]).length) = True := by
      rw [List.length_append, List.length_singleton, eq_iff_iff, iff_true]
      omega
    rw [unquote, hdrop]
    simp only [List.getLast?_concat, q.isQuote_char, hlong, List.dropLast_concat, decide_true,
      Bool.and_self, if_true]

end

/-! ### Reading keyed arguments -/

section
variable {value : List Char} {close : Char} (h : ∀ c ∈ value, isInside c = true)
  (hclose : isQuote close = true)

include h hclose

/-- A value ends at the first quote, of whichever kind. -/
theorem quoted?_value (q : Quote) (s : List Char) :
    quoted? (q.char :: (value ++ close :: s)) = some (value, s) := by
  have hstop : isInside close = false := by simp [isInside, hclose]
  have htake : (value ++ close :: s).takeWhile isInside = value := by
    rw [List.takeWhile_append_of_pos h, List.takeWhile_cons_of_neg (by simp [hstop]),
      List.append_nil]
  have hdrop : (value ++ close :: s).dropWhile isInside = close :: s := by
    rw [List.dropWhile_append_of_pos h, List.dropWhile_cons_of_neg (by simp [hstop])]
  have hinside : (fun c => !isQuote c && c != '\n') = isInside := rfl
  simp only [quoted?, hinside, hdrop, htake, q.isQuote_char, hclose, Bool.and_self, if_true]

theorem assigned?_value {before after : List Char} (hbefore : ∀ c ∈ before, isBlank c = true)
    (hafter : ∀ c ∈ after, isBlank c = true) (q : Quote) (s : List Char) :
    assigned? (before ++ '=' :: (after ++ q.char :: (value ++ close :: s))) = some (value, s) := by
  have heq : ∀ c, ('=' :: (after ++ q.char :: (value ++ close :: s))).head? = some c →
      isBlank c = false := fun c hc => by
    obtain rfl : '=' = c := by simpa using hc
    decide
  have hquote : ∀ c, (q.char :: (value ++ close :: s)).head? = some c → isBlank c = false :=
    fun c hc => by
      obtain rfl : q.char = c := by simpa using hc
      exact q.plain.1
  simp only [assigned?, dropWhile_blanks hbefore heq, dropWhile_blanks hafter hquote,
    quoted?_value h hclose]

end

/-- A key without blanks and `=` in it is read whole, with what is assigned to it. -/
theorem keyedAt?_key {key value s rest : List Char} (hne : key ≠ [])
    (hkey : ∀ c ∈ key, isBlank c = false ∧ c ≠ '=') (hs : assigned? s = some (value, rest)) :
    keyedAt? (key ++ s) = some (key, value, rest) := by
  induction key with
  | nil => exact absurd rfl hne
  | cons c key ih =>
    have hc := hkey c (List.mem_cons_self ..)
    have hkey : ∀ c ∈ key, isBlank c = false ∧ c ≠ '=' :=
      fun c hc => hkey c (List.mem_cons_of_mem _ hc)
    rw [List.cons_append, keyedAt?, if_neg (by simp [hc.1])]
    cases key with
    | nil => rw [List.nil_append, hs]
    | cons d key =>
      have hd := hkey d (List.mem_cons_self ..)
      have hnone : assigned? (d :: key ++ s) = none := by
        refine assigned?_eq_none ?_
        rw [List.cons_append, List.dropWhile_cons_of_neg (by simp [hd.1])]
        simpa using hd.2
      rw [hnone, ih (List.cons_ne_nil _ _) hkey]
      rfl

/-- A keyed argument is read as it was written. -/
theorem keyedAt?_part {key value : String} {before after : List Char} {q : Quote}
    (h : (Part.keyed key value before after q).Writable) (s : List Char) :
    keyedAt? ((Part.keyed key value before after q).chars ++ s) =
      some (key.toList, value.toList, s) := by
  obtain ⟨hkey, hvalue, hbefore, hafter⟩ := h
  have hne : key.toList ≠ [] := fun h => hkey.ne_empty (String.toList_eq_nil_iff.1 h)
  have ha := assigned?_value hvalue q.isQuote_char hbefore hafter q s
  have hk := keyedAt?_key hne (fun c hc => ⟨(hkey.plain c hc).1, (hkey.plain c hc).2.2⟩) ha
  simpa [Part.chars] using hk

/-! ### Reading parts back -/

theorem Part.chars_word_plain {w : String} (hw : IsToken w) (quotes : Option Quote) :
    ∀ c ∈ (Part.word w quotes).chars, isBlank c = false ∧ c ≠ '=' := by
  have htoken : ∀ c ∈ w.toList, isBlank c = false ∧ c ≠ '=' :=
    fun c hc => ⟨(hw.plain c hc).1, (hw.plain c hc).2.2⟩
  cases quotes with
  | none => exact htoken
  | some q =>
    intro c hc
    simp only [Part.chars, List.mem_cons, List.mem_append, List.not_mem_nil, or_false] at hc
    rcases hc with rfl | hc | rfl
    · exact q.plain
    · exact htoken c hc
    · exact q.plain

/-- The keyed arguments are taken out as they were written, and the words are left. -/
theorem takeKeyed_of_written {parts : List Part} {s : List Char} (h : Written parts s) :
    (takeKeyed s).1.map (fun a => (String.ofList a.1, String.ofList a.2)) =
        parts.filterMap Part.keyed? ∧
      (words (takeKeyed s).2).map (fun w => String.ofList (unquote w)) =
        parts.filterMap Part.word? ∧
      (startsWord s = false → startsWord (takeKeyed s).2 = false) := by
  induction h with
  | @nil blanks h =>
    have ht := takeKeyed_blanks h []
    rw [List.append_nil, takeKeyed_nil, List.append_nil] at ht
    rw [ht]
    exact ⟨rfl, by rw [words_blanks h]; rfl, id⟩
  | @cons part parts blanks rest h writable apart written ih =>
    obtain ⟨hkeyed, hwords, hstart⟩ := ih
    have hstarts : ∀ left, startsWord (blanks ++ (part.chars ++ rest)) = false →
        startsWord (blanks ++ left) = false := by
      intro left hs
      cases blanks with
      | nil =>
        obtain ⟨c, s, hchars, hblank, -⟩ := Part.chars_eq writable.token
        rw [hchars] at hs
        simp [startsWord, hblank] at hs
      | cons c blanks => exact hs
    cases part with
    | word w quotes =>
      have hplain := Part.chars_word_plain writable quotes
      obtain ⟨c, s, hchars, -⟩ := Part.chars_eq writable.token
      have hne : (Part.word w quotes).chars ≠ [] := by rw [hchars]; exact List.cons_ne_nil _ _
      rw [takeKeyed_blanks h, takeKeyed_word hplain written.assigns_nothing apart]
      refine ⟨hkeyed, ?_, hstarts _⟩
      rw [words_blanks_append h,
        words_word_append hne (fun c hc => (hplain c hc).1) (hstart apart), List.map_cons, hwords,
        unquote_chars writable, String.ofList_toList]
      rfl
    | keyed key value before after q =>
      rw [takeKeyed_blanks h, takeKeyed_of_some (keyedAt?_part writable rest)]
      refine ⟨?_, ?_, hstarts _⟩
      · rw [List.map_cons, hkeyed, String.ofList_toList, String.ofList_toList]
        rfl
      · rw [words_blanks_append h, hwords]
        rfl

end TagText

open TagText

/-- The node of a text, by the words and the keyed arguments that are found in it. -/
theorem ofText_of_takeKeyed {text name : String} {tokens : List String}
    {keyed : List (String × String)}
    (hkeyed : (takeKeyed text.toList).1.map (fun a => (String.ofList a.1, String.ofList a.2)) =
      keyed)
    (hwords : (Text.words (takeKeyed text.toList).2).map (fun w => String.ofList (unquote w)) =
      name :: tokens)
    (unescaped : Bool) (position : Nat) (block : List UInt8) (children : List Node)
    (branch : Option Node) :
    Node.ofText text unescaped position block children branch =
      { Node.leaf name unescaped position with
        arguments := tokens.map (fun token => Node.leaf token unescaped 0) ++
          keyed.map (fun keyed => { Node.leaf keyed.2 unescaped 0 with key := some keyed.1 }) ++
          branch.toList
        block
        children } := by
  rw [← hkeyed]
  unfold Node.ofText
  dsimp only
  rw [hwords, List.map_map]
  rfl

/-- **What is written in a tag is read back.** In whatever order the words and the keyed arguments
of a tag are written, in quotes of either kind and with any blanks between them and around each `=`,
its node has the first word for its name, and for its arguments the other words without a key, then
the keyed arguments with their keys and values, and last the `else` branch, if there is one. -/
theorem ofText_of_written {parts : List Part} {text name : String} {tokens : List String}
    (h : Written parts text.toList) (hwords : parts.filterMap Part.word? = name :: tokens)
    (unescaped : Bool) (position : Nat) (block : List UInt8) (children : List Node)
    (branch : Option Node) :
    Node.ofText text unescaped position block children branch =
      { Node.leaf name unescaped position with
        arguments := tokens.map (fun token => Node.leaf token unescaped 0) ++
          (parts.filterMap Part.keyed?).map (fun keyed =>
            { Node.leaf keyed.2 unescaped 0 with key := some keyed.1 }) ++
          branch.toList
        block
        children } := by
  obtain ⟨hkeyed, htokens, -⟩ := takeKeyed_of_written h
  exact ofText_of_takeKeyed hkeyed (htokens.trans hwords) unescaped position block children branch

/-- A keyed argument before the name, a word in quotes, blanks around an `=`, and values that are
empty or have an `=` and a blank in them. -/
def mixedParts : List Part :=
  [.keyed "a" "b=c d" [' '] [' '] .single, .word "date" none, .word "x" (some .double),
    .keyed "e" "" [] [] .double]

theorem ofText_of_written_mixed :
    Written mixedParts "a = 'b=c d' date \"x\"  e=\"\"".toList ∧
      mixedParts.filterMap Part.word? = ["date", "x"] ∧
      Node.ofText "a = 'b=c d' date \"x\"  e=\"\"" false 0 [] [] none =
        { Node.leaf "date" false 0 with
          arguments := [Node.leaf "x" false 0, { Node.leaf "b=c d" false 0 with key := some "a" },
            { Node.leaf "" false 0 with key := some "e" }] } := by
  have h : Written mixedParts "a = 'b=c d' date \"x\"  e=\"\"".toList := by
    have none : ∀ c ∈ [], Text.isBlank c = true := List.all_eq_true.1 rfl
    have one : ∀ c ∈ [' '], Text.isBlank c = true := List.all_eq_true.1 rfl
    have two : ∀ c ∈ [' ', ' '], Text.isBlank c = true := List.all_eq_true.1 rfl
    exact .cons none (by decide +kernel) (by decide)
      (.cons one (by decide +kernel) (by decide)
        (.cons one (by decide +kernel) (by decide)
          (.cons two (by decide +kernel) (by decide) (.nil none))))
  exact ⟨h, rfl, ofText_of_written h rfl false 0 [] [] none⟩

end ThemePress.Template
