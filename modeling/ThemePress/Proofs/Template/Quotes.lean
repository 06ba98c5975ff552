import ThemePress.Proofs.Template.Written

/-! # Values in quotes

A value is written between two quotes of one kind, so nothing would be in the way of quotes of the
other kind in it. `Spelled parts text` says that the text is a way to write the parts in this wider
sense. Reading does not match the quotes: a value ends at the first quote of either kind. So all
values are read in full only if there is no quote in any of them (`values_in_full_iff`). The first
value that has one is cut off there, and what is left of it is read as text of the tag. -/

namespace ThemePress.Template

namespace TagText

open ThemePress.Text

/-- The part can be told apart: words and keys are tokens, the quote around a value is not in it,
and there are only blanks around an `=`. -/
def Part.Delimited : Part → Prop
  | word w _ => IsToken w
  | keyed key value before after q =>
    IsToken key ∧ (∀ c ∈ value.toList, c ≠ q.char) ∧
      (∀ c ∈ before, isBlank c = true) ∧ ∀ c ∈ after, isBlank c = true

/-- The value of the part, if it has one, has neither quotes nor line ends in it. -/
def Part.Plain (part : Part) : Prop :=
  ∀ keyed ∈ part.keyed?, ∀ c ∈ keyed.2.toList, isInside c = true

/-- The text is one way to write the parts, where values may have quotes of the other kind. -/
inductive Spelled : List Part → List Char → Prop where
  | nil {blanks : List Char} (h : ∀ c ∈ blanks, isBlank c = true) : Spelled [] blanks
  | cons {part : Part} {parts : List Part} {blanks rest : List Char}
      (h : ∀ c ∈ blanks, isBlank c = true) (delimited : part.Delimited)
      (apart : startsWord rest = false) (spelled : Spelled parts rest) :
    Spelled (part :: parts) (blanks ++ (part.chars ++ rest))

theorem Part.Delimited.token {part : Part} (h : part.Delimited) : IsToken part.token := by
  cases part with
  | word w quotes => exact h
  | keyed key value before after q => exact h.1

theorem Part.Delimited.writable {part : Part} (h : part.Delimited) (hplain : part.Plain) :
    part.Writable := by
  cases part with
  | word w quotes => exact h
  | keyed key value before after q => exact ⟨h.1, hplain _ rfl, h.2.2⟩

theorem Spelled.assigns_nothing {parts : List Part} {s : List Char} (h : Spelled parts s) :
    assigned? s = none := by
  cases h with
  | nil h => exact assigned?_blanks h
  | cons h delimited => exact assigned?_part h delimited.token _

/-- With plain values there is nothing new. -/
theorem Spelled.written {parts : List Part} {s : List Char} (h : Spelled parts s)
    (hplain : ∀ part ∈ parts, part.Plain) : Written parts s := by
  induction h with
  | nil h => exact .nil h
  | cons h delimited apart _ ih =>
    exact .cons h (delimited.writable (hplain _ (List.mem_cons_self ..))) apart
      (ih fun part hpart => hplain part (List.mem_cons_of_mem _ hpart))

/-! ### What is read as a value -/

section
variable {s key value rest : List Char}

theorem quoted?_plain (h : quoted? s = some (value, rest)) : ∀ c ∈ value, isInside c = true := by
  cases s with
  | nil => cases h
  | cons q s =>
    simp only [quoted?] at h
    split at h
    · split at h
      · cases h
        exact fun c hc => List.mem_takeWhile_imp hc
      · cases h
    · cases h

theorem assigned?_plain (h : assigned? s = some (value, rest)) :
    ∀ c ∈ value, isInside c = true := by
  unfold assigned? at h
  split at h
  · exact quoted?_plain h
  · cases h

theorem keyedAt?_plain (h : keyedAt? s = some (key, value, rest)) :
    ∀ c ∈ value, isInside c = true := by
  induction s generalizing key with
  | nil => cases h
  | cons c s ih =>
    rw [keyedAt?] at h
    split at h
    · cases h
    · split at h
      · rename_i ha
        cases h
        exact assigned?_plain ha
      · obtain ⟨⟨key', value', rest'⟩, h', e⟩ := Option.map_eq_some_iff.1 h
        cases e
        exact ih h'

/-- No value is read that has a quote or a line end in it. -/
theorem takeKeyed_plain (s : List Char) :
    ∀ keyed ∈ (takeKeyed s).1, ∀ c ∈ keyed.2, isInside c = true := by
  induction s using takeKeyed.induct with
  | case1 s key value rest h _ ih =>
    rw [takeKeyed_of_some h]
    intro keyed hkeyed
    obtain rfl | hkeyed := List.mem_cons.1 hkeyed
    · exact keyedAt?_plain h
    · exact ih keyed hkeyed
  | case2 h =>
    rw [takeKeyed_nil]
    exact nofun
  | case3 c s h ih =>
    rw [takeKeyed_of_none h]
    exact ih

end

/-! ### The first quote -/

/-- The keys and values that are read from a text. -/
def keyedOf (s : List Char) : List (String × String) :=
  (takeKeyed s).1.map fun keyed => (String.ofList keyed.1, String.ofList keyed.2)

section
variable {blanks rest : List Char} (h : ∀ c ∈ blanks, isBlank c = true)

include h

/-- What is read from a part that can be written, and from what follows it. -/
theorem keyedOf_part {part : Part} (writable : part.Writable) (hrest : assigned? rest = none)
    (apart : startsWord rest = false) :
    keyedOf (blanks ++ (part.chars ++ rest)) = part.keyed?.toList ++ keyedOf rest := by
  unfold keyedOf
  rw [takeKeyed_blanks h]
  cases part with
  | word w quotes =>
    rw [takeKeyed_word (Part.chars_word_plain writable quotes) hrest apart]
    rfl
  | keyed key value before after q =>
    rw [takeKeyed_of_some (keyedAt?_part writable rest), List.map_cons, String.ofList_toList,
      String.ofList_toList]
    rfl

variable {key value : String} {before after : List Char} {q : Quote}

/-- A value with a quote in it is read up to there. -/
theorem keyedOf_cut (delimited : (Part.keyed key value before after q).Delimited) {v r : List Char}
    {close : Char} (hvalue : value.toList = v ++ close :: r) (hv : ∀ c ∈ v, isInside c = true)
    (hclose : isQuote close = true) :
    keyedOf (blanks ++ ((Part.keyed key value before after q).chars ++ rest)) =
      (key, String.ofList v) :: keyedOf (r ++ q.char :: rest) := by
  obtain ⟨hkey, -, hbefore, hafter⟩ := delimited
  have hne : key.toList ≠ [] := fun h => hkey.ne_empty (String.toList_eq_nil_iff.1 h)
  have ha := assigned?_value hv hclose hbefore hafter q (r ++ q.char :: rest)
  have hk := keyedAt?_key hne (fun c hc => ⟨(hkey.plain c hc).1, (hkey.plain c hc).2.2⟩) ha
  have hchars : (Part.keyed key value before after q).chars ++ rest = key.toList ++
      (before ++ '=' :: (after ++ q.char :: (v ++ close :: (r ++ q.char :: rest)))) := by
    simp [Part.chars, hvalue]
  unfold keyedOf
  rw [takeKeyed_blanks h, hchars, takeKeyed_of_some hk, List.map_cons, String.ofList_toList]

end

/-- All values are read in front of the first with a quote in it, and that one is cut off there. -/
theorem Spelled.keyedOf_cut {parts front back : List Part} {s : List Char} {key value : String}
    {before after : List Char} {q : Quote} (h : Spelled parts s)
    (hparts : parts = front ++ .keyed key value before after q :: back)
    (hfront : ∀ part ∈ front, part.Plain) {v r : List Char} {close : Char}
    (hvalue : value.toList = v ++ close :: r) (hv : ∀ c ∈ v, isInside c = true)
    (hclose : isQuote close = true) :
    ∃ rest, keyedOf s = front.filterMap Part.keyed? ++
      (key, String.ofList v) :: keyedOf (r ++ q.char :: rest) := by
  induction h generalizing front with
  | nil => simp at hparts
  | @cons part parts blanks rest hblanks delimited apart spelled ih =>
    cases front with
    | nil =>
      obtain ⟨rfl, rfl⟩ := List.cons.inj hparts
      exact ⟨rest, TagText.keyedOf_cut hblanks delimited hvalue hv hclose⟩
    | cons first front =>
      obtain ⟨rfl, htail⟩ := List.cons.inj hparts
      obtain ⟨left, hleft⟩ := ih htail fun part hpart => hfront part (List.mem_cons_of_mem _ hpart)
      have writable := delimited.writable (hfront _ (List.mem_cons_self ..))
      refine ⟨left, ?_⟩
      rw [keyedOf_part hblanks writable spelled.assigns_nothing apart, hleft]
      cases hk : part.keyed? <;> simp [hk]

end TagText

open TagText

/-- The keys and values among arguments. -/
def keyedAmong (arguments : List Node) : List (String × String) :=
  arguments.filterMap fun a => a.key.map (·, a.name)

theorem keyedAmong_append (arguments arguments' : List Node) :
    keyedAmong (arguments ++ arguments') = keyedAmong arguments ++ keyedAmong arguments' :=
  List.filterMap_append

theorem keyedAmong_positional (unescaped : Bool) (tokens : List String) :
    keyedAmong (tokens.map fun token => Node.leaf token unescaped 0) = [] := by
  simp [keyedAmong, Node.leaf]

theorem keyedAmong_keyed (unescaped : Bool) (keyed : List (String × String)) :
    keyedAmong (keyed.map fun keyed =>
      { Node.leaf keyed.2 unescaped 0 with key := some keyed.1 }) = keyed := by
  rw [keyedAmong, List.filterMap_map]
  exact List.filterMap_some

theorem keyedAmong_ofText (text : String) (unescaped : Bool) (position : Nat)
    (block : List UInt8) (children : List Node) (branch : Option Node) :
    keyedAmong (Node.ofText text unescaped position block children branch).arguments =
      keyedOf text.toList ++ keyedAmong branch.toList := by
  have harguments : (Node.ofText text unescaped position block children branch).arguments =
      ((Text.words (takeKeyed text.toList).2).map fun w => String.ofList (unquote w)).tail.map
        (fun token => Node.leaf token unescaped 0) ++
      (keyedOf text.toList).map (fun keyed =>
        { Node.leaf keyed.2 unescaped 0 with key := some keyed.1 }) ++ branch.toList := by
    unfold Node.ofText keyedOf
    rw [List.map_map]
    rfl
  rw [harguments, keyedAmong_append, keyedAmong_append, keyedAmong_positional, keyedAmong_keyed]
  rfl

/-- **Values are read in full just when there is no quote in any of them.** Take the words and the
keyed arguments of a tag, with values that may have any characters but the quote in which they
stand, and a way to write them.

* The node has all of them, and nothing else, if and only if no value has a quote or a line end in
  it.
* Whatever a value has in it, the ones in front of it being without quotes and line ends: it is cut
  off at its first quote, and this is the first thing that is read differently. -/
theorem values_in_full_iff {parts : List Part} {text name : String} {tokens : List String}
    (h : Spelled parts text.toList) (hwords : parts.filterMap Part.word? = name :: tokens)
    (unescaped : Bool) (position : Nat) (block : List UInt8) (children : List Node)
    (branch : Option Node) :
    let n := Node.ofText text unescaped position block children branch
    (n =
        { Node.leaf name unescaped position with
          arguments := tokens.map (fun token => Node.leaf token unescaped 0) ++
            (parts.filterMap Part.keyed?).map (fun keyed =>
              { Node.leaf keyed.2 unescaped 0 with key := some keyed.1 }) ++
            branch.toList
          block
          children } ↔
      ∀ part ∈ parts, part.Plain) ∧
    ∀ front key value before after q back,
      parts = front ++ .keyed key value before after q :: back → (∀ part ∈ front, part.Plain) →
      ∀ v close r, value.toList = v ++ close :: r → isQuote close = true →
        (∀ c ∈ v, isInside c = true) →
        front.filterMap Part.keyed? ++ [(key, String.ofList v)] <+: keyedAmong n.arguments := by
  intro n
  refine ⟨⟨fun hn => ?_, fun hplain => ?_⟩, ?_⟩
  · have hkeyed := keyedAmong_ofText text unescaped position block children branch
    rw [show Node.ofText .. = _ from hn, keyedAmong_append, keyedAmong_append,
      keyedAmong_positional, keyedAmong_keyed, List.nil_append] at hkeyed
    have hread := List.append_cancel_right hkeyed
    intro part hpart keyed hk c hc
    have hmem : keyed ∈ keyedOf text.toList := by
      rw [← hread]
      exact List.mem_filterMap.2 ⟨part, hpart, hk⟩
    obtain ⟨read, htaken, rfl⟩ := List.mem_map.1 hmem
    exact takeKeyed_plain _ read htaken c (by simpa using hc)
  · obtain ⟨hkeyed, htokens, -⟩ := takeKeyed_of_written (h.written hplain)
    exact ofText_of_takeKeyed hkeyed (htokens.trans hwords) ..
  · intro front key value before after q back hparts hfront v close r hvalue hclose hv
    obtain ⟨rest, hrest⟩ := h.keyedOf_cut hparts hfront hvalue hv hclose
    rw [keyedAmong_ofText, hrest]
    exact ⟨keyedOf (r ++ q.char :: rest) ++ keyedAmong branch.toList, by simp⟩

/-- A word with an apostrophe, between double quotes. -/
def apostropheParts : List Part :=
  [.word "plural" none, .keyed "singular" "it's" [] [] .double]

theorem spelled_apostrophe : Spelled apostropheParts "plural singular=\"it's\"".toList := by
  have none : ∀ c ∈ [], Text.isBlank c = true := List.all_eq_true.1 rfl
  have one : ∀ c ∈ [' '], Text.isBlank c = true := List.all_eq_true.1 rfl
  have hname : IsToken "plural" := by decide +kernel
  have hkey : IsToken "singular" := by decide +kernel
  have hvalue : ∀ c ∈ "it's".toList, c ≠ Quote.double.char := fun c hc => by
    have hall : "it's".toList.all (· != Quote.double.char) = true := by decide +kernel
    simpa using List.all_eq_true.1 hall c hc
  exact .cons none hname (by decide) (.cons one ⟨hkey, hvalue, none, none⟩ (by decide) (.nil none))

theorem values_in_full_iff_apostrophe :
    Spelled apostropheParts "plural singular=\"it's\"".toList ∧
      apostropheParts.filterMap Part.word? = ["plural"] ∧
      Node.ofText "plural singular=\"it's\"" false 0 [] [] none ≠
        { Node.leaf "plural" false 0 with
          arguments := [{ Node.leaf "it's" false 0 with key := some "singular" }] } ∧
      [("singular", "it")] <+:
        keyedAmong (Node.ofText "plural singular=\"it's\"" false 0 [] [] none).arguments := by
  obtain ⟨hfull, hcut⟩ := values_in_full_iff spelled_apostrophe rfl false 0 [] [] none
  refine ⟨spelled_apostrophe, rfl, fun h => ?_, ?_⟩
  · have hplain := hfull.1 h _ (List.mem_of_getLast? rfl) ("singular", "it's") rfl '\''
    exact absurd (hplain (by decide +kernel)) (by decide)
  · refine hcut [.word "plural" none] "singular" "it's" [] [] .double [] rfl ?_
      ['i', 't'] '\'' ['s'] rfl rfl (List.all_eq_true.1 rfl)
    simp [Part.Plain, Part.keyed?]

/-- **An apostrophe ends a value that is written between double quotes.** What is left of it becomes
an argument without a key. -/
theorem value_cut_at_apostrophe :
    Spelled apostropheParts "plural singular=\"it's\"".toList ∧
      (Node.ofText "plural singular=\"it's\"" false 0 [] [] none).arguments.map
          (fun a => (a.key, a.name)) =
        [(none, "s\""), (some "singular", "it")] :=
  ⟨spelled_apostrophe, by decide +kernel⟩

end ThemePress.Template
