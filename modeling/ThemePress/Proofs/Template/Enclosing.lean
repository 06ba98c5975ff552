import ThemePress.Proofs.Template.Balance

/-! # A block around a sequence

`enclosing name data` is a sequence with the opening and the close tag of a block around it. Levels
of the name end where they started, so the close tag behind the sequence is the block's own. But it
is found only when depths end there too. So the whole compiles just when no tag in the sequence
opens a block of that name without counting for it (`scan_enclosing_iff`), and then the sequence
itself is the inside of the block (`scan_enclosing_eq`). -/

namespace ThemePress.Template

open ThemePress.Text

/-! ### The tags of a block -/

/-- The text is a word that can name a block. -/
structure NamesBlock (name : String) : Prop where
  nonempty : name ≠ ""
  word : ∀ c ∈ name.toList, isBlank c = false
  unbraced : Unbraced name
  first : name.toList.head? ≠ some '#' ∧ name.toList.head? ≠ some '/'

namespace NamesBlock

theorem opener_inner (name argument : String) :
    (trim ("#" ++ name ++ " " ++ argument)).toList =
      '#' :: dropTail isBlank (name.toList ++ ' ' :: argument.toList) := by
  have htext : ("#" ++ name ++ " " ++ argument).toList =
      '#' :: (name.toList ++ ' ' :: argument.toList) := by
    simp
  rw [trim, String.toList_ofList, htext, trimChars_cons (by decide)]

variable {name argument : String} (h : NamesBlock name)

include h

theorem exists_cons : ∃ c s, name.toList = c :: s ∧ isBlank c = false ∧ c ≠ '#' ∧ c ≠ '/' := by
  cases hs : name.toList with
  | nil => exact absurd (String.toList_eq_nil_iff.1 hs) h.nonempty
  | cons c s =>
    refine ⟨c, s, rfl, h.word c (by simp [hs]), fun hc => h.first.1 ?_, fun hc => h.first.2 ?_⟩
    · rw [hs, hc]; rfl
    · rw [hs, hc]; rfl

theorem opener_unbraced (ha : Unbraced argument) : Unbraced ("#" ++ name ++ " " ++ argument) := by
  have := h.unbraced
  constructor <;> simp_all [Unbraced]

/-- A tag whose first word is the name behind a `#` opens a block of that name. -/
theorem opens_of_inner {t : Tag} {s : List Char} (hs : startsWord s = false)
    (ht : t.inner.toList = '#' :: dropTail isBlank (name.toList ++ s)) :
    t.kind = .blockOpen ∧ t.openName = name := by
  obtain ⟨c, r, hname, hc, hne, -⟩ := h.exists_cons
  have hkind : t.kind = .blockOpen := by
    unfold Tag.kind TagKind.of
    rw [ht]
    rfl
  have hinner : t.inner.toList.dropWhile (· == '#') = dropTail isBlank (name.toList ++ s) := by
    rw [ht, List.dropWhile_cons_of_pos rfl, hname, List.cons_append, dropTail_cons hc]
    exact List.dropWhile_cons_of_neg (by simpa using hne)
  have hsplit : ¬ t.IsSplitOpener := by
    rintro ⟨-, hhead⟩
    rw [hinner, hname, List.cons_append, dropTail_cons hc,
      List.dropWhile_cons_of_neg (by simp [hc])] at hhead
    exact hne (Option.some.inj hhead)
  have hword : words (name.toList ++ s) = name.toList :: words s :=
    words_word_append (by simp [hname]) h.word hs
  refine ⟨hkind, ?_⟩
  rw [Tag.openName_eq hkind hsplit, Tag.blockName, hinner, words_dropTail, hword, List.headD_cons,
    String.ofList_toList]

theorem opens_opener (argument : String) :
    Tag.kind ⟨trim ("#" ++ name ++ " " ++ argument), false⟩ = .blockOpen ∧
      Tag.openName ⟨trim ("#" ++ name ++ " " ++ argument), false⟩ = name :=
  h.opens_of_inner rfl (opener_inner name argument)

theorem trimChars_marked {mark : Char} (hmark : isBlank mark = false) :
    trimChars (mark :: name.toList) = mark :: name.toList :=
  trimChars_eq_self hmark fun c hc => h.word c (List.mem_of_getLast? hc)

theorem trim_eq : trim name = name := by
  obtain ⟨c, s, hname, hc, -, -⟩ := h.exists_cons
  have hlast : ∀ d ∈ s.getLast?, isBlank d = false := fun d hd =>
    h.word d (hname ▸ List.mem_cons_of_mem _ (List.mem_of_getLast? hd))
  rw [trim, hname, trimChars_eq_self hc hlast, ← hname, String.ofList_toList]

theorem dropWhile_mark {mark : Char} (hmark : mark = '#' ∨ mark = '/') :
    name.toList.dropWhile (· == mark) = name.toList := by
  obtain ⟨c, s, hname, -, hhash, hslash⟩ := h.exists_cons
  rw [hname]
  refine List.dropWhile_cons_of_neg fun hc => ?_
  obtain rfl : c = mark := by simpa using hc
  exact hmark.elim hhash hslash

theorem closer_unbraced : Unbraced ("/" ++ name) := by
  have := h.unbraced
  constructor <;> simp_all [Unbraced]

theorem closer_closes : depthAfter name 0 ⟨trim ("/" ++ name), false⟩ = none := by
  have hinner : (trim ("/" ++ name)).toList = '/' :: name.toList := by
    rw [trim, String.toList_ofList, String.toList_append]
    exact h.trimChars_marked (by decide)
  rw [depthAfter_eq_none_iff]
  refine ⟨?_, ?_, rfl⟩
  · unfold Tag.kind TagKind.of
    rw [hinner]
    rfl
  · rw [Tag.closeName, hinner, List.dropWhile_cons_of_pos rfl, h.dropWhile_mark (.inr rfl),
      String.ofList_toList, h.trim_eq]

/-- The close tag closes a block of that name. -/
theorem find?_closer : Enclosed.find? name 0 (braced ("/" ++ name)) =
    some ⟨[], braced ("/" ++ name), []⟩ := by
  have hcut := first?_braced h.closer_unbraced []
  rw [List.append_nil] at hcut
  rw [Enclosed.find?_some hcut]
  dsimp only
  rw [h.closer_closes]

end NamesBlock

/-- A block with nothing behind it. -/
theorem scan_closed {text name : String} {rest inside closer : List UInt8} {f : Fragment}
    (hu : Unbraced text)
    (ht : Tag.kind ⟨trim text, false⟩ = .blockOpen ∧ Tag.openName ⟨trim text, false⟩ = name)
    (hclose : Enclosed.first? name rest = some ⟨inside, closer, []⟩)
    (hf : (scan inside).value = .ok f) :
    (scan (braced text ++ rest)).value =
      .ok ⟨[], [f.toBlock (Tag.blockText (trim text)) false 0]⟩ := by
  obtain ⟨hkind, rfl⟩ := ht
  exact scanned_iff.1 (.block (first?_braced hu rest) hkind hclose (scanned_iff.2 hf) (.rest rfl))

/-! ### A block around a sequence -/

/-- A sequence in a block of the given name. -/
def enclosing (name : String) (data : List UInt8) : List UInt8 :=
  braced ("#" ++ name) ++ (data ++ braced ("/" ++ name))

namespace NamesBlock

variable {name : String} (h : NamesBlock name)

include h

theorem plainOpener_unbraced : Unbraced ("#" ++ name) := by
  have := h.unbraced
  constructor <;> simp_all [Unbraced]

theorem plainOpener_inner : (trim ("#" ++ name)).toList = '#' :: name.toList := by
  rw [trim, String.toList_ofList, String.toList_append]
  exact h.trimChars_marked (by decide)

theorem blockText_plainOpener : Tag.blockText (trim ("#" ++ name)) = name := by
  rw [Tag.blockText, h.plainOpener_inner, List.dropWhile_cons_of_pos rfl,
    h.dropWhile_mark (.inl rfl), String.ofList_toList, h.trim_eq]

theorem opens_plainOpener : Tag.kind ⟨trim ("#" ++ name), false⟩ = .blockOpen ∧
    Tag.openName ⟨trim ("#" ++ name), false⟩ = name := by
  have hlast : dropTail isBlank name.toList = name.toList :=
    dropTail_eq_self fun c hc => h.word c (List.mem_of_getLast? hc)
  refine h.opens_of_inner (s := []) rfl ?_
  rw [h.plainOpener_inner, List.append_nil, hlast]

end NamesBlock

section
variable {name : String} {data : List UInt8} {f g : Fragment} (hn : NamesBlock name)
  (hd : SelfContained data) (hf : (scan data).value = .ok f)
  (hstray : ∀ tag, .strayCloser tag ∉ (scan data).warnings)

include hn hd hf hstray

/-- Where tags count for what they open, the sequence is the inside of the block. -/
theorem scan_enclosing (hcounts : ∀ t ∈ tags data, t.tag.Counts name) :
    (scan (enclosing name data)).value = .ok ⟨[], [f.toBlock name false 0]⟩ := by
  have hthrough := depthThrough_eq (scanned_iff.2 hf) hstray (tags_eq data ▸ hcounts) 0
  have hclose : Enclosed.first? name (data ++ braced ("/" ++ name)) =
      some ⟨data, braced ("/" ++ name), []⟩ := by
    rw [Enclosed.first?, Enclosed.find?_through hd (head?_braced _) hthrough, hn.find?_closer]
    simp [Enclosed.prepend]
  rw [enclosing, scan_closed hn.plainOpener_unbraced hn.opens_plainOpener hclose hf,
    hn.blockText_plainOpener]

/-- The close tag that is found for the block is the one behind the sequence. Any other would close
a level of the sequence that the bytes before it leave open. -/
theorem counts_of_enclosed {e : Enclosed}
    (hclose : Enclosed.first? name (data ++ braced ("/" ++ name)) = some e)
    (hinside : (scan e.inside).value = .ok g) : ∀ t ∈ tags data, t.tag.Counts name := by
  obtain ⟨c, -, -, hsplit, hall, -⟩ := placedTags_enclosed hclose 0
  obtain ⟨hck, hcn, hthrough⟩ := closes_of_splitAtCloser hsplit
  have hlevel := levelThrough_eq (scanned_iff.2 hf) hstray 0 name 0
  obtain ⟨last, hlast⟩ : ∃ t, placedTags (0 + data.length) (braced ("/" ++ name)) = [t] := by
    have hcut := first?_braced hn.closer_unbraced []
    rw [List.append_nil] at hcut
    obtain ⟨t, -, hts⟩ := placedTags_cons hcut (0 + data.length)
    exact ⟨t, hts.trans (by rw [placedTags_none rfl])⟩
  rw [placedTags_append hd (head?_braced _), hlast] at hall
  rw [tags_eq]
  obtain hafter | ⟨between, t, hafter⟩ := List.eq_nil_or_concat' (placedTags c.stop e.after)
  · rw [hafter] at hall
    rw [← (List.append_inj' hall rfl).1] at hthrough
    exact (counts_of_depthThrough hn.first.1 hthrough hlevel).2 rfl
  · rw [hafter, ← List.cons_append, ← List.append_assoc] at hall
    rw [(List.append_inj' hall rfl).1, levelThrough_append] at hlevel
    obtain ⟨l, hl, hlevel⟩ := Option.bind_eq_some_iff.1 hlevel
    obtain ⟨l', hl', -⟩ := Option.bind_eq_some_iff.1 hlevel
    have hle := (scanned_iff.2 hinside).level_le hl
    rw [levelAfter_close_eq_some_iff hck, if_pos hcn] at hl'
    omega

theorem counts_of_scan_enclosing (hg : (scan (enclosing name data)).value = .ok g) :
    ∀ t ∈ tags data, t.tag.Counts name := by
  have hfirst := first?_braced hn.plainOpener_unbraced (data ++ braced ("/" ++ name))
  cases scanned_iff.2 hg with
  | rest first => cases hfirst.symm.trans first
  | tag first kind _ =>
    obtain rfl := Option.some.inj (hfirst.symm.trans first)
    exact absurd hn.opens_plainOpener.1 kind
  | block first kind closer inside _ =>
    obtain rfl := Option.some.inj (hfirst.symm.trans first)
    rw [hn.opens_plainOpener.2] at closer
    exact counts_of_enclosed hn hd hf hstray closer (scanned_iff.1 inside)

/-- **What can be scanned of a block around a sequence is the sequence in a block.** -/
theorem scan_enclosing_eq (hg : (scan (enclosing name data)).value = .ok g) :
    g = ⟨[], [f.toBlock name false 0]⟩ := by
  have hcounts := counts_of_scan_enclosing hn hd hf hstray hg
  exact Except.ok.inj (hg.symm.trans (scan_enclosing hn hd hf hstray hcounts))

/-- **A block around a sequence compiles just when no tag in it opens a block of that name without
counting for it.** -/
theorem scan_enclosing_iff : (∃ g, (scan (enclosing name data)).value = .ok g) ↔
    ∀ t ∈ tags data, ¬ (t.tag.IsSplitOpener ∧ t.tag.openName = name) := by
  have hcounts : (∀ t ∈ tags data, t.tag.Counts name) ↔
      ∀ t ∈ tags data, ¬ (t.tag.IsSplitOpener ∧ t.tag.openName = name) :=
    forall₂_congr fun t _ => by rw [← Tag.not_counts_iff hn.first.1, not_not]
  rw [← hcounts]
  exact ⟨fun ⟨_, hg⟩ => counts_of_scan_enclosing hn hd hf hstray hg,
    fun h => ⟨_, scan_enclosing hn hd hf hstray h⟩⟩

end

end ThemePress.Template
