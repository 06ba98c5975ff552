import ThemePress.Proofs.Text.Markup

/-! # Reading entities back

A text with entities is read in one pass from the left: where one of the five entities begins, its
character takes its place and reading goes on behind it, and any other character stays
(`decodeChars`). A character that is written as it is begins no entity, so each written character is
read back alone, whatever comes behind it (`decodeChars_ofChar`). What is written for two characters
is never joined to an entity, and entities that the text already had are read back as they were.

A text is `Clean` if it has no markup and each ampersand begins an entity. The written texts are
just the clean ones: to read a clean text and write it again changes nothing
(`escape_decode_iff`). -/

namespace ThemePress.Text.Entity

/-- The entities, each with the character that it stands for. -/
def entities : List (String × Char) :=
  [("&amp;", '&'), ("&lt;", '<'), ("&gt;", '>'), ("&quot;", '"'), ("&#39;", '\'')]

/-- The entity that a text begins with. -/
def entityAt? (t : List Char) : Option (String × Char) :=
  entities.find? fun e => e.1.toList.isPrefixOf t

/-- The text with its character in place of each entity, from the left. -/
def decodeChars : List Char → List Char
  | [] => []
  | c :: t =>
    match entityAt? (c :: t) with
    | some (name, meant) => meant :: decodeChars (t.drop (name.length - 1))
    | none => c :: decodeChars t
termination_by t => t.length
decreasing_by all_goals simp +arith

/-- The text that is meant by a text with entities. -/
def decode (t : String) : String :=
  String.ofList (decodeChars t.toList)

/-- Texts without markup in which every ampersand begins an entity. -/
structure Clean (t : List Char) : Prop where
  no_markup : ∀ c ∈ t, isMarkup c = false
  entity_at : ∀ u, '&' :: u <:+ t → ∃ e ∈ entities, e.1.toList <+: '&' :: u

variable {c meant : Char} {name : String} {t u : List Char}

/-! ### The five entities -/

/-- The only ampersand of an entity is its first character. -/
theorem exists_of_mem_entities (h : (name, meant) ∈ entities) :
    ∃ l, name.toList = '&' :: l ∧ ∀ c ∈ l, c ≠ '&' ∧ isMarkup c = false := by
  have hall : ∀ e ∈ entities, e.1.toList.head? = some '&' ∧
      ∀ c ∈ e.1.toList.tail, c ≠ '&' ∧ isMarkup c = false := by simp [entities, isMarkup]
  obtain ⟨hhead, htail⟩ := hall _ h
  obtain ⟨l, hl⟩ := List.head?_eq_some_iff.1 hhead
  rw [hl] at htail
  exact ⟨l, hl, htail⟩

theorem ofChar_of_mem_entities (h : (name, meant) ∈ entities) : ofChar meant = name.toList := by
  have hall : ∀ e ∈ entities, ofChar e.2 = e.1.toList := by decide
  exact hall _ h

/-- A character is written as its entity, or as it is. -/
theorem entity_or_plain (c : Char) :
    (∃ name, (name, c) ∈ entities ∧ ofChar c = name.toList) ∨
      c ≠ '&' ∧ isMarkup c = false ∧ ofChar c = [c] := by
  obtain hplain | ⟨hspecial, -⟩ := ofChar_cases c
  · exact .inr hplain
  · have hmeant : c ∈ entities.map Prod.snd := by
      simpa [entities, isMarkup, or_assoc] using hspecial
    obtain ⟨⟨name, _⟩, hmem, rfl⟩ := List.mem_map.1 hmeant
    exact .inl ⟨name, hmem, ofChar_of_mem_entities hmem⟩

/-! ### Reading -/

theorem entityAt?_append (h : (name, meant) ∈ entities) (t : List Char) :
    entityAt? (name.toList ++ t) = some (name, meant) := by
  -- No entity begins another, so those in front of it in the list do not fit.
  simp only [entities, List.mem_cons, Prod.mk.injEq, List.not_mem_nil, or_false] at h
  rcases h with ⟨rfl, rfl⟩ | ⟨rfl, rfl⟩ | ⟨rfl, rfl⟩ | ⟨rfl, rfl⟩ | ⟨rfl, rfl⟩ <;> rfl

theorem entityAt?_eq_none_iff : entityAt? t = none ↔ ∀ e ∈ entities, ¬ e.1.toList <+: t := by
  simp only [entityAt?, List.find?_eq_none, List.isPrefixOf_iff_prefix]

theorem entityAt?_of_ne (h : c ≠ '&') (t : List Char) : entityAt? (c :: t) = none := by
  rw [entityAt?_eq_none_iff]
  rintro ⟨name, meant⟩ hmem hprefix
  obtain ⟨l, hl, -⟩ := exists_of_mem_entities hmem
  rw [hl] at hprefix
  exact h (List.cons_prefix_cons.1 hprefix).1.symm

/-- A text that begins with an entity is the entity and the part where reading goes on. -/
theorem eq_append_of_entityAt? (h : entityAt? (c :: t) = some (name, meant)) :
    (name, meant) ∈ entities ∧ c :: t = name.toList ++ t.drop (name.length - 1) := by
  have hmem : (name, meant) ∈ entities := List.mem_of_find?_eq_some h
  have hprefix := List.find?_some h
  obtain ⟨l, hl, -⟩ := exists_of_mem_entities hmem
  simp only [List.isPrefixOf_iff_prefix, hl, List.cons_prefix_cons] at hprefix
  obtain ⟨rfl, u, rfl⟩ := hprefix
  have hlength : name.length - 1 = l.length := by
    rw [← String.length_toList, hl, List.length_cons, Nat.add_sub_cancel]
  rw [hlength, List.drop_left, hl, List.cons_append]
  exact ⟨hmem, rfl⟩

theorem decodeChars_entity (h : (name, meant) ∈ entities) (t : List Char) :
    decodeChars (name.toList ++ t) = meant :: decodeChars t := by
  have hat := entityAt?_append h t
  obtain ⟨l, hl, -⟩ := exists_of_mem_entities h
  rw [hl, List.cons_append] at hat ⊢
  obtain ⟨-, hrest⟩ := eq_append_of_entityAt? hat
  rw [hl, List.cons_append, List.cons_inj_right, List.append_cancel_left_eq] at hrest
  rw [decodeChars, hat]
  dsimp only
  rw [← hrest]

theorem decodeChars_plain (h : entityAt? (c :: t) = none) :
    decodeChars (c :: t) = c :: decodeChars t := by
  rw [decodeChars, h]

/-- A written character is read back, whatever comes behind it. -/
theorem decodeChars_ofChar (c : Char) (t : List Char) :
    decodeChars (ofChar c ++ t) = c :: decodeChars t := by
  obtain ⟨name, hmem, hname⟩ | ⟨hne, -, hself⟩ := entity_or_plain c
  · rw [hname, decodeChars_entity hmem]
  · rw [hself, List.singleton_append, decodeChars_plain (entityAt?_of_ne hne t)]

theorem toList_escape (s : String) : (escape s).toList = s.toList.flatMap ofChar :=
  String.toList_ofList

/-- What is behind a written text is read as if nothing stood in front of it. -/
theorem decode_escape_append (s t : String) : decode (escape s ++ t) = s ++ decode t := by
  have hchars : ∀ l : List Char,
      decodeChars (l.flatMap ofChar ++ t.toList) = l ++ decodeChars t.toList := by
    intro l
    induction l with
    | nil => rfl
    | cons c l ih =>
      rw [List.flatMap_cons, List.append_assoc, decodeChars_ofChar, ih]
      rfl
  rw [decode, String.toList_append, toList_escape, hchars, String.ofList_append,
    String.ofList_toList]
  rfl

/-- **A text that is written with entities is read back.** -/
theorem decode_escape (s : String) : decode (escape s) = s := by
  have hempty : decode "" = "" := by simp [decode, decodeChars]
  have hread := decode_escape_append s ""
  rwa [String.append_empty, hempty, String.append_empty] at hread

/-! ### Clean texts -/

namespace Clean

theorem nil : Clean [] :=
  ⟨by simp, by simp⟩

theorem of_suffix (h : Clean t) (hu : u <:+ t) : Clean u :=
  ⟨fun c hc => h.no_markup c (hu.mem hc), fun v hv => h.entity_at v (hv.trans hu)⟩

theorem append (ht : Clean t) (hu : Clean u) : Clean (t ++ u) := by
  refine ⟨fun c hc => (List.mem_append.1 hc).elim (ht.no_markup c) (hu.no_markup c), ?_⟩
  intro v hv
  -- The ampersand stands in `u`, or in `t` with all of `u` behind it.
  obtain hv' | ⟨w, hw⟩ := List.suffix_or_suffix_of_suffix hv (List.suffix_append t u)
  · exact hu.entity_at v hv'
  cases w with
  | nil => exact hu.entity_at v ⟨[], hw.symm⟩
  | cons a w =>
    obtain ⟨rfl, rfl⟩ := List.cons.inj hw
    obtain ⟨e, hmem, hprefix⟩ := ht.entity_at w (List.suffix_append_self_iff.1 hv)
    exact ⟨e, hmem, hprefix.trans (List.prefix_append _ u)⟩

theorem ofChar (c : Char) : Clean (ofChar c) := by
  obtain ⟨name, hmem, hname⟩ | ⟨hne, hmarkup, hself⟩ := entity_or_plain c
  · obtain ⟨l, hl, hrest⟩ := exists_of_mem_entities hmem
    rw [hname]
    refine ⟨?_, fun u hu => ⟨(name, c), hmem, ?_⟩⟩
    · rw [hl, List.forall_mem_cons]
      exact ⟨rfl, fun a ha => (hrest a ha).2⟩
    · rw [hl] at hu ⊢
      obtain heq | hu := List.suffix_cons_iff.1 hu
      · exact heq ▸ List.prefix_rfl
      · exact absurd rfl (hrest '&' (hu.mem List.mem_cons_self)).1
  · rw [hself]
    refine ⟨by simpa using hmarkup, fun u hu => absurd ?_ hne.symm⟩
    exact List.mem_singleton.1 (hu.mem List.mem_cons_self)

theorem escape (s : String) : Clean (escape s).toList := by
  rw [toList_escape]
  induction s.toList with
  | nil => exact nil
  | cons c l ih =>
    rw [List.flatMap_cons]
    exact (ofChar c).append ih

/-- A character of a clean text that begins no entity is written as it is. -/
theorem ofChar_eq_self (h : Clean (c :: t)) (hat : entityAt? (c :: t) = none) :
    Entity.ofChar c = [c] := by
  have hne : c ≠ '&' := by
    rintro rfl
    obtain ⟨e, hmem, hprefix⟩ := h.entity_at t List.suffix_rfl
    exact entityAt?_eq_none_iff.1 hat e hmem hprefix
  obtain ⟨-, -, hself⟩ | ⟨rfl | hmarkup, -⟩ := ofChar_cases c
  · exact hself
  · exact absurd rfl hne
  · rw [h.no_markup c List.mem_cons_self] at hmarkup
    exact absurd hmarkup Bool.false_ne_true

theorem flatMap_decodeChars (h : Clean t) : (decodeChars t).flatMap Entity.ofChar = t := by
  fun_induction decodeChars t with
  | case1 => rfl
  | case2 c t name meant hat ih =>
    obtain ⟨hmem, heq⟩ := eq_append_of_entityAt? hat
    have hrest := h.of_suffix (heq ▸ List.suffix_append _ _)
    rw [List.flatMap_cons, ofChar_of_mem_entities hmem, ih hrest, ← heq]
  | case3 c t hat ih =>
    rw [List.flatMap_cons, h.ofChar_eq_self hat, ih (h.of_suffix (List.suffix_cons c t))]
    rfl

end Clean

/-- **The clean texts are those that are written again as they were.** -/
theorem escape_decode_iff {t : String} : escape (decode t) = t ↔ Clean t.toList := by
  refine ⟨fun h => h ▸ Clean.escape _, fun h => ?_⟩
  rw [escape, decode, String.toList_ofList, h.flatMap_decodeChars, String.ofList_toList]

theorem escape_append (s t : String) : escape (s ++ t) = escape s ++ escape t := by
  rw [escape, String.toList_append, List.flatMap_append, String.ofList_append]
  rfl

/-- **Writing with entities can be undone.** Texts are written one behind the other. What is written
has no markup, and each ampersand in it begins an entity. Reading it gives back the text, whatever
entities that already had, so different texts are written differently; and the texts that can be
written are just those that are clean in this way. -/
theorem escape_reversible (s t : String) :
    escape (s ++ t) = escape s ++ escape t ∧ Clean (escape s).toList ∧
      decode (escape s) = s ∧ (escape s = escape t ↔ s = t) ∧
      (escape (decode t) = t ↔ Clean t.toList) := by
  have hinj : escape s = escape t → s = t := fun he => by
    rw [← decode_escape s, he, decode_escape t]
  exact ⟨escape_append s t, Clean.escape s, decode_escape s, ⟨hinj, congrArg escape⟩,
    escape_decode_iff⟩

/-- Entities of the text itself are written once more, and read back once. -/
example : escape "&amp;lt;" = "&amp;amp;lt;" ∧ decode "&amp;amp;lt;" = "&amp;lt;" := by
  decide +kernel

end ThemePress.Text.Entity
