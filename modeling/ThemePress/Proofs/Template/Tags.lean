import ThemePress.Template.Tag

/-! # The tags of a byte sequence

`tags data` are the tags that `next?` finds in a sequence, each search starting where the tag before
is over. `placedTags` is the same list by recursion on what a cut leaves (`tagsFrom_eq`), and
`splitAtCloser` is the search for the close tag of a block on such a list: what `Enclosed.find?`
cuts out of the bytes, it cuts out of the tags (`splitAtCloser_of_find?`).

Two facts about cuts carry this. The bytes before a tag hold no tag (`Cut.first?_before`), and of
the bytes after a tag any number can be left out (`Cut.first?_of_prefix`): a third closing brace
belongs to a tag or does not, whatever is left out behind it. -/

namespace ThemePress.Template

open ThemePress.Text

/-! ### Cuts in another surrounding -/

theorem splitAtPair_left {b : UInt8} {s l r : List UInt8} (h : splitAtPair b s = some (l, r)) :
    splitAtPair b l = none := by
  induction s generalizing l with
  | nil => simp [splitAtPair] at h
  | cons x s ih =>
    cases s with
    | nil => simp [splitAtPair] at h
    | cons y s =>
      rw [splitAtPair] at h
      split at h
      · simp only [Option.some.injEq, Prod.mk.injEq] at h
        rw [← h.1]; rfl
      · rename_i hxy
        obtain ⟨⟨l', r'⟩, h', h⟩ := Option.map_eq_some_iff.1 h
        simp only [Prod.mk.injEq] at h
        obtain ⟨rfl, rfl⟩ := h
        cases l' with
        | nil => rfl
        | cons z l' =>
          obtain ⟨rfl, -⟩ := List.cons_eq_cons.1 (splitAtPair_eq h')
          rw [splitAtPair, if_neg hxy, ih h', Option.map_none]

theorem splitAtPair_append {b : UInt8} {s l r : List UInt8} (h : splitAtPair b s = some (l, r))
    (u : List UInt8) : splitAtPair b (l ++ b :: b :: u) = some (l, u) := by
  induction s generalizing l with
  | nil => simp [splitAtPair] at h
  | cons x s ih =>
    cases s with
    | nil => simp [splitAtPair] at h
    | cons y s =>
      rw [splitAtPair] at h
      split at h
      · simp only [Option.some.injEq, Prod.mk.injEq] at h
        rw [← h.1]; simp [splitAtPair]
      · rename_i hxy
        obtain ⟨⟨l', r'⟩, h', h⟩ := Option.map_eq_some_iff.1 h
        simp only [Prod.mk.injEq] at h
        obtain ⟨rfl, rfl⟩ := h
        -- the next byte is the same in both surroundings, so `x` starts a pair in neither
        obtain ⟨v, hv⟩ : ∃ v, l' ++ b :: b :: u = y :: v := by
          have e := splitAtPair_eq h'
          cases l' with
          | nil => exact ⟨b :: u, by rw [(List.cons_eq_cons.1 e).1]; rfl⟩
          | cons z l' => exact ⟨_, by rw [(List.cons_eq_cons.1 e).1]; rfl⟩
        have ih' := ih h'
        rw [List.cons_append, hv, splitAtPair, if_neg hxy, ← hv, ih', Option.map_some]

namespace Cut

/-- What a cut is made of. -/
theorem exists_of_first? {data : List UInt8} {cut : Cut} (h : first? data = some cut) :
    ∃ inner rest,
      splitAtPair openBrace data =
        some (cut.before, inner ++ closeBrace :: closeBrace :: rest) ∧
      splitAtPair closeBrace (inner ++ closeBrace :: closeBrace :: rest) = some (inner, rest) ∧
      cut = close cut.before inner rest := by
  simp only [first?, Option.bind_eq_some_iff, Option.map_eq_some_iff] at h
  obtain ⟨⟨before, rest⟩, h₁, ⟨inner, rest'⟩, h₂, rfl⟩ := h
  have e := splitAtPair_eq h₂
  simp only at e h₂
  rw [(close_eq before inner rest').1]
  exact ⟨inner, rest', by rw [h₁, e], by rw [← e, h₂], rfl⟩

/-- The bytes before a tag hold no tag. -/
theorem first?_before {data : List UInt8} {cut : Cut} (h : first? data = some cut) :
    first? cut.before = none := by
  obtain ⟨inner, rest, h₁, -, -⟩ := exists_of_first? h
  rw [first?, splitAtPair_left h₁, Option.bind_none]

theorem close_of_prefix {before inner rest u : List UInt8}
    (h : u <+: (close before inner rest).after) :
    ∃ v, (close before inner rest).text ++ u =
        openBrace :: openBrace :: inner ++ closeBrace :: closeBrace :: v ∧
      close before inner v = { close before inner rest with after := u } := by
  unfold close at h ⊢
  split at h
  · rename_i hi
    split at h
    · rename_i hr
      exact ⟨closeBrace :: u, by simp [hi, hr], by simp [hi, hr]⟩
    · rename_i hr
      have hu : u.head? ≠ some closeBrace := by
        intro hu
        obtain ⟨w, rfl⟩ := h
        obtain ⟨u', rfl⟩ := List.head?_eq_some_iff.1 hu
        exact hr rfl
      exact ⟨u, by simp [hi, hr], by simp [hi, hr, hu]⟩
  · rename_i hi
    exact ⟨u, by simp [hi], by simp [hi]⟩

/-- **A tag does not depend on what is left out behind it.** -/
theorem first?_of_prefix {data u : List UInt8} {cut : Cut} (h : first? data = some cut)
    (hu : u <+: cut.after) :
    first? (cut.before ++ (cut.text ++ u)) = some { cut with after := u } := by
  obtain ⟨inner, rest, h₁, h₂, e⟩ := exists_of_first? h
  obtain ⟨v, hv, hc⟩ := close_of_prefix (e ▸ hu)
  rw [← e] at hv hc
  have h₁' := splitAtPair_append h₁ (inner ++ closeBrace :: closeBrace :: v)
  have h₂' := splitAtPair_append h₂ v
  rw [hv, first?]
  simp only [List.cons_append] at h₁' ⊢
  rw [h₁', Option.bind_some, h₂', Option.map_some, hc]

end Cut

/-! ### The tags of a sequence -/

theorem next?_bounds {data : List UInt8} {start : Nat} {t : Placed}
    (h : next? data start = some t) :
    start ≤ t.start ∧ t.start + 4 ≤ t.stop ∧ t.stop ≤ data.length := by
  obtain ⟨cut, hc, rfl⟩ := Option.map_eq_some_iff.1 h
  have h₁ := Cut.four_le_text hc
  have h₂ := congrArg List.length (Cut.first?_eq hc)
  simp only [List.length_drop, List.length_append] at h₂
  refine ⟨?_, ?_, ?_⟩ <;> dsimp only <;> omega

/-- The tags at or after the place `start`. -/
def tagsFrom (data : List UInt8) (start : Nat) : List Placed :=
  match h : next? data start with
  | none => []
  | some t =>
    have := next?_bounds h
    t :: tagsFrom data t.stop
termination_by data.length - start

/-- The tags of a sequence. -/
def tags (data : List UInt8) : List Placed :=
  tagsFrom data 0

/-- The tags of a sequence that `place` bytes precede. -/
def placedTags (place : Nat) (data : List UInt8) : List Placed :=
  match h : Cut.first? data with
  | none => []
  | some cut =>
    have := Cut.after_lt h
    ⟨place + cut.before.length, place + cut.before.length + cut.text.length, cut.tag⟩ ::
      placedTags (place + cut.before.length + cut.text.length) cut.after
termination_by data.length

theorem placedTags_none {place : Nat} {data : List UInt8} (h : Cut.first? data = none) :
    placedTags place data = [] := by
  rw [placedTags]
  split
  · rfl
  · simp_all

theorem placedTags_some {place : Nat} {data : List UInt8} {cut : Cut}
    (h : Cut.first? data = some cut) :
    placedTags place data =
      ⟨place + cut.before.length, place + cut.before.length + cut.text.length, cut.tag⟩ ::
        placedTags (place + cut.before.length + cut.text.length) cut.after := by
  rw [placedTags]
  split
  · simp_all
  · simp_all

theorem placedTags_cons {data : List UInt8} {cut : Cut} (h : Cut.first? data = some cut)
    (place : Nat) :
    ∃ t : Placed, t.tag = cut.tag ∧ placedTags place data = t :: placedTags t.stop cut.after :=
  ⟨_, rfl, placedTags_some h⟩

theorem tagsFrom_eq (data : List UInt8) (start : Nat) :
    tagsFrom data start = placedTags start (data.drop start) := by
  fun_induction tagsFrom data start with
  | case1 start h =>
    rw [placedTags_none (Option.map_eq_none_iff.1 h)]
  | case2 start t h _ ih =>
    obtain ⟨cut, hc, rfl⟩ := Option.map_eq_some_iff.1 h
    have hd : data.drop (start + cut.before.length + cut.text.length) = cut.after := by
      rw [Nat.add_assoc, ← List.drop_drop, Cut.first?_eq hc]
      simp [← List.drop_drop]
    rw [placedTags_some hc, ih, hd]

theorem tags_eq (data : List UInt8) : tags data = placedTags 0 data :=
  tagsFrom_eq data 0

/-! ### The close tag of a block, among tags -/

/-- How many further blocks of the name `name` stand open after a tag, when `depth` did before it;
`none` if the tag closes the block itself. -/
def depthAfter (name : String) (depth : Nat) (t : Tag) : Option Nat :=
  if t.kind = .blockOpen ∧ Tag.blockName t.inner = name then some (depth + 1)
  else if t.kind = .blockClose ∧ Tag.closeName t.inner = name then
    match depth with
    | 0 => none
    | depth + 1 => some depth
  else some depth

theorem depthAfter_eq_none_iff {name : String} {depth : Nat} {t : Tag} :
    depthAfter name depth t = none ↔
      t.kind = .blockClose ∧ Tag.closeName t.inner = name ∧ depth = 0 := by
  unfold depthAfter
  split
  · rename_i h
    simp [h.1]
  · split
    · rename_i h
      cases depth <;> simp [h]
    · rename_i h
      simp only [reduceCtorEq, false_iff]
      exact fun h' => h ⟨h'.1, h'.2.1⟩

theorem depthAfter_open {name : String} {depth : Nat} {t : Tag} (hk : t.kind = .blockOpen) :
    depthAfter name depth t = some (depth + if Tag.blockName t.inner = name then 1 else 0) := by
  unfold depthAfter
  by_cases hn : Tag.blockName t.inner = name <;> simp [hk, hn]

theorem depthAfter_close_eq_some_iff {name : String} {depth d : Nat} {t : Tag}
    (hk : t.kind = .blockClose) :
    depthAfter name depth t = some d ↔
      depth = d + if Tag.closeName t.inner = name then 1 else 0 := by
  unfold depthAfter
  by_cases hn : Tag.closeName t.inner = name
  · cases depth <;> simp [hk, hn]
  · simp [hk, hn]

/-- The tags inside a block, its close tag and the tags after it, when `depth` further blocks of
that name stand open. -/
def splitAtCloser (name : String) (depth : Nat) :
    List Placed → Option (List Placed × Placed × List Placed)
  | [] => none
  | t :: ts =>
    match depthAfter name depth t.tag with
    | none => some ([], t, ts)
    | some depth => (splitAtCloser name depth ts).map fun r => (t :: r.1, r.2)

namespace Enclosed

theorem find?_none {name : String} {depth : Nat} {data : List UInt8}
    (h : Cut.first? data = none) : find? name depth data = none := by
  rw [find?]
  split
  · rfl
  · simp_all

theorem find?_some {name : String} {depth : Nat} {data : List UInt8} {cut : Cut}
    (h : Cut.first? data = some cut) :
    find? name depth data =
      match depthAfter name depth cut.tag with
      | none => some ⟨cut.before, cut.text, cut.after⟩
      | some depth => (find? name depth cut.after).map (prepend (cut.before ++ cut.text)) := by
  rw [find?]
  split
  · simp_all
  · rename_i cut' h'
    obtain rfl := Option.some.inj (h.symm.trans h')
    unfold depthAfter
    split
    · rfl
    · split
      · cases depth <;> rfl
      · rfl

end Enclosed

theorem splitAtCloser_of_find?_none {name : String} {depth : Nat} {data : List UInt8}
    (h : Enclosed.find? name depth data = none) (place : Nat) :
    splitAtCloser name depth (placedTags place data) = none := by
  fun_induction placedTags place data generalizing depth with
  | case1 => rfl
  | case2 place data cut hc _ ih =>
    rw [Enclosed.find?_some hc] at h
    rw [splitAtCloser]
    cases hd : depthAfter name depth cut.tag with
    | none => simp [hd] at h
    | some depth' =>
      simp only [hd, Option.map_eq_none_iff] at h ⊢
      exact ih h

/-- The inside of a block in front of which a tag is put back. -/
theorem placedTags_prepend {name : String} {depth : Nat} {data : List UInt8} {cut : Cut}
    {e : Enclosed} (hc : Cut.first? data = some cut)
    (he : Enclosed.find? name depth cut.after = some e) (place : Nat) :
    placedTags place (e.prepend (cut.before ++ cut.text)).inside =
      ⟨place + cut.before.length, place + cut.before.length + cut.text.length, cut.tag⟩ ::
        placedTags (place + cut.before.length + cut.text.length) e.inside := by
  have hp : e.inside <+: cut.after := ⟨_, (Enclosed.find?_eq he).1.symm⟩
  have h := Cut.first?_of_prefix hc hp
  rw [← List.append_assoc] at h
  exact placedTags_some h

/-- **What is cut out of the bytes is cut out of the tags.** -/
theorem splitAtCloser_of_find? {name : String} {depth : Nat} {data : List UInt8} {e : Enclosed}
    (h : Enclosed.find? name depth data = some e) (place : Nat) :
    ∃ closer : Placed, closer.start = place + e.inside.length ∧
      closer.stop = closer.start + e.closer.length ∧
      splitAtCloser name depth (placedTags place data) =
        some (placedTags place e.inside, closer, placedTags closer.stop e.after) := by
  fun_induction placedTags place data generalizing depth e with
  | case1 place data hc => rw [Enclosed.find?_none hc] at h; cases h
  | case2 place data cut hc _ ih =>
    rw [Enclosed.find?_some hc] at h
    rw [splitAtCloser]
    cases hd : depthAfter name depth cut.tag with
    | none =>
      simp only [hd, Option.some.injEq] at h ⊢
      subst h
      exact ⟨_, rfl, rfl, by rw [placedTags_none (Cut.first?_before hc)]⟩
    | some depth' =>
      simp only [hd, Option.map_eq_some_iff] at h ⊢
      obtain ⟨e, he, rfl⟩ := h
      obtain ⟨closer, h₁, h₂, h₃⟩ := ih he
      refine ⟨closer, ?_, h₂, _, h₃, ?_⟩
      · simp only [h₁, Enclosed.prepend, List.length_append]; omega
      · rw [placedTags_prepend hc he]; rfl

/-! ### Parts of a sequence -/

theorem splitAtCloser_eq {name : String} {depth : Nat} {ts inside after : List Placed}
    {closer : Placed} (h : splitAtCloser name depth ts = some (inside, closer, after)) :
    ts = inside ++ closer :: after := by
  induction ts generalizing depth inside with
  | nil => simp [splitAtCloser] at h
  | cons t ts ih =>
    rw [splitAtCloser] at h
    cases hd : depthAfter name depth t.tag with
    | none =>
      simp only [hd, Option.some.injEq, Prod.mk.injEq] at h
      obtain ⟨rfl, rfl, rfl⟩ := h
      rfl
    | some depth' =>
      simp only [hd, Option.map_eq_some_iff, Prod.mk.injEq] at h
      obtain ⟨⟨i, c, a⟩, h', rfl, rfl, rfl⟩ := h
      rw [ih h', List.cons_append]

end ThemePress.Template
