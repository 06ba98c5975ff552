import ThemePress.Proofs.Template.Concatenation
import ThemePress.Proofs.Template.Pairing
import ThemePress.Proofs.Template.Reading

/-! # Counting the blocks of a name

The close tag of a block is found by counting (`depthThrough`): an opening tag of the block's name
goes one level up, a close tag one level down. Where counting goes through a sequence, the close tag
is looked for behind it (`Enclosed.find?_through`).

An opening tag counts for the first word of its text, which is not always the block that it opens: a
`#` that blanks separate from the first one is part of that word only. So next to `depthThrough`
there is `levelThrough`, in which a tag counts for the block that it opens. Where no close tag is
left over, levels end where they started (`levelThrough_eq`), and nowhere do they end higher
(`Scanned.level_le`). Depths and levels are the same where each tag counts for what it opens
(`Tag.Counts`), and otherwise depths end lower (`counts_of_depthThrough`). -/

namespace ThemePress.Template

open ThemePress.Text

/-! ### Depths -/

/-- How many further blocks of the name `name` stand open behind tags, when `depth` did before. -/
def depthThrough (name : String) (depth : Nat) (ts : List Placed) : Option Nat :=
  ts.foldlM (fun depth t => depthAfter name depth t.tag) depth

theorem depthThrough_cons (name : String) (depth : Nat) (t : Placed) (ts : List Placed) :
    depthThrough name depth (t :: ts) =
      (depthAfter name depth t.tag).bind (depthThrough name · ts) := rfl

/-- Where counting goes through a sequence, the close tag is looked for behind it. -/
theorem Enclosed.find?_through {name : String} {depth d place : Nat} {data rest : List UInt8}
    (hd : SelfContained data) (hr : rest.head? ≠ some closeBrace)
    (h : depthThrough name depth (placedTags place data) = some d) :
    find? name depth (data ++ rest) = (find? name d rest).map (prepend data) := by
  fun_induction placedTags place data generalizing depth with
  | case1 place data hc =>
    obtain rfl : depth = d := Option.some.inj h
    exact find?_append_rest hc hd name depth
  | case2 place data cut hc _ ih =>
    rw [depthThrough_cons] at h
    obtain ⟨depth', hdepth, h⟩ := Option.bind_eq_some_iff.1 h
    have hdata := Cut.first?_eq hc
    rw [hdata] at hd
    rw [find?_some (Cut.first?_append hc hr)]
    dsimp only at hdepth ⊢
    rw [hdepth]
    dsimp only
    rw [ih hd.of_append.of_append h, Option.map_map, hdata]
    congr 1
    funext e
    simp [prepend]

/-- The tag that is found to close a block is a close tag of its name, and no block of that name
stands open before it. -/
theorem closes_of_splitAtCloser {name : String} {depth : Nat} {ts inside after : List Placed}
    {closer : Placed} (h : splitAtCloser name depth ts = some (inside, closer, after)) :
    closer.tag.kind = .blockClose ∧ Tag.closeName closer.tag.inner = name ∧
      depthThrough name depth inside = some 0 := by
  induction ts generalizing depth inside with
  | nil => simp [splitAtCloser] at h
  | cons t ts ih =>
    rw [splitAtCloser] at h
    cases hd : depthAfter name depth t.tag with
    | none =>
      simp only [hd, Option.some.injEq, Prod.mk.injEq] at h
      obtain ⟨rfl, rfl, -⟩ := h
      obtain ⟨hk, hn, rfl⟩ := depthAfter_eq_none_iff.1 hd
      exact ⟨hk, hn, rfl⟩
    | some depth' =>
      simp only [hd, Option.map_eq_some_iff, Prod.mk.injEq] at h
      obtain ⟨⟨i, c, a⟩, h', rfl, rfl, rfl⟩ := h
      obtain ⟨hk, hn, hthrough⟩ := ih h'
      refine ⟨hk, hn, ?_⟩
      rw [depthThrough_cons, hd]
      exact hthrough

/-! ### Levels -/

/-- As `depthAfter`, where an opening tag counts for the block that it opens. -/
def levelAfter (name : String) (level : Nat) (t : Tag) : Option Nat :=
  if t.kind = .blockOpen then some (level + if t.openName = name then 1 else 0)
  else depthAfter name level t

/-- As `depthThrough`, where an opening tag counts for the block that it opens. -/
def levelThrough (name : String) (level : Nat) (ts : List Placed) : Option Nat :=
  ts.foldlM (fun level t => levelAfter name level t.tag) level

section
variable {name : String} {level : Nat} {t : Tag}

theorem levelThrough_cons (name : String) (level : Nat) (t : Placed) (ts : List Placed) :
    levelThrough name level (t :: ts) =
      (levelAfter name level t.tag).bind (levelThrough name · ts) := rfl

theorem levelThrough_append (name : String) (level : Nat) (ts ts' : List Placed) :
    levelThrough name level (ts ++ ts') =
      (levelThrough name level ts).bind (levelThrough name · ts') :=
  List.foldlM_append

theorem levelAfter_open (hk : t.kind = .blockOpen) :
    levelAfter name level t = some (level + if t.openName = name then 1 else 0) :=
  if_pos hk

theorem levelAfter_close_eq_some_iff {l : Nat} (hk : t.kind = .blockClose) :
    levelAfter name level t = some l ↔
      level = l + if Tag.closeName t.inner = name then 1 else 0 := by
  rw [levelAfter, if_neg (by simp [hk])]
  exact depthAfter_close_eq_some_iff hk

/-- Only tags that open or close a block count. -/
theorem levelAfter_other (ho : t.kind ≠ .blockOpen) (hc : t.kind ≠ .blockClose) :
    levelAfter name level t = some level := by
  simp [levelAfter, depthAfter, ho, hc]

theorem levelAfter_le {l : Nat} (ho : t.kind ≠ .blockOpen) (h : levelAfter name level t = some l) :
    l ≤ level := by
  by_cases hc : t.kind = .blockClose
  · rw [levelAfter_close_eq_some_iff hc] at h
    omega
  · rw [levelAfter_other ho hc] at h
    exact Nat.le_of_eq (Option.some.inj h).symm

end

/-- **No level is gained**, because every block has its close tag. -/
theorem Scanned.level_le {start : Nat} {data : List UInt8} {f : Fragment} {name : String}
    (h : Scanned start data f) {place level l : Nat}
    (hl : levelThrough name level (placedTags place data) = some l) : l ≤ level := by
  induction h generalizing place level l with
  | rest first =>
    rw [placedTags_none first] at hl
    exact Nat.le_of_eq (Option.some.inj hl).symm
  | tag first kind _ ih =>
    obtain ⟨t, ht, hts⟩ := placedTags_cons first place
    rw [hts, levelThrough_cons] at hl
    obtain ⟨level', hlevel, hl⟩ := Option.bind_eq_some_iff.1 hl
    exact (ih hl).trans (levelAfter_le (ht ▸ kind) hlevel)
  | @block start data cut e g f first kind closer inside _ ih₁ ih₂ =>
    obtain ⟨t, ht, hts⟩ := placedTags_cons first place
    obtain ⟨c, -, -, hsplit, hall, -⟩ := placedTags_enclosed closer t.stop
    obtain ⟨hck, hcn, -⟩ := closes_of_splitAtCloser hsplit
    rw [hts, hall, levelThrough_cons, levelAfter_open (ht ▸ kind), Option.bind_some, ht,
      levelThrough_append] at hl
    obtain ⟨l₁, hl₁, hl⟩ := Option.bind_eq_some_iff.1 hl
    rw [levelThrough_cons] at hl
    obtain ⟨l₂, hl₂, hl⟩ := Option.bind_eq_some_iff.1 hl
    rw [levelAfter_close_eq_some_iff hck, hcn] at hl₂
    have h₁ := ih₁ hl₁
    have h₂ := ih₂ hl
    omega

/-- **Levels end where they started** where no close tag is left over. -/
theorem levelThrough_eq {start : Nat} {data : List UInt8} {f : Fragment}
    (h : Scanned start data f) (hstray : ∀ tag, .strayCloser tag ∉ (scanFrom start data).warnings)
    (place : Nat) (name : String) (level : Nat) :
    levelThrough name level (placedTags place data) = some level := by
  induction h generalizing place level with
  | rest first =>
    rw [placedTags_none first]
    rfl
  | @tag start data cut f first kind after ih =>
    obtain ⟨t, ht, hts⟩ := placedTags_cons first place
    rw [scanFrom_tag first kind] at hstray
    simp only [Reported.after, Reported.map, List.mem_append, not_or] at hstray
    have hclose : cut.tag.kind ≠ .blockClose := fun hk =>
      (hstray cut.tag.inner).1 (by simp [Cut.warnings, hk])
    rw [hts, levelThrough_cons, ht, levelAfter_other kind hclose, Option.bind_some]
    exact ih (fun tag => (hstray tag).2) _ level
  | @block start data cut e g f first kind closer inside after ih₁ ih₂ =>
    obtain ⟨t, ht, hts⟩ := placedTags_cons first place
    obtain ⟨c, -, -, hsplit, hall, -⟩ := placedTags_enclosed closer t.stop
    obtain ⟨hck, hcn, -⟩ := closes_of_splitAtCloser hsplit
    rw [scanFrom_block first kind closer, scanned_iff.1 inside] at hstray
    simp only [Reported.after, Reported.map, List.mem_append, not_or] at hstray
    -- the close tag takes back what the opening tag counts
    have hclose : levelAfter name (level + if cut.tag.openName = name then 1 else 0) c.tag =
        some level := by
      rw [levelAfter_close_eq_some_iff hck, hcn]
    rw [hts, hall, levelThrough_cons, ht, levelAfter_open kind, Option.bind_some,
      levelThrough_append, ih₁ (fun tag => (hstray tag).1), Option.bind_some, levelThrough_cons,
      hclose, Option.bind_some]
    exact ih₂ (fun tag => (hstray tag).2) _ level

/-! ### Tags that count for what they open -/

/-- If it is an opening tag, it counts for the name just when it opens a block of that name. -/
def Tag.Counts (name : String) (t : Tag) : Prop :=
  t.kind = .blockOpen → (Tag.blockName t.inner = name ↔ t.openName = name)

theorem Tag.counts_of_not_split {t : Tag} (h : ¬ t.IsSplitOpener) (name : String) :
    t.Counts name := fun hk => by rw [Tag.openName_eq hk h]

theorem depthAfter_eq_levelAfter {name : String} {t : Tag} (h : t.Counts name) (depth : Nat) :
    depthAfter name depth t = levelAfter name depth t := by
  by_cases hk : t.kind = .blockOpen
  · rw [depthAfter_open hk, levelAfter_open hk]
    simp only [h hk]
  · rw [levelAfter, if_neg hk]

/-- **Counting ends where it started.** -/
theorem depthThrough_eq {start : Nat} {data : List UInt8} {f : Fragment}
    (h : Scanned start data f) (hstray : ∀ tag, .strayCloser tag ∉ (scanFrom start data).warnings)
    {place : Nat} {name : String} (hcounts : ∀ t ∈ placedTags place data, t.tag.Counts name)
    (depth : Nat) : depthThrough name depth (placedTags place data) = some depth := by
  rw [← levelThrough_eq h hstray place name depth]
  generalize placedTags place data = ts at hcounts
  induction ts generalizing depth with
  | nil => rfl
  | cons t ts ih =>
    rw [depthThrough_cons, levelThrough_cons,
      depthAfter_eq_levelAfter (hcounts t (List.mem_cons_self ..))]
    exact Option.bind_congr fun d _ => ih d fun t ht => hcounts t (List.mem_cons_of_mem _ ht)

theorem head?_words {s : List Char} {c : Char} (hc : isBlank c = false)
    (h : (s.dropWhile isBlank).head? = some c) : ((words s).headD []).head? = some c := by
  obtain ⟨s', hs⟩ := List.head?_eq_some_iff.1 h
  rw [← words_dropWhile, hs, words, if_neg (by simp [hc])]
  split
  · cases words s' <;> rfl
  · rfl

section
variable {name : String} (hname : name.toList.head? ≠ some '#')

include hname

/-- A tag that counts for a name without a `#` in front opens a block of that name. -/
theorem Tag.openName_of_blockName {t : Tag} (hk : t.kind = .blockOpen)
    (h : Tag.blockName t.inner = name) : t.openName = name := by
  by_cases hsplit : t.IsSplitOpener
  · refine absurd ?_ hname
    rw [← h, Tag.blockName, String.toList_ofList]
    exact head?_words (by decide) hsplit.2
  · rw [Tag.openName_eq hk hsplit, h]

/-- A tag does not count for a name when its `#` is split off and it opens a block of that name. -/
theorem Tag.not_counts_iff {t : Tag} : ¬ t.Counts name ↔ t.IsSplitOpener ∧ t.openName = name := by
  constructor
  · intro h
    obtain ⟨hk, h⟩ := Classical.not_imp.1 h
    have hsplit : t.IsSplitOpener := by
      by_contra hsplit
      exact h (by rw [Tag.openName_eq hk hsplit])
    refine ⟨hsplit, ?_⟩
    by_contra hopen
    exact h (iff_of_false (fun hb => hopen (Tag.openName_of_blockName hname hk hb)) hopen)
  · rintro ⟨⟨hk, hhash⟩, hopen⟩ h
    have hb := (h hk).2 hopen
    refine hname ?_
    rw [← hb, Tag.blockName, String.toList_ofList]
    exact head?_words (by decide) hhash

/-- One tag takes depths up no more than levels, and by less when it does not count. -/
theorem depthAfter_le_levelAfter {t : Tag} {depth d level l : Nat}
    (hd : depthAfter name depth t = some d) (hl : levelAfter name level t = some l) :
    d + level ≤ l + depth ∧ (d + level = l + depth → t.Counts name) := by
  by_cases hk : t.kind = .blockOpen
  · rw [depthAfter_open hk, Option.some_inj] at hd
    rw [levelAfter_open hk, Option.some_inj] at hl
    by_cases hb : Tag.blockName t.inner = name
    · have ho := Tag.openName_of_blockName hname hk hb
      rw [if_pos hb] at hd
      rw [if_pos ho] at hl
      exact ⟨by omega, fun _ _ => iff_of_true hb ho⟩
    · rw [if_neg hb] at hd
      refine ⟨by omega, fun he _ => iff_of_false hb fun ho => ?_⟩
      rw [if_pos ho] at hl
      omega
  · refine ⟨?_, fun _ hk' => absurd hk' hk⟩
    by_cases hc : t.kind = .blockClose
    · rw [depthAfter_close_eq_some_iff hc] at hd
      rw [levelAfter_close_eq_some_iff hc] at hl
      omega
    · rw [levelAfter, if_neg hk] at hl
      simp only [depthAfter, hk, hc, false_and, if_false, Option.some_inj] at hd hl
      omega

/-- **Depths end lower than levels unless each tag counts for what it opens.** -/
theorem counts_of_depthThrough {ts : List Placed} {depth d level l : Nat}
    (hd : depthThrough name depth ts = some d) (hl : levelThrough name level ts = some l) :
    d + level ≤ l + depth ∧ (d + level = l + depth → ∀ t ∈ ts, t.tag.Counts name) := by
  induction ts generalizing depth level with
  | nil =>
    obtain rfl := Option.some.inj hd
    obtain rfl := Option.some.inj hl
    exact ⟨by omega, fun _ t ht => absurd ht List.not_mem_nil⟩
  | cons t ts ih =>
    obtain ⟨depth', hdepth, hd⟩ := Option.bind_eq_some_iff.1 hd
    obtain ⟨level', hlevel, hl⟩ := Option.bind_eq_some_iff.1 hl
    obtain ⟨hle, hcounts⟩ := depthAfter_le_levelAfter hname hdepth hlevel
    obtain ⟨hle', hcounts'⟩ := ih hd hl
    refine ⟨by omega, fun he => List.forall_mem_cons.2 ⟨hcounts (by omega), hcounts' (by omega)⟩⟩

end

end ThemePress.Template
