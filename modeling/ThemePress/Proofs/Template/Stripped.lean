import Mathlib.Data.List.Infix
import ThemePress.Proofs.Template.Concatenation
import ThemePress.Proofs.Template.Guarded
import ThemePress.Proofs.Template.Order

/-! # What is left has no tags

Where a tag is taken out, the bytes on its two sides become neighbours. No tag comes of that. The
bytes in front of a tag hold no `{{` and do not end in `{` (`Cut.selfContained_before`), so a `{{`
in what is left is one that stood there before, and no `}}` followed it then. Splitting a block at
its divider makes no tag either, because a part of bytes without a tag has none
(`Tagless.of_infix`). So neither the bytes that are left nor those of any node have a tag in them
(`Scanned.stripped`).

While it takes out tags, scanning sees none but those that are there at first (`scan_strips_tags`).
-/

namespace ThemePress.Template

/-- There is no tag in the bytes. -/
def Tagless (data : List UInt8) : Prop :=
  Cut.first? data = none

/-- A pair is found where it first stands. -/
theorem splitAtPair_le {b : UInt8} {s l r u v : List UInt8} (h : splitAtPair b s = some (l, r))
    (hs : s = u ++ b :: b :: v) : l.length ≤ u.length := by
  induction u generalizing s l with
  | nil =>
    subst hs
    simp only [List.nil_append, splitAtPair, and_self, if_true, Option.some.injEq,
      Prod.mk.injEq] at h
    simp [← h.1]
  | cons x u ih =>
    subst hs
    obtain ⟨y, t, hyt⟩ : ∃ y t, u ++ b :: b :: v = y :: t := by
      cases u with
      | nil => exact ⟨b, b :: v, rfl⟩
      | cons y u => exact ⟨y, u ++ b :: b :: v, rfl⟩
    rw [List.cons_append, hyt, splitAtPair] at h
    split at h
    · obtain ⟨rfl, -⟩ := Prod.mk.inj (Option.some.inj h)
      exact Nat.zero_le _
    · obtain ⟨⟨l', r'⟩, h', hl⟩ := Option.map_eq_some_iff.1 h
      obtain ⟨rfl, rfl⟩ := Prod.mk.inj hl
      exact Nat.succ_le_succ (ih h' hyt.symm)

/-- Bytes have no tag when no `{{` in them has a `}}` behind it. -/
theorem tagless_iff {data : List UInt8} : Tagless data ↔
    ∀ u v, data = u ++ openBrace :: openBrace :: v → ¬ [closeBrace, closeBrace] <:+: v := by
  constructor
  · intro h u v hdata hclose
    have hopen : splitAtPair openBrace data ≠ none :=
      splitAtPair_ne_none ⟨u, v, by rw [hdata]; simp⟩
    obtain ⟨⟨l, r⟩, hl⟩ := Option.ne_none_iff_exists'.1 hopen
    have hle := splitAtPair_le hl hdata
    have hr := splitAtPair_eq hl
    -- what is behind the first `{{` goes further back than what is behind this one
    have hsuffix : v <:+ r := by
      have hv : v <:+ data := ⟨u ++ [openBrace, openBrace], by rw [hdata]; simp⟩
      refine List.suffix_of_suffix_length_le hv ⟨l ++ [openBrace, openBrace], by rw [hr]; simp⟩ ?_
      have hlength := congrArg List.length (hdata.symm.trans hr)
      simp only [List.length_append, List.length_cons] at hlength
      omega
    have hnone : splitAtPair closeBrace r = none := by
      rw [Tagless, Cut.first?, hl, Option.bind_some] at h
      exact Option.map_eq_none_iff.1 h
    exact splitAtPair_ne_none (hclose.trans hsuffix.isInfix) hnone
  · intro h
    rw [Tagless, Option.eq_none_iff_forall_ne_some]
    intro cut hcut
    obtain ⟨inner, rest, hopen, -, -⟩ := Cut.exists_of_first? hcut
    exact h _ _ (splitAtPair_eq hopen) ⟨inner, rest, by simp⟩

/-- **A part of bytes without a tag has none.** -/
theorem Tagless.of_infix {s data : List UInt8} (h : Tagless data) (hs : s <:+: data) :
    Tagless s := by
  rw [tagless_iff] at h ⊢
  obtain ⟨before, behind, rfl⟩ := hs
  intro u v hv hclose
  subst hv
  exact h (before ++ u) (v ++ behind) (by simp) (hclose.trans (List.prefix_append ..).isInfix)

theorem Tagless.next?_eq_none {data : List UInt8} (h : Tagless data) (start : Nat) :
    next? data start = none := by
  rw [next?, h.of_infix (List.drop_suffix start data).isInfix, Option.map_none]

/-- Scanning leaves bytes without a tag as they are. -/
theorem Tagless.scan_eq {data : List UInt8} (h : Tagless data) :
    scan data = ⟨[], .ok ⟨data, []⟩⟩ :=
  scanFrom_rest h

/-- The bytes in front of a tag take no part in a tag behind them. -/
theorem Cut.selfContained_before {data : List UInt8} {cut : Cut} (h : Cut.first? data = some cut) :
    SelfContained cut.before := by
  obtain ⟨inner, rest, hopen, -, -⟩ := Cut.exists_of_first? h
  refine ⟨fun u v hbefore => ?_, fun hlast => ?_⟩
  · exact absurd (splitAtPair_left hopen) (splitAtPair_ne_none ⟨u, v, by rw [hbefore]; simp⟩)
  · obtain ⟨u, hu⟩ := List.getLast?_eq_some_iff.1 hlast
    have hle := splitAtPair_le (u := u) hopen
      (v := openBrace :: (inner ++ closeBrace :: closeBrace :: rest)) (by
        rw [splitAtPair_eq hopen, hu]; simp)
    have hlength := congrArg List.length hu
    rw [List.length_append, List.length_singleton] at hlength
    omega

/-- **The bytes on the two sides of a tag make no tag.** -/
theorem Tagless.append_before {data rest : List UInt8} {cut : Cut} (hrest : Tagless rest)
    (h : Cut.first? data = some cut) : Tagless (cut.before ++ rest) := by
  rw [Tagless, Cut.first?_append_rest (Cut.first?_before h) (Cut.selfContained_before h), hrest,
    Option.map_none]

/-! ### Nodes -/

namespace Node

/-- No node of a tree has a tag in its bytes. -/
def Stripped (root : Node) : Prop :=
  ∀ n, root.Within n → Tagless n.block

theorem stripped_iff {n : Node} : n.Stripped ↔
    Tagless n.block ∧ (∀ c ∈ n.children, c.Stripped) ∧ ∀ a ∈ n.arguments, a.Stripped := by
  constructor
  · intro h
    refine ⟨h n .root, fun c hc m hm => h m ?_, fun a ha m hm => h m ?_⟩
    · induction hm with
      | root => exact .child .root hc
      | child _ hd ih => exact .child ih hd
      | argument _ hd ih => exact .argument ih hd
    · induction hm with
      | root => exact .argument .root ha
      | child _ hd ih => exact .child ih hd
      | argument _ hd ih => exact .argument ih hd
  · rintro ⟨hblock, hchildren, harguments⟩ m hm
    -- a node below is `n` itself, or it stands below a child or an argument of it
    have hbelow : m = n ∨ (∃ c ∈ n.children, c.Within m) ∨ ∃ a ∈ n.arguments, a.Within m := by
      induction hm with
      | root => exact .inl rfl
      | child _ hc ih =>
        rcases ih with rfl | ⟨c, hm, h⟩ | ⟨a, hm, h⟩
        · exact .inr (.inl ⟨_, hc, .root⟩)
        · exact .inr (.inl ⟨c, hm, .child h hc⟩)
        · exact .inr (.inr ⟨a, hm, .child h hc⟩)
      | argument _ ha ih =>
        rcases ih with rfl | ⟨c, hm, h⟩ | ⟨a, hm, h⟩
        · exact .inr (.inr ⟨_, ha, .root⟩)
        · exact .inr (.inl ⟨c, hm, .argument h ha⟩)
        · exact .inr (.inr ⟨a, hm, .argument h ha⟩)
    rcases hbelow with rfl | ⟨c, hc, h⟩ | ⟨a, ha, h⟩
    · exact hblock
    · exact hchildren c hc m h
    · exact harguments a ha m h

theorem Stripped.move {n : Node} (h : n.Stripped) (place : Nat) :
    Stripped { n with position := place } := by
  obtain ⟨hblock, hchildren, harguments⟩ := stripped_iff.1 h
  exact stripped_iff.2 ⟨hblock, hchildren, harguments⟩

theorem stripped_leaf (name : String) (key : Option String) (unescaped : Bool) (place : Nat) :
    Stripped { Node.leaf name unescaped place with key } :=
  stripped_iff.2 ⟨rfl, by simp [Node.leaf], by simp [Node.leaf]⟩

/-- The node of a tag has no more tags than its inside and its `else` branch. -/
theorem stripped_ofText {text : String} {unescaped : Bool} {place : Nat} {block : List UInt8}
    {children : List Node} {branch : Option Node} (hblock : Tagless block)
    (below : ∀ c ∈ children, c.Stripped) (other : ∀ b ∈ branch, b.Stripped) :
    (Node.ofText text unescaped place block children branch).Stripped := by
  refine stripped_iff.2 ⟨hblock, below, fun a ha => ?_⟩
  simp only [Node.ofText, List.mem_append, List.mem_map, Option.mem_toList] at ha
  rcases ha with (⟨value, -, rfl⟩ | ⟨pair, -, rfl⟩) | ha
  · exact stripped_leaf _ _ _ _
  · exact stripped_leaf _ _ _ _
  · exact other a ha

end Node

/-! ### Fragments -/

/-- Neither the bytes of a fragment nor those of its nodes have a tag in them. -/
structure Fragment.Stripped (f : Fragment) : Prop where
  block : Tagless f.block
  nodes : ∀ n ∈ f.nodes, n.Stripped

namespace Fragment.Stripped

variable {f : Fragment}

/-- Splitting a block at its divider makes no tag. -/
theorem splitElse (h : f.Stripped) :
    f.splitElse.1.Stripped ∧ ∀ b ∈ f.splitElse.2, b.Stripped := by
  unfold Fragment.splitElse
  split
  · exact ⟨h, by simp⟩
  · rename_i divider later hd
    have hnodes := Fragment.nodes_eq hd
    have hfirst := List.takeWhile_sublist (l := f.nodes) (·.name != Node.elseName)
    refine ⟨⟨h.block.of_infix (List.take_prefix ..).isInfix, fun n hn =>
      h.nodes n (hfirst.subset hn)⟩, fun b hb => ?_⟩
    obtain rfl := Option.some.inj hb
    refine Node.stripped_iff.2 ⟨h.block.of_infix (List.drop_suffix ..).isInfix, fun c hc => ?_, ?_⟩
    · obtain ⟨n, hn, rfl⟩ := List.mem_map.1 hc
      exact (h.nodes n (by rw [hnodes]; simp [hn])).move _
    · exact (Node.stripped_iff.1 (h.nodes divider (by rw [hnodes]; simp))).2.2

theorem toBlock (h : f.Stripped) (text : String) (unescaped : Bool) (place : Nat) :
    (f.toBlock text unescaped place).Stripped := by
  obtain ⟨hfirst, hbranch⟩ := h.splitElse
  exact Node.stripped_ofText hfirst.block hfirst.nodes hbranch

/-- What stands in front of a tag can be put in front of what follows it. -/
theorem prepend {data : List UInt8} {cut : Cut} {nodes : List Node} (h : f.Stripped)
    (first : Cut.first? data = some cut) (hnodes : ∀ n ∈ nodes, n.Stripped) :
    (f.prepend cut.before nodes).Stripped :=
  ⟨h.block.append_before first, List.forall_mem_append.2 ⟨hnodes, h.nodes⟩⟩

end Fragment.Stripped

/-! ### Scanning -/

theorem Cut.stripped_nodes (cut : Cut) (place : Nat) : ∀ n ∈ cut.nodes place, n.Stripped := by
  intro n hn
  obtain rfl : n = Node.ofText cut.tag.inner cut.tag.unescaped place [] [] none := by
    unfold Cut.nodes at hn
    split at hn
    · split at hn
      · simp at hn
      · exact List.mem_singleton.1 hn
    · split at hn
      · simp at hn
      · exact List.mem_singleton.1 hn
    · simp at hn
  exact Node.stripped_ofText rfl (by simp) (by simp)

/-- **Scanning leaves no tag**, neither in its bytes nor in those of a node. -/
theorem Scanned.stripped {start : Nat} {data : List UInt8} {f : Fragment}
    (h : Scanned start data f) : f.Stripped := by
  induction h with
  | rest first => exact ⟨first, by simp⟩
  | tag first kind _ ih => exact ih.prepend first (Cut.stripped_nodes _ _)
  | block first kind closer _ _ ih₁ ih₂ =>
    exact ih₂.prepend first (List.forall_mem_singleton.2 (ih₁.toBlock _ _ _))

/-- **Scanning strips all tags and forms none.** Of the bytes that are left, and of those of any
node, scanning again leaves all. What it records on its way are the tags of the bytes as they were
at first: each once, in their order, with their text and their braces. A search for a close tag goes
through those behind the opening tag. -/
theorem scan_strips_tags {data : List UInt8} {f : Fragment} (h : (scan data).value = .ok f) :
    ((∀ start, next? f.block start = none) ∧ scan f.block = ⟨[], .ok ⟨f.block, []⟩⟩) ∧
    (∀ root ∈ f.nodes, ∀ n, root.Within n →
      (∀ start, next? n.block start = none) ∧ scan n.block = ⟨[], .ok ⟨n.block, []⟩⟩) ∧
    ∃ sights, Guarded.edit data 0 0 [] = .ok (scan data, sights) ∧
      sights.map Sight.tag = tags data ∧ ∀ s ∈ sights, s.tag :: s.passed <:+: tags data := by
  have hstripped := (scanned_iff.2 h).stripped
  have hagain {bytes : List UInt8} (hbytes : Tagless bytes) :
      (∀ start, next? bytes start = none) ∧ scan bytes = ⟨[], .ok ⟨bytes, []⟩⟩ :=
    ⟨hbytes.next?_eq_none, hbytes.scan_eq⟩
  refine ⟨hagain hstripped.block, fun root hroot n hn => hagain (hstripped.nodes root hroot n hn),
    ?_⟩
  obtain ⟨sights, hrun, htags, hpassed⟩ := Guarded.edit_eq_scan data
  exact ⟨sights, hrun, htags f h, hpassed⟩

/-- A block with braces on all sides of its tags. -/
def abutting : List UInt8 :=
  ("\x7b\x7b#a\x7d\x7d\x7d\x7b\x7bb\x7d\x7d\x7d\x7b\x7belse\x7d\x7d\x7b\x7b\x7bc\x7d\x7d\x7d" ++
    "\x7b\x7b/a\x7d\x7d\x7b").toUTF8.toList

theorem scan_strips_tags_abutting : ∃ f, (scan abutting).value = .ok f ∧
    f.block = [openBrace] ∧ f.nodes.map Node.name = ["a"] ∧
    scan f.block = ⟨[], .ok ⟨f.block, []⟩⟩ ∧
    (∀ root ∈ f.nodes, ∀ n, root.Within n → scan n.block = ⟨[], .ok ⟨n.block, []⟩⟩) ∧
    ∃ sights, Guarded.edit abutting 0 0 [] = .ok (scan abutting, sights) ∧
      sights.map (·.tag.tag) = [⟨"#a", false⟩, ⟨"b", false⟩, ⟨"else", false⟩, ⟨"c", true⟩,
        ⟨"/a", false⟩] := by
  obtain ⟨f, hf, hblock, hnames⟩ :
      ∃ f, (scan abutting).value = .ok f ∧ f.block = [openBrace] ∧
        f.nodes.map Node.name = ["a"] :=
    exists_of_scan (by decide +kernel)
  have htags : (tags abutting).map Placed.tag = [⟨"#a", false⟩, ⟨"b", false⟩, ⟨"else", false⟩,
      ⟨"c", true⟩, ⟨"/a", false⟩] := by decide +kernel
  obtain ⟨⟨-, hagain⟩, hnodes, sights, hrun, hsights, -⟩ := scan_strips_tags hf
  refine ⟨f, hf, hblock, hnames, hagain, fun root hroot n hn => (hnodes root hroot n hn).2, sights,
    hrun, ?_⟩
  rw [← htags, ← hsights, List.map_map]
  rfl

end ThemePress.Template
