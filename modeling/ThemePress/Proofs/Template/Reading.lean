import Mathlib.Data.List.Perm.Subperm
import ThemePress.Proofs.Render.Splice
import ThemePress.Proofs.Template.Buffer

/-! # Reading a compiled template back

`Node.text` are the literal bytes of a tree in the order of the template: the pieces of a node's
bytes, between them the text of each child at its place, and behind them the text of the `else`
branch. `outsideTags` are the bytes of a source that lie in none of its tags. Compiling keeps these
bytes in order (`text_of_compile`), but for one kind of block: one that is named `else` and stands
inside another block is taken for the divider of that block, and its text is given up.

Reading can be taken apart at any place of the bytes (`interleaveFrom_append`,
`interleaveFrom_eq`). A fragment is put together at such a place when bytes come in front of it
(`Fragment.text_prepend`), and taken apart at one when a block is split
(`Fragment.text_toBlock`). -/

namespace ThemePress.Render

open ThemePress.Template

/-! ### Interleaving around a place -/

section
variable {block : List UInt8} {place mid : Nat}

theorem drop_append_drop (block : List UInt8) (hp : place ≤ mid) :
    (block.take mid).drop place ++ block.drop mid = block.drop place := by
  have h := List.take_append_drop (mid - place) (block.drop place)
  rw [List.take_drop, List.drop_drop, Nat.add_sub_of_le hp] at h
  exact h

/-- Outputs up to a place and those behind it stand in the bytes up to there and in the others. -/
theorem interleaveFrom_append (hp : place ≤ mid) {before behind : List (Nat × List UInt8)}
    (hbefore : ∀ o ∈ before, o.1 ≤ mid) (hbehind : ∀ o ∈ behind, mid ≤ o.1) :
    interleaveFrom block place (before ++ behind) =
      interleaveFrom (block.take mid) place before ++ interleaveFrom block mid behind := by
  induction before generalizing place with
  | nil =>
    cases behind with
    | nil => exact (drop_append_drop block hp).symm
    | cons o behind =>
      obtain ⟨next, bytes⟩ := o
      have hnext := hbehind (next, bytes) (List.mem_cons_self ..)
      have hpieces := drop_append_drop (block.take next) hp
      rw [List.take_take, Nat.min_eq_left hnext] at hpieces
      simp only [List.nil_append, interleaveFrom]
      rw [← hpieces, List.append_assoc]
  | cons o before ih =>
    obtain ⟨next, bytes⟩ := o
    have hnext := hbefore (next, bytes) (List.mem_cons_self ..)
    have hrest := ih hnext fun o ho => hbefore o (List.mem_cons_of_mem _ ho)
    simp only [List.cons_append, interleaveFrom]
    rw [hrest, List.take_take, Nat.min_eq_left hnext]
    simp only [List.append_assoc]

/-- Behind a place, outputs can be counted from there. -/
theorem interleaveFrom_eq (hp : mid ≤ place) {outputs : List (Nat × List UInt8)}
    (h : ∀ o ∈ outputs, mid ≤ o.1) :
    interleaveFrom block place outputs =
      interleaveFrom (block.drop mid) (place - mid) (outputs.map fun o => (o.1 - mid, o.2)) := by
  induction outputs generalizing place with
  | nil =>
    simp only [List.map_nil, interleaveFrom, List.drop_drop]
    rw [Nat.add_sub_of_le hp]
  | cons o outputs ih =>
    obtain ⟨next, bytes⟩ := o
    have hnext : mid ≤ next := h (next, bytes) (List.mem_cons_self ..)
    have hrest := ih hnext fun o ho => h o (List.mem_cons_of_mem _ ho)
    simp only [List.map_cons, interleaveFrom]
    rw [hrest, List.take_drop, List.drop_drop, Nat.add_sub_of_le hp, Nat.add_sub_of_le hnext]

/-- Outputs at the end of the bytes stand behind them. -/
theorem interleaveFrom_end (hp : place ≤ block.length) {outputs : List (Nat × List UInt8)}
    (h : ∀ o ∈ outputs, o.1 = block.length) :
    interleaveFrom block place outputs = block.drop place ++ outputs.flatMap Prod.snd := by
  induction outputs generalizing place with
  | nil => simp [interleaveFrom]
  | cons o outputs ih =>
    obtain ⟨next, bytes⟩ := o
    obtain rfl : next = block.length := h (next, bytes) (List.mem_cons_self ..)
    have hrest := ih (Nat.le_refl _) fun o ho => h o (List.mem_cons_of_mem _ ho)
    rw [interleaveFrom, hrest, List.take_length, List.drop_length, List.nil_append,
      List.flatMap_cons]

end

end ThemePress.Render

namespace ThemePress.Template

open ThemePress.Render (interleave interleaveFrom interleaveFrom_append interleaveFrom_eq
  interleaveFrom_end)

/-! ### The text of a tree -/

namespace Node

mutual
/-- The literal bytes of a tree in the order of the template. -/
def text : Node → List UInt8
  | n@⟨_, _, arguments, _, _, block, children, _⟩ =>
    interleave block (texts children) ++
      (n.elseBranch?.bind fun _ => (texts arguments).getLast?.map Prod.snd).getD []

/-- The texts of nodes with the places of the nodes. -/
def texts : List Node → List (Nat × List UInt8)
  | [] => []
  | n :: ns => (n.position, n.text) :: texts ns
end

/-- The text of the `else` branch, if there is one. -/
def branchText (n : Node) : List UInt8 :=
  (n.elseBranch?.map text).getD []

theorem texts_eq (ns : List Node) : texts ns = ns.map fun n => (n.position, n.text) := by
  induction ns with
  | nil => rw [texts, List.map_nil]
  | cons n ns ih => rw [texts, ih, List.map_cons]

theorem text_eq (n : Node) : n.text = interleave n.block (texts n.children) ++ n.branchText := by
  obtain ⟨name, key, arguments, unescaped, position, block, children, bodySlot⟩ := n
  rw [text, branchText, elseBranch?]
  dsimp only
  congr 2
  rw [texts_eq, List.getLast?_map]
  cases arguments.getLast? with
  | none => rfl
  | some b => cases hb : b.isElse <;> simp [Option.filter, hb]

/-- The text of a node does not depend on its place. -/
theorem text_move (n : Node) (place : Nat) : text { n with position := place } = n.text := by
  rw [text_eq, text_eq n]
  rfl

theorem text_leaf (name : String) (key : Option String) (unescaped : Bool) (place : Nat) :
    text { Node.leaf name unescaped place with key } = [] := by
  rw [text_eq]
  rfl

/-- The branch that a tag is given is its `else` branch. Without one, an argument may be named like
one, but it has no text. -/
theorem branchText_ofText {text : String} {unescaped : Bool} {place : Nat} {block : List UInt8}
    {children : List Node} {branch : Option Node} (h : ∀ b ∈ branch, b.isElse) :
    (Node.ofText text unescaped place block children branch).branchText =
      (branch.map Node.text).getD [] := by
  unfold branchText elseBranch?
  cases branch with
  | some b =>
    have hb : b.isElse := h b rfl
    simp [Node.ofText, hb, Option.filter]
  | none =>
    generalize hl : (Node.ofText text unescaped place block children none).arguments.getLast? = last
    cases last with
    | none => rfl
    | some a =>
      have ha := List.mem_of_getLast? hl
      simp only [Node.ofText, List.mem_append, List.mem_map, Option.mem_toList] at ha
      have htext : a.text = [] := by
        rcases ha with (⟨value, -, rfl⟩ | ⟨pair, -, rfl⟩) | ha
        · exact text_leaf ..
        · exact text_leaf ..
        · cases ha
      cases hb : a.isElse <;> simp [Option.filter, hb, htext]

end Node

/-! ### The text of a fragment -/

namespace Fragment

/-- The literal bytes of a fragment that `start` bytes precede, in the order of the template. -/
def text (start : Nat) (f : Fragment) : List UInt8 :=
  interleave f.block (f.nodes.map fun n => (n.position - start, n.text))

variable {f : Fragment} {start : Nat} {literal : List UInt8} {nodes : List Node}

theorem text_prepend (h : f.Ordered (start + literal.length))
    (place : ∀ n ∈ nodes, n.position = start + literal.length) :
    (f.prepend literal nodes).text start =
      literal ++ (nodes.flatMap Node.text ++ f.text (start + literal.length)) := by
  have hnodes : ∀ o ∈ nodes.map fun n => (n.position - start, n.text), o.1 = literal.length := by
    intro o ho
    obtain ⟨n, hn, rfl⟩ := List.mem_map.1 ho
    rw [place n hn]
    omega
  have hrest : ∀ o ∈ f.nodes.map fun n => (n.position - start, n.text), literal.length ≤ o.1 := by
    intro o ho
    obtain ⟨n, hn, rfl⟩ := List.mem_map.1 ho
    have := (h.bounds n hn).1
    dsimp only
    omega
  unfold text interleave Fragment.prepend
  rw [List.map_append,
    interleaveFrom_append (Nat.zero_le _) (fun o ho => Nat.le_of_eq (hnodes o ho)) hrest,
    List.take_left, interleaveFrom_end (Nat.zero_le _) hnodes,
    interleaveFrom_eq (Nat.le_refl _) hrest, List.drop_left, List.append_assoc]
  simp only [List.drop_zero, List.flatMap_map, List.map_map, Nat.sub_self, Function.comp_def,
    Nat.sub_sub]

theorem text_zero (f : Fragment) : f.text 0 = interleave f.block (Node.texts f.nodes) := by
  simp only [text, Node.texts_eq, Nat.sub_zero]

section
variable {divider : Node} {later : List Node}

/-- The nodes behind a divider, with their places counted from there. -/
def countedFrom (place : Nat) (later : List Node) : List Node :=
  later.map fun n => { n with position := n.position - place }

theorem splitElse_cons (h : f.Ordered 0)
    (hd : f.nodes.dropWhile (·.name != Node.elseName) = divider :: later) :
    f.splitElse =
      (⟨f.block.take divider.position, f.nodes.takeWhile (·.name != Node.elseName)⟩,
        some { divider with
          block := f.block.drop divider.position
          children := countedFrom divider.position later }) := by
  rw [splitElse, hd]
  dsimp only
  rw [Nat.min_eq_left (h.divider hd).1]
  rfl

/-- The text of a fragment, around its first divider. -/
theorem text_eq_around (h : f.Ordered 0)
    (hd : f.nodes.dropWhile (·.name != Node.elseName) = divider :: later) :
    f.text 0 =
      interleave (f.block.take divider.position)
          (Node.texts (f.nodes.takeWhile (·.name != Node.elseName))) ++
        (divider.text ++ interleave (f.block.drop divider.position)
          (Node.texts (countedFrom divider.position later))) := by
  obtain ⟨-, hbefore, hbehind⟩ := h.divider hd
  have hfirst : ∀ o ∈ Node.texts (f.nodes.takeWhile (·.name != Node.elseName)),
      o.1 ≤ divider.position := by
    rw [Node.texts_eq]
    intro o ho
    obtain ⟨n, hn, rfl⟩ := List.mem_map.1 ho
    exact hbefore n hn
  have hlater : ∀ o ∈ Node.texts later, divider.position ≤ o.1 := by
    rw [Node.texts_eq]
    intro o ho
    obtain ⟨n, hn, rfl⟩ := List.mem_map.1 ho
    exact hbehind n hn
  have hnodes : Node.texts f.nodes =
      Node.texts (f.nodes.takeWhile (·.name != Node.elseName)) ++
        (divider.position, divider.text) :: Node.texts later := by
    conv => lhs; rw [nodes_eq hd]
    rw [Node.texts_eq, Node.texts_eq, Node.texts_eq, List.map_append, List.map_cons]
  have hmoved : (Node.texts later).map (fun o => (o.1 - divider.position, o.2)) =
      Node.texts (countedFrom divider.position later) := by
    simp only [countedFrom, Node.texts_eq, List.map_map, Function.comp_def, Node.text_move]
  rw [text_zero, hnodes, interleave,
    interleaveFrom_append (Nat.zero_le _) hfirst (by simpa using hlater), interleaveFrom,
    List.drop_take_self, List.nil_append, interleaveFrom_eq (Nat.le_refl _) hlater, hmoved,
    Nat.sub_self]
  rfl

end

/-- **Splitting a block moves the text behind its divider in front of the divider's own `else`
branch**, and gives up what the divider has of its own. -/
theorem text_toBlock (h : f.Ordered 0) (hkey : ∀ n ∈ f.nodes, n.key = none) (name : String)
    (unescaped : Bool) (place : Nat) :
    (f.toBlock name unescaped place).text = f.text 0 ∨
      ∃ d ∈ f.nodes, d.name = Node.elseName ∧ ∃ before behind,
        f.text 0 = before ++ (d.text ++ behind) ∧
        (f.toBlock name unescaped place).text = before ++ (behind ++ d.branchText) := by
  cases hd : f.nodes.dropWhile (·.name != Node.elseName) with
  | nil =>
    left
    have hs : f.splitElse = (f, none) := by
      rw [splitElse, hd]
    rw [toBlock, hs, Node.text_eq, Node.branchText_ofText (by simp), text_zero]
    exact List.append_nil _
  | cons divider later =>
    right
    have hm : divider ∈ f.nodes := by
      rw [nodes_eq hd]
      simp
    have hname : divider.name = Node.elseName := by
      have hfirst := List.head?_dropWhile_not (·.name != Node.elseName) f.nodes
      rw [hd] at hfirst
      simpa using hfirst
    refine ⟨divider, hm, hname, _, _, text_eq_around h hd, ?_⟩
    rw [toBlock, splitElse_cons h hd, Node.text_eq, Node.branchText_ofText, Option.map_some,
      Option.getD_some, Node.text_eq]
    · rfl
    · intro b hb
      obtain rfl := Option.some.inj hb
      simp [Node.isElse, hkey divider hm, hname]

/-- No text is made up or doubled when a block is split. -/
theorem subperm_toBlock (h : f.Ordered 0) (hkey : ∀ n ∈ f.nodes, n.key = none) (name : String)
    (unescaped : Bool) (place : Nat) :
    (f.toBlock name unescaped place).text.Subperm (f.text 0) := by
  rcases text_toBlock h hkey name unescaped place with he | ⟨d, -, -, before, behind, hf, he⟩
  · rw [he]
  · rw [hf, he, d.text_eq, List.append_assoc]
    refine (List.subperm_append_left before).2 ?_
    exact List.perm_append_comm.subperm.trans (List.sublist_append_right ..).subperm

/-- Where dividers have no text of their own, none is given up. -/
theorem text_toBlock_of_silent (h : f.Ordered 0) (hkey : ∀ n ∈ f.nodes, n.key = none)
    (hsilent : ∀ n ∈ f.nodes, n.name = Node.elseName → n.text = []) (name : String)
    (unescaped : Bool) (place : Nat) : (f.toBlock name unescaped place).text = f.text 0 := by
  rcases text_toBlock h hkey name unescaped place with he | ⟨d, hd, hname, before, behind, hf, he⟩
  · exact he
  · have htext := hsilent d hd hname
    have hbranch : d.branchText = [] := by
      rw [d.text_eq] at htext
      exact (List.append_eq_nil_iff.1 htext).2
    rw [hf, he, htext, hbranch, List.nil_append, List.append_nil]

end Fragment

/-! ### Bytes outside of tags -/

/-- The place is not one of the tag's own. -/
def Placed.misses (t : Placed) (i : Nat) : Bool :=
  i < t.start || t.stop ≤ i

/-- The bytes of a sequence, which `place` bytes precede, that lie in none of the tags. -/
def untagged (place : Nat) (ts : List Placed) (data : List UInt8) : List UInt8 :=
  ((data.zipIdx place).filter fun b => ts.all (·.misses b.2)).map Prod.fst

/-- The bytes of a sequence that lie in none of its tags. -/
def outsideTags (data : List UInt8) : List UInt8 :=
  untagged 0 (tags data) data

section
variable {place : Nat} {ts ts' : List Placed} {data : List UInt8}

theorem untagged_append (place : Nat) (ts : List Placed) (l r : List UInt8) :
    untagged place ts (l ++ r) = untagged place ts l ++ untagged (place + l.length) ts r := by
  unfold untagged
  rw [List.zipIdx_append, List.filter_append, List.map_append]

theorem untagged_congr (h : ∀ i, place ≤ i → i < place + data.length →
    ts.all (·.misses i) = ts'.all (·.misses i)) :
    untagged place ts data = untagged place ts' data := by
  unfold untagged
  refine congrArg _ (List.filter_congr fun b hb => ?_)
  have := List.mem_zipIdx hb
  exact h b.2 (by omega) (by omega)

theorem untagged_nil (place : Nat) (data : List UInt8) : untagged place [] data = data := by
  unfold untagged
  simp

theorem untagged_inside {t : Placed} (ht : t ∈ ts) (hstart : t.start ≤ place)
    (hstop : place + data.length ≤ t.stop) : untagged place ts data = [] := by
  unfold untagged
  rw [List.map_eq_nil_iff, List.filter_eq_nil_iff]
  intro b hb hall
  have hmiss := List.all_eq_true.1 hall t ht
  have := List.mem_zipIdx hb
  simp only [Placed.misses, Bool.or_eq_true, decide_eq_true_eq] at hmiss
  omega

/-- What lies in front of a tag and what lies behind it can be looked at one by one. -/
theorem untagged_split {before behind : List Placed} {t : Placed} {l m r : List UInt8}
    (hstart : t.start = place + l.length) (hstop : t.stop = t.start + m.length)
    (hbefore : ∀ u ∈ before, u.stop ≤ t.start) (hbehind : ∀ u ∈ behind, t.stop ≤ u.start) :
    untagged place (before ++ t :: behind) (l ++ (m ++ r)) =
      untagged place before l ++ untagged t.stop behind r := by
  have hl : untagged place (before ++ t :: behind) l = untagged place before l := by
    refine untagged_congr fun i hi hi' => ?_
    have hrest : (t :: behind).all (·.misses i) := by
      refine List.all_eq_true.2 fun u hu => ?_
      have hu : t.start ≤ u.start := by
        rcases List.mem_cons.1 hu with rfl | hu
        · exact Nat.le_refl _
        · have := hbehind u hu
          omega
      simp only [Placed.misses, Bool.or_eq_true, decide_eq_true_eq]
      omega
    rw [List.all_append, hrest, Bool.and_true]
  have hm : untagged (place + l.length) (before ++ t :: behind) m = [] :=
    untagged_inside (List.mem_append_right _ (List.mem_cons_self ..)) (by omega) (by omega)
  have hr : untagged (place + l.length + m.length) (before ++ t :: behind) r =
      untagged t.stop behind r := by
    rw [hstop, hstart]
    refine untagged_congr fun i hi hi' => ?_
    have hfirst : (before ++ [t]).all (·.misses i) := by
      refine List.all_eq_true.2 fun u hu => ?_
      have hu : u.stop ≤ t.stop := by
        rcases List.mem_append.1 hu with hu | hu
        · have := hbefore u hu
          omega
        · obtain rfl := List.mem_singleton.1 hu
          exact Nat.le_refl _
      simp only [Placed.misses, Bool.or_eq_true, decide_eq_true_eq]
      omega
    rw [List.append_cons, List.all_append, hfirst, Bool.true_and]
  rw [untagged_append, untagged_append, hl, hm, hr, List.nil_append]

end

/-! ### Tags that are taken for dividers -/

/-- The tag opens a block whose node has the name of a divider. -/
def Tag.OpensElse (t : Tag) : Prop :=
  t.kind = .blockOpen ∧
    (Node.ofText (Tag.blockText t.inner) false 0 [] [] none).name = Node.elseName

instance (t : Tag) : Decidable t.OpensElse :=
  inferInstanceAs (Decidable (_ ∧ _))

/-- No block named `else` stands inside another block. -/
def NoElseWithin (ts : List Placed) : Prop :=
  ∀ pair ∈ blockPairs ts, ∀ t ∈ ts,
    pair.1.stop ≤ t.start → t.stop ≤ pair.2.start → ¬ t.tag.OpensElse

instance (ts : List Placed) : Decidable (NoElseWithin ts) :=
  inferInstanceAs (Decidable (∀ pair ∈ blockPairs ts, ∀ t ∈ ts, _ → _ → ¬ _))

theorem bounds_of_mem_placedTags {place : Nat} {data : List UInt8} {t : Placed}
    (h : t ∈ placedTags place data) :
    place ≤ t.start ∧ t.start ≤ t.stop ∧ t.stop ≤ place + data.length := by
  fun_induction placedTags place data with
  | case1 => cases h
  | case2 place data cut hc _ ih =>
    have hlen := congrArg List.length (Cut.first?_eq hc)
    simp only [List.length_append] at hlen
    rcases List.mem_cons.1 h with rfl | h
    · dsimp only
      omega
    · have := ih h
      omega

section
variable {place : Nat} {data : List UInt8} {cut : Cut}

/-- The bytes outside of the tags of a sequence that `place` bytes precede. -/
def outsideFrom (place : Nat) (data : List UInt8) : List UInt8 :=
  untagged place (placedTags place data) data

theorem outsideTags_eq (data : List UInt8) : outsideTags data = outsideFrom 0 data := by
  rw [outsideTags, tags_eq]
  rfl

theorem outsideFrom_rest (h : Cut.first? data = none) : outsideFrom place data = data := by
  rw [outsideFrom, placedTags_none h, untagged_nil]

theorem outsideFrom_cut (h : Cut.first? data = some cut) :
    outsideFrom place data =
      cut.before ++ outsideFrom (place + cut.before.length + cut.text.length) cut.after := by
  have hbehind : ∀ u ∈ placedTags (place + cut.before.length + cut.text.length) cut.after,
      place + cut.before.length + cut.text.length ≤ u.start :=
    fun u hu => (bounds_of_mem_placedTags hu).1
  rw [outsideFrom, placedTags_some h]
  conv => lhs; rw [Cut.first?_eq h]
  rw [← List.nil_append (_ :: placedTags _ _), untagged_split rfl rfl (by simp) hbehind,
    untagged_nil]
  rfl

/-- The tags inside a block, its close tag and the tags behind it are all there are. -/
theorem placedTags_enclosed {name : String} {e : Enclosed} (h : Enclosed.first? name data = some e)
    (place : Nat) :
    ∃ closer : Placed, closer.start = place + e.inside.length ∧
      closer.stop = closer.start + e.closer.length ∧
      splitAtCloser name 0 (placedTags place data) =
        some (placedTags place e.inside, closer, placedTags closer.stop e.after) ∧
      placedTags place data =
        placedTags place e.inside ++ closer :: placedTags closer.stop e.after ∧
      outsideFrom place data = outsideFrom place e.inside ++ outsideFrom closer.stop e.after := by
  obtain ⟨closer, hstart, hstop, hsplit⟩ := splitAtCloser_of_find? h place
  have hall := splitAtCloser_eq hsplit
  refine ⟨closer, hstart, hstop, hsplit, hall, ?_⟩
  rw [outsideFrom, hall]
  conv => lhs; rw [(Enclosed.find?_eq h).1]
  refine untagged_split hstart hstop (fun u hu => ?_) fun u hu => (bounds_of_mem_placedTags hu).1
  have := (bounds_of_mem_placedTags hu).2.2
  omega

end

theorem NoElseWithin.of_tag {t : Placed} {ts : List Placed} (h : NoElseWithin (t :: ts))
    (hk : t.tag.kind ≠ .blockOpen) : NoElseWithin ts := by
  rw [NoElseWithin, blockPairs_tag hk] at h
  exact fun pair hp u hu => h pair hp u (List.mem_cons_of_mem _ hu)

theorem NoElseWithin.of_block {t closer : Placed} {ts inside after : List Placed}
    (h : NoElseWithin (t :: ts)) (hk : t.tag.kind = .blockOpen)
    (hs : splitAtCloser t.tag.openName 0 ts = some (inside, closer, after))
    (hinside : ∀ u ∈ inside, t.stop ≤ u.start ∧ u.stop ≤ closer.start) :
    NoElseWithin inside ∧ NoElseWithin after ∧ ∀ u ∈ inside, ¬ u.tag.OpensElse := by
  have hts := splitAtCloser_eq hs
  have hmem : ∀ u ∈ inside ++ closer :: after, u ∈ t :: ts := by
    rw [hts]
    exact fun u hu => List.mem_cons_of_mem _ hu
  rw [NoElseWithin, blockPairs_block hk hs] at h
  refine ⟨fun pair hp u hu => ?_, fun pair hp u hu => ?_, fun u hu => ?_⟩
  · exact h pair (List.mem_append_left _ hp) u (hmem u (List.mem_append_left _ hu))
  · exact h pair (List.mem_append_right _ (List.mem_cons_of_mem _ hp)) u
      (hmem u (List.mem_append_right _ (List.mem_cons_of_mem _ hu)))
  · obtain ⟨hstart, hstop⟩ := hinside u hu
    exact h (t, closer) (List.mem_append_right _ (List.mem_cons_self ..)) u
      (hmem u (List.mem_append_left _ hu)) hstart hstop

/-! ### Scanning -/

theorem Cut.text_of_mem_nodes {cut : Cut} {place : Nat} {n : Node} (h : n ∈ cut.nodes place) :
    n.key = none ∧ n.text = [] := by
  have htext : ∀ inner unescaped,
      (Node.ofText inner unescaped place [] [] none).text = [] := fun inner unescaped => by
    rw [Node.text_eq, Node.branchText_ofText (by simp)]
    rfl
  unfold Cut.nodes at h
  split at h
  · split at h
    · cases h
    · obtain rfl := List.mem_singleton.1 h
      exact ⟨rfl, htext _ _⟩
  · split at h
    · cases h
    · obtain rfl := List.mem_singleton.1 h
      exact ⟨rfl, htext _ _⟩
  · cases h

namespace Scanned

variable {start : Nat} {data : List UInt8} {f : Fragment}

theorem key_eq_none (h : Scanned start data f) : ∀ n ∈ f.nodes, n.key = none := by
  induction h with
  | rest => simp
  | tag _ _ _ ih =>
    intro n hn
    exact (List.mem_append.1 hn).elim (fun hn => (Cut.text_of_mem_nodes hn).1) (ih n)
  | block _ _ _ _ _ _ ih =>
    intro n hn
    rcases List.mem_append.1 hn with hn | hn
    · obtain rfl := List.mem_singleton.1 hn
      rfl
    · exact ih n hn

/-- A divider with text of its own comes from a block. -/
theorem exists_opensElse (h : Scanned start data f) (place : Nat) :
    ∀ n ∈ f.nodes, n.name = Node.elseName → n.text ≠ [] →
      ∃ t ∈ placedTags place data, t.tag.OpensElse := by
  induction h generalizing place with
  | rest => simp
  | tag first _ _ ih =>
    intro n hn hname htext
    rw [placedTags_some first]
    rcases List.mem_append.1 hn with hn | hn
    · exact absurd (Cut.text_of_mem_nodes hn).2 htext
    · obtain ⟨t, ht, helse⟩ := ih _ n hn hname htext
      exact ⟨t, List.mem_cons_of_mem _ ht, helse⟩
  | block first kind closer _ _ _ ih =>
    intro n hn hname htext
    rw [placedTags_some first]
    rcases List.mem_append.1 hn with hn | hn
    · obtain rfl := List.mem_singleton.1 hn
      exact ⟨_, List.mem_cons_self .., kind, hname⟩
    · obtain ⟨c, -, -, -, hall, -⟩ := placedTags_enclosed closer _
      obtain ⟨t, ht, helse⟩ := ih c.stop n hn hname htext
      refine ⟨t, List.mem_cons_of_mem _ ?_, helse⟩
      rw [hall]
      exact List.mem_append_right _ (List.mem_cons_of_mem _ ht)

/-- **The text of a fragment are the bytes outside of tags**, some of them or all in order. -/
theorem text_eq (h : Scanned start data f) (place : Nat) :
    (f.text start).Subperm (outsideFrom place data) ∧
      (NoElseWithin (placedTags place data) → f.text start = outsideFrom place data) := by
  induction h generalizing place with
  | rest first =>
    rw [outsideFrom_rest first]
    exact ⟨List.Subperm.refl _, fun _ => rfl⟩
  | @tag start data cut f first kind after ih =>
    have hsilent : (cut.nodes (start + cut.before.length)).flatMap Node.text = [] :=
      List.flatMap_eq_nil_iff.2 fun n hn => (Cut.text_of_mem_nodes hn).2
    obtain ⟨hsub, heq⟩ := ih (place + cut.before.length + cut.text.length)
    rw [outsideFrom_cut first, Fragment.text_prepend after.ordered fun n hn => (Cut.mem_nodes hn).1,
      hsilent, List.nil_append]
    refine ⟨(List.subperm_append_left _).2 hsub, fun helse => ?_⟩
    rw [placedTags_some first] at helse
    rw [heq (helse.of_tag kind)]
  | @block start data cut e g f first kind closer inside after ih₁ ih₂ =>
    obtain ⟨c, hstart, -, hsplit, -, hout⟩ :=
      placedTags_enclosed closer (place + cut.before.length + cut.text.length)
    obtain ⟨hsub₁, heq₁⟩ := ih₁ (place + cut.before.length + cut.text.length)
    obtain ⟨hsub₂, heq₂⟩ := ih₂ c.stop
    rw [outsideFrom_cut first, hout, Fragment.text_prepend after.ordered (by
      intro n hn
      obtain rfl := List.mem_singleton.1 hn
      rfl), List.flatMap_singleton]
    have hblock := Fragment.subperm_toBlock inside.ordered inside.key_eq_none
      (Tag.blockText cut.tag.inner) cut.tag.unescaped (start + cut.before.length)
    refine ⟨(List.subperm_append_left _).2 ((hblock.trans hsub₁).append hsub₂), fun helse => ?_⟩
    rw [placedTags_some first] at helse
    obtain ⟨helse₁, helse₂, hnone⟩ := helse.of_block kind hsplit fun u hu => by
      have := bounds_of_mem_placedTags hu
      exact ⟨this.1, by omega⟩
    have hsilent : ∀ n ∈ g.nodes, n.name = Node.elseName → n.text = [] := by
      intro n hn hname
      by_contra htext
      obtain ⟨t, ht, hopens⟩ := inside.exists_opensElse _ n hn hname htext
      exact hnone t ht hopens
    rw [Fragment.text_toBlock_of_silent inside.ordered inside.key_eq_none hsilent, heq₁ helse₁,
      heq₂ helse₂]

end Scanned

/-- **Compiling loses no text**, unless a block named `else` stands inside another. In any case a
template has no text but that of its source outside of tags, and none of it twice. -/
theorem text_of_compile {name : String} {source : List UInt8} {root : Node}
    (h : (Node.compile name source).value = .ok root) :
    root.text.Subperm (outsideTags source) ∧
      (NoElseWithin (tags source) → root.text = outsideTags source) := by
  obtain ⟨f, hs, rfl⟩ := compile_ok_iff.1 h
  have hroot : Node.text { Node.leaf name false 0 with
      block := f.block, children := f.nodes, bodySlot := Node.lastBody? f.nodes } = f.text 0 := by
    rw [Node.text_eq, Fragment.text_zero]
    exact List.append_nil _
  rw [hroot, outsideTags_eq, tags_eq]
  exact (scanned_iff.2 hs).text_eq 0

/-- Blocks with two branches inside each other, a tag that closes nothing and a block named `else`
in no other block. -/
def nestedBranches : List UInt8 :=
  Text.Utf8.bytesOf ("\x7b\x7b#if a\x7d\x7du\x7b\x7b#unless b\x7d\x7dv\x7b\x7belse\x7d\x7dw" ++
    "\x7b\x7b/unless\x7d\x7d\x7b\x7belse\x7d\x7dx\x7b\x7b/if\x7d\x7d\x7b\x7b/b\x7d\x7dy" ++
    "\x7b\x7b#else\x7d\x7dz\x7b\x7b/else\x7d\x7d")

theorem text_of_compile_nested :
    ∃ root, (Node.compile "page" nestedBranches).value = .ok root ∧
      root.text = outsideTags nestedBranches ∧
      outsideTags nestedBranches = Text.Utf8.bytesOf "uvwxyz" := by
  have hv : ((Node.compile "page" nestedBranches).value.toOption).isSome := by decide +kernel
  have helse : NoElseWithin (tags nestedBranches) := by decide +kernel
  cases h : (Node.compile "page" nestedBranches).value with
  | error e =>
    rw [h] at hv
    cases hv
  | ok root => exact ⟨root, rfl, (text_of_compile h).2 helse, by decide +kernel⟩

/-- A block named `else` inside another block. -/
def elseBlock : List UInt8 :=
  Text.Utf8.bytesOf ("\x7b\x7b#if a\x7d\x7dx\x7b\x7b#else\x7d\x7dlost\x7b\x7b/else\x7d\x7d" ++
    "y\x7b\x7b/if\x7d\x7d")

/-- **A block named `else` is taken for a divider, and its text is lost.** -/
theorem text_lost_in_else_block :
    ((Node.compile "page" elseBlock).value.toOption.map Node.text) =
        some (Text.Utf8.bytesOf "xy") ∧
      outsideTags elseBlock = Text.Utf8.bytesOf "xlosty" := by
  constructor <;> decide +kernel

end ThemePress.Template
