import ThemePress.Proofs.Template.Scanned

/-! # The order of a compiled tree

Each node remembers the place in its parent's bytes where its tag was cut out. `Ordered` says that
these places never go back and never lie beyond the bytes, and `AllOrdered` that this holds for all
nodes below as well. Scanning yields such nodes (`Scanned.ordered`), with places that count from the
start of the block. Splitting a block at its divider keeps them so, because the divider's own place
is one of them: nodes before it lie in the first branch, and nodes behind it in the second once its
place is taken off theirs. -/

namespace ThemePress.Template

namespace Node

/-- The nodes of a tree: the root, and the children and arguments of its nodes. -/
inductive Within (root : Node) : Node → Prop where
  | root : Within root root
  | child {n c : Node} (h : Within root n) (hc : c ∈ n.children) : Within root c
  | argument {n a : Node} (h : Within root n) (ha : a ∈ n.arguments) : Within root a

/-- The children stand in the order of their places, and none beyond the bytes of the node. -/
structure Ordered (n : Node) : Prop where
  sorted : n.children.Pairwise (·.position ≤ ·.position)
  le_length : ∀ c ∈ n.children, c.position ≤ n.block.length

/-- All nodes of a tree have their children in order. -/
inductive AllOrdered : Node → Prop where
  | mk {n : Node} (ordered : n.Ordered) (children : ∀ c ∈ n.children, AllOrdered c)
      (arguments : ∀ a ∈ n.arguments, AllOrdered a) : AllOrdered n

namespace AllOrdered

theorem ordered {n : Node} (h : n.AllOrdered) : n.Ordered := by
  cases h; assumption

theorem of_child {n c : Node} (h : n.AllOrdered) (hc : c ∈ n.children) : c.AllOrdered := by
  obtain ⟨-, h, -⟩ := h
  exact h c hc

theorem of_argument {n a : Node} (h : n.AllOrdered) (ha : a ∈ n.arguments) : a.AllOrdered := by
  obtain ⟨-, -, h⟩ := h
  exact h a ha

theorem of_within {root n : Node} (h : root.AllOrdered) (hn : root.Within n) : n.AllOrdered := by
  induction hn with
  | root => exact h
  | child _ hc ih => exact ih.of_child hc
  | argument _ ha ih => exact ih.of_argument ha

/-- A node without a block does not depend on its place. -/
theorem move {n : Node} (h : n.AllOrdered) (place : Nat) :
    AllOrdered { n with position := place } :=
  .mk ⟨h.ordered.sorted, h.ordered.le_length⟩ (fun _ => h.of_child) (fun _ => h.of_argument)

theorem leaf (name : String) (key : Option String) (unescaped : Bool) (place : Nat) :
    AllOrdered { Node.leaf name unescaped place with key } :=
  .mk ⟨.nil, by simp [Node.leaf]⟩ (by simp [Node.leaf]) (by simp [Node.leaf])

/-- The node of a tag is in order when its inside and its `else` branch are. -/
theorem ofText {text : String} {unescaped : Bool} {place : Nat} {block : List UInt8}
    {children : List Node} {branch : Option Node}
    (sorted : children.Pairwise (·.position ≤ ·.position))
    (le_length : ∀ c ∈ children, c.position ≤ block.length)
    (below : ∀ c ∈ children, c.AllOrdered) (other : ∀ b ∈ branch, b.AllOrdered) :
    (Node.ofText text unescaped place block children branch).AllOrdered := by
  refine .mk ⟨sorted, le_length⟩ below fun a ha => ?_
  simp only [Node.ofText, List.mem_append, List.mem_map, Option.mem_toList] at ha
  rcases ha with (⟨value, -, rfl⟩ | ⟨pair, -, rfl⟩) | ha
  · exact leaf ..
  · exact leaf ..
  · exact other a ha

end AllOrdered

end Node

/-! ### Fragments -/

namespace Fragment

/-- The nodes of a fragment that `start` bytes precede are in order, and so is all below them. -/
structure Ordered (start : Nat) (f : Fragment) : Prop where
  sorted : f.nodes.Pairwise (·.position ≤ ·.position)
  bounds : ∀ n ∈ f.nodes, start ≤ n.position ∧ n.position ≤ start + f.block.length
  below : ∀ n ∈ f.nodes, n.AllOrdered

variable {f : Fragment} {start : Nat} {literal : List UInt8} {nodes : List Node}

/-- Nodes at the place where a fragment starts can be put in front of it. -/
theorem Ordered.prepend (h : f.Ordered (start + literal.length))
    (place : ∀ n ∈ nodes, n.position = start + literal.length)
    (below : ∀ n ∈ nodes, n.AllOrdered) : (f.prepend literal nodes).Ordered start := by
  refine ⟨?_, fun n hn => ?_, fun n hn => ?_⟩
  · refine List.pairwise_append.2 ⟨?_, h.sorted, fun a ha b hb => ?_⟩
    · refine List.Pairwise.imp_of_mem (R := fun _ _ => True) (fun ha hb _ => ?_)
        (List.pairwise_of_forall fun _ _ => trivial)
      have := place _ ha
      have := place _ hb
      omega
    · rw [place a ha]
      exact (h.bounds b hb).1
  · simp only [Fragment.prepend, List.length_append, List.mem_append] at hn ⊢
    rcases hn with hn | hn
    · have := place n hn; omega
    · have := h.bounds n hn; omega
  · exact (List.mem_append.1 hn).elim (below n) (h.below n)

theorem nodes_eq {divider : Node} {later : List Node}
    (hd : f.nodes.dropWhile (·.name != Node.elseName) = divider :: later) :
    f.nodes = f.nodes.takeWhile (·.name != Node.elseName) ++ divider :: later := by
  rw [← hd, List.takeWhile_append_dropWhile]

/-- The first divider of a fragment lies in its bytes, behind the nodes before it and in front of
those after it. -/
theorem Ordered.divider {divider : Node} {later : List Node} (h : f.Ordered 0)
    (hd : f.nodes.dropWhile (·.name != Node.elseName) = divider :: later) :
    divider.position ≤ f.block.length ∧
      (∀ n ∈ f.nodes.takeWhile (·.name != Node.elseName), n.position ≤ divider.position) ∧
      ∀ n ∈ later, divider.position ≤ n.position := by
  have hs := h.sorted
  rw [nodes_eq hd, List.pairwise_append, List.pairwise_cons] at hs
  obtain ⟨-, ⟨hl, -⟩, ht⟩ := hs
  have hm : divider ∈ f.nodes := by rw [nodes_eq hd]; simp
  have := (h.bounds divider hm).2
  exact ⟨by omega, fun n hn => ht n hn divider (List.mem_cons_self ..), hl⟩

/-- The second branch of a block is in order, with the divider's place taken off. -/
theorem Ordered.branch {divider : Node} {later : List Node} (h : f.Ordered 0)
    (hd : f.nodes.dropWhile (·.name != Node.elseName) = divider :: later) :
    Node.AllOrdered { divider with
      block := f.block.drop divider.position
      children := later.map fun n => { n with position := n.position - divider.position } } := by
  obtain ⟨hle, -, hbehind⟩ := h.divider hd
  have hs : (divider :: later).Pairwise (·.position ≤ ·.position) := by
    have hs := h.sorted
    rw [nodes_eq hd] at hs
    exact hs.sublist (List.sublist_append_right ..)
  have hm : ∀ n ∈ divider :: later, n ∈ f.nodes := fun n hn => by
    rw [nodes_eq hd]
    exact List.mem_append_right _ hn
  refine .mk ⟨?_, fun c hc => ?_⟩ (fun c hc => ?_) fun a => ?_
  · refine List.pairwise_map.2 ((List.pairwise_cons.1 hs).2.imp_of_mem fun ha hb hab => ?_)
    have := hbehind _ ha
    have := hbehind _ hb
    dsimp only
    omega
  · obtain ⟨n, hn, rfl⟩ := List.mem_map.1 hc
    have := (h.bounds n (hm n (List.mem_cons_of_mem _ hn))).2
    simp only [List.length_drop]
    omega
  · obtain ⟨n, hn, rfl⟩ := List.mem_map.1 hc
    exact (h.below n (hm n (List.mem_cons_of_mem _ hn))).move _
  · exact (h.below divider (hm divider (List.mem_cons_self ..))).of_argument

/-- Both branches of a block are in order. -/
theorem Ordered.splitElse (h : f.Ordered 0) :
    f.splitElse.1.Ordered 0 ∧ ∀ b ∈ f.splitElse.2, b.AllOrdered := by
  unfold Fragment.splitElse
  split
  · exact ⟨h, by simp⟩
  · rename_i divider later hd
    obtain ⟨hle, hbefore, -⟩ := h.divider hd
    have ht := List.takeWhile_sublist (l := f.nodes) (·.name != Node.elseName)
    rw [Nat.min_eq_left hle]
    refine ⟨⟨h.sorted.sublist ht, fun n hn => ?_, fun n hn => h.below n (ht.subset hn)⟩, ?_⟩
    · have := hbefore n hn
      simp only [List.length_take]
      omega
    · intro b hb
      obtain rfl := Option.some.inj hb
      exact h.branch hd

theorem Ordered.toBlock (h : f.Ordered 0) (text : String) (unescaped : Bool) (place : Nat) :
    (f.toBlock text unescaped place).AllOrdered := by
  obtain ⟨hf, hb⟩ := h.splitElse
  unfold Fragment.toBlock
  generalize f.splitElse = s at hf hb
  obtain ⟨first, branch⟩ := s
  dsimp only at hf hb ⊢
  refine .ofText hf.sorted (fun c hc => ?_) hf.below hb
  have := (hf.bounds c hc).2
  omega

end Fragment

/-! ### Scanning -/

theorem Cut.mem_nodes {cut : Cut} {place : Nat} {n : Node} (h : n ∈ cut.nodes place) :
    n.position = place ∧ n.AllOrdered := by
  unfold Cut.nodes at h
  split at h
  · split at h
    · simp at h
    · obtain rfl := List.mem_singleton.1 h
      exact ⟨rfl, .ofText .nil (by simp) (by simp) (by simp)⟩
  · split at h
    · simp at h
    · obtain rfl := List.mem_singleton.1 h
      exact ⟨rfl, .ofText .nil (by simp) (by simp) (by simp)⟩
  · simp at h

/-- **Scanning yields nodes in order.** -/
theorem Scanned.ordered {start : Nat} {data : List UInt8} {f : Fragment}
    (h : Scanned start data f) : f.Ordered start := by
  induction h with
  | rest first => exact ⟨.nil, by simp, by simp⟩
  | tag first kind _ ih =>
    exact ih.prepend (fun n hn => (Cut.mem_nodes hn).1) fun n hn => (Cut.mem_nodes hn).2
  | block first kind closer _ _ ih₁ ih₂ =>
    refine ih₂.prepend (fun n hn => ?_) fun n hn => ?_
    · obtain rfl := List.mem_singleton.1 hn
      rfl
    · obtain rfl := List.mem_singleton.1 hn
      exact ih₁.toBlock ..

theorem ordered_of_scan {data : List UInt8} {f : Fragment} (h : (scan data).value = .ok f) :
    f.Ordered 0 :=
  (scanned_iff.2 h).ordered

/-- **A compiled tree is in order.** -/
theorem allOrdered_of_compile {name : String} {source : List UInt8} {root : Node}
    (h : (Node.compile name source).value = .ok root) : root.AllOrdered := by
  obtain ⟨f, hs, rfl⟩ := compile_ok_iff.1 h
  have hf := ordered_of_scan hs
  refine .mk ⟨hf.sorted, fun c hc => ?_⟩ hf.below (by simp [Node.leaf])
  have := (hf.bounds c hc).2
  dsimp only
  omega

end ThemePress.Template
