import ThemePress.Proofs.Render.Visits

/-! # Blocks set aside

A tag can set its inside aside under a name (`SetsAsideAs`), and other tags show what is set aside
under a name (`ShowsBlock`). Blocks are kept in the order in which they are met, and the first of a
name is the one that is shown. So a tag shows nothing until a block of its name is met, and from
then on always that one, wherever it stands and whatever is set aside later
(`first_block_shows`). -/

namespace ThemePress.Render

open ThemePress.Text
open ThemePress.Template (Node)

/-- The tag sets itself aside under the name `x`. -/
def SetsAsideAs (x : String) (n : Node) : Prop :=
  n.name = "contentFor" ∧ n.firstArgument?.map (·.name) = some x

/-- The tag shows what is set aside under the name `x`. -/
def ShowsBlock (x : String) (n : Node) : Prop :=
  n.name = "block" ∧ n.firstArgument?.map (·.name) = some x

/-- Does a block that was set aside go by the name `x`? -/
def goesBy (x : String) (n : Node) : Bool :=
  n.firstArgument?.any (·.name == x)

/-- The block that is shown for the name `x`. -/
def Context.block? (c : Context) (x : String) : Option Node :=
  c.collected.find? (goesBy x)

theorem goesBy_iff {x : String} {n : Node} :
    goesBy x n = true ↔ n.firstArgument?.map (·.name) = some x := by
  unfold goesBy
  cases n.firstArgument? with
  | none => simp
  | some a => simp

theorem setsAside_iff {n : Node} : setsAside n = true ↔ n.name = "contentFor" := by
  have htable : ∀ entry ∈ Helper.table, entry.2 = .contentFor → entry.1 = "contentFor" := by decide
  rw [setsAside, beq_iff_eq]
  constructor
  · intro h
    obtain ⟨entry, hfound, hhelper⟩ := Option.map_eq_some_iff.1 h
    have hname : entry.1 = n.name := by simpa using List.find?_some hfound
    rw [← hname]
    exact htable entry (List.mem_of_find?_eq_some hfound) hhelper
  · intro h
    rw [h]
    decide

theorem mem_blocksOf {visits : List Visit} {n : Node} :
    n ∈ blocksOf visits ↔ (∃ v ∈ visits, v.node = n) ∧ setsAside n = true := by
  rw [blocksOf, List.mem_filter, List.mem_map]

variable {job : Job} {x : String} {n : Node}

/-- What such a tag yields. -/
theorem evaluate_block (h : ShowsBlock x n) (c : Context) :
    evaluate job job.inside n c = Occurrence.foundBlock job job.inside x (c.block? x) c := by
  have hname : Helper.named? n.name = some .contentBlock := by rw [h.1]; decide
  have hnode : (occurrence job job.inside n).node = n := rfl
  rw [evaluate_of_named? hname]
  show (occurrence job job.inside n).contentBlock job job.inside c = _
  unfold Occurrence.contentBlock
  rw [hnode, h.2]
  rfl

/-- Where a block is set aside under its name, such a tag shows it one level deeper. -/
theorem output_block (h : ShowsBlock x n) {c : Context} {found : Node}
    (hc : c.block? x = some found) (hd : c.depth < job.limit) :
    (evaluate job job.inside n c).1 = (job.inside found none c.enter).1 := by
  rw [evaluate_block h, hc, Occurrence.foundBlock, nested_run _ hd]

/-! ### What is set aside before a tag -/

section
variable {visits : List Visit}

theorem find?_blocksOf_eq_none (h : ∀ w ∈ visits, ¬ SetsAsideAs x w.node) :
    (blocksOf visits).find? (goesBy x) = none := by
  refine List.find?_eq_none.2 fun n hn hx => ?_
  obtain ⟨⟨w, hw, rfl⟩, hsets⟩ := mem_blocksOf.1 hn
  exact h w hw ⟨setsAside_iff.1 hsets, goesBy_iff.1 hx⟩

theorem find?_blocksOf_eq_some {w : Visit} {before after : List Visit}
    (h : ∀ u ∈ before, ¬ SetsAsideAs x u.node) (hw : SetsAsideAs x w.node) :
    (blocksOf (before ++ w :: after)).find? (goesBy x) = some w.node := by
  rw [blocksOf_append, blocksOf_cons_of_pos (setsAside_iff.2 hw.1), List.find?_append,
    find?_blocksOf_eq_none h, Option.none_or, List.find?_cons_of_pos (goesBy_iff.2 hw.2)]

theorem block?_at {moves : Nat} {c c' : Context} (h : History job moves c visits c')
    {before after : List Visit} {v : Visit} (hv : visits = before ++ v :: after) :
    v.context.block? x = (c.block? x).or ((blocksOf before).find? (goesBy x)) := by
  rw [Context.block?, h.collected_at hv, List.find?_append]
  rfl

end

/-! ### The first of a name -/

/-- **The first block of a name is the one that is shown.** Take any tag that shows what is set
aside under the name `x`, wherever it is rendered: in the template, in one that this includes, in a
layout, in a round of a loop or in another such block.

* If no block of that name is set aside from the start, and none was met before, it yields nothing.
* If one is from the start, it yields the first of these, rendered in its own context.
* If none is, but one was met before, it yields the first that was met, rendered in its own context:
  neither the tags in between nor those behind matter. -/
theorem first_block_shows (job : Job) (n : Node) (fill : Option (List UInt8)) (c : Context)
    (x : String) :
    job.observed.inside n fill 0 c =
        ((job.inside n fill c).1, (job.inside n fill c).2, job.visits n fill c) ∧
    ∀ before v after, job.visits n fill c = before ++ v :: after → ShowsBlock x v.node →
      (c.block? x = none → (∀ w ∈ before, ¬ SetsAsideAs x w.node) → v.output = []) ∧
      (∀ first, c.block? x = some first → v.context.depth < job.limit →
        v.output = (job.inside first none v.context.enter).1) ∧
      ∀ earlier w between, before = earlier ++ w :: between → c.block? x = none →
        (∀ u ∈ earlier, ¬ SetsAsideAs x u.node) → SetsAsideAs x w.node →
        v.context.depth < job.limit →
        v.output = (job.inside w.node none v.context.enter).1 := by
  obtain ⟨hrun, hhistory⟩ := job.observed_inside n fill c
  refine ⟨hrun, fun before v after hvisits hv => ?_⟩
  have houtput : v.output = (evaluate job job.inside v.node v.context).1 :=
    hhistory.output (by rw [hvisits]; simp)
  have hblock := block?_at (x := x) hhistory hvisits
  rw [houtput]
  refine ⟨fun hc hnone => ?_, fun first hc hd => ?_,
    fun earlier w between hbefore hc hnone hw hd => ?_⟩
  · rw [hc, find?_blocksOf_eq_none hnone] at hblock
    rw [evaluate_block hv, hblock]
    rfl
  · rw [hc] at hblock
    exact output_block hv hblock hd
  · rw [hc, hbefore, find?_blocksOf_eq_some hnone hw] at hblock
    exact output_block hv hblock hd

/-- A tag about the name `k`, with the given bytes inside. -/
def aboutK (name : String) (block : List UInt8) : Node :=
  { Node.leaf name false 0 with arguments := [Node.leaf "k" false 0], block }

/-- Asks for a block, sets two aside under its name, and asks for it again. -/
def twiceSetAside : Node :=
  { Node.leaf "page" false 0 with
    children := [aboutK "block" [], aboutK "contentFor" [0x61], aboutK "contentFor" [0x62],
      aboutK "block" []] }

def blockJob : Job where
  page := { kind := .index, blog := {} }
  registry := .empty ""

theorem first_block_shows_twice_set :
    ∃ unset first second shown,
      blockJob.visits twiceSetAside none (.start .index) = [unset, first, second, shown] ∧
      SetsAsideAs "k" first.node ∧ SetsAsideAs "k" second.node ∧ unset.output = [] ∧
      shown.output = (blockJob.inside first.node none shown.context.enter).1 ∧
      shown.output = [0x61] := by
  let c : Context := .start .index
  let unset : Visit := ⟨aboutK "block" [], c, 0, []⟩
  let first : Visit := ⟨aboutK "contentFor" [0x61], c, 0, []⟩
  let second : Visit := ⟨aboutK "contentFor" [0x62], c.collect first.node, 0, []⟩
  let shown : Visit :=
    ⟨aboutK "block" [], (c.collect first.node).collect second.node, 0, [0x61]⟩
  have hvisits : blockJob.visits twiceSetAside none c = [unset, first, second, shown] := rfl
  have hshows : ShowsBlock "k" (aboutK "block" []) := ⟨rfl, rfl⟩
  have hsets : ∀ block, SetsAsideAs "k" (aboutK "contentFor" block) := fun _ => ⟨rfl, rfl⟩
  have hother : ¬ SetsAsideAs "k" (aboutK "block" []) := fun h => absurd h.1 (by decide)
  have hall := (first_block_shows blockJob twiceSetAside none c "k").2
  refine ⟨unset, first, second, shown, hvisits, hsets _, hsets _, ?_, ?_, rfl⟩
  · exact (hall [] unset [first, second, shown] hvisits hshows).1 rfl nofun
  · refine (hall [unset, first, second] shown [] hvisits hshows).2.2 [unset] first [second] rfl rfl
      (fun u hu => ?_) (hsets _) (by decide)
    obtain rfl := List.mem_singleton.1 hu
    exact hother

end ThemePress.Render
