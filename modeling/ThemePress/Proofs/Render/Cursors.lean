import ThemePress.Proofs.Render.InTurn
import ThemePress.Proofs.Render.Links
import ThemePress.Proofs.Render.Visits

/-! # What stands under the cursors

A cursor may stand outside its collection: on a page without posts, in a post block all the same, or
in a context that was made so. A tag that shows what stands under such a cursor yields nothing.

The tags that ask where a loop stands (`Question`) look only at the cursor and at the length of the
collection. Within it they answer as their names say (`Question.test_iff_of_lt`). Outside they
answer too, as if the loop went on (`outside_of_collections`): the first place is the first even if
nothing is there. Only the number behind a cursor could go beyond 64 bits, and it never does while a
page is rendered, since loops and post blocks set cursors within collections or to the first
place. -/

namespace ThemePress.Render

open ThemePress.Text
open ThemePress.Template (Node)

/-! ### Questions -/

/-- The questions that tags ask about the place of a loop. -/
inductive Question where
  | first
  | last
  | even
  | odd
  deriving DecidableEq, Repr

namespace Question

/-- The tag that asks the question. -/
def name : Question → String
  | first => "@first"
  | last => "@last"
  | even => "@even"
  | odd => "@odd"

/-- What the question is about, with elements counted from one. -/
def Holds (i length : Nat) : Question → Prop
  | first => i = 0
  | last => i + 1 = length
  | even => i % 2 = 1
  | odd => i % 2 = 0

/-- How the question is answered. -/
def test (i length : Nat) : Question → Bool
  | first => i == 0
  | last => (i + 1) % Decimal.wordCount == length
  | even => i % 2 == 1
  | odd => i % 2 == 0

variable (q : Question) {i length : Nat} {job : Job} {n : Node}

/-- Behind the greatest cursor comes zero, which is the length of an empty collection. -/
theorem test_iff (hi : i < Decimal.wordCount) (hl : length < Decimal.wordCount) :
    q.test i length = true ↔
      q.Holds i length ∨ q = .last ∧ i + 1 = Decimal.wordCount ∧ length = 0 := by
  cases q with
  | last =>
    rw [test, Holds, beq_iff_eq]
    obtain hi | hi := Nat.lt_or_eq_of_le (Nat.succ_le_of_lt hi)
    · rw [Nat.mod_eq_of_lt hi]
      simp only [true_and]
      omega
    · rw [Nat.succ_eq_add_one] at hi
      rw [hi, Nat.mod_self]
      simp only [true_and]
      omega
  | first | even | odd => simp [test, Holds]

/-- Within the collection there is no such case. -/
theorem test_iff_of_lt (hi : i < length) (hl : length < Decimal.wordCount) :
    q.test i length = true ↔ q.Holds i length := by
  rw [q.test_iff (Nat.lt_trans hi hl) hl]
  exact or_iff_left fun h => absurd h.2.2 (by omega)

/-- The helper of that tag. -/
def helper : Question → Helper
  | first => .first
  | last => .last
  | even => .even
  | odd => .odd

theorem named?_name : Helper.named? q.name = some q.helper := by
  cases q <;> decide

theorem evaluate_eq (h : n.name = q.name) (c : Context) :
    evaluate job job.inside n c =
      (Utf8.bytesOf (truth ((c.iteration? job.page).any fun (i, length) => q.test i length)),
        c) := by
  have hname : Helper.named? n.name = some q.helper := by rw [h, q.named?_name]
  cases q <;> exact evaluate_of_field hname (fun _ _ => rfl) c

/-- An answer is a text that is not empty. -/
theorem output_ne_nil (h : n.name = q.name) {c : Context}
    (hc : c.iteration? job.page = some (i, length)) :
    (evaluate job job.inside n c).1 ≠ [] ↔ q.test i length = true := by
  rw [q.evaluate_eq h, ne_eq, Utf8.bytesOf_eq_nil_iff, hc]
  cases htest : q.test i length <;> simp [truth, htest]

end Question

/-! ### Collections -/

/-- How many elements the collection has that a loop about `s` goes through. -/
def Context.count (p : Page) (c : Context) : Scope → Nat
  | .post => p.posts.length
  | .tag => (c.postTags p).length
  | .navigation => p.blog.navigation.length
  | .index | .author => 0

/-- The tags that show something of the element under the cursor of `s`. -/
def Scope.tags : Scope → List String
  | .post => ["title", "id", "post.id", "content", "featured"]
  | .tag => ["name"]
  | .navigation => ["label", "slug"]
  | .index | .author => []

section
variable {p : Page} {c : Context}

theorem post?_eq_none (h : c.count p .post ≤ c.cursor .post) : c.post? p = none :=
  List.getElem?_eq_none h

theorem postTag?_eq_none (h : c.count p .tag ≤ c.cursor .tag) : c.postTag? p = none := by
  unfold Context.count Context.postTags at h
  unfold Context.postTag?
  cases hpost : c.post? p with
  | none => rfl
  | some post =>
    rw [hpost] at h
    exact List.getElem?_eq_none h

theorem navigation?_eq_none (h : c.count p .navigation ≤ c.cursor .navigation) :
    c.navigation? p = none :=
  List.getElem?_eq_none h

variable {job : Job} {n : Node}

/-- A field that is empty leaves nothing in the page. -/
theorem evaluate_of_empty (helper : Helper) {f : Field} (hname : Helper.named? n.name = some helper)
    (hfield : ∀ deeper (o : Occurrence (StateM Context)), o.run job deeper helper = o.field job f)
    (hf : f job.page c n = "") : evaluate job job.inside n c = ([], c) := by
  rw [evaluate_of_field hname hfield, hf]
  rfl

/-- What is not there is not shown. -/
theorem evaluate_of_past {s : Scope} (hs : c.count job.page s ≤ c.cursor s)
    (hn : n.name ∈ s.tags) (hscope : s = .tag → c.scope = .tag) :
    evaluate job job.inside n c = ([], c) := by
  cases s with
  | post =>
    have hpost := post?_eq_none hs
    simp only [Scope.tags, List.mem_cons, List.not_mem_nil, or_false] at hn
    obtain h | h | h | h | h := hn
    · exact evaluate_of_empty .title (by rw [h]; decide) (fun _ _ => rfl)
        (by rw [Field.ofPost, hpost]; rfl)
    · exact evaluate_of_empty .id (by rw [h]; decide) (fun _ _ => rfl)
        (by rw [Field.id, hpost]; rfl)
    · exact evaluate_of_empty .id (by rw [h]; decide) (fun _ _ => rfl)
        (by rw [Field.id, hpost]; rfl)
    · exact evaluate_of_empty .content (by rw [h]; decide) (fun _ _ => rfl)
        (by rw [Field.content, hpost]; rfl)
    · exact evaluate_of_empty .featured (by rw [h]; decide) (fun _ _ => rfl)
        (by rw [Field.featured, hpost]; rfl)
  | tag =>
    have hname : n.name = "name" := List.mem_singleton.1 hn
    exact evaluate_of_empty .name (by rw [hname]; decide) (fun _ _ => rfl)
      (by rw [Field.name, hscope rfl, postTag?_eq_none hs]; rfl)
  | navigation =>
    have hitem := navigation?_eq_none hs
    simp only [Scope.tags, List.mem_cons, List.not_mem_nil, or_false] at hn
    obtain h | h := hn
    · exact evaluate_of_empty .label (by rw [h]; decide) (fun _ _ => rfl)
        (by rw [Field.ofNavigation, hitem]; rfl)
    · exact evaluate_of_empty .slug (by rw [h]; decide) (fun _ _ => rfl)
        (by rw [Field.ofNavigation, hitem]; rfl)
  | index | author => exact nomatch hn

end

/-! ### Words -/

/-- The lengths of all collections fit into 64 bits. -/
def Page.FitsWords (p : Page) : Prop :=
  ∀ (c : Context) (s : Scope), c.count p s < Decimal.wordCount

theorem Page.Sets.succ_lt {p : Page} (hp : p.FitsWords) {s : Scope} {i : Nat} (h : p.Sets s i) :
    i + 1 < Decimal.wordCount := by
  cases h with
  | post h => exact Nat.lt_of_le_of_lt h (hp { scope := .post } .post)
  | tag c h => exact Nat.lt_of_le_of_lt h (hp c .tag)
  | navigation h => exact Nat.lt_of_le_of_lt h (hp { scope := .navigation } .navigation)
  | first => decide

/-! ### Places -/

/-- Outputs are put in within what they are put into, where the children are in order. -/
theorem inPlace_of_ordered {n : Node} (h : n.Ordered) (job : Job) (fill : Option (List UInt8))
    (skip : Nat) (c : Context) :
    InPlace 0 n.block (Action.outputs ((childParts job job.inside n fill).drop skip) c).1 := by
  rw [outputs_childParts]
  exact (splice_in_turn h job fill skip c).1

/-! ### Outside of collections -/

/-- **What is not there is not shown, but it has a place.** Wherever the cursors stand:

* a tag that shows something of the element under a cursor yields nothing when there is none;
* a question is answered by the cursor and the length of the collection alone, whether there is an
  element or not, and not at all where no collection is looked at;
* while a tag is rendered, no cursor gets so far that the next number does not fit into 64 bits,
  when none is from the start;
* the outputs of the children of a compiled node are put in within its bytes. -/
theorem outside_of_collections (job : Job) (n : Node) (c : Context) :
    (∀ s : Scope, c.count job.page s ≤ c.cursor s → n.name ∈ s.tags →
      (s = .tag → c.scope = .tag) → evaluate job job.inside n c = ([], c)) ∧
    (∀ q : Question, n.name = q.name →
      (c.iteration? job.page = none → evaluate job job.inside n c = ([], c)) ∧
      ∀ i length, c.iteration? job.page = some (i, length) →
        i < Decimal.wordCount → length < Decimal.wordCount →
        ((evaluate job job.inside n c).1 ≠ [] ↔
          q.Holds i length ∨ q = .last ∧ i + 1 = Decimal.wordCount ∧ length = 0)) ∧
    (job.observed.evaluate n 0 c =
        ((evaluate job job.inside n c).1, (evaluate job job.inside n c).2, job.tagVisits n c) ∧
      (job.page.FitsWords → (∀ s, c.cursor s + 1 < Decimal.wordCount) →
        ∀ v ∈ job.tagVisits n c, ∀ s, v.context.cursor s + 1 < Decimal.wordCount)) ∧
    ∀ {name source root}, (Node.compile name source).value = .ok root → root.Within n →
      ∀ fill skip,
        InPlace 0 n.block (Action.outputs ((childParts job job.inside n fill).drop skip) c).1 := by
  obtain ⟨hrun, hhistory⟩ := job.observed_tag n c
  refine ⟨fun s hs hn hscope => evaluate_of_past hs hn hscope, fun q hq => ⟨fun h => ?_, ?_⟩,
    ⟨hrun, fun hp hc v hv s => ?_⟩, fun h hn fill skip => ?_⟩
  · rw [q.evaluate_eq hq, h]
    rfl
  · intro i length h hi hl
    rw [q.output_ne_nil hq h, q.test_iff hi hl]
  · have hsets : ∀ s i, job.page.Sets s i → i < Decimal.wordCount - 1 := fun s i hs =>
      Nat.lt_sub_of_add_lt (hs.succ_lt hp)
    exact Nat.add_lt_of_lt_sub
      (hhistory.cursor_lt hsets (fun s => Nat.lt_sub_of_add_lt (hc s)) hv s)
  · exact inPlace_of_ordered ((Template.allOrdered_of_compile h).of_within hn).ordered ..

/-- The job of rendering a page that has nothing on it. -/
def emptyJob : Job where
  page := { kind := .index, blog := {} }
  registry := .empty ""

/-- The fifth of no posts has no title, but it is odd. -/
theorem outside_of_collections_fifth :
    let c : Context := { scope := .post, postIndex := 4 }
    c.count emptyJob.page .post ≤ c.cursor .post ∧
      evaluate emptyJob emptyJob.inside (Node.leaf "title" false 0) c = ([], c) ∧
      (evaluate emptyJob emptyJob.inside (Node.leaf "@odd" false 0) c).1 ≠ [] ∧
      ∀ v ∈ emptyJob.tagVisits (Node.leaf "@odd" false 0) c, ∀ s,
        v.context.cursor s + 1 < Decimal.wordCount := by
  intro c
  have hc : c.count emptyJob.page .post ≤ c.cursor .post := by decide
  have hfits : emptyJob.page.FitsWords := fun c s => by
    have hnone : c.count emptyJob.page s = 0 := by cases s <;> rfl
    rw [hnone]
    decide
  obtain ⟨hshown, -, -, -⟩ := outside_of_collections emptyJob (Node.leaf "title" false 0) c
  obtain ⟨-, hasked, ⟨-, hwords⟩, -⟩ :=
    outside_of_collections emptyJob (Node.leaf "@odd" false 0) c
  refine ⟨hc, hshown .post hc (by decide) (by decide), ?_,
    hwords hfits fun s => by cases s <;> decide⟩
  exact ((hasked .odd rfl).2 4 0 rfl (by decide) (by decide)).2 (.inl rfl)

/-- A question in a post block. -/
def firstInPost : List UInt8 :=
  "\x7b\x7b#post\x7d\x7d\x7b\x7b@first\x7d\x7d\x7b\x7b/post\x7d\x7d".toUTF8.toList

/-- **Where there are no posts, a post block is about the first of them.** -/
theorem first_of_no_posts :
    emptyJob.page.posts = [] ∧
      (Node.compile "index" firstInPost).value.toOption.map (fun root =>
        (emptyJob.render root (.start .index)).1) = some (Utf8.bytesOf "1") :=
  ⟨rfl, by decide +kernel⟩

end ThemePress.Render
