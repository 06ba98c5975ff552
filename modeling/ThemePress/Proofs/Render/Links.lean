import ThemePress.Proofs.Render.Parts
import ThemePress.Proofs.Text.Decimal

/-! # Links between the pages of a listing

A tag for a field puts the text of its field into the page and leaves the context alone
(`evaluate_of_field`). Two kinds of these tags are about the pages before and after the one that is
rendered: one gives the address of such a page (`IsAddressTag`), the other says whether it is there
(`IsPresenceTag`). Both go by one condition, so one kind yields nothing just when the other does. -/

namespace ThemePress.Render

open ThemePress.Template (Node)
open ThemePress.Text

/-- What a tag yields where its helper shows a field. -/
theorem evaluate_of_run {job : Job} {n : Node} {helper : Helper} {f : Field}
    (hname : Helper.named? n.name = some helper)
    (hrun : (occurrence job job.inside n).run job job.inside helper =
      (occurrence job job.inside n).field job f)
    (c : Context) : evaluate job job.inside n c = (Utf8.bytesOf (f job.page c n), c) := by
  rw [evaluate_of_named? hname, hrun]
  rfl

/-- What a tag yields that shows a field, in any context. -/
theorem evaluate_of_field {job : Job} {n : Node} {helper : Helper} {f : Field}
    (hname : Helper.named? n.name = some helper)
    (hfield : ∀ deeper (o : Occurrence (StateM Context)), o.run job deeper helper = o.field job f)
    (c : Context) : evaluate job job.inside n c = (Utf8.bytesOf (f job.page c n), c) :=
  evaluate_of_run hname (hfield _ _) c

/-! ### Addresses -/

namespace Link

variable {base : String} {number number' : Int}

theorem ofPage_ne_empty (base : String) (number : Int) : ofPage base number ≠ "" := by
  unfold ofPage
  split <;> simp

/-- The address of a page behind the first is longer than that of the first. -/
theorem ofPage_ne_first (h : 1 < number) : ofPage base number ≠ ofPage base 1 := by
  intro he
  have hlen := congrArg String.length he
  simp only [ofPage, if_pos h, if_neg (Int.lt_irrefl 1), String.length_append] at hlen
  have hmark : "/page/".length = 6 := rfl
  omega

/-- A number can be read back from its digits. -/
theorem toString_inj (h : 0 ≤ number) (h' : 0 ≤ number') :
    toString number = toString number' ↔ number = number' := by
  obtain ⟨n, rfl⟩ := Int.eq_ofNat_of_zero_le h
  obtain ⟨n', rfl⟩ := Int.eq_ofNat_of_zero_le h'
  rw [Int.natCast_inj]
  exact Decimal.toString_inj

/-- Pages of one listing have different addresses. -/
theorem ofPage_inj (h : 1 ≤ number) (h' : 1 ≤ number') :
    ofPage base number = ofPage base number' ↔ number = number' := by
  refine ⟨fun he => ?_, congrArg (ofPage base)⟩
  rcases Int.le_iff_lt_or_eq.1 h with hn | rfl
  · rcases Int.le_iff_lt_or_eq.1 h' with hn' | rfl
    · simp only [ofPage, if_pos hn, if_pos hn', String.append_left_inj, String.append_right_inj] at he
      exact (toString_inj (by omega) (by omega)).1 he
    · exact absurd he (ofPage_ne_first hn)
  · rcases Int.le_iff_lt_or_eq.1 h' with hn' | rfl
    · exact absurd he.symm (ofPage_ne_first hn')
    · rfl

end Link

/-! ### Directions -/

/-- The directions in which a page has a neighbour. -/
inductive Direction where
  | previous
  | next
  deriving DecidableEq, Repr

namespace Direction

/-- What the direction is called in templates. -/
def words : Direction → List String
  | previous => ["prev", "pagination.prev"]
  | next => ["next", "pagination.next"]

/-- The number of the neighbour. -/
def neighbour (number : Int) : Direction → Int
  | previous => number - 1
  | next => number + 1

/-- Is there a neighbour, by the number of pages that is counted? -/
def isCounted (p : Page) : Direction → Bool
  | previous => Field.hasPrevious p
  | next => Field.hasNext p

/-- The tag gives the address of the neighbour. -/
def IsAddressTag (d : Direction) (n : Node) : Prop :=
  (n.name = "page_url" ∨ n.name = "pageUrl") ∧ ∃ a, n.firstArgument? = some a ∧ a.name ∈ d.words

/-- The tag says whether there is a neighbour. -/
def IsPresenceTag (d : Direction) (n : Node) : Prop :=
  n.name ∈ d.words

/-- The helper of the tags that say whether there is a neighbour. -/
def helper : Direction → Helper
  | previous => .previous
  | next => .next

theorem named?_of_mem_words (d : Direction) :
    ∀ word ∈ d.words, Helper.named? word = some d.helper := by
  cases d <;> decide

variable {d : Direction} {job : Job} {n : Node}

theorem evaluate_presence (h : d.IsPresenceTag n) (c : Context) :
    evaluate job job.inside n c = (Utf8.bytesOf (truth (d.isCounted job.page)), c) :=
  evaluate_of_field (f := fun p _ _ => truth (d.isCounted p)) (d.named?_of_mem_words _ h)
    (fun _ _ => by cases d <;> rfl) c

theorem pageUrl_eq {a : Node} (ha : n.firstArgument? = some a) (hword : a.name ∈ d.words) (p : Page)
    (c : Context) :
    Field.pageUrl p c n = if d.isCounted p then
      Link.ofPage (Field.listingBase p c) (d.neighbour p.number) else "" := by
  unfold Field.pageUrl
  rw [ha, Option.map_some]
  cases d with
  | previous =>
    have hname : a.name = "prev" ∨ a.name = "pagination.prev" := by simpa [words] using hword
    rcases hname with e | e <;> rw [e] <;> rfl
  | next =>
    have hname : a.name = "next" ∨ a.name = "pagination.next" := by simpa [words] using hword
    rcases hname with e | e <;> rw [e] <;> rfl

theorem evaluate_address (h : d.IsAddressTag n) (c : Context) :
    evaluate job job.inside n c =
      (Utf8.bytesOf (if d.isCounted job.page then
        Link.ofPage (Field.listingBase job.page c) (d.neighbour job.page.number) else ""), c) := by
  obtain ⟨hname, a, ha, hword⟩ := h
  have hhelper : Helper.named? n.name = some .pageUrl := by
    rcases hname with e | e <;> rw [e] <;> decide
  rw [evaluate_of_field hhelper (fun _ _ => rfl) c, pageUrl_eq ha hword]

end Direction

end ThemePress.Render
