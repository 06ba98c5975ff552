import ThemePress.Proofs.Render.Links
import ThemePress.Proofs.Text.Decimal
import ThemePress.Proofs.Text.Words

/-! # How long an excerpt is

A tag can limit the excerpt of a post by the number of its characters or of its words. Attributes
that write a number are limits (`Gives`); a limit by characters goes first, and with neither there
is a limit of fifty words. Within its limit an excerpt loses no word and no character, and beyond
it there is none (`excerpt_limit`). -/

namespace ThemePress.Render

open ThemePress.Blog
open ThemePress.Template (Node)
open ThemePress.Text

/-- The attribute of the given key writes a number. -/
def Gives (n : Node) (key : String) (count : Nat) : Prop :=
  ∃ s, n.keyed? key = some s ∧ Decimal.Writes s count

theorem gives_iff {n : Node} {key : String} {count : Nat} :
    Gives n key count ↔ (n.keyed? key).bind Decimal.word? = some count := by
  simp only [Gives, Option.bind_eq_some_iff, Decimal.word?_eq_some_iff]

/-- The number of words that a tag asks for. -/
inductive WordLimit (n : Node) : Nat → Prop where
  | given {k : Nat} (h : Gives n "words" k) : WordLimit n k
  | standard (h : ∀ k, ¬ Gives n "words" k) : WordLimit n 50

namespace Excerpt

variable {n : Node}

theorem wordLimit_iff {k : Nat} :
    WordLimit n k ↔ ((n.keyed? "words").bind Decimal.word?).getD standardWords = k := by
  cases hw : (n.keyed? "words").bind Decimal.word? with
  | none =>
    have hnone : ∀ k, ¬ Gives n "words" k := fun k hk => by
      rw [gives_iff, hw] at hk
      cases hk
    exact ⟨fun | .given h => absurd h (hnone _) | .standard _ => rfl, fun | rfl => .standard hnone⟩
  | some j =>
    have hsome : Gives n "words" j := gives_iff.2 hw
    refine ⟨fun | .given h => ?_ | .standard h => absurd hsome (h j), fun | rfl => .given hsome⟩
    exact (Option.some_inj.1 ((gives_iff.1 h).symm.trans hw)).symm

/-- The words of a text that is cut after its first `k` words are these words. -/
theorem words_firstWords (k : Nat) (text : List Char) :
    words (firstWords k text) = (words text).take k := by
  rw [firstWords]
  split
  · next hlt => rw [List.take_of_length_le (Nat.le_of_lt hlt)]
  · exact words_intercalate_take text k

/-- Words are only taken off a text that has enough of them. -/
theorem firstWords_cases (k : Nat) (text : List Char) :
    (words text).length < k ∧ firstWords k text = text ∨
      k ≤ (words text).length ∧ firstWords k text = [' '].intercalate ((words text).take k) := by
  rw [firstWords]
  split
  · next hlt => exact .inl ⟨hlt, rfl⟩
  · next hle => exact .inr ⟨Nat.not_lt.1 hle, rfl⟩

theorem ofHtml_of_characters {count : Nat} (h : Gives n "characters" count) (html : String) :
    (ofHtml html (n.keyed? "characters") (n.keyed? "words")).toList =
      (plainText html.toList).take count := by
  unfold ofHtml
  rw [gives_iff.1 h]
  exact String.toList_ofList

theorem ofHtml_of_words (h : ∀ count, ¬ Gives n "characters" count) {k : Nat}
    (hk : WordLimit n k) (html : String) :
    (ofHtml html (n.keyed? "characters") (n.keyed? "words")).toList =
      firstWords k (plainText html.toList) := by
  have hnone : (n.keyed? "characters").bind Decimal.word? = none :=
    Option.eq_none_iff_forall_ne_some.2 fun count hcount => h count (gives_iff.2 hcount)
  unfold ofHtml
  rw [hnone, wordLimit_iff.1 hk]
  exact String.toList_ofList

end Excerpt

/-- An excerpt tag about a post shows its excerpt. -/
theorem evaluate_excerpt {n : Node} (hn : n.name = "excerpt") (job : Job) {c : Context}
    {post : Post} (hscope : c.scope = .post) (hpost : c.post? job.page = some post) :
    evaluate job job.inside n c =
      (Utf8.bytesOf (Excerpt.ofHtml post.html (n.keyed? "characters") (n.keyed? "words")), c) := by
  have hname : Helper.named? n.name = some .excerpt := by rw [hn]; decide
  rw [evaluate_of_field hname (fun _ _ => rfl), Field.excerpt, hscope, hpost]

/-- **Excerpts keep to their limit without losing words.** Up to a number of characters, an excerpt
is the start of the plain text of the post. Up to a number of words, its words are the first ones
of the plain text: it is either the whole text, when that has fewer words, or that many words are
there to be taken. -/
theorem excerpt_limit {n : Node} (hn : n.name = "excerpt") (job : Job) {c : Context} {post : Post}
    (hscope : c.scope = .post) (hpost : c.post? job.page = some post) :
    let text := Excerpt.plainText post.html.toList
    ∃ output : String, evaluate job job.inside n c = (Utf8.bytesOf output, c) ∧
      (∀ count, Gives n "characters" count →
        output.toList = text.take count ∧ output.length = min count text.length) ∧
      ((∀ count, ¬ Gives n "characters" count) → ∃ k, WordLimit n k ∧
        words output.toList = (words text).take k ∧
        (words output.toList).length = min k (words text).length ∧
        ((words text).length < k ∧ output.toList = text ∨
          k ≤ (words text).length ∧ output.toList = [' '].intercalate ((words text).take k))) := by
  intro text
  refine ⟨_, evaluate_excerpt hn job hscope hpost, fun count hcount => ?_, fun hnone => ?_⟩
  · have hlist := Excerpt.ofHtml_of_characters hcount post.html
    refine ⟨hlist, ?_⟩
    rw [← String.length_toList, hlist, List.length_take]
  · obtain ⟨k, hk⟩ : ∃ k, WordLimit n k := ⟨_, Excerpt.wordLimit_iff.2 rfl⟩
    have hlist := Excerpt.ofHtml_of_words hnone hk post.html
    refine ⟨k, hk, ?_⟩
    rw [hlist, Excerpt.words_firstWords, List.length_take]
    exact ⟨rfl, rfl, Excerpt.firstWords_cases k text⟩

/-- A limit of as many words as there are keeps them all. -/
theorem excerpt_limit_all_words :
    let post : Post := { id := 1, html := "<p>one\n <b>two</b></p>" }
    let page : Page := { kind := .post, blog := {}, posts := [post] }
    let job : Job := { page, registry := .empty "" }
    let limit : Node := { Node.leaf "2" false 0 with key := some "words" }
    let tag : Node := { Node.leaf "excerpt" false 0 with arguments := [limit] }
    ∃ output : String,
      evaluate job job.inside tag (.start .post) = (Utf8.bytesOf output, .start .post) ∧
        words output.toList = [['o', 'n', 'e'], ['t', 'w', 'o']] := by
  intro post page job limit tag
  have hpost : (Context.start .post).post? job.page = some post := rfl
  obtain ⟨output, hevaluate, -, hwords⟩ := excerpt_limit (n := tag) rfl job rfl hpost
  have hcharacters : ∀ count, ¬ Gives tag "characters" count := fun count h => by
    rw [gives_iff] at h
    cases h
  obtain ⟨k, hk, hfirst, -⟩ := hwords hcharacters
  have hgiven : ((tag.keyed? "words").bind Decimal.word?).getD Excerpt.standardWords = 2 := by
    decide
  obtain rfl : 2 = k := hgiven.symm.trans (Excerpt.wordLimit_iff.1 hk)
  exact ⟨output, hevaluate, hfirst.trans (by decide)⟩

end ThemePress.Render
