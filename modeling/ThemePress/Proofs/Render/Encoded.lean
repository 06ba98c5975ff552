import ThemePress.Proofs.Render.Links
import ThemePress.Proofs.Template.Written
import ThemePress.Proofs.Text.Form
import ThemePress.Proofs.Text.Markup

/-! # Fields as values in a query

`encode` puts what its argument yields into a query (`evaluate_encode`). The braces of the tag are
those of its argument, so in two braces a field is written with entities before it is encoded, and
in three it is not. Reading the value from the query therefore gives back the field itself in three
braces, and in two braces the field with its entities (`decode_encode_field`). -/

namespace ThemePress.Render

open ThemePress.Blog
open ThemePress.Template
open ThemePress.Template.TagText (Written)
open ThemePress.Text

/-- The tags that show a text of the blog's data as it is, but for entities. -/
inductive TextField where
  | title
  | blogTitle
  | blogDescription
  | authorName
  | tagName
  | label

namespace TextField

def name : TextField → String
  | title => "title"
  | blogTitle => "@blog.title"
  | blogDescription => "@blog.description"
  | authorName => "author.name"
  | tagName => "tag.name"
  | label => "label"

def helper : TextField → Helper
  | title => .title
  | blogTitle => .blogTitle
  | blogDescription => .blogDescription
  | authorName => .authorName
  | tagName => .tagName
  | label => .label

/-- The text in the data, empty where there is none. -/
def raw (p : Page) (c : Context) : TextField → String
  | title => ((c.post? p).map (·.title)).getD ""
  | blogTitle => p.blog.title
  | blogDescription => p.blog.description
  | authorName => ((c.author? p).map (·.name)).getD ""
  | tagName => ((Field.scopedTag? p c).map (·.name)).getD ""
  | label => ((c.navigation? p).map (·.label)).getD ""

theorem named?_name (f : TextField) : Helper.named? f.name = some f.helper := by
  cases f <;> decide

theorem shown_getD {α : Type} (n : Node) (get : α → String) (o : Option α) :
    (o.map fun a => shown n (get a)).getD "" = shown n ((o.map get).getD "") := by
  cases o with
  | none => cases hn : n.unescaped <;> simp [shown, hn, Entity.escape]
  | some a => rfl

/-- A field in a tag is written by the braces of the tag. -/
theorem evaluate_eq (f : TextField) {n : Node} (hn : n.name = f.name) (job : Job) (c : Context) :
    evaluate job job.inside n c = (Utf8.bytesOf (shown n (f.raw job.page c)), c) := by
  have hname : Helper.named? n.name = some f.helper := by rw [hn, f.named?_name]
  cases f with
  | blogTitle | blogDescription => exact evaluate_of_field hname (fun _ _ => rfl) c
  | title | authorName | tagName | label =>
    rw [evaluate_of_field hname (fun _ _ => rfl), raw, ← shown_getD]
    rfl

end TextField

/-- What `encode` yields is what its argument yields, as a value in a query. -/
theorem evaluate_encode {n argument : Node} (hn : n.name = "encode")
    (hargument : n.firstArgument? = some argument) {job : Job} {c c' : Context} {text : String}
    (h : evaluate job job.inside argument c = (Utf8.bytesOf text, c')) :
    evaluate job job.inside n c = (Utf8.bytesOf (Form.encode text), c') := by
  have hname : Helper.named? n.name = some .encode := by rw [hn]; decide
  have hoccurrence : (occurrence job job.inside n).argument =
      some (evaluate job job.inside argument) := by
    rw [occurrence, hargument]
    rfl
  have hencode : evaluate job job.inside n c =
      (Utf8.bytesOf (Form.encode (Utf8.readLossy (evaluate job job.inside argument c).1)),
        (evaluate job job.inside argument c).2) := by
    rw [evaluate_of_named? hname, Occurrence.run, Occurrence.encode, hoccurrence]
    rfl
  rw [hencode, h, Utf8.readLossy_bytesOf]

/-- However the tag is written, its argument has the braces of the tag. -/
theorem evaluate_encode_field (f : TextField) {text : String}
    {quotes quotes' : Option TagText.Quote}
    (h : Written [.word "encode" quotes, .word f.name quotes'] text.toList) (unescaped : Bool)
    (place : Nat) (job : Job) (c : Context) :
    evaluate job job.inside (Node.ofText text unescaped place [] [] none) c =
      (Utf8.bytesOf (Form.encode (shown (Node.leaf f.name unescaped 0) (f.raw job.page c))),
        c) := by
  have hpositional : (Node.leaf f.name unescaped 0).isPositional = true := by
    cases f <;> rfl
  rw [ofText_of_written h rfl unescaped place [] [] none]
  exact evaluate_encode rfl (Option.filter_eq_some_iff.2 ⟨rfl, hpositional⟩)
    (f.evaluate_eq rfl job c)

/-- **`encode` takes a field through a query, with the entities that its braces give it.** Reading
the value in the query gives back the field itself from a tag in three braces, and the field with
its entities from one in two. The two are the same just when the field has no ampersand, angle
bracket or quote. This goes for every way to write the tag, and whatever the page and the
context. -/
theorem decode_encode_field (f : TextField) {text : String} {quotes quotes' : Option TagText.Quote}
    (h : Written [.word "encode" quotes, .word f.name quotes'] text.toList) (place : Nat)
    (job : Job) (c : Context) :
    let raw := f.raw job.page c
    let tag (unescaped : Bool) := Node.ofText text unescaped place [] [] none
    ∃ escaped unescaped : String,
      evaluate job job.inside (tag false) c = (Utf8.bytesOf escaped, c) ∧
      evaluate job job.inside (tag true) c = (Utf8.bytesOf unescaped, c) ∧
      Form.decode unescaped = raw ∧ Form.decode escaped = Entity.escape raw ∧
      (Form.decode escaped = raw ↔
        ∀ ch ∈ raw.toList, ch ≠ '&' ∧ ch ≠ '<' ∧ ch ≠ '>' ∧ ch ≠ '"' ∧ ch ≠ '\'') := by
  intro raw tag
  refine ⟨_, _, evaluate_encode_field f h false place job c,
    evaluate_encode_field f h true place job c, Form.decode_encode _, Form.decode_encode _, ?_⟩
  rw [Form.decode_encode]
  refine escape_eq_self_iff.trans (forall₂_congr fun ch _ => ?_)
  simp [isMarkup, and_assoc]

theorem written_encode_blogTitle :
    Written [.word "encode" none, .word TextField.blogTitle.name none]
      "encode @blog.title".toList := by
  have hnone : ∀ c ∈ [], isBlank c = true := List.all_eq_true.1 rfl
  have hone : ∀ c ∈ [' '], isBlank c = true := List.all_eq_true.1 rfl
  exact .cons hnone (by decide) (by decide) (.cons hone (by decide) (by decide) (.nil hnone))

/-- A page of a blog with the given title. -/
def pageOfBlog (title : String) : Page where
  kind := .index
  blog := { title }

/-- Without special characters both tags give back the title. -/
theorem decode_encode_field_plain :
    let job : Job := { page := pageOfBlog "A B", registry := .empty "" }
    ∃ escaped : String,
      evaluate job job.inside (Node.ofText "encode @blog.title" false 0 [] [] none)
        (.start .index) = (Utf8.bytesOf escaped, .start .index) ∧ Form.decode escaped = "A B" := by
  intro job
  obtain ⟨escaped, -, hescaped, -, -, -, hiff⟩ :=
    decode_encode_field .blogTitle written_encode_blogTitle 0 job (.start .index)
  have hplain : "A B".toList.all (fun c => c != '&' && !isMarkup c) = true := by decide
  refine ⟨escaped, hescaped, hiff.2 fun ch hch => ?_⟩
  simpa [isMarkup, and_assoc] using List.all_eq_true.1 hplain ch hch

/-- **In two braces an ampersand is written as an entity and then encoded.** -/
theorem encode_of_ampersand :
    let job : Job := { page := pageOfBlog "A & B", registry := .empty "" }
    let tag (unescaped : Bool) := Node.ofText "encode @blog.title" unescaped 0 [] [] none
    evaluate job job.inside (tag false) (.start .index) =
        (Utf8.bytesOf "A+%26amp%3B+B", .start .index) ∧
      evaluate job job.inside (tag true) (.start .index) =
        (Utf8.bytesOf "A+%26+B", .start .index) ∧
      Form.decode "A+%26amp%3B+B" = "A &amp; B" ∧ Form.decode "A+%26+B" = "A & B" := by
  intro job tag
  have hevaluate := fun unescaped => evaluate_encode_field .blogTitle written_encode_blogTitle
    unescaped 0 job (.start .index)
  have hescaped : Form.encode (Entity.escape "A & B") = "A+%26amp%3B+B" := by decide +kernel
  have hplain : Form.encode "A & B" = "A+%26+B" := by decide +kernel
  exact ⟨hescaped ▸ hevaluate false, hplain ▸ hevaluate true, by decide +kernel, by decide +kernel⟩

end ThemePress.Render
