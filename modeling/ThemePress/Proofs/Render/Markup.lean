import ThemePress.Proofs.Render.Links
import ThemePress.Proofs.Text.Markup

/-! # Markup in what tags yield

Some tags put markup of their own around texts of the data: links, classes, the metadata of a page.
To see which markup is the tag's own, the page is compared with the same page without texts
(`Page.blank`), which has as many posts, tags and authors, of the same numbers, dates and flags.

Titles, names, descriptions and images are written with entities, so they bring in no markup. Slugs
in addresses and classes, the plain text of a post and the path of the page are written as they are
(`Composite.raw`). A tag yields the markup of the blank page just when these have none
(`markup_of_data_iff`). -/

namespace ThemePress.Blog

/-! ### Without texts -/

def Author.blank (a : Author) : Author :=
  { id := a.id }

def Tag.blank (t : Tag) : Tag :=
  { id := t.id }

def Post.blank (p : Post) : Post :=
  { id := p.id, featured := p.featured, page := p.page, published := p.published
    publishedAt := p.publishedAt, tags := p.tags.map Tag.blank
    author := p.author.map Author.blank }

def NavigationItem.blank (_ : NavigationItem) : NavigationItem :=
  ⟨"", "", ""⟩

def Profile.blank (p : Profile) : Profile :=
  { postCount := p.postCount, postsPerPage := p.postsPerPage
    navigation := p.navigation.map NavigationItem.blank }

end ThemePress.Blog

namespace ThemePress.Render

open ThemePress.Blog ThemePress.Text
open ThemePress.Template (Node)

/-- The same page without texts. -/
def Page.blank (p : Page) : Page :=
  { p with
    blog := p.blog.blank
    posts := p.posts.map Post.blank
    tag := p.tag.map Tag.blank
    author := p.author.map Author.blank
    path := "" }

section
variable (p : Page) (c : Context)

theorem post?_blank : c.post? p.blank = (c.post? p).map Post.blank :=
  List.getElem?_map ..

theorem postTags_blank : c.postTags p.blank = (c.postTags p).map Tag.blank := by
  unfold Context.postTags
  rw [post?_blank]
  cases c.post? p <;> rfl

theorem postAuthor?_blank :
    (c.post? p.blank).bind (·.author) = ((c.post? p).bind (·.author)).map Author.blank := by
  rw [post?_blank]
  cases c.post? p <;> rfl

theorem author?_blank : c.author? p.blank = (c.author? p).map Author.blank := by
  unfold Context.author?
  rw [postAuthor?_blank]
  cases (c.post? p).bind (·.author) <;> rfl

theorem listingAuthor?_blank :
    c.listingAuthor? p.blank = (c.listingAuthor? p).map Author.blank := by
  unfold Context.listingAuthor?
  rw [postAuthor?_blank]
  cases h : p.author <;> simp [Page.blank, h]

end

theorem markup_shown {n : Node} (h : n.unescaped = false) (s : String) :
    markup (shown n s) = [] := by
  rw [shown, h]
  exact markup_escape s

/-! ### Tags with markup of their own -/

/-- The tags that put texts into markup of their own, or take them from where markup may be. -/
inductive Composite where
  | author
  | tags
  | pageUrl
  | bodyClass
  | excerpt
  | head
  deriving DecidableEq, Repr

namespace Composite

/-- What the tag is called in templates. -/
def names : Composite → List String
  | author => ["author"]
  | tags => ["tags"]
  | pageUrl => ["page_url", "pageUrl"]
  | bodyClass => ["body_class"]
  | excerpt => ["excerpt"]
  | head => ["ghost_head"]

def helper : Composite → Helper
  | author => .author
  | tags => .tags
  | pageUrl => .pageUrl
  | bodyClass => .bodyClass
  | excerpt => .excerpt
  | head => .head

def field : Composite → Field
  | author => Field.authorLink
  | tags => Field.tags
  | pageUrl => Field.pageUrl
  | bodyClass => Field.bodyClass
  | excerpt => Field.excerpt
  | head => Field.head

/-- The tag is written in two braces, and is no block. -/
structure IsTag (k : Composite) (n : Node) : Prop where
  name : n.name ∈ k.names
  escaped : n.unescaped = false
  inline : n.isBlock = false

/-- The slugs in the address of the listing that the page belongs to. -/
def listingSlugs (p : Page) (c : Context) : List String :=
  match p.kind with
  | .author => ((c.listingAuthor? p).map (·.slug)).toList
  | .tag => (p.tag.map (·.slug)).toList
  | .index | .post => []

/-- The texts of the data that the tag writes as they are. -/
def raw (p : Page) (c : Context) (n : Node) : Composite → List String
  | author =>
    if n.keyed? "autolink" = some "false" then [] else ((c.author? p).map (·.slug)).toList
  | tags => if n.keyed? "autolink" = some "false" then [] else (c.postTags p).map (·.slug)
  | pageUrl => if Field.pageUrl p c n = "" then [] else listingSlugs p c
  | bodyClass => if p.kind = .post then (c.postTags p).map (·.slug) else listingSlugs p c
  | excerpt => [Field.excerpt p c n]
  | head => [p.path]

/-! ### One tag after the other -/

variable {p : Page} {c : Context} {n : Node}

/-- A slug and a name in a link. -/
theorem takes_link (h : n.unescaped = false) (start slug name name' : String) :
    Takes [slug] (start ++ slug ++ "/\">" ++ shown n name ++ "</a>")
      (start ++ "" ++ "/\">" ++ shown n name' ++ "</a>") := by
  have hname : Takes [] (shown n name) (shown n name') :=
    .silent (markup_shown h name) (markup_shown h name')
  exact ((((Takes.own start).append (.whole rfl)).append (.own _)).append hname).append (.own _)

theorem takes_author (h : n.unescaped = false) :
    Takes (raw p c n author) (Field.authorLink p c n) (Field.authorLink p.blank c n) := by
  unfold raw Field.authorLink
  rw [author?_blank]
  cases c.author? p with
  | none =>
    rw [Option.map_none, Option.toList_none, ite_self]
    exact .own _
  | some a =>
    dsimp only [Option.map_some]
    split
    · exact .silent (markup_shown h _) (markup_shown h _)
    · exact takes_link h _ a.slug a.name _

/-- A tag of a post, as it is written among the others. -/
def tagEntry (n : Node) (tag : Tag) : String :=
  if n.keyed? "autolink" = some "false" then shown n tag.name
  else "<a href=\"/tag/" ++ tag.slug ++ "/\">" ++ shown n tag.name ++ "</a>"

/-- What the template puts in front of the tags of a post and behind them. -/
def tagListEnds (n : Node) : String × String :=
  ((((n.keyed? "prefix").filter (!·.isEmpty)).map (· ++ " ")).getD "",
    (((n.keyed? "suffix").filter (!·.isEmpty)).map (" " ++ ·)).getD "")

theorem tags_eq (p : Page) (c : Context) (n : Node) :
    Field.tags p c n =
      if c.postTags p = [] then ""
      else (tagListEnds n).1 ++ ((n.keyed? "separator").getD ", ").intercalate
        ((c.postTags p).map (tagEntry n)) ++ (tagListEnds n).2 := by
  unfold Field.tags
  cases c.postTags p <;> rfl

theorem takes_tagEntry (h : n.unescaped = false) (tag : Tag) :
    Takes (if n.keyed? "autolink" = some "false" then [] else [tag.slug]) (tagEntry n tag)
      (tagEntry n tag.blank) := by
  unfold tagEntry
  split
  · exact .silent (markup_shown h _) (markup_shown h _)
  · exact takes_link h _ tag.slug tag.name _

theorem takes_tags (h : n.unescaped = false) :
    Takes (raw p c n tags) (Field.tags p c n) (Field.tags p.blank c n) := by
  have hraw : raw p c n tags = [] ++ (c.postTags p).flatMap (fun tag =>
      if n.keyed? "autolink" = some "false" then [] else [tag.slug]) ++ [] := by
    by_cases hlink : n.keyed? "autolink" = some "false"
    · simp [raw, hlink]
    · simp [raw, hlink, List.map_eq_flatMap]
  rw [hraw, tags_eq, tags_eq, postTags_blank]
  cases hl : c.postTags p with
  | nil => exact .own _
  | cons t ts =>
    rw [if_neg (List.cons_ne_nil _ _), if_neg (by simp), List.map_map]
    exact ((Takes.own _).append (.intercalate fun tag _ => takes_tagEntry h tag)).append (.own _)

theorem takes_listingBase :
    Takes (listingSlugs p c) (Field.listingBase p c) (Field.listingBase p.blank c) := by
  unfold listingSlugs Field.listingBase
  have hkind : p.blank.kind = p.kind := rfl
  have htag : p.blank.tag = p.tag.map Tag.blank := rfl
  rw [hkind, listingAuthor?_blank, htag]
  cases p.kind with
  | author =>
    cases c.listingAuthor? p with
    | none => exact .own _
    | some a => exact (Takes.own _).append (.whole rfl)
  | tag =>
    cases p.tag with
    | none => exact .own _
    | some t => exact (Takes.own _).append (.whole rfl)
  | index => exact .own _
  | post => exact .own _

theorem takes_ofPage {raw : List String} {base base' : String} (h : Takes raw base base')
    (number : Int) : Takes raw (Link.ofPage base number) (Link.ofPage base' number) := by
  unfold Link.ofPage
  split
  · exact ((h.append_follows (.own _)).append_follows (.own _)).append_follows (.own _)
  · exact h.append_follows (.own _)

theorem takes_pageUrl : Takes (raw p c n pageUrl) (Field.pageUrl p c n)
    (Field.pageUrl p.blank c n) := by
  by_cases hword : ∃ d : Direction, ∃ a, n.firstArgument? = some a ∧ a.name ∈ d.words
  · obtain ⟨d, a, ha, hword⟩ := hword
    have hcounted : d.isCounted p.blank = d.isCounted p := by cases d <;> rfl
    unfold raw
    rw [Direction.pageUrl_eq ha hword, Direction.pageUrl_eq ha hword, hcounted]
    cases d.isCounted p with
    | false => exact .own _
    | true =>
      simp only [if_true, if_neg (Link.ofPage_ne_empty _ _)]
      exact takes_ofPage takes_listingBase _
  · have hnone : ∀ p : Page, Field.pageUrl p c n = "" := by
      intro p
      have hfirst : ∀ a, n.firstArgument? = some a →
          a.name ∉ Direction.previous.words ∧ a.name ∉ Direction.next.words :=
        fun a ha => ⟨fun hm => hword ⟨.previous, a, ha, hm⟩, fun hm => hword ⟨.next, a, ha, hm⟩⟩
      unfold Field.pageUrl
      cases ha : n.firstArgument? with
      | none => rfl
      | some a =>
        have hnot := hfirst a ha
        simp only [Direction.words, List.mem_cons, List.not_mem_nil, or_false, not_or] at hnot
        rw [Option.map_some]
        split <;> simp_all
    rw [raw, if_pos (hnone p), hnone p, hnone p.blank]
    exact .own _

theorem takes_tagClasses (post : Post) :
    Takes (post.tags.map (·.slug)) (Head.tagClasses post) (Head.tagClasses post.blank) := by
  unfold Head.tagClasses Post.blank
  rw [List.map_map, List.map_eq_flatMap]
  exact .join fun tag _ => (Takes.own _).append (.whole rfl)

theorem takes_bodyClass : Takes (raw p c n bodyClass) (Field.bodyClass p c n)
    (Field.bodyClass p.blank c n) := by
  have hkind : p.blank.kind = p.kind := rfl
  have hnumber : p.blank.number = p.number := rfl
  have htag : p.blank.tag = p.tag.map Tag.blank := rfl
  unfold raw Field.bodyClass Head.bodyClass listingSlugs
  rw [hkind, hnumber, post?_blank, listingAuthor?_blank, htag]
  cases p.kind with
  | post =>
    rw [if_pos rfl]
    unfold Context.postTags
    cases c.post? p with
    | none => exact .own _
    | some post => exact (Takes.own _).append ((Takes.own _).append (takes_tagClasses post))
  | index => exact .own _
  | author =>
    cases c.listingAuthor? p with
    | none => exact .own _
    | some a => exact ((Takes.own _).append (.whole rfl)).append (.own _)
  | tag =>
    cases p.tag with
    | none => exact .own _
    | some t => exact ((Takes.own _).append (.whole rfl)).append (.own _)

theorem excerpt_empty (characters words : Option String) :
    Excerpt.ofHtml "" characters words = "" := by
  unfold Excerpt.ofHtml
  have hplain : Excerpt.plainText "".toList = [] := rfl
  dsimp only
  rw [hplain]
  split
  · rw [List.take_nil]
  · have hwords : [' '].intercalate (([] : List (List Char)).take
        ((words.bind Decimal.word?).getD Excerpt.standardWords)) = [] := by
      rw [List.take_nil]
      rfl
    unfold Excerpt.firstWords
    dsimp only [Text.words]
    rw [hwords, ite_self]

theorem takes_excerpt :
    Takes (raw p c n excerpt) (Field.excerpt p c n) (Field.excerpt p.blank c n) := by
  have hblank : Field.excerpt p.blank c n = "" := by
    unfold Field.excerpt
    rw [post?_blank]
    split
    · next post _ hpost =>
      obtain ⟨post', -, rfl⟩ := Option.map_eq_some_iff.1 hpost
      exact excerpt_empty _ _
    · rfl
  rw [hblank]
  exact .whole rfl

theorem takes_head (h : n.unescaped = false) :
    Takes (raw p c n head) (Field.head p c n) (Field.head p.blank c n) := by
  have hpublished : (c.post? p.blank).bind (·.publishedAt) = (c.post? p).bind (·.publishedAt) := by
    rw [post?_blank]
    cases c.post? p <;> rfl
  have hkind : p.blank.kind = p.kind := rfl
  -- every field but the path is written with entities
  have hshown : ∀ s s' : String, Follows [p.path] (shown n s) (shown n s') :=
    fun s s' => .silent (markup_shown h s) (markup_shown h s')
  have hurl : Takes [p.path] (shown n p.blog.url ++ p.path)
      (shown n p.blank.blog.url ++ p.blank.path) :=
    (Takes.silent (markup_shown h _) (markup_shown h _)).append (.whole rfl)
  unfold raw Field.head Head.metadata
  rw [hpublished, hkind]
  generalize shown n p.blog.url ++ p.path = url at hurl
  generalize shown n p.blank.blog.url ++ p.blank.path = url' at hurl
  generalize Head.typeNames p.kind = types
  obtain ⟨type, schemaType⟩ := types
  have hrefl : ∀ l : List (String × String),
      List.Forall₂ (fun f b => f.1 = b.1 ∧ Follows [p.path] f.2 b.2) l l :=
    fun l => List.forall₂_same.2 fun f _ => ⟨rfl, .own _⟩
  dsimp only
  have hproperty : ∀ name {value blank}, Follows [p.path] value blank →
      Follows [p.path] ("<meta property=\"" ++ name ++ "\" content=\"" ++ value ++ "\">\n")
        ("<meta property=\"" ++ name ++ "\" content=\"" ++ blank ++ "\">\n") :=
    fun name _ _ hvalue => ((Follows.own _).append hvalue).append (.own _)
  have hstart := ((Takes.own "<link rel=\"canonical\" href=\"").append hurl).append_follows
    (.own "\">\n")
  refine (((hstart.append_follows (.join ?_)).append_follows (.own _)).append_follows
    (.object ?_)).append_follows (.own _)
  · refine Follows.map_named _ hproperty (List.rel_append (hrefl _) ?_)
    simp [hshown, hurl.toFollows, Follows.own]
  · refine List.rel_append (hrefl _) ?_
    simp [hshown, hurl.toFollows]

/-! ### All of them -/

/-- A tag takes over just the texts that it writes as they are. -/
theorem takes (k : Composite) (h : n.unescaped = false) :
    Takes (k.raw p c n) (k.field p c n) (k.field p.blank c n) := by
  cases k with
  | author => exact takes_author h
  | tags => exact takes_tags h
  | pageUrl => exact takes_pageUrl
  | bodyClass => exact takes_bodyClass
  | excerpt => exact takes_excerpt
  | head => exact takes_head h

theorem named?_of_mem_names (k : Composite) :
    ∀ name ∈ k.names, Helper.named? name = some k.helper := by
  cases k <;> decide

theorem evaluate_eq {k : Composite} (h : k.IsTag n) (job : Job) (c : Context) :
    evaluate job job.inside n c = (Utf8.bytesOf (k.field job.page c n), c) := by
  refine evaluate_of_run (k.named?_of_mem_names _ h.name) ?_ c
  cases k with
  | author => exact if_neg (ne_true_of_eq_false h.inline)
  | tags | pageUrl | bodyClass | excerpt | head => rfl

end Composite

/-- **A tag yields the markup of the blank page just when no text that it writes as it is has any.**
This goes for tags in two braces, whatever the page and the context. Of the data only slugs in
addresses and classes, plain texts and paths are written like that. -/
theorem markup_of_data_iff {k : Composite} {n : Node} (h : k.IsTag n) (job : Job) (c : Context) :
    ∃ text blank, evaluate job job.inside n c = (Utf8.bytesOf text, c) ∧
      evaluate { job with page := job.page.blank } (Job.inside { job with page := job.page.blank })
        n c = (Utf8.bytesOf blank, c) ∧
      (markup text = markup blank ↔ ∀ s ∈ k.raw job.page c n, markup s = []) :=
  ⟨_, _, k.evaluate_eq h job c, k.evaluate_eq h _ c, (k.takes h.escaped).markup_eq_iff⟩

/-- A page of a post with one tag and an author, whose names and slugs are given. -/
def pageOf (name slug : String) : Page where
  kind := .post
  blog := {}
  posts := [{ id := 1, tags := [{ id := 2, name, slug }], author := some { id := 3, name, slug } }]

/-- The name of an author may hold markup, but not the slug. -/
theorem markup_of_data_iff_name :
    let job : Job := { page := pageOf "<b>" "a", registry := .empty "" }
    ∃ text blank, evaluate job job.inside (Node.leaf "author" false 0) (.start .post) =
        (Utf8.bytesOf text, .start .post) ∧
      text = "<a href=\"/author/a/\">&lt;b&gt;</a>" ∧ markup text = markup blank ∧
      evaluate { job with page := job.page.blank } (Job.inside { job with page := job.page.blank })
        (Node.leaf "author" false 0) (.start .post) = (Utf8.bytesOf blank, .start .post) := by
  intro job
  have htag : Composite.author.IsTag (Node.leaf "author" false 0) := ⟨by decide, rfl, rfl⟩
  obtain ⟨text, blank, htext, hblank, hiff⟩ := markup_of_data_iff htag job (.start .post)
  have hraw : Composite.author.raw job.page (.start .post) (Node.leaf "author" false 0) = ["a"] :=
    rfl
  refine ⟨text, blank, htext, ?_, hiff.2 (by rw [hraw]; decide), hblank⟩
  have hfield := htext.symm.trans (Composite.evaluate_eq htag job (.start .post))
  rw [Utf8.bytesOf_inj.1 (congrArg Prod.fst hfield)]
  rfl

/-- **A slug can close the attribute in which its class stands.** -/
theorem markup_of_slug_in_class :
    let job : Job := { page := pageOf "" "x\" onload=\"y", registry := .empty "" }
    let job' : Job := { job with page := job.page.blank }
    let tag := Node.leaf "body_class" false 0
    evaluate job job.inside tag (.start .post) =
        (Utf8.bytesOf "post-template tag-x\" onload=\"y", .start .post) ∧
      evaluate job' job'.inside tag (.start .post) =
        (Utf8.bytesOf "post-template tag-", .start .post) ∧
      markup "post-template tag-x\" onload=\"y" ≠ markup "post-template tag-" := by
  intro job job' tag
  have htag : Composite.bodyClass.IsTag tag := ⟨by decide, rfl, rfl⟩
  refine ⟨?_, ?_, by decide⟩
  · rw [Composite.evaluate_eq htag]
    rfl
  · rw [Composite.evaluate_eq htag]
    rfl

end ThemePress.Render
