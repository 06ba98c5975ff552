import Mathlib.Data.List.TakeWhile
import ThemePress.Proofs.Site.Links

/-! # Navigation entries and the page they lead to

The tag `current` asks whether a navigation entry leads to the page that is rendered, and passes
over the number of a page at the end of its path. `Numbered` says what such a path is. What is in
front of the number is then the listing itself (`withoutPage_ofPage`), and a path that has no number
stays as it is. The path of a listing has none, whatever its slug, as long as that has no slash
(`not_numbered`). -/

namespace ThemePress.Render.Link

open ThemePress.Text

/-! ### Paths with the number of a page -/

/-- The path is `front`, `/page/`, a number and a slash. -/
def Numbered (path front : List Char) : Prop :=
  ∃ digits : List Char, digits ≠ [] ∧ (∀ c ∈ digits, c.isDigit = true) ∧
    path = front ++ "/page".toList ++ '/' :: digits ++ ['/']

theorem slash_not_mem {digits : List Char} (h : ∀ c ∈ digits, c.isDigit = true) : '/' ∉ digits :=
  fun hslash => absurd (h '/' hslash) (by decide)

/-- What is in front of the last one of its kind. -/
theorem eq_of_last {α : Type} {a : α} {l l' r r' : List α} (hr : a ∉ r) (hr' : a ∉ r')
    (h : l ++ a :: r = l' ++ a :: r') : l = l' := by
  rcases List.append_eq_append_iff.1 h with ⟨t, rfl, ht⟩ | ⟨t, rfl, ht⟩
  · cases t with
    | nil => rw [List.append_nil]
    | cons b t => exact absurd ((List.cons.inj ht).2 ▸ by simp) hr
  · cases t with
    | nil => rw [List.append_nil]
    | cons b t => exact absurd ((List.cons.inj ht).2 ▸ by simp) hr'

/-- A path that ends in a slug has no number, unless it goes on in front of that as for a page. -/
theorem not_numbered {dir slug front : List Char} (hslug : '/' ∉ slug)
    (hdir : ¬ "/page".toList <:+ dir) : ¬ Numbered (dir ++ '/' :: slug ++ ['/']) front := by
  rintro ⟨digits, -, hdigits, hpath⟩
  have hlast := eq_of_last hslug (slash_not_mem hdigits) (List.append_cancel_right hpath)
  exact hdir ⟨front, hlast.symm⟩

/-- The digits and what is in front of them, from the end of the path. -/
theorem withoutPage_of_reverse {path : String} {s : List Char}
    (h : path.toList.reverse = '/' :: s) :
    withoutPage path =
      if !(s.takeWhile Char.isDigit).isEmpty &&
          "/page/".toList.reverse.isPrefixOf (s.dropWhile Char.isDigit) then
        String.ofList ((s.dropWhile Char.isDigit).drop "/page/".toList.reverse.length).reverse ++ "/"
      else path := by
  rw [withoutPage, h]
  rfl

theorem withoutPage_of_numbered {path : String} {front : List Char}
    (h : Numbered path.toList front) : withoutPage path = String.ofList front ++ "/" := by
  obtain ⟨digits, hne, hdigits, hpath⟩ := h
  have hmark : "/page/".toList.reverse = ['/', 'e', 'g', 'a', 'p', '/'] := rfl
  have hreverse : path.toList.reverse =
      '/' :: (digits.reverse ++ ("/page/".toList.reverse ++ front.reverse)) := by
    rw [hpath]
    simp
  have hpos : ∀ c ∈ digits.reverse, c.isDigit = true := fun c hc =>
    hdigits c (List.mem_reverse.1 hc)
  have htake : (digits.reverse ++ ("/page/".toList.reverse ++ front.reverse)).takeWhile
      Char.isDigit = digits.reverse := by
    rw [List.takeWhile_append_of_pos hpos, hmark, List.cons_append,
      List.takeWhile_cons_of_neg (by decide), List.append_nil]
  have hdrop : (digits.reverse ++ ("/page/".toList.reverse ++ front.reverse)).dropWhile
      Char.isDigit = "/page/".toList.reverse ++ front.reverse := by
    rw [List.dropWhile_append_of_pos hpos, hmark, List.cons_append,
      List.dropWhile_cons_of_neg (by decide)]
  have hempty : digits.reverse.isEmpty = false := by simpa using hne
  have hprefix : "/page/".toList.reverse.isPrefixOf ("/page/".toList.reverse ++ front.reverse) :=
    List.isPrefixOf_iff_prefix.2 (List.prefix_append ..)
  rw [withoutPage_of_reverse hreverse, htake, hdrop, hempty, hprefix, List.drop_left,
    List.reverse_reverse]
  rfl

theorem withoutPage_of_not_numbered {path : String} (h : ∀ front, ¬ Numbered path.toList front) :
    withoutPage path = path := by
  by_cases hslash : ∃ s, path.toList.reverse = '/' :: s
  · obtain ⟨s, hs⟩ := hslash
    rw [withoutPage_of_reverse hs, ite_eq_right_iff, Bool.and_eq_true, List.isPrefixOf_iff_prefix]
    rintro ⟨hdigits, front, hfront⟩
    -- what is found from the end is a number behind `front`, read backwards
    refine absurd ⟨(s.takeWhile Char.isDigit).reverse, by simpa using hdigits, fun c hc => ?_, ?_⟩
      (h front.reverse)
    · exact List.mem_takeWhile_imp (List.mem_reverse.1 hc)
    · rw [← List.takeWhile_append_dropWhile (p := Char.isDigit) (l := s), ← hfront] at hs
      have hpath := congrArg List.reverse hs
      simpa using hpath
  · rw [withoutPage]
    dsimp only
    split
    · next s hs => exact absurd ⟨s, hs⟩ hslash
    · rfl

/-- The number of a page behind the first is left out, whatever is in front of it. -/
theorem withoutPage_ofPage {base : String} (h : ∀ front, ¬ Numbered (base ++ "/").toList front)
    (number : Int) : withoutPage (ofPage base number) = base ++ "/" := by
  unfold ofPage
  split
  · next hnumber =>
    obtain ⟨n, rfl⟩ := Int.eq_ofNat_of_zero_le (show 0 ≤ number by omega)
    have hne : (toString n).toList ≠ [] := by
      rw [Decimal.toList_toString]
      exact Nat.toDigits_ne_nil
    have hmark : "/page/".toList = "/page".toList ++ ['/'] := rfl
    have hnumbered : Numbered (base ++ "/page/" ++ toString n ++ "/").toList base.toList :=
      ⟨(toString n).toList, hne, fun c => Decimal.isDigit_of_mem_toString, by simp [hmark]⟩
    have hpath : toString (n : Int) = toString n := rfl
    rw [hpath, withoutPage_of_numbered hnumbered, String.ofList_toList]
  · exact withoutPage_of_not_numbered h

end ThemePress.Render.Link

namespace ThemePress.Site

open ThemePress.Blog ThemePress.Render ThemePress.Text
open ThemePress.Template (Node Registry)
open ThemePress.Time (Instant)

/-! ### The addresses of listings and posts -/

namespace ListingName

/-- The address of the listing, without the slash at its end. -/
def base : ListingName → String
  | index => ""
  | tag slug => "/tag/" ++ slug
  | author slug => "/author/" ++ slug

/-- The slug, if there is one, is a single part of the address. -/
def IsFlat : ListingName → Prop
  | index => True
  | tag slug | author slug => '/' ∉ slug.toList

theorem base_not_numbered {name : ListingName} (h : name.IsFlat) (front : List Char) :
    ¬ Link.Numbered (name.base ++ "/").toList front := by
  cases name with
  | index =>
    rintro ⟨digits, -, -, hpath⟩
    have hlength := congrArg List.length hpath
    simp [base] at hlength
    omega
  | tag slug =>
    have hbase : (base (.tag slug) ++ "/").toList = "/tag".toList ++ '/' :: slug.toList ++ ['/'] := by
      rw [base, String.toList_append, String.toList_append]
      rfl
    exact hbase ▸ Link.not_numbered h (by decide)
  | author slug =>
    have hbase : (base (.author slug) ++ "/").toList =
        "/author".toList ++ '/' :: slug.toList ++ ['/'] := by
      rw [base, String.toList_append, String.toList_append]
      rfl
    exact hbase ▸ Link.not_numbered h (by decide)

end ListingName

variable {site : Site} {registry : Registry} {store : Store} {now : Instant} {name : ListingName}
  {l : Listing} {number : Int}

theorem slug_eq_of_find? {α : Type} {slugOf : α → String} {entries : List α} {slug : String}
    {entry : α} (h : entries.find? (slugOf · == slug) = some entry) : slugOf entry = slug := by
  have hfound := List.find?_some h
  exact beq_iff_eq.1 hfound

theorem base_of_listing? (hl : listing? store name = some l) : l.base = name.base := by
  rcases listing?_cases hl with
    ⟨rfl, rfl⟩ | ⟨slug, tag, rfl, htag, rfl⟩ | ⟨slug, author, rfl, hauthor, rfl⟩
  · rfl
  · rw [← slug_eq_of_find? htag]
    rfl
  · rw [← slug_eq_of_find? hauthor]
    rfl

/-! ### The tag `current` -/

theorem output_current {n : Node} (hname : n.name = "current") {page : Page} {c : Context}
    {item : NavigationItem} (hitem : c.navigation? page = some item) :
    output registry page c n ≠ [] ↔ slashed item.url = Link.withoutPage page.path := by
  have hhelper : Helper.named? n.name = some .current := by
    rw [hname]
    decide
  have htruth : ∀ b, ¬ truth b = "" ↔ b = true := by decide
  rw [output, evaluate_of_field hhelper (fun _ _ => rfl) c]
  dsimp only
  rw [Field.current, hitem, ne_eq, Utf8.bytesOf_eq_nil_iff]
  exact (htruth _).trans (beq_iff_eq.trans eq_comm)

/-- A page that a site can render is one of a listing that it has. -/
theorem exists_page_of_hasPage (hactive : site.active = some registry)
    (h : site.HasPage store now name number) :
    ∃ l page, listing? store name = some l ∧
      l.page? (site.settings.apply store.profile) now (max number 1) = some page := by
  obtain ⟨bytes, hbytes⟩ := h
  cases hl : listing? store name with
  | none =>
    obtain ⟨what, hwhat⟩ := renderNamed_of_no_listing hactive hl now number
    cases hwhat.symm.trans hbytes
  | some l =>
    rw [renderNamed_eq hactive hl] at hbytes
    cases hpage : l.page? (site.settings.apply store.profile) now (max number 1) with
    | none =>
      rw [hpage] at hbytes
      cases hbytes
    | some page => exact ⟨l, page, rfl, hpage⟩

theorem exists_post_of_render {slug : String} {bytes : List UInt8}
    (hactive : site.active = some registry)
    (h : (site.renderPost store now slug).value = .ok bytes) :
    ∃ post, publishedPost? store slug = some post ∧ post.slug = slug ∧
      site.renderPost store now slug =
        renderWith registry (postTemplate registry post) (site.postPage store now post) := by
  simp only [renderPost, hactive] at h ⊢
  cases hpost : publishedPost? store slug with
  | none =>
    rw [hpost] at h
    cases h
  | some post =>
    have hfound : store.postBySlug? slug = some post := (Option.filter_eq_some_iff.1 hpost).1
    exact ⟨post, rfl, slug_eq_of_find? hfound, rfl⟩

/-- **Whether a navigation entry is the current one does not depend on the number of a page.** Take
any page that a site can render of a listing whose slug has no slash, and the first page of that
listing. Wherever a navigation entry is under the cursor on one, it is on the other, and `current`
holds on both or on none: it holds when the entry's address, with a slash at its end, is that of the
listing. On the page of a post whose slug has no slash, it holds when that is the address of the
post. -/
theorem current_ignores_page_number (site : Site) (now : Instant) (store : Store)
    {registry : Registry} (hactive : site.active = some registry) :
    let blog := site.settings.apply store.profile
    (∀ name number, name.IsFlat → site.HasPage store now name number →
      ∃ l page first, listing? store name = some l ∧
        l.page? blog now (max number 1) = some page ∧ l.page? blog now 1 = some first ∧
        site.renderNamed store now name number = renderWith registry (l.template registry) page ∧
        site.renderNamed store now name 1 = renderWith registry (l.template registry) first ∧
        ∀ n c item, n.name = "current" → c.navigation? page = some item →
          c.navigation? first = some item ∧
          (output registry page c n ≠ [] ↔ output registry first c n ≠ []) ∧
          (output registry page c n ≠ [] ↔ slashed item.url = name.base ++ "/")) ∧
    ∀ slug bytes, '/' ∉ slug.toList → (site.renderPost store now slug).value = .ok bytes →
      ∃ post, publishedPost? store slug = some post ∧
        site.renderPost store now slug =
          renderWith registry (postTemplate registry post) (site.postPage store now post) ∧
        ∀ n c item, n.name = "current" →
          c.navigation? (site.postPage store now post) = some item →
          (output registry (site.postPage store now post) c n ≠ [] ↔
            slashed item.url = "/" ++ slug ++ "/") := by
  intro blog
  refine ⟨fun name number hflat hpage => ?_, fun slug bytes hslug hbytes => ?_⟩
  · obtain ⟨l, page, hl, hpage⟩ := exists_page_of_hasPage hactive hpage
    obtain ⟨first, hfirst, -⟩ := page?_first l blog now
    have hpath : ∀ {number page}, l.page? blog now number = some page →
        Link.withoutPage page.path = name.base ++ "/" := by
      intro number page hpage
      rw [(fields_of_page? hpage).2.1, base_of_listing? hl]
      exact Link.withoutPage_ofPage (ListingName.base_not_numbered hflat) number
    refine ⟨l, page, first, hl, hpage, hfirst, ?_, ?_, fun n c item hname hitem => ?_⟩
    · rw [renderNamed_eq hactive hl, hpage]
    · rw [renderNamed_eq hactive hl, Int.max_self, hfirst]
    · have hitem' : c.navigation? first = some item := by
        obtain ⟨_, -, rfl⟩ := Option.map_eq_some_iff.1 hpage
        obtain ⟨_, -, rfl⟩ := Option.map_eq_some_iff.1 hfirst
        exact hitem
      rw [output_current hname hitem, output_current hname hitem', hpath hpage, hpath hfirst]
      exact ⟨hitem', Iff.rfl, Iff.rfl⟩
  · obtain ⟨post, hpost, rfl, hrender⟩ := exists_post_of_render hactive hbytes
    refine ⟨post, hpost, hrender, fun n c item hname hitem => ?_⟩
    have hpath : ("/" ++ post.slug ++ "/").toList = [] ++ '/' :: post.slug.toList ++ ['/'] := by
      rw [String.toList_append, String.toList_append]
      rfl
    rw [output_current hname hitem]
    change _ = Link.withoutPage ("/" ++ post.slug ++ "/") ↔ _
    rw [Link.withoutPage_of_not_numbered fun front => hpath ▸ Link.not_numbered hslug (by decide)]

/-- Two posts, at one to a page, with a tag whose slug is what stands in front of a number. -/
def taggedPage : Store :=
  let tag : Tag := { id := 1, slug := "page" }
  { profile := { postsPerPage := 1, navigation := [.ofLabel "Pages" "/tag/page"] }
    authors := []
    tags := [tag]
    posts := [{ id := 3, slug := "p", tags := [tag] }, { id := 2, slug := "q", tags := [tag] }] }

/-- The entry for the tag is the current one on the tag's second page, and not on that of a post. -/
theorem current_ignores_page_number_of_tag_page :
    (∃ l page, listing? taggedPage (.tag "page") = some l ∧
      l.page? (bareSite.settings.apply taggedPage.profile) ⟨0, 0⟩ 2 = some page ∧
      ∀ n : Node, n.name = "current" →
        output (bareSite.active.getD default) page (.start .tag) n ≠ []) ∧
    ∃ post, publishedPost? taggedPage "p" = some post ∧ ∀ n : Node, n.name = "current" →
      output (bareSite.active.getD default) (bareSite.postPage taggedPage ⟨0, 0⟩ post)
        (.start .post) n = [] := by
  -- in front of the number stands `page` twice, of which the first is the slug
  obtain ⟨hlistings, hposts⟩ := current_ignores_page_number bareSite ⟨0, 0⟩ taggedPage rfl
  have hvalid : (bareSite.active.getD default).missing? = none := by decide
  have hl : listing? taggedPage (.tag "page") =
      some (.ofTag taggedPage "page" { id := 1, slug := "page" }) := by rfl
  have hhas : bareSite.HasPage taggedPage ⟨0, 0⟩ (.tag "page") 2 := by
    rw [hasPage_iff rfl hvalid hl]
    rfl
  have hflat : (ListingName.tag "page").IsFlat := show '/' ∉ "page".toList by decide
  constructor
  · obtain ⟨l, page, first, hl, hpage, -, -, -, hcurrent⟩ := hlistings (.tag "page") 2 hflat hhas
    refine ⟨l, page, hl, hpage, fun n hname => ?_⟩
    obtain ⟨_, -, rfl⟩ := Option.map_eq_some_iff.1 hpage
    exact (hcurrent n (.start .tag) _ hname rfl).2.2.2 (by decide)
  · obtain ⟨bytes, hbytes⟩ : ∃ bytes,
        (bareSite.renderPost taggedPage ⟨0, 0⟩ "p").value = .ok bytes :=
      ⟨_, rfl⟩
    obtain ⟨post, hpost, -, hcurrent⟩ := hposts "p" bytes (by decide) hbytes
    refine ⟨post, hpost, fun n hname => ?_⟩
    by_contra hshown
    exact absurd ((hcurrent n (.start .post) _ hname rfl).1 hshown) (by decide)

end ThemePress.Site
