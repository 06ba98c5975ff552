import ThemePress.Proofs.Blog.Paging
import ThemePress.Proofs.Blog.Windows
import ThemePress.Proofs.Render.Links
import ThemePress.Site.Rendering

/-! # Pages of a listing and the links between them

A site says in one place which pages of a listing there are, and its tags say in another which pages
a page has for neighbours. The first goes by the posts that are left, the second by a count that is
rounded to the nearest integer. Here both are put side by side: every link leads to a page
(`page?_of_isCounted`), and by links to the next page all pages are reached that are counted
(`reached_iff`). -/

namespace ThemePress.Site

open ThemePress.Blog ThemePress.Render ThemePress.Text
open ThemePress.Template (Node Registry)
open ThemePress.Time (Instant)

/-! ### Listings by name -/

/-- What a listing is asked for by. -/
inductive ListingName where
  | index
  | tag (slug : String)
  | author (slug : String)
  deriving DecidableEq, Repr

/-- The listing of a name. -/
def listing? (store : Store) : ListingName → Option Listing
  | .index => some (.ofIndex store)
  | .tag slug => (store.tagBySlug? slug).map (.ofTag store slug)
  | .author slug => (store.authorBySlug? slug).map (.ofAuthor store slug)

/-- Renders a page of the listing of a name. -/
def renderNamed (s : Site) (store : Store) (now : Instant) :
    ListingName → Int → Reported (Except RenderError (List UInt8))
  | .index => s.renderIndex store now
  | .tag slug => s.renderTag store now slug
  | .author slug => s.renderAuthor store now slug

/-- The site has a page of this number in the listing of that name. -/
def HasPage (s : Site) (store : Store) (now : Instant) (name : ListingName) (number : Int) : Prop :=
  ∃ bytes, (s.renderNamed store now name number).value = .ok bytes

/-- The page of a listing with a number, if there is one. -/
def Listing.page? (l : Listing) (blog : Profile) (now : Instant) (number : Int) : Option Page :=
  (l.postsOn? blog.postsPerPage number).map fun posts =>
    { kind := l.kind, blog, posts, tag := l.tag, author := l.author, number
      listingCount := some l.count, path := Link.ofPage l.base number, now }

variable {site : Site} {registry : Registry} {store : Store} {name : ListingName} {l : Listing}
  {blog : Profile} {now : Instant} {number : Int}

/-- A listing is that of all posts, of a tag of the store or of an author of the store. -/
theorem listing?_cases (hl : listing? store name = some l) :
    (name = .index ∧ l = .ofIndex store) ∨
    (∃ slug tag, name = .tag slug ∧ store.tagBySlug? slug = some tag ∧ l = .ofTag store slug tag) ∨
    ∃ slug author, name = .author slug ∧ store.authorBySlug? slug = some author ∧
      l = .ofAuthor store slug author := by
  cases name with
  | index => exact .inl ⟨rfl, (Option.some.inj hl).symm⟩
  | tag slug =>
    obtain ⟨tag, htag, rfl⟩ := Option.map_eq_some_iff.1 hl
    exact .inr (.inl ⟨slug, tag, rfl, htag, rfl⟩)
  | author slug =>
    obtain ⟨author, hauthor, rfl⟩ := Option.map_eq_some_iff.1 hl
    exact .inr (.inr ⟨slug, author, rfl, hauthor, rfl⟩)

theorem renderNamed_eq (hactive : site.active = some registry) (hl : listing? store name = some l)
    (now : Instant) (number : Int) :
    site.renderNamed store now name number =
      match l.page? (site.settings.apply store.profile) now (max number 1) with
      | some page => renderWith registry (l.template registry) page
      | none => ⟨[], .error (.notFound (.page (max number 1) l.name))⟩ := by
  have hrender : site.renderNamed store now name number =
      l.render registry (site.settings.apply store.profile) now number := by
    rcases listing?_cases hl with
      ⟨rfl, rfl⟩ | ⟨slug, tag, rfl, htag, rfl⟩ | ⟨slug, author, rfl, hauthor, rfl⟩
    · simp only [renderNamed, renderIndex, renderListing, hactive]
    · simp only [renderNamed, renderTag, renderListing, hactive, htag]
    · simp only [renderNamed, renderAuthor, renderListing, hactive, hauthor]
  rw [hrender, Listing.render, Listing.page?]
  cases l.postsOn? (site.settings.apply store.profile).postsPerPage (max number 1) <;> rfl

/-- A listing that is not there has no page. -/
theorem renderNamed_of_no_listing (hactive : site.active = some registry)
    (hl : listing? store name = none) (now : Instant) (number : Int) :
    ∃ what, (site.renderNamed store now name number).value = .error (.notFound what) := by
  cases name with
  | index => cases hl
  | tag slug =>
    have htag : store.tagBySlug? slug = none := Option.map_eq_none_iff.1 hl
    simp [renderNamed, renderTag, renderListing, hactive, htag]
  | author slug =>
    have hauthor : store.authorBySlug? slug = none := Option.map_eq_none_iff.1 hl
    simp [renderNamed, renderAuthor, renderListing, hactive, hauthor]

/-- A listing is counted as the number of its posts. -/
theorem count_of_listing? {profile : Profile} {authors : List Author} {tags : List Tag}
    {posts : List Post} (hl : listing? (Store.make profile authors tags posts) name = some l) :
    l.count = l.posts.length := by
  rcases listing?_cases hl with ⟨rfl, rfl⟩ | ⟨slug, tag, rfl, -, rfl⟩ | ⟨slug, author, rfl, -, rfl⟩
  · exact postCount_make profile authors tags posts
  · rfl
  · rfl

theorem length_le_of_listing? {profile : Profile} {authors : List Author} {tags : List Tag}
    {posts : List Post} (hl : listing? (Store.make profile authors tags posts) name = some l) :
    l.posts.length ≤ posts.length := by
  have hall : (Store.make profile authors tags posts).listed.length ≤ posts.length := by
    rw [(perm_listed profile authors tags posts).length_eq]
    exact List.length_filter_le _ _
  rcases listing?_cases hl with ⟨rfl, rfl⟩ | ⟨slug, tag, rfl, -, rfl⟩ | ⟨slug, author, rfl, -, rfl⟩
  · exact hall
  · exact (List.length_filter_le _ _).trans hall
  · exact (List.length_filter_le _ _).trans hall

/-- On a page of a listing, the tags for links have the address of the listing. -/
theorem listingBase_of_listing? (hl : listing? store name = some l) {page : Page}
    (hpage : l.page? blog now number = some page) (c : Context) :
    Field.listingBase page c = l.base := by
  obtain ⟨posts, -, rfl⟩ := Option.map_eq_some_iff.1 hpage
  rcases listing?_cases hl with ⟨rfl, rfl⟩ | ⟨slug, tag, rfl, -, rfl⟩ | ⟨slug, author, rfl, -, rfl⟩ <;>
    rfl

/-! ### Which pages there are -/

/-- There are posts on a page when it starts within 64 bits, and it needs one unless it is the
first. -/
theorem postsOn?_eq_some_iff {perPage : Int} {posts : List Post} :
    l.postsOn? perPage number = some posts ↔
      Text.Decimal.fits ((number - 1) * Paging.pageSize perPage) ∧
      Store.window l.posts (Paging.pageSize perPage) ((number - 1) * Paging.pageSize perPage) =
        posts ∧
      (1 < number → posts ≠ []) := by
  unfold Listing.postsOn?
  dsimp only
  generalize (number - 1) * Paging.pageSize perPage = offset
  split
  · next h => simp_all
  · next h =>
    rw [Bool.not_eq_true', Bool.not_eq_false] at h
    split
    · next hempty =>
      rw [Bool.and_eq_true, decide_eq_true_eq, List.isEmpty_iff] at hempty
      constructor
      · intro hnone
        cases hnone
      · rintro ⟨-, rfl, hne⟩
        exact absurd hempty.2 (hne hempty.1)
    · next hempty =>
      rw [Bool.and_eq_true, decide_eq_true_eq, List.isEmpty_iff, not_and] at hempty
      rw [Option.some.injEq]
      constructor
      · rintro rfl
        exact ⟨h, rfl, hempty⟩
      · rintro ⟨-, hposts, -⟩
        exact hposts

/-- A page is there when it does not start behind the last post, and the first one always is. -/
theorem page?_isSome_iff (hfits : Text.Decimal.fits l.posts.length) (hn : 1 ≤ number) :
    (l.page? blog now number).isSome ↔
      number ≤ Paging.lastPage l.posts.length blog.postsPerPage := by
  have hs := Paging.pageSize_pos blog.postsPerPage
  rw [Listing.page?, Option.isSome_map, Option.isSome_iff_exists]
  simp only [postsOn?_eq_some_iff]
  rcases Int.le_iff_lt_or_eq.1 hn with hn | rfl
  · have hstart : number ≤ Paging.lastPage l.posts.length blog.postsPerPage ↔
        (number - 1) * Paging.pageSize blog.postsPerPage < l.posts.length := by
      rw [← Paging.lt_lastPage_iff (by omega)]
      omega
    rw [hstart]
    have hoffset : 0 ≤ (number - 1) * Paging.pageSize blog.postsPerPage :=
      Int.mul_nonneg (by omega) hs.le
    generalize (number - 1) * Paging.pageSize blog.postsPerPage = offset at hoffset
    have hempty := window_eq_nil_iff l.posts hs hoffset
    rw [Paging.fits_iff] at hfits ⊢
    constructor
    · rintro ⟨posts, -, rfl, hne⟩
      have := mt hempty.2 (hne hn)
      omega
    · intro hlt
      exact ⟨_, by omega, rfl, fun _ => mt hempty.1 (by omega)⟩
  · have hlast : 1 ≤ Paging.lastPage l.posts.length blog.postsPerPage := Int.le_max_left ..
    rw [Int.sub_self, Int.zero_mul]
    exact iff_of_true ⟨_, by decide, rfl, fun h => absurd h (by decide)⟩ hlast

theorem contains_required (hvalid : registry.missing? = none) {name : String}
    (h : name ∈ Registry.required) : registry.contains name := by
  simpa using List.find?_eq_none.1 hvalid name h

/-- A theme without a template for the kind of a listing has the one that stands in for it. -/
theorem contains_template (hvalid : registry.missing? = none) (l : Listing) :
    registry.contains (l.template registry) := by
  have hown : ∀ own, registry.contains (if registry.contains own then own else "index") := by
    intro own
    split
    · next h => exact h
    · exact contains_required hvalid (by decide)
  exact hown _

theorem renderWith_eq_ok {template : String} (h : registry.contains template) (page : Page) :
    ∃ bytes, (renderWith registry template page).value = .ok bytes := by
  unfold Registry.contains at h
  obtain ⟨root, hroot⟩ := Option.isSome_iff_exists.1 h
  unfold renderWith
  rw [hroot]
  exact ⟨_, rfl⟩

theorem hasPage_iff (hactive : site.active = some registry) (hvalid : registry.missing? = none)
    (hl : listing? store name = some l) (now : Instant) (number : Int) :
    site.HasPage store now name number ↔
      (l.page? (site.settings.apply store.profile) now (max number 1)).isSome := by
  unfold HasPage
  rw [renderNamed_eq hactive hl]
  cases hpage : l.page? (site.settings.apply store.profile) now (max number 1) with
  | none => simp
  | some page => simpa using renderWith_eq_ok (contains_template hvalid l) page

/-! ### Links -/

/-- What a tag yields in a context on a page. -/
def output (registry : Registry) (page : Page) (c : Context) (n : Node) : List UInt8 :=
  let job : Job := { page, registry }
  (evaluate job job.inside n c).1

/-- A page knows its number, its address and how many pages are counted. -/
theorem fields_of_page? {page : Page} (hpage : l.page? blog now number = some page) :
    page.number = number ∧ page.path = Link.ofPage l.base number ∧
      page.count = Paging.pageCount l.count blog.postsPerPage := by
  obtain ⟨posts, -, rfl⟩ := Option.map_eq_some_iff.1 hpage
  exact ⟨rfl, rfl, rfl⟩

theorem output_presence {d : Direction} {presence : Node} (h : d.IsPresenceTag presence)
    (page : Page) (c : Context) :
    output registry page c presence ≠ [] ↔ d.isCounted page := by
  rw [output, Direction.evaluate_presence h, ne_eq, Utf8.bytesOf_eq_nil_iff]
  cases d.isCounted page <;> simp [truth]

theorem output_address (hl : listing? store name = some l) {page : Page}
    (hpage : l.page? blog now number = some page) {d : Direction} {address : Node}
    (h : d.IsAddressTag address) (c : Context) :
    output registry page c address =
      Utf8.bytesOf (if d.isCounted page then Link.ofPage l.base (d.neighbour number) else "") := by
  rw [output, Direction.evaluate_address h]
  dsimp only
  rw [listingBase_of_listing? hl hpage, (fields_of_page? hpage).1]

theorem output_address_ne_nil (hl : listing? store name = some l) {page : Page}
    (hpage : l.page? blog now number = some page) {d : Direction} {address : Node}
    (h : d.IsAddressTag address) (c : Context) :
    output registry page c address ≠ [] ↔ d.isCounted page := by
  rw [output_address hl hpage h, ne_eq, Utf8.bytesOf_eq_nil_iff]
  cases hd : d.isCounted page with
  | false => simp
  | true => simp [Link.ofPage_ne_empty]

section
variable (hfits : Text.Decimal.fits l.posts.length) (hcount : l.count = l.posts.length)
  (hexact : Paging.pageCount l.posts.length blog.postsPerPage =
    Paging.halfUp l.posts.length blog.postsPerPage)

include hcount hexact in
theorem hasNext_iff {page : Page} (hpage : l.page? blog now number = some page) :
    Field.hasNext page ↔ number < Paging.halfUp l.posts.length blog.postsPerPage := by
  obtain ⟨hnumber, -, hpages⟩ := fields_of_page? hpage
  rw [Field.hasNext, decide_eq_true_eq, hnumber, hpages, hcount, hexact]

include hfits hcount hexact in
/-- **A neighbour that is counted is there.** -/
theorem page?_of_isCounted {d : Direction} {page : Page} (hn : 1 ≤ number)
    (hpage : l.page? blog now number = some page) (hd : d.isCounted page) :
    1 ≤ d.neighbour number ∧ ∃ there, l.page? blog now (d.neighbour number) = some there := by
  have hhere := (page?_isSome_iff hfits hn).1 (Option.isSome_of_eq_some hpage)
  have hbounds : 1 ≤ d.neighbour number ∧
      d.neighbour number ≤ Paging.lastPage l.posts.length blog.postsPerPage := by
    cases d with
    | previous =>
      have hnumber := (fields_of_page? hpage).1
      have hprevious : 1 < page.number := of_decide_eq_true hd
      simp only [Direction.neighbour]
      omega
    | next =>
      have hnext := (hasNext_iff hcount hexact hpage).1 hd
      have hlast := Paging.halfUp_le_lastPage l.posts.length blog.postsPerPage
      simp only [Direction.neighbour]
      omega
  exact ⟨hbounds.1, Option.isSome_iff_exists.1 ((page?_isSome_iff hfits hbounds.1).2 hbounds.2)⟩

/-- The pages of a listing that are reached from its first one by links to the next page. The links
are those of the tag `address`, which stands on each page in the context that `place` says. -/
inductive Reached (l : Listing) (registry : Registry) (blog : Profile) (now : Instant)
    (address : Node) (place : Page → Context) : Int → Prop where
  | first : Reached l registry blog now address place 1
  | next {number target : Int} {page there : Page}
      (before : Reached l registry blog now address place number)
      (here : l.page? blog now number = some page) (pos : 1 ≤ target)
      (exists_there : l.page? blog now target = some there)
      (link : output registry page (place page) address = Utf8.bytesOf there.path) :
    Reached l registry blog now address place target

variable {address : Node} {place : Page → Context}

include hcount hexact in
/-- A link to the next page goes one page further, and to a page that is counted. -/
theorem next_of_link (hl : listing? store name = some l)
    (haddress : Direction.next.IsAddressTag address) {target : Int} {page there : Page}
    {c : Context} (hn : 1 ≤ number)
    (here : l.page? blog now number = some page) (pos : 1 ≤ target)
    (exists_there : l.page? blog now target = some there)
    (link : output registry page c address = Utf8.bytesOf there.path) :
    target = number + 1 ∧ target ≤ Paging.halfUp l.posts.length blog.postsPerPage := by
  rw [output_address hl here haddress, Utf8.bytesOf_inj, (fields_of_page? exists_there).2.1] at link
  split at link
  · next hcounted =>
    have hnext := (hasNext_iff hcount hexact here).1 hcounted
    have htarget := (Link.ofPage_inj (by simp only [Direction.neighbour]; omega) pos).1 link
    simp only [Direction.neighbour] at htarget
    omega
  · exact absurd link.symm (Link.ofPage_ne_empty _ _)

include hfits hcount hexact in
/-- **Links to the next page reach the pages that are counted**, and the first one in any case. -/
theorem reached_iff (hl : listing? store name = some l)
    (haddress : Direction.next.IsAddressTag address) :
    Reached l registry blog now address place number ↔
      1 ≤ number ∧ number ≤ max 1 (Paging.halfUp l.posts.length blog.postsPerPage) := by
  constructor
  · intro h
    induction h with
    | first => omega
    | next before here pos exists_there link ih =>
      have := next_of_link hcount hexact hl haddress ih.1 here pos exists_there link
      omega
  · rintro ⟨hn, hle⟩
    induction number, hn using Int.leInduction with
    | base => exact .first
    | succ number hn ih =>
      have hlast := Paging.halfUp_le_lastPage l.posts.length blog.postsPerPage
      have hsome : (l.page? blog now number).isSome := (page?_isSome_iff hfits hn).2 (by omega)
      obtain ⟨page, hpage⟩ := Option.isSome_iff_exists.1 hsome
      have hnext : Direction.next.isCounted page := (hasNext_iff hcount hexact hpage).2 (by omega)
      obtain ⟨pos, there, hthere⟩ := page?_of_isCounted hfits hcount hexact hn hpage hnext
      refine .next (ih (by omega)) hpage pos hthere ?_
      rw [output_address hl hpage haddress, if_pos hnext, (fields_of_page? hthere).2.1]

end

/-! ### Numbers within 64 bits -/

theorem fits_offset {page : Page} (hpage : l.page? blog now number = some page) :
    Decimal.fits ((number - 1) * Paging.pageSize blog.postsPerPage) := by
  obtain ⟨posts, hposts, -⟩ := Option.map_eq_some_iff.1 hpage
  exact (postsOn?_eq_some_iff.1 hposts).1

/-- The number of a neighbour that is counted is between two numbers that fit: the page's own and
that of the first page or of all pages. -/
theorem fits_neighbour (hnumber : Decimal.fits number) {page : Page}
    (hpage : l.page? blog now number = some page) {d : Direction} (hd : d.isCounted page) :
    Decimal.fits (d.neighbour number) := by
  have hbounds := Paging.fits_iff.1 hnumber
  have hpnumber := (fields_of_page? hpage).1
  rw [Paging.fits_iff]
  cases d with
  | previous =>
    have hprevious : 1 < page.number := of_decide_eq_true hd
    simp only [Direction.neighbour]
    omega
  | next =>
    have hnext : page.number < page.count := of_decide_eq_true hd
    have hmost : page.count ≤ 0x7FFFFFFFFFFFFFFF := Paging.pageCount_le ..
    simp only [Direction.neighbour]
    omega

/-! ### What a reader can rely on -/

/-- **Links between the pages of a listing lead to its pages.** Let the number of pages be counted
exactly, without the rounding of double precision.

A number below one stands for the first page and any other for itself, and from the first one on
there are just the pages up to the last one with posts. On each page, a tag for the address of the
page before or after it yields nothing or the address under which that page is rendered, and the tag
that asks for such a page holds just when there is an address. By links to the next page every page
is reached but possibly the last one, which is missed just when there is more than one page of posts
and the posts left over fill less than half of a page. Wherever a page starts and whatever its
neighbours are, these numbers are within 64 bits. -/
theorem pagination_links_lead_to_pages (site : Site) (now : Instant) {registry : Registry}
    {profile : Profile} {authors : List Author} {tags : List Tag} {posts : List Post}
    {name : ListingName} {l : Listing} (hactive : site.active = some registry)
    (hvalid : registry.missing? = none)
    (hl : listing? (Store.make profile authors tags posts) name = some l)
    (hfits : Text.Decimal.fits posts.length)
    (hexact : Paging.pageCount l.posts.length profile.postsPerPage =
      Paging.halfUp l.posts.length profile.postsPerPage) :
    let store := Store.make profile authors tags posts
    let blog := site.settings.apply store.profile
    let n : Int := l.posts.length
    let size := Paging.pageSize profile.postsPerPage
    let last := Paging.lastPage n profile.postsPerPage
    (∀ number, site.renderNamed store now name number =
      match l.page? blog now (max number 1) with
      | some page => renderWith registry (l.template registry) page
      | none => ⟨[], .error (.notFound (.page (max number 1) l.name))⟩) ∧
    (∀ number, 1 ≤ number → (site.HasPage store now name number ↔ number ≤ last)) ∧
    (∀ number page, 1 ≤ number → l.page? blog now number = some page →
      ∀ (d : Direction) address presence c, d.IsAddressTag address → d.IsPresenceTag presence →
        (output registry page c presence ≠ [] ↔ output registry page c address ≠ []) ∧
        (output registry page c address ≠ [] →
          ∃ there, output registry page c address = Utf8.bytesOf there.path ∧
            site.renderNamed store now name (d.neighbour number) =
              renderWith registry (l.template registry) there ∧
            l.page? blog now (d.neighbour number) = some there ∧
            site.HasPage store now name (d.neighbour number))) ∧
    (∀ address place, Direction.next.IsAddressTag address →
      (∀ number, Reached l registry blog now address place number → 1 ≤ number ∧ number ≤ last) ∧
      (∀ number, 1 ≤ number → number < last →
        Reached l registry blog now address place number) ∧
      (¬ Reached l registry blog now address place last ↔
        size < n ∧ 0 < 2 * (n % size) ∧ 2 * (n % size) < size)) ∧
    ∀ number, Decimal.fits number → Decimal.fits (max number 1 - 1) ∧
      ∀ page, l.page? blog now (max number 1) = some page →
        Decimal.fits ((max number 1 - 1) * size) ∧
        ∀ d : Direction, d.isCounted page → Decimal.fits (d.neighbour (max number 1)) := by
  intro store blog n size last
  have hcount : l.count = l.posts.length := count_of_listing? hl
  have hlfits : Decimal.fits l.posts.length := by
    have hle := length_le_of_listing? hl
    rw [Paging.fits_iff] at hfits ⊢
    omega
  have hexact' : Paging.pageCount l.posts.length blog.postsPerPage =
      Paging.halfUp l.posts.length blog.postsPerPage := hexact
  have hpages : ∀ number, 1 ≤ number → (site.HasPage store now name number ↔ number ≤ last) := by
    intro number hn
    rw [hasPage_iff hactive hvalid hl, Int.max_eq_left hn]
    exact page?_isSome_iff hlfits hn
  refine ⟨renderNamed_eq hactive hl now, hpages, ?_, ?_, ?_⟩
  · intro number page hn hpage d address presence c haddress hpresence
    rw [output_presence hpresence, output_address_ne_nil hl hpage haddress]
    refine ⟨Iff.rfl, fun hd => ?_⟩
    obtain ⟨hpos, there, hthere⟩ := page?_of_isCounted hlfits hcount hexact' hn hpage hd
    refine ⟨there, ?_, ?_, hthere, ?_⟩
    · rw [output_address hl hpage haddress, if_pos hd, (fields_of_page? hthere).2.1]
    · rw [renderNamed_eq hactive hl, Int.max_eq_left hpos, hthere]
    · rw [hasPage_iff hactive hvalid hl, Int.max_eq_left hpos, hthere]
      rfl
  · intro address place haddress
    have hreached : ∀ number, Reached l registry blog now address place number ↔
        1 ≤ number ∧ number ≤ max 1 (Paging.halfUp n profile.postsPerPage) :=
      fun number => reached_iff hlfits hcount hexact' hl haddress
    have hone : 1 ≤ last := Int.le_max_left ..
    have hle : Paging.halfUp n profile.postsPerPage ≤ last := Paging.halfUp_le_lastPage ..
    have hsucc : last ≤ max 1 (Paging.halfUp n profile.postsPerPage) + 1 :=
      Paging.lastPage_le_succ ..
    refine ⟨fun number h => ?_, fun number hn hlt => ?_, ?_⟩
    · have := (hreached number).1 h
      omega
    · exact (hreached number).2 (by omega)
    · rw [← Paging.halfUp_lt_lastPage_iff (show 0 ≤ n from Int.natCast_nonneg _), hreached]
      omega
  · intro number hnumber
    have hbounds := Paging.fits_iff.1 hnumber
    have hfirst : Decimal.fits (max number 1) := Paging.fits_iff.2 (by omega)
    refine ⟨Paging.fits_iff.2 (by omega), fun page hpage => ?_⟩
    have hoffset := fits_offset hpage
    exact ⟨hoffset, fun d hd => fits_neighbour hfirst hpage hd⟩

/-- A site with nothing in its templates. -/
def bareSite : Site where
  themes := ⟨"themes"⟩
  active := some ⟨"bare", [("index", Node.leaf "index" false 0), ("post", Node.leaf "post" false 0)],
    []⟩

/-- Seven posts at three to a page. -/
def sevenPosts : Store :=
  Store.make { postsPerPage := 3 } [] [] ([1, 2, 3, 4, 5, 6, 7].map fun id => { id })

/-- The tag that a theme's author writes as `page_url next`. -/
def nextAddress : Node :=
  Node.ofText "page_url next" false 0 [] [] none

theorem nextAddress_isAddressTag : Direction.next.IsAddressTag nextAddress := by
  have hname : nextAddress.name = "page_url" := by decide +kernel
  have hargument : nextAddress.firstArgument?.map (·.name) = some "next" := by decide +kernel
  obtain ⟨a, ha, hnext⟩ := Option.map_eq_some_iff.1 hargument
  exact ⟨.inl hname, a, ha, by rw [hnext]; decide⟩

theorem length_sevenPosts : (Listing.ofIndex sevenPosts).posts.length = 7 := by
  have h := congrArg List.length (listed_make { postsPerPage := 3 } [] []
    ([1, 2, 3, 4, 5, 6, 7].map fun id => { id }))
  rw [List.length_mergeSort] at h
  exact h

/-- Of seven posts at three to a page, the last is on a third page, and no link leads there. -/
theorem pagination_links_lead_to_pages_of_seven :
    bareSite.HasPage sevenPosts ⟨0, 0⟩ .index 3 ∧ ¬ bareSite.HasPage sevenPosts ⟨0, 0⟩ .index 4 ∧
      ¬ Reached (.ofIndex sevenPosts) (bareSite.active.getD default)
        (bareSite.settings.apply sevenPosts.profile) ⟨0, 0⟩ nextAddress
        (fun page => Context.start page.kind) 3 := by
  have hlen := length_sevenPosts
  have hsize : Paging.pageSize 3 = 3 := by decide
  have hexact : Paging.pageCount (Listing.ofIndex sevenPosts).posts.length 3 =
      Paging.halfUp (Listing.ofIndex sevenPosts).posts.length 3 :=
    Paging.pageCount_eq_halfUp 3 (by omega) (by omega)
  have hlast : Paging.lastPage (Listing.ofIndex sevenPosts).posts.length 3 = 3 := by
    rw [hlen]
    change Paging.lastPage 7 3 = 3
    have htwo : 2 < Paging.lastPage 7 3 ↔ 2 * Paging.pageSize 3 < 7 :=
      Paging.lt_lastPage_iff (by decide)
    have hthree : 3 < Paging.lastPage 7 3 ↔ 3 * Paging.pageSize 3 < 7 :=
      Paging.lt_lastPage_iff (by decide)
    omega
  have hl : listing? sevenPosts .index = some (.ofIndex sevenPosts) := rfl
  obtain ⟨-, hpages, -, hlinks, -⟩ :=
    pagination_links_lead_to_pages bareSite ⟨0, 0⟩ rfl (by decide) hl (by decide) hexact
  obtain ⟨-, -, hmissed⟩ :=
    hlinks nextAddress (fun page => Context.start page.kind) nextAddress_isAddressTag
  have hthird := hpages 3 (by decide)
  have hfourth := hpages 4 (by decide)
  have hrest := hmissed.2
  rw [hlast] at hthird hfourth hrest
  rw [hlen, hsize] at hrest
  exact ⟨hthird.2 (by decide), fun h => absurd (hfourth.1 h) (by decide), hrest (by decide)⟩

end ThemePress.Site
