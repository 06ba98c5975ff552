import ThemePress.Proofs.Site.Links
import ThemePress.Proofs.Site.NormalForm
import ThemePress.Proofs.Template.Written

/-! # Bases and paths

The tag `asset` puts the path of assets in front of a path, and the tag `url` the address of the
blog in front of that of a subject. There should be one slash in between. `Field.asset` leaves out
slashes of the path when the base ends in one, but adds none when neither has one
(`asset_eq_joined_iff`). `Field.url` puts both behind each other as they are (`url_eq_joined_iff`),
and no address of a blog ends in a slash, wherever it comes from (`endsInSlash_url`). -/

namespace ThemePress.Site

open ThemePress.Blog ThemePress.Render ThemePress.Text
open ThemePress.Template (Node Registry ofText_of_takeKeyed ofText_of_written)
open ThemePress.Template.TagText
open ThemePress.Time (Instant)

/-! ### The tags -/

/-- The node is a tag for the asset with the path `path`. -/
def IsAssetTag (path : String) (n : Node) : Prop :=
  n.name = "asset" ∧ n.firstArgument?.map (·.name) = some path

/-- The node is a tag for the address with that of the blog in front, as it is. -/
def IsAbsoluteTag (n : Node) : Prop :=
  n.name = "url" ∧ n.unescaped = true ∧ n.keyed? "absolute" = some "true"

section
variable {registry : Registry} {page : Page} {c : Context} {n : Node}

theorem output_asset (hn : n.name = "asset") :
    output registry page c n = Utf8.bytesOf (Field.asset page c n) := by
  have hname : Helper.named? n.name = some .asset := by rw [hn]; decide
  rw [output, evaluate_of_field hname (fun _ _ => rfl)]

/-- The slashes between the path of assets and the path of one. -/
def slashesBetween (base path : String) : Nat :=
  if endsInSlash base then slashesAtEnd base else slashesAtStart path

/-- What the tag of an asset shows. -/
theorem asset_of_isAssetTag {path : String} (h : IsAssetTag path n) :
    (Field.asset page c n).toList = (trimSlashes page.blog.assetPath).toList ++
      (List.replicate (slashesBetween page.blog.assetPath path) '/' ++
        path.toList.dropWhile (· == '/')) := by
  obtain ⟨argument, hargument, rfl⟩ := Option.map_eq_some_iff.1 h.2
  rw [Field.asset, hargument, slashesBetween]
  cases hslash : endsInSlash page.blog.assetPath with
  | true =>
    simp only [hslash, if_true, String.toList_append, String.toList_ofList]
    conv => lhs; rw [toList_eq_trimSlashes_append page.blog.assetPath]
    rw [List.append_assoc]
  | false =>
    simp only [hslash, Bool.false_eq_true, if_false, String.toList_append]
    rw [trimSlashes_eq_self_iff.2 hslash, ← toList_eq_slashes_append]

/-- **The tag of an asset joins base and path just when one slash is between them.** -/
theorem asset_eq_joined_iff {path : String} (h : IsAssetTag path n) :
    output registry page c n = Utf8.bytesOf (joined page.blog.assetPath path) ↔
      slashesBetween page.blog.assetPath path = 1 := by
  rw [output_asset h.1, Utf8.bytesOf_inj]
  exact eq_joined_iff (asset_of_isAssetTag h)

/-- **The tag of an address joins base and path just when the path starts with one slash**, if the
base ends in none. -/
theorem url_eq_joined_iff {address : String} (h : IsAbsoluteTag n)
    (haddress : Field.scopedUrl? page c = some address)
    (hinternal : Link.isExternal address = false) (hbase : endsInSlash page.blog.url = false) :
    output registry page c n = Utf8.bytesOf (joined page.blog.url address) ↔
      slashesAtStart address = 1 := by
  obtain ⟨hname, hunescaped, habsolute⟩ := h
  have hshown : Field.url page c n = page.blog.url ++ address := by
    simp [Field.url, haddress, hinternal, habsolute, shown, hunescaped]
  rw [output_of_url hname, hshown, Utf8.bytesOf_inj]
  refine eq_joined_iff ?_
  rw [String.toList_append, trimSlashes_eq_self_iff.2 hbase, ← toList_eq_slashes_append]

end

/-! ### Where bases come from -/

theorem ofText_of_ofFile {tree : Files.Tree} {path : Files.Path} {config : Config}
    (h : Config.ofFile tree path = .ok config) :
    ∃ root text, Config.ofText root text = .ok config := by
  unfold Config.ofFile at h
  obtain ⟨bytes, -, h⟩ := bind_ok_iff.1 h
  split at h
  · cases h
  · next text _ =>
    cases hconfig : Config.ofText (path.parent?.getD ⟨"."⟩) text with
    | error fault =>
      rw [hconfig] at h
      cases h
    | ok config' =>
      rw [hconfig] at h
      obtain rfl := Except.ok.inj h
      exact ⟨_, text, hconfig⟩

/-- Of the settings in a configuration, the address ends in no slash and the path of assets in
one. -/
theorem ends_of_settings {root : Files.Path} {text : String} {config : Config}
    (h : Config.ofText root text = .ok config) :
    (∀ url ∈ config.settings.url, endsInSlash url = false) ∧
      ∀ assets ∈ config.settings.assetPath, endsInSlash assets = true := by
  obtain ⟨e, -, hresolve⟩ := Config.ofText_ok_iff.1 h
  obtain ⟨first, settings, -, hsettings, rfl⟩ := Config.resolve_ok_iff.1 hresolve
  obtain ⟨hurl, hassets⟩ := Config.normalSettings_ok_iff.1 hsettings
  refine ⟨fun url hmem => ?_, fun assets hmem => ?_⟩
  · obtain ⟨given, -, haddress⟩ := Config.exists_of_mem_mapM hurl hmem
    exact (Config.ends_of_webAddress haddress).2
  · obtain ⟨given, -, hpath⟩ := Config.exists_of_mem_mapM hassets hmem
    exact (Config.assetPath_again hpath).2.2.1

theorem endsInSlash_profile_url {text : String} {store : Store}
    (h : Store.ofText text = .ok store) : endsInSlash store.profile.url = false := by
  obtain ⟨d, -, hload⟩ := ofText_ok_iff.1 h
  obtain ⟨-, -, posts, -, -, rfl⟩ := load_ok_iff.1 hload
  exact endsInSlash_trimSlashes _

/-- **No address of a blog ends in a slash**, whether it is from the data or from the settings. -/
theorem endsInSlash_url {text : String} {store : Store} {settings : Settings}
    (hstore : Store.ofText text = .ok store)
    (hsettings : ∀ url ∈ settings.url, endsInSlash url = false) :
    endsInSlash (settings.apply store.profile).url = false := by
  unfold Settings.apply
  cases hurl : settings.url with
  | none => exact endsInSlash_profile_url hstore
  | some url => exact hsettings url hurl

/-! ### Addresses of subjects -/

theorem slashesAtStart_slash_append (s : String) :
    slashesAtStart ("/" ++ s) = slashesAtStart s + 1 := by
  simp [slashesAtStart]

/-- No slash is at the start of a text that starts otherwise. -/
theorem slashesAtStart_append_slash (s : String) : slashesAtStart (s ++ "/") = 0 ↔
    ∃ ch, s.toList.head? = some ch ∧ ch ≠ '/' := by
  unfold slashesAtStart
  cases hs : s.toList with
  | nil => simp [hs]
  | cons ch rest =>
    by_cases hch : ch = '/'
    · simp [hs, hch]
    · simp [hs, hch]

theorem not_isExternal_of_slash {address : String} (h : address.toList.head? = some '/') :
    Link.isExternal address = false := by
  have hnone : ∀ scheme : String, scheme.toList.head? = some 'h' →
      address.startsWith scheme = false := by
    intro scheme hscheme
    rw [String.startsWith_string_eq_false_iff]
    intro hstart
    have hmem := head?_of_isPrefix hstart 'h' hscheme
    rw [h] at hmem
    cases hmem
  rw [Link.isExternal, hnone "http://" rfl, hnone "https://" rfl]
  rfl

namespace Subject

/-- The address does not start with further slashes. -/
def StartsPlain : Subject → Prop
  | .post p => ∃ ch, p.slug.toList.head? = some ch ∧ ch ≠ '/'
  | .tag _ => True
  | .author _ => True

/-- **An address of a post starts with one slash just when its slug starts with something else**;
one of a tag or an author always does. -/
theorem slashesAtStart_address (s : Subject) : slashesAtStart s.address = 1 ↔ s.StartsPlain := by
  cases s with
  | post p =>
    rw [address, Link.ofPost, String.append_assoc, slashesAtStart_slash_append,
      Nat.add_eq_right, slashesAtStart_append_slash]
    rfl
  | tag t => simp [address, Link.tagBase, StartsPlain, slashesAtStart]
  | author a => simp [address, Link.authorBase, StartsPlain, slashesAtStart]

theorem not_isExternal_address (s : Subject) : Link.isExternal s.address = false := by
  refine not_isExternal_of_slash ?_
  cases s with
  | post p => simp [address, Link.ofPost]
  | tag t => simp [address, Link.tagBase]
  | author a => simp [address, Link.authorBase]

end Subject

/-! ### The tag of an asset as it is written -/

/-- The text of the tag for the asset with the path `path`. -/
def assetText (path : String) : String :=
  "asset \"" ++ path ++ "\""

theorem toList_assetText (path : String) : (assetText path).toList =
    "asset".toList ++ (' ' :: '"' :: (path.toList ++ ['"'])) := by
  simp [assetText]

/-- Can the path be written in the tag? -/
def Carried (path : String) : Prop :=
  path ≠ "" ∧ path ≠ Node.elseName ∧ ∀ ch ∈ path.toList, isBlank ch = false

instance (path : String) : Decidable (Carried path) :=
  decidable_of_iff (path ≠ "" ∧ path ≠ Node.elseName ∧ path.toList.all (!isBlank ·) = true)
    (by simp [Carried])

theorem takeKeyed_assetText {path : String} (h : ∀ ch ∈ path.toList, isQuote ch = false) :
    takeKeyed (assetText path).toList = ([], (assetText path).toList) := by
  refine takeKeyed_eq_self fun t ht => ?_
  obtain ⟨front, hfront⟩ := ht
  have hall : (assetText path).toList = "asset \"".toList ++ (path.toList ++ ['"']) := by
    simp [assetText]
  -- there is no `=` in front of the path, and one quote behind it
  have hone : (path.toList ++ ['"']).countP isQuote = 1 := by
    rw [List.countP_append, List.countP_eq_zero.2 fun ch hch => by simp [h ch hch]]
    rfl
  have hsuffix : t <:+ path.toList ++ ['"'] := by
    rw [hall] at hfront
    obtain ⟨rest, hrest, ht⟩ | ⟨rest, -, ht⟩ := List.append_eq_append_iff.1 hfront
    · cases rest with
      | nil => exact ⟨['='], by simpa using ht⟩
      | cons ch rest =>
        obtain rfl : '=' = ch := (List.cons.inj ht).1
        have hmem : '=' ∈ "asset \"".toList := by
          rw [hrest]
          simp
        exact absurd hmem (by decide)
    · exact ⟨rest ++ ['='], by rw [ht]; simp⟩
  have := hsuffix.sublist.countP_le (p := isQuote)
  omega

/-- The node of the tag, by the words that the path and its quotes make. -/
theorem ofText_assetText {path : String} (h : ∀ ch ∈ path.toList, isQuote ch = false)
    (unescaped : Bool) (place : Nat) :
    Node.ofText (assetText path) unescaped place [] [] none =
      { Node.leaf "asset" unescaped place with
        arguments := (words ('"' :: (path.toList ++ ['"']))).map fun w =>
          Node.leaf (String.ofList (unquote w)) unescaped 0 } := by
  have htake := takeKeyed_assetText h
  have hwords : (words (takeKeyed (assetText path).toList).2).map
      (fun w => String.ofList (unquote w)) = "asset" ::
        (words ('"' :: (path.toList ++ ['"']))).map fun w => String.ofList (unquote w) := by
    have hblank : words (' ' :: '"' :: (path.toList ++ ['"'])) =
        words ('"' :: (path.toList ++ ['"'])) := by
      rw [words, if_pos (by decide)]
    have hname : IsToken "asset" := by decide +kernel
    rw [htake, toList_assetText,
      words_word_append (by decide) (fun ch hch => (hname.plain ch hch).1) rfl, hblank,
      List.map_cons]
    rfl
  have hkeyed : (takeKeyed (assetText path).toList).1.map
      (fun a => (String.ofList a.1, String.ofList a.2)) = [] := by
    rw [htake]
    rfl
  rw [ofText_of_takeKeyed hkeyed hwords, List.map_map]
  simp [Node.leaf]

/-- A word in double quotes is read without them, unless nothing is in them. -/
theorem unquote_quoted {w : List Char} (h : w ≠ []) : unquote ('"' :: (w ++ ['"'])) = w := by
  have hlong : (1 < (w ++ ['"']).length) = True := by
    have := List.length_pos_iff.2 h
    rw [List.length_append, List.length_singleton, eq_iff_iff, iff_true]
    omega
  have hquote : isQuote '"' = true := by decide
  rw [unquote, List.dropWhile_cons_of_neg (by decide)]
  simp only [List.getLast?_concat, hquote, hlong, decide_true, Bool.and_self, if_true,
    List.dropLast_concat]

/-- A word with a quote at its start only is read with it. -/
theorem unquote_open {w : List Char} (h : ∀ ch ∈ w.getLast?, isQuote ch = false) :
    unquote ('"' :: w) = '"' :: w := by
  rw [unquote, List.dropWhile_cons_of_neg (by decide)]
  cases hlast : w.getLast? with
  | none => simp [hlast]
  | some ch => simp [hlast, h ch hlast]

theorem isPositional_leaf {w : String} {unescaped : Bool} :
    (Node.leaf w unescaped 0).isPositional = (w != Node.elseName) := by
  simp [Node.isPositional, Node.isElse, Node.leaf, bne]

theorem words_quoted {path : String} (hblank : ∀ ch ∈ path.toList, isBlank ch = false) :
    words ('"' :: (path.toList ++ ['"'])) = ['"' :: (path.toList ++ ['"'])] := by
  have hplain : ∀ ch ∈ '"' :: (path.toList ++ ['"']), isBlank ch = false := by
    simp only [List.mem_cons, List.mem_append, List.not_mem_nil, or_false]
    rintro ch (rfl | hch | rfl)
    · decide
    · exact hblank ch hch
    · decide
  have hwords := words_word_append (s := []) (List.cons_ne_nil _ _) hplain rfl
  rwa [List.append_nil] at hwords

section
variable {path : String} (h : ∀ ch ∈ path.toList, isQuote ch = false) (unescaped : Bool)
  (place : Nat)

include h

/-- The first argument of the tag is what its first word is without quotes. -/
theorem firstArgument?_assetText {w : List Char} {ws : List (List Char)}
    (hwords : words ('"' :: (path.toList ++ ['"'])) = w :: ws) :
    (Node.ofText (assetText path) unescaped place [] [] none).firstArgument? =
      (some (Node.leaf (String.ofList (unquote w)) unescaped 0)).filter Node.isPositional := by
  rw [ofText_assetText h, hwords, Node.firstArgument?, List.map_cons, List.head?_cons]

/-- **A path that can be written in the tag is its path.** -/
theorem isAssetTag_assetText (hpath : Carried path) :
    IsAssetTag path (Node.ofText (assetText path) unescaped place [] [] none) := by
  obtain ⟨hne, helse, hblank⟩ := hpath
  have hnil : path.toList ≠ [] := fun hnil => hne (String.toList_eq_nil_iff.1 hnil)
  have hfirst := firstArgument?_assetText h unescaped place (words_quoted hblank)
  rw [unquote_quoted hnil, String.ofList_toList] at hfirst
  refine ⟨by rw [ofText_assetText h]; rfl, ?_⟩
  rw [hfirst, Option.filter_some, isPositional_leaf, if_pos (by simpa using helse)]
  rfl

/-- What the tag has instead of another path: nothing, or a word with the quote at its start. -/
theorem firstArgument?_of_not_carried (hpath : ¬ Carried path) :
    let n := Node.ofText (assetText path) unescaped place [] [] none
    n.firstArgument? = none ∨
      ∃ argument rest, n.firstArgument? = some argument ∧ argument.name.toList = '"' :: rest := by
  intro n
  -- a word that keeps its quote is an argument with it
  have hkept : ∀ {w : List Char} {ws : List (List Char)},
      words ('"' :: (path.toList ++ ['"'])) = ('"' :: w) :: ws → unquote ('"' :: w) = '"' :: w →
      ∃ argument rest, n.firstArgument? = some argument ∧
        argument.name.toList = '"' :: rest := by
    intro w ws hwords hunquote
    have hfirst := firstArgument?_assetText h unescaped place hwords
    have helse : String.ofList ('"' :: w) ≠ Node.elseName := fun heq => by
      have hlist := congrArg (fun s : String => s.toList.head?) heq
      simp only [String.toList_ofList, List.head?_cons] at hlist
      exact absurd hlist (by decide)
    rw [hunquote, Option.filter_some, isPositional_leaf, if_pos (by simpa using helse)] at hfirst
    exact ⟨_, w, hfirst, by simp [Node.leaf]⟩
  by_cases hblank : ∀ ch ∈ path.toList, isBlank ch = false
  · by_cases hne : path = ""
    · subst hne
      exact .inr (hkept (words_quoted hblank) (by decide))
    · have helse : path = Node.elseName := by
        by_cases helse : path = Node.elseName
        · exact helse
        · exact absurd ⟨hne, helse, hblank⟩ hpath
      subst helse
      have hfirst := firstArgument?_assetText h unescaped place (words_quoted hblank)
      rw [unquote_quoted (by decide), String.ofList_toList, Option.filter_some, isPositional_leaf]
        at hfirst
      exact .inl hfirst
  · -- the first word goes up to the first blank
    have hdrop : startsWord (path.toList.dropWhile (!isBlank ·) ++ ['"']) = false := by
      cases hd : path.toList.dropWhile (!isBlank ·) with
      | nil =>
        refine absurd (fun ch hch => ?_) hblank
        simpa using List.dropWhile_eq_nil_iff.1 hd ch hch
      | cons ch rest =>
        have hhead := List.head?_dropWhile_not (!isBlank ·) path.toList
        rw [hd] at hhead
        simpa [startsWord] using hhead
    have hword : ∀ ch ∈ '"' :: path.toList.takeWhile (!isBlank ·), isBlank ch = false := by
      rw [List.forall_mem_cons]
      exact ⟨by decide, fun ch hch => by simpa using List.mem_takeWhile_imp hch⟩
    have hwords := words_word_append (List.cons_ne_nil _ _) hword hdrop
    rw [List.cons_append, ← List.append_assoc, List.takeWhile_append_dropWhile] at hwords
    refine .inr (hkept hwords (unquote_open fun ch hch => ?_))
    exact h ch ((List.takeWhile_sublist _).subset (List.mem_of_mem_getLast? hch))

/-- The quotes of a base and a path that are joined are those of the base. -/
theorem count_quote_joined (base : String) :
    (joined base path).toList.count '"' = base.toList.count '"' := by
  have hpath : '"' ∉ path.toList.dropWhile (· == '/') := fun hmem =>
    absurd (h '"' ((List.dropWhile_sublist _).subset hmem)) (by decide)
  have hslash : ('"' == '/') = false := by decide
  conv => rhs; rw [toList_eq_trimSlashes_append base]
  rw [toList_joined, List.count_append, List.count_append, List.count_replicate,
    List.count_cons_of_ne (by decide), List.count_eq_zero_of_not_mem hpath]
  rfl

/-- Base and path are not joined by the tag when the path cannot be written in it. -/
theorem asset_ne_joined (hpath : ¬ Carried path) (page : Page) (c : Context) :
    Field.asset page c (Node.ofText (assetText path) unescaped place [] [] none) ≠
      joined page.blog.assetPath path := by
  intro heq
  have hlist := congrArg String.toList heq
  rcases firstArgument?_of_not_carried h unescaped place hpath with
    hnone | ⟨argument, rest, hsome, hargument⟩
  · rw [Field.asset, hnone, toList_joined] at hlist
    simp at hlist
  · have hstart : argument.name.toList.dropWhile (· == '/') = argument.name.toList := by
      rw [hargument]
      exact List.dropWhile_cons_of_neg (by decide)
    have hshown : Field.asset page c (Node.ofText (assetText path) unescaped place [] [] none) =
        page.blog.assetPath ++ argument.name := by
      simp [Field.asset, hsome, hstart]
    have hcount := congrArg (List.count '"') hlist
    rw [hshown, String.toList_append, List.count_append, hargument, List.count_cons_self,
      count_quote_joined h] at hcount
    omega

end

theorem isAbsoluteTag_ofText (place : Nat) :
    IsAbsoluteTag (Node.ofText "url absolute=\"true\"" true place [] [] none) := by
  have hwritten : Written [.word "url" none, .keyed "absolute" "true" [] [] .double]
      "url absolute=\"true\"".toList := by
    have hnone : ∀ ch ∈ [], isBlank ch = true := List.all_eq_true.1 rfl
    have hone : ∀ ch ∈ [' '], isBlank ch = true := List.all_eq_true.1 rfl
    exact .cons hnone (by decide +kernel) (by decide)
      (.cons hone (by decide +kernel) (by decide) (.nil hnone))
  rw [ofText_of_written hwritten rfl]
  exact ⟨rfl, rfl, rfl⟩

/-- **Base and path are joined with one slash just when one is there.** Take a store that was read
from a text, a configuration that was read from a file, and a page of the blog with the settings
applied. The tag of an asset joins the path of assets and its own path when one slash is at the end
of the first; or one at the start of the second, if the first has none. A path of assets in the
settings has one. As it is written in the tag, a path without quotes also has to be one that the
tag can carry. The tag of an address joins the address of the blog with that of any tag or author,
with that of a post whose slug is not empty and starts with no slash, and with that of a navigation
entry of the site itself that starts with one slash. -/
theorem joined_with_one_slash_iff {text : String} {store : Store} {tree : Files.Tree}
    {file : Files.Path} {config : Config} {page : Page} (registry : Registry) (c : Context)
    (hstore : Store.ofText text = .ok store) (hconfig : Config.ofFile tree file = .ok config)
    (hblog : page.blog = config.settings.apply store.profile) :
    (∀ n path, IsAssetTag path n →
      (output registry page c n = Utf8.bytesOf (joined page.blog.assetPath path) ↔
        slashesBetween page.blog.assetPath path = 1)) ∧
    (∀ path, (∀ ch ∈ path.toList, isQuote ch = false) → ∀ unescaped place,
      (output registry page c (Node.ofText (assetText path) unescaped place [] [] none) =
          Utf8.bytesOf (joined page.blog.assetPath path) ↔
        Carried path ∧ slashesBetween page.blog.assetPath path = 1)) ∧
    (config.settings.assetPath ≠ none → endsInSlash page.blog.assetPath = true) ∧
    (∀ n (s : Subject), IsAbsoluteTag n → s.InScope page c →
      (output registry page c n = Utf8.bytesOf (joined page.blog.url s.address) ↔
        s.StartsPlain)) ∧
    (∀ n item, IsAbsoluteTag n → c.scope = .navigation → c.navigation? page = some item →
      Link.isExternal item.url = false →
      (output registry page c n = Utf8.bytesOf (joined page.blog.url item.url) ↔
        slashesAtStart item.url = 1)) ∧
    ∀ place, IsAbsoluteTag (Node.ofText "url absolute=\"true\"" true place [] [] none) := by
  obtain ⟨root, configText, hconfigText⟩ := ofText_of_ofFile hconfig
  obtain ⟨hurls, hassets⟩ := ends_of_settings hconfigText
  have hbase : endsInSlash page.blog.url = false := by
    rw [hblog]
    exact endsInSlash_url hstore hurls
  refine ⟨fun n path h => asset_eq_joined_iff h, fun path hquotes unescaped place => ?_,
    fun hgiven => ?_, fun n s h hscope => ?_, fun n item h hscope hitem hinternal => ?_,
    isAbsoluteTag_ofText⟩
  · by_cases hpath : Carried path
    · rw [asset_eq_joined_iff (isAssetTag_assetText hquotes unescaped place hpath)]
      simp [hpath]
    · have hname : (Node.ofText (assetText path) unescaped place [] [] none).name = "asset" := by
        rw [ofText_assetText hquotes]
        rfl
      rw [output_asset hname, Utf8.bytesOf_inj]
      simp [hpath, asset_ne_joined hquotes unescaped place hpath page c]
  · obtain ⟨assets, hsome⟩ := Option.ne_none_iff_exists'.1 hgiven
    rw [hblog, Settings.apply, hsome]
    exact hassets assets hsome
  · rw [url_eq_joined_iff h (Subject.scopedUrl?_of_inScope hscope) s.not_isExternal_address hbase]
    exact s.slashesAtStart_address
  · refine url_eq_joined_iff h ?_ hinternal hbase
    simp [Field.scopedUrl?, hscope, hitem]

/-- A folder with this configuration file only. -/
def folderWithConfig (text : String) : Files.Tree where
  files := [(["quire.yaml"], .ok (Utf8.bytesOf text))]

/-- A page of the blog, in its navigation. -/
def pageInNavigation (settings : Settings) (store : Store) : Page where
  kind := .index
  blog := settings.apply store.profile

/-- A blog with one navigation entry. -/
def textWithEntry (url assetPath entry : String) : String :=
  "blog:\n  url: " ++ url ++ "\n  asset_path: " ++ assetPath ++
    "\n  navigation:\n  - label: About\n    url: " ++ entry ++ "\n"

/-- The store of such a blog. -/
def storeWithEntry (url assetPath entry : String) : Store :=
  Store.make (ProfileEntry.profile
    { url := some url, assetPath := some assetPath, navigation := [("About", entry)] }) [] [] []

theorem joined_with_one_slash_iff_about :
    let store := storeWithEntry "https://x/" "/a" "/about/"
    let config : Config :=
      { Config.standard ⟨""⟩ with settings := { assetPath := some "/static/" } }
    let page := pageInNavigation config.settings store
    Store.ofText (textWithEntry "https://x/" "/a" "/about/") = .ok store ∧
      Config.ofFile (folderWithConfig "site:\n  asset_path: /static\n") ⟨"quire.yaml"⟩ =
        .ok config ∧
      output default page { scope := .navigation }
          (Node.ofText (assetText "//app.js?v=1") false 0 [] [] none) =
        Utf8.bytesOf "/static/app.js?v=1" ∧
      output default page { scope := .navigation }
          (Node.ofText "url absolute=\"true\"" true 0 [] [] none) =
        Utf8.bytesOf "https://x/about/" := by
  intro store config page
  have hd : Yaml.decode? DataFile.decode (textWithEntry "https://x/" "/a" "/about/") =
      some
        { blog := { url := some "https://x/", assetPath := some "/a"
                    navigation := [("About", "/about/")] }
          authors := [], tags := [], posts := [] } := by
    decide +kernel
  have hstore : Store.ofText (textWithEntry "https://x/" "/a" "/about/") = .ok store :=
    ofText_ok_iff.2 ⟨_, hd, rfl⟩
  have hconfig : Config.ofFile (folderWithConfig "site:\n  asset_path: /static\n")
      ⟨"quire.yaml"⟩ = .ok config := by decide +kernel
  obtain ⟨-, hasset, -, -, hentry, htag⟩ :=
    joined_with_one_slash_iff default { scope := .navigation } hstore hconfig
      (rfl : page.blog = config.settings.apply store.profile)
  have hquotes : ∀ ch ∈ "//app.js?v=1".toList, isQuote ch = false := by
    have hall : "//app.js?v=1".toList.all (!isQuote ·) = true := by decide +kernel
    exact fun ch hch => by simpa using List.all_eq_true.1 hall ch hch
  have hcarried : Carried "//app.js?v=1" := by decide +kernel
  have hslashes : slashesBetween page.blog.assetPath "//app.js?v=1" = 1 := by decide +kernel
  have hasset' := (hasset _ hquotes false 0).2 ⟨hcarried, hslashes⟩
  have hentry' := (hentry _ (.ofLabel "About" "/about/") (htag 0) rfl rfl (by decide +kernel)).2
    (by decide +kernel)
  have hpath : joined page.blog.assetPath "//app.js?v=1" = "/static/app.js?v=1" := by
    decide +kernel
  have haddress : joined page.blog.url "/about/" = "https://x/about/" := by decide +kernel
  refine ⟨hstore, hconfig, ?_, ?_⟩
  · rw [hasset', hpath]
  · rw [← haddress]
    exact hentry'

/-- **Without a slash on either side, base and path run together.** -/
theorem not_joined_without_slash :
    let store := storeWithEntry "https://x" "/static" "about"
    let config := Config.standard ⟨""⟩
    let page := pageInNavigation config.settings store
    Store.ofText (textWithEntry "https://x" "/static" "about") = .ok store ∧
      Config.ofFile (folderWithConfig "") ⟨"quire.yaml"⟩ = .ok config ∧
      output default page { scope := .index }
          (Node.ofText (assetText "app.js") false 0 [] [] none) =
        Utf8.bytesOf "/staticapp.js" ∧
      joined page.blog.assetPath "app.js" = "/static/app.js" ∧
      output default page { scope := .navigation }
          (Node.ofText "url absolute=\"true\"" true 0 [] [] none) =
        Utf8.bytesOf "https://xabout" ∧
      joined page.blog.url "about" = "https://x/about" := by
  intro store config page
  have hd : Yaml.decode? DataFile.decode (textWithEntry "https://x" "/static" "about") =
      some
        { blog := { url := some "https://x", assetPath := some "/static"
                    navigation := [("About", "about")] }
          authors := [], tags := [], posts := [] } := by
    decide +kernel
  refine ⟨ofText_ok_iff.2 ⟨_, hd, rfl⟩, by decide +kernel, ?_, by decide +kernel, ?_,
    by decide +kernel⟩
  · rw [output_asset (by decide +kernel)]
    decide +kernel
  · rw [output_of_url (by decide +kernel)]
    decide +kernel

end ThemePress.Site
