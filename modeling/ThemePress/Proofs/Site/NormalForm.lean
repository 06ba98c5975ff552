import ThemePress.Proofs.Blog.Loading
import ThemePress.Proofs.Text.Slash
import ThemePress.Site.Config

/-! # Settings in their normal form

Settings are brought into a form of their own when a configuration is read: an address keeps neither
blanks around it nor slashes at its end, and a path of assets is given a slash. In that form they
should be left alone when they are read again. The path is (`assetPath_again`). The address is too,
unless the one that was given is ragged (`webAddress_again`): its slashes come off after its blanks.
All else in a configuration has no part in this (`resolve_eq`). -/

namespace ThemePress.Site

open ThemePress.Blog (bind_ok_iff)
open ThemePress.Files (Path)
open ThemePress.Text

namespace Config

/-! ### Addresses -/

/-- Is the address one of the web? -/
def IsWeb (address : String) : Prop :=
  address.startsWith "http://" ∨ address.startsWith "https://"

instance (address : String) : Decidable (IsWeb address) :=
  inferInstanceAs (Decidable (_ ∨ _))

theorem webAddress_ok_iff {url address : String} :
    webAddress url = .ok address ↔ address = trimSlashes (trim url) ∧ IsWeb address := by
  unfold webAddress
  dsimp only
  split
  · next h =>
    rw [Bool.or_eq_true] at h
    constructor
    · intro he
      obtain rfl := Except.ok.inj he
      exact ⟨rfl, h⟩
    · rintro ⟨rfl, -⟩
      rfl
  · next h =>
    rw [Bool.or_eq_true] at h
    refine ⟨nofun, ?_⟩
    rintro ⟨rfl, hweb⟩
    exact absurd hweb h

section
variable {url address : String}

/-- An address starts with no blank and ends in no slash. -/
theorem ends_of_webAddress (h : webAddress url = .ok address) :
    (∀ c ∈ address.toList.head?, isBlank c = false) ∧ endsInSlash address = false := by
  obtain ⟨rfl, -⟩ := webAddress_ok_iff.1 h
  refine ⟨fun c hc => ?_, endsInSlash_trimSlashes _⟩
  rw [toList_trimSlashes, toList_trim] at hc
  exact head?_trimChars _ c (head?_of_isPrefix (dropTail_isPrefix _ _) c hc)

/-- It ends in a blank just when a blank stood in front of the slashes. -/
theorem blank_at_end_of_webAddress (h : webAddress url = .ok address) :
    (∃ c ∈ address.toList.getLast?, isBlank c = true) ↔ Ragged url := by
  obtain ⟨rfl, hweb⟩ := webAddress_ok_iff.1 h
  refine blank_at_end_iff fun hempty => ?_
  rw [hempty] at hweb
  exact absurd hweb (by decide)

/-- **An address that was read is left alone by reading it just when what it was read from is not
ragged.** -/
theorem webAddress_again (h : webAddress url = .ok address) :
    webAddress address = .ok address ↔ ¬ Ragged url := by
  obtain ⟨hhead, hslash⟩ := ends_of_webAddress h
  rw [← blank_at_end_of_webAddress h, webAddress_ok_iff]
  have hweb := (webAddress_ok_iff.1 h).2
  constructor
  · rintro ⟨hagain, -⟩ ⟨c, hc, hblank⟩
    -- trimming only takes off, so if all is left in the end, then no blank went
    have hsame : trimChars address.toList = address.toList := by
      refine (trimChars_sublist _).eq_of_length_le ?_
      conv => lhs; rw [hagain, toList_trimSlashes, toList_trim]
      exact (dropTail_isPrefix _ _).length_le
    rw [(trimChars_eq_self_iff.1 hsame).2 c hc] at hblank
    cases hblank
  · intro hlast
    have htrim : trim address = address := by
      rw [trim_eq_self_iff]
      exact ⟨hhead, fun c hc => Bool.eq_false_iff.2 fun hblank => hlast ⟨c, hc, hblank⟩⟩
    rw [htrim, trimSlashes_eq_self_iff.2 hslash]
    exact ⟨rfl, hweb⟩

end

/-! ### Paths of assets -/

theorem assetPath_ok_iff {path assets : String} :
    assetPath path = .ok assets ↔ trim path ≠ "" ∧ assets = slashed (trim path) := by
  unfold assetPath
  dsimp only
  split
  · next h =>
    refine ⟨nofun, ?_⟩
    rintro ⟨hne, -⟩
    exact absurd (String.isEmpty_iff.1 h) hne
  · next h =>
    rw [String.isEmpty_iff] at h
    refine ⟨fun he => ⟨h, (Except.ok.inj he).symm⟩, ?_⟩
    rintro ⟨-, rfl⟩
    rfl

/-- A slash at the end of a text brings no blank to its ends. -/
theorem trim_slashed_trim {path : String} (h : trim path ≠ "") :
    trim (slashed (trim path)) = slashed (trim path) := by
  unfold slashed
  split
  · exact trim_trim path
  · have hne : (trim path).toList ≠ [] := fun hnil => h (String.toList_eq_nil_iff.1 hnil)
    rw [trim_eq_self_iff, String.toList_append]
    refine ⟨?_, by simp [isBlank_slash]⟩
    rw [List.head?_append, List.head?_eq_some_head hne, Option.some_or,
      ← List.head?_eq_some_head hne, toList_trim]
    exact head?_trimChars _

/-- **A path of assets that was read is left alone by reading it.** It is not empty, has no blanks
around it and ends in a slash. -/
theorem assetPath_again {path assets : String} (h : assetPath path = .ok assets) :
    assets ≠ "" ∧ trim assets = assets ∧ endsInSlash assets = true ∧
      assetPath assets = .ok assets := by
  obtain ⟨hne, rfl⟩ := assetPath_ok_iff.1 h
  have htrim := trim_slashed_trim hne
  have hslash := endsInSlash_slashed (trim path)
  have hfull : slashed (trim path) ≠ "" := fun hempty => by
    rw [hempty] at hslash
    exact absurd hslash (by decide)
  refine ⟨hfull, htrim, hslash, assetPath_ok_iff.2 ?_⟩
  rw [htrim, slashed_slashed]
  exact ⟨hfull, rfl⟩

/-! ### Settings -/

section
variable {α ε : Type} {f : α → Except ε α}

theorem mapM_ok_iff {o r : Option α} : o.mapM f = .ok r ↔
    (o = none ∧ r = none) ∨ ∃ a b, o = some a ∧ f a = .ok b ∧ r = some b := by
  cases o with
  | none => simp [pure, Except.pure, eq_comm]
  | some a =>
    cases hf : f a with
    | error fault => simp [hf, Functor.map, Except.map]
    | ok b => simp [hf, Functor.map, Except.map, eq_comm]

/-- What is there is read. -/
theorem exists_of_mapM {o r : Option α} (h : o.mapM f = .ok r) {a : α} (ha : a ∈ o) :
    ∃ b, r = some b ∧ f a = .ok b := by
  obtain ⟨rfl, -⟩ | ⟨a', b, rfl, hb, hr⟩ := mapM_ok_iff.1 h
  · cases ha
  · obtain rfl := Option.some.inj ha
    exact ⟨b, hr, hb⟩

/-- What was read was there. -/
theorem exists_of_mem_mapM {o r : Option α} (h : o.mapM f = .ok r) {b : α} (hb : b ∈ r) :
    ∃ a ∈ o, f a = .ok b := by
  obtain ⟨-, rfl⟩ | ⟨a, b', rfl, ha, rfl⟩ := mapM_ok_iff.1 h
  · cases hb
  · obtain rfl := Option.some.inj hb
    exact ⟨a, rfl, ha⟩

theorem eq_none_iff_of_mapM {o r : Option α} (h : o.mapM f = .ok r) : r = none ↔ o = none := by
  obtain ⟨rfl, rfl⟩ | ⟨a, b, rfl, -, rfl⟩ := mapM_ok_iff.1 h <;> simp

/-- What was read is read as itself when each value is. -/
theorem mapM_again {o r : Option α} (h : o.mapM f = .ok r) :
    r.mapM f = .ok r ↔ ∀ a ∈ o, ∀ b, f a = .ok b → f b = .ok b := by
  obtain ⟨rfl, rfl⟩ | ⟨a, b, rfl, hab, rfl⟩ := mapM_ok_iff.1 h
  · simp [pure, Except.pure]
  · rw [mapM_ok_iff]
    simp [hab]

end

theorem normalSettings_ok_iff {s t : Settings} : normalSettings s = .ok t ↔
    s.url.mapM webAddress = .ok t.url ∧ s.assetPath.mapM assetPath = .ok t.assetPath := by
  obtain ⟨url, assets⟩ := t
  simp only [normalSettings, bind_ok_iff, pure, Except.pure, Except.ok.injEq, Settings.mk.injEq]
  constructor
  · rintro ⟨_, hurl, _, hassets, rfl, rfl⟩
    exact ⟨hurl, hassets⟩
  · rintro ⟨hurl, hassets⟩
    exact ⟨url, hurl, assets, hassets, rfl, rfl⟩

/-- **Settings that were read are left alone by reading them just when no ragged address was
given.** -/
theorem normalSettings_again {s t : Settings} (h : normalSettings s = .ok t) :
    normalSettings t = .ok t ↔ ∀ url ∈ s.url, ¬ Ragged url := by
  obtain ⟨hurl, hassets⟩ := normalSettings_ok_iff.1 h
  rw [normalSettings_ok_iff, mapM_again hurl, mapM_again hassets]
  constructor
  · rintro ⟨hagain, -⟩ url hmem
    obtain ⟨address, -, haddress⟩ := exists_of_mapM hurl hmem
    exact (webAddress_again haddress).1 (hagain url hmem address haddress)
  · intro hragged
    exact ⟨fun url hmem address haddress => (webAddress_again haddress).2 (hragged url hmem),
      fun path _ assets hpath => (assetPath_again hpath).2.2.2⟩

/-- Settings are read by themselves, and after all else. -/
theorem resolve_eq (root : Path) (e : ConfigEntry) : resolve root e = (do
    let config ← resolve root { e with settings := {} }
    let settings ← normalSettings e.settings
    return { config with settings }) := by
  unfold resolve
  cases notBlank "themes_dir" e.themes with
  | error fault => rfl
  | ok themes =>
    cases notBlank "data" e.data with
    | error fault => rfl
    | ok data =>
      cases notBlank "fallback_theme" e.fallbackTheme with
      | error fault => rfl
      | ok fallback =>
        cases notBlank "theme" e.theme with
        | error fault => rfl
        | ok theme => rfl

theorem resolve_ok_iff {root : Path} {e : ConfigEntry} {config : Config} :
    resolve root e = .ok config ↔ ∃ config' settings,
      resolve root { e with settings := {} } = .ok config' ∧
      normalSettings e.settings = .ok settings ∧ config = { config' with settings } := by
  simp only [resolve_eq root e, bind_ok_iff, pure, Except.pure, Except.ok.injEq]
  constructor
  · rintro ⟨config', hresolve, settings, hsettings, heq⟩
    exact ⟨config', settings, hresolve, hsettings, heq.symm⟩
  · rintro ⟨config', settings, hresolve, hsettings, heq⟩
    exact ⟨config', hresolve, settings, hsettings, heq.symm⟩

theorem ofText_ok_iff {root : Path} {text : String} {config : Config} :
    Config.ofText root text = .ok config ↔
      ∃ e, ConfigEntry.ofText text = .ok e ∧ resolve root e = .ok config :=
  bind_ok_iff

/-- **Settings reach a normal form, but for a ragged address.** Take a configuration that is read
from a text. Its address is one of the web, starts with no blank and ends in no slash; it ends in a
blank just when the one in the text is ragged. Its path of assets is not empty, has no blanks around
it, ends in a slash and is read as itself. With these settings, whatever else is set up, a
configuration can be read and keeps them just when the address in the text is not ragged. -/
theorem settings_reach_normal_form {root : Path} {text : String} {config : Config}
    (h : Config.ofText root text = .ok config) :
    ∃ e, ConfigEntry.ofText text = .ok e ∧
      (config.settings.url = none ↔ e.settings.url = none) ∧
      (∀ url ∈ e.settings.url, ∃ address, config.settings.url = some address ∧ IsWeb address ∧
        (∀ c ∈ address.toList.head?, isBlank c = false) ∧ endsInSlash address = false ∧
        ((∃ c ∈ address.toList.getLast?, isBlank c = true) ↔ Ragged url)) ∧
      (config.settings.assetPath = none ↔ e.settings.assetPath = none) ∧
      (∀ path ∈ e.settings.assetPath, ∃ assets, config.settings.assetPath = some assets ∧
        assets ≠ "" ∧ trim assets = assets ∧ endsInSlash assets = true ∧
        assetPath assets = .ok assets) ∧
      ∀ (root' : Path) (e' : ConfigEntry) (config' : Config),
        resolve root' { e' with settings := {} } = .ok config' →
        (resolve root' { e' with settings := config.settings } =
            .ok { config' with settings := config.settings } ↔
          ∀ url ∈ e.settings.url, ¬ Ragged url) := by
  obtain ⟨e, he, hresolve⟩ := ofText_ok_iff.1 h
  obtain ⟨first, settings, -, hsettings, rfl⟩ := resolve_ok_iff.1 hresolve
  obtain ⟨hurl, hassets⟩ := normalSettings_ok_iff.1 hsettings
  refine ⟨e, he, eq_none_iff_of_mapM hurl, fun url hmem => ?_, eq_none_iff_of_mapM hassets,
    fun path hmem => ?_, fun root' e' config' he' => ?_⟩
  · obtain ⟨address, hsome, haddress⟩ := exists_of_mapM hurl hmem
    obtain ⟨hhead, hslash⟩ := ends_of_webAddress haddress
    exact ⟨address, hsome, (webAddress_ok_iff.1 haddress).2, hhead, hslash,
      blank_at_end_of_webAddress haddress⟩
  · obtain ⟨assets, hsome, hpath⟩ := exists_of_mapM hassets hmem
    exact ⟨assets, hsome, assetPath_again hpath⟩
  · rw [← normalSettings_again hsettings, resolve_ok_iff]
    constructor
    · rintro ⟨config'', settings', hconfig, hagain, heq⟩
      have hsame : settings = settings' := congrArg Config.settings heq
      rwa [← hsame] at hagain
    · intro hagain
      exact ⟨config', settings, he', hagain, rfl⟩

/-- An address and a path with blanks around them, slashes at the end of the one and none at the end
of the other. -/
def textWithSettings : String :=
  "site:\n  url: \" https://x// \"\n  asset_path: \" /static \"\n"

theorem settings_reach_normal_form_trimmed :
    let settings : Settings := { url := some "https://x", assetPath := some "/static/" }
    let config : Config := { standard ⟨"."⟩ with settings }
    Config.ofText ⟨"."⟩ textWithSettings = .ok config ∧
      resolve ⟨"."⟩ { settings } = .ok config ∧ ¬ Ragged " https://x// " := by
  intro settings config
  have hentry : ConfigEntry.ofText textWithSettings =
      .ok { settings := { url := some " https://x// ", assetPath := some " /static " } } := by
    decide +kernel
  have hconfig : Config.ofText ⟨"."⟩ textWithSettings = .ok config := by decide +kernel
  obtain ⟨e, he, -, hurl, -, -, hagain⟩ := settings_reach_normal_form hconfig
  obtain rfl := Except.ok.inj (hentry.symm.trans he)
  obtain ⟨address, haddress, -, -, -, hblank⟩ := hurl _ rfl
  obtain rfl : "https://x" = address := Option.some.inj haddress
  have hragged : ¬ Ragged " https://x// " := fun hragged => by
    obtain ⟨c, hc, hblank⟩ := hblank.2 hragged
    obtain rfl : 'x' = c := Option.some.inj hc
    exact absurd hblank (by decide)
  exact ⟨hconfig, (hagain ⟨"."⟩ {} _ rfl).2 (by simpa using hragged), hragged⟩

/-- **A blank in front of the slashes is left at the end.** It goes when the address is read again,
and what is left then can be no address at all. -/
theorem settings_change_when_ragged :
    Config.ofText ⟨"."⟩ "site:\n  url: \"https://x /\"\n" =
        .ok { standard ⟨"."⟩ with settings := { url := some "https://x " } } ∧
      Config.ofText ⟨"."⟩ "site:\n  url: \"https://x \"\n" =
        .ok { standard ⟨"."⟩ with settings := { url := some "https://x" } } ∧
      Config.ofText ⟨"."⟩ "site:\n  url: \"http:// /\"\n" =
        .ok { standard ⟨"."⟩ with settings := { url := some "http:// " } } ∧
      Config.ofText ⟨"."⟩ "site:\n  url: \"http:// \"\n" = .error (.notWebAddress "http:// ") := by
  decide +kernel

end Config

end ThemePress.Site
