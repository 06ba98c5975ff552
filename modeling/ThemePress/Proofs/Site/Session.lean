import ThemePress.Proofs.Site.Activation
import ThemePress.Proofs.Site.Pages
import ThemePress.Proofs.Template.Sources

/-! # The active theme over a session

In a session, themes are compiled, activated and published and pages are rendered, in any order, and
in between the files and the store change. A call that makes a theme active is described without
running it, by the files there are at that moment (`Session.produced?`). What a call does to the
site is then said once (`Session.site_step`), and over a session the active theme is the one of the
last call that made any (`active_is_last_success`). -/

namespace ThemePress.Site

open ThemePress.Blog
open ThemePress.Files (Path)
open ThemePress.Template (Registry ThemeError toOption_eq_some_iff)
open ThemePress.Time (Instant)

/-! ### Calls and their answers -/

/-- A site with the files and the store that its calls find. -/
structure Session where
  site : Site
  files : Files.Tree
  store : Store

/-- What is asked of a site, or changed around it. -/
inductive Call where
  | compile (theme : String)
  | activate (preferred : Option String) (fallback : String)
  | publish (registry : Registry)
  | renderIndex (now : Instant) (number : Int)
  | renderPost (now : Instant) (slug : String)
  | renderTag (now : Instant) (slug : String) (number : Int)
  | renderAuthor (now : Instant) (slug : String) (number : Int)
  | changeFiles (files : Files.Tree)
  | changeStore (store : Store)

inductive Answer where
  | compiled (result : Reported (Except ThemeError Registry))
  | activated (result : Reported (Except ThemeError String))
  | published
  | rendered (result : Reported (Except RenderError (List UInt8)))
  | changed

/-- The answer says that a theme has been made active. -/
def Answer.isActivation : Answer → Bool
  | compiled result => result.value.isOk
  | activated result => result.value.isOk
  | published => true
  | rendered _ | changed => false

/-- The answer to a page when there is no theme. -/
def Answer.noTheme : Answer :=
  .rendered ⟨[], .error .noTheme⟩

def Call.isRender : Call → Bool
  | renderIndex .. | renderPost .. | renderTag .. | renderAuthor .. => true
  | _ => false

namespace Session

/-- A session with a site that has no theme yet. -/
def opened (themes : Path) (settings : Settings) (files : Files.Tree) (store : Store) : Session :=
  ⟨{ themes, settings }, files, store⟩

def step (s : Session) : Call → Answer × Session
  | .compile theme =>
    let (result, site) := s.site.compile s.files theme
    (.compiled result, { s with site })
  | .activate preferred fallback =>
    let (result, site) := s.site.activate s.files preferred fallback
    (.activated result, { s with site })
  | .publish registry => (.published, { s with site := s.site.publish registry })
  | .renderIndex now number => (.rendered (s.site.renderIndex s.store now number), s)
  | .renderPost now slug => (.rendered (s.site.renderPost s.store now slug), s)
  | .renderTag now slug number => (.rendered (s.site.renderTag s.store now slug number), s)
  | .renderAuthor now slug number => (.rendered (s.site.renderAuthor s.store now slug number), s)
  | .changeFiles files => (.changed, { s with files })
  | .changeStore store => (.changed, { s with store })

/-- The session after some calls. -/
def after (s : Session) (calls : List Call) : Session :=
  calls.foldl (fun s call => (s.step call).2) s

/-! ### The themes that calls make active -/

/-- The theme of a name as compiled from the files there are. -/
def usable? (s : Session) (theme : String) : Option Registry :=
  (Theme.compile s.files (s.site.themes.join theme)).value.toOption

/-- The theme that a call is to make active, if it is to make one active. -/
def produced? (s : Session) : Call → Option Registry
  | .compile theme => s.usable? theme
  | .activate preferred fallback =>
    let installed := Theme.installed s.files s.site.themes
    (Theme.candidates preferred fallback installed).findSome? s.usable?
  | .publish registry => some registry
  | _ => none

/-- The themes that calls are to make active one after the other, each from the files at its
moment. -/
def successes (s : Session) : List Call → List Registry
  | [] => []
  | call :: calls => (s.produced? call).toList ++ (s.step call).2.successes calls

variable {s : Session} {call : Call} {calls : List Call} {registry : Registry}

/-! ### One call -/

/-- Trying themes in turn makes the first active that can be compiled, and nothing is left of the
attempts before it. -/
theorem activateFirst_eq (s : Session) (themes : List String) :
    (s.site.activateFirst s.files themes).2 =
        (themes.findSome? s.usable?).elim s.site s.site.publish ∧
      (s.site.activateFirst s.files themes).1.value.isOk = (themes.findSome? s.usable?).isSome := by
  induction themes with
  | nil => exact ⟨rfl, rfl⟩
  | cons theme rest ih =>
    rw [List.findSome?_cons, usable?]
    cases h : (Theme.compile s.files (s.site.themes.join theme)).value with
    | ok registry =>
      rw [activateFirst_of_ok h]
      exact ⟨rfl, rfl⟩
    | error e =>
      -- the attempt has not changed the site, so the rest is tried from where this one began
      rw [activateFirst_of_error h]
      exact ih

/-- **A call publishes the theme that it is to make active, and else leaves the site as it is.** -/
theorem site_step (s : Session) (call : Call) :
    (s.step call).2.site = (s.produced? call).elim s.site s.site.publish := by
  cases call with
  | compile theme =>
    simp only [step, produced?, usable?, Site.compile, Site.compiled]
    cases (Theme.compile s.files (s.site.themes.join theme)).value <;> rfl
  | activate preferred fallback => exact (s.activateFirst_eq _).1
  | publish | renderIndex | renderPost | renderTag | renderAuthor | changeFiles | changeStore => rfl

theorem isActivation_step (s : Session) (call : Call) :
    (s.step call).1.isActivation = (s.produced? call).isSome := by
  cases call with
  | compile theme =>
    simp only [step, produced?, usable?, Site.compile, Site.compiled, Answer.isActivation]
    cases (Theme.compile s.files (s.site.themes.join theme)).value <;> rfl
  | activate preferred fallback => exact (s.activateFirst_eq _).2
  | publish | renderIndex | renderPost | renderTag | renderAuthor | changeFiles | changeStore => rfl

theorem active_step (s : Session) (call : Call) :
    (s.step call).2.site.active = (s.produced? call).or s.site.active := by
  rw [site_step]
  cases s.produced? call <;> rfl

theorem themes_step (s : Session) (call : Call) :
    (s.step call).2.site.themes = s.site.themes := by
  rw [site_step]
  cases s.produced? call <;> rfl

theorem site_step_of_not_isActivation (h : (s.step call).1.isActivation = false) :
    (s.step call).2.site = s.site := by
  rw [isActivation_step, Option.isSome_eq_false_iff, Option.isNone_iff_eq_none] at h
  rw [site_step, h, Option.elim_none]

/-- A page is no activation, whether it is rendered or not. -/
theorem site_step_of_isRender (h : call.isRender) : (s.step call).2.site = s.site := by
  rw [site_step]
  cases call with
  | renderIndex | renderPost | renderTag | renderAuthor => rfl
  | compile | activate | publish | changeFiles | changeStore => cases h

theorem step_of_no_theme (hs : s.site.active = none) (h : call.isRender) :
    (s.step call).1 = .noTheme := by
  cases call with
  | renderIndex | renderTag | renderAuthor =>
    simp only [step, renderIndex, renderTag, renderAuthor, renderListing, hs, Answer.noTheme]
  | renderPost => simp only [step, renderPost, hs, Answer.noTheme]
  | compile | activate | publish | changeFiles | changeStore => cases h

/-- A theme that was compiled from its folder has the templates that every theme has. -/
theorem missing?_of_usable? {theme : String} (h : s.usable? theme = some registry) :
    registry.missing? = none := by
  rw [usable?, toOption_eq_some_iff, Theme.compile] at h
  split at h
  · cases h
  · obtain ⟨-, -, -, hmissing⟩ := Registry.compile_ok_iff.1 h
    exact hmissing

/-- A call that makes a theme active has compiled it, unless it is given the theme. -/
theorem missing?_of_produced? (h : s.produced? call = some registry)
    (hcall : call ≠ .publish registry) : registry.missing? = none := by
  cases call with
  | compile theme => exact missing?_of_usable? h
  | activate preferred fallback =>
    obtain ⟨theme, -, htheme⟩ := List.exists_of_findSome?_eq_some h
    exact missing?_of_usable? htheme
  | publish given => exact absurd (congrArg Call.publish (Option.some.inj h)) hcall
  | renderIndex | renderPost | renderTag | renderAuthor | changeFiles | changeStore => cases h

/-! ### Whole sessions -/

@[simp] theorem after_cons (s : Session) (call : Call) (calls : List Call) :
    s.after (call :: calls) = (s.step call).2.after calls := rfl

/-- The theme from before a session is active as long as no call makes another one active. -/
theorem active_after (s : Session) (calls : List Call) :
    (s.after calls).site.active = (s.successes calls).getLast?.or s.site.active := by
  induction calls generalizing s with
  | nil => rfl
  | cons call calls ih =>
    rw [after_cons, ih, active_step, successes, List.getLast?_append, Option.or_assoc]
    cases s.produced? call <;> rfl

theorem missing?_of_mem_successes (hcalls : ∀ given, .publish given ∉ calls)
    (h : registry ∈ s.successes calls) : registry.missing? = none := by
  induction calls generalizing s with
  | nil => cases h
  | cons call calls ih =>
    rcases List.mem_append.1 h with h | h
    · refine missing?_of_produced? (Option.mem_toList.1 h) ?_
      rintro rfl
      exact hcalls registry List.mem_cons_self
    · exact ih (fun given hgiven => hcalls given (List.mem_cons_of_mem _ hgiven)) h

end Session

/-- **The active theme is the one of the last success.** After any calls to a site that began
without a theme, with the files and the store changed in between, the active theme is the one that
the last call to make a theme active got from the files at its moment. Each call answers that it has
made a theme active just when it was to make one active; when it has not, and when it was to render
a page, it leaves the site as it was. As long as no theme has become active, every page is answered
by there being none. And when all themes are compiled from files, the active one has the templates
that every theme has. -/
theorem active_is_last_success (themes : Path) (settings : Settings) (files : Files.Tree)
    (store : Store) (calls : List Call) :
    let start := Session.opened themes settings files store
    let s := start.after calls
    s.site.active = (start.successes calls).getLast? ∧
    (∀ call,
      (s.step call).1.isActivation = (s.produced? call).isSome ∧
      ((s.step call).1.isActivation = false ∨ call.isRender → (s.step call).2.site = s.site) ∧
      (start.successes calls = [] → call.isRender → (s.step call).1 = .noTheme)) ∧
    ((∀ given, .publish given ∉ calls) → ∀ registry, s.site.active = some registry →
      registry.contains "index" ∧ registry.contains "post") := by
  intro start s
  have hactive : s.site.active = (start.successes calls).getLast? := by
    rw [Session.active_after]
    exact Option.or_none
  refine ⟨hactive, fun call => ⟨s.isActivation_step call, ?_, fun hnone hrender => ?_⟩, ?_⟩
  · rintro (h | h)
    · exact Session.site_step_of_not_isActivation h
    · exact Session.site_step_of_isRender h
  · refine Session.step_of_no_theme ?_ hrender
    rw [hactive, hnone]
    rfl
  · intro hcalls registry hregistry
    rw [hactive] at hregistry
    have hmissing := Session.missing?_of_mem_successes hcalls (List.mem_of_getLast? hregistry)
    exact ⟨contains_required hmissing (by decide), contains_required hmissing (by decide)⟩

/-- The folder of one theme, with the two templates that every theme has. -/
def oneTheme : Files.Tree where
  files := [(["themes", "a", "index.hbs"], .ok [0x61]), (["themes", "a", "post.hbs"], .ok [0x62])]
  folders := [["themes"], ["themes", "a"]]

theorem exists_usable_oneTheme :
    ∃ registry, (Session.opened ⟨"themes"⟩ {} oneTheme default).usable? "a" = some registry := by
  have hfolder : oneTheme.folder? ⟨"themes/a"⟩ = some ["themes", "a"] := by decide +kernel
  have hfiles : oneTheme.filesBelow ["themes", "a"] =
      [(["index.hbs"], .ok [0x61]), (["post.hbs"], .ok [0x62])] :=
    List.mergeSort_of_pairwise (by decide)
  have hpath : (⟨"themes"⟩ : Path).join "a" = ⟨"themes/a"⟩ := by decide +kernel
  refine Option.isSome_iff_exists.1 ?_
  simp only [Session.usable?, Session.opened, hpath, Theme.compile, Theme.templateFiles, hfolder,
    hfiles]
  decide +kernel

/-- A theme other than the one that is asked for is found, then its files are lost, and it cannot be
compiled again. -/
def lostTheme : List Call :=
  [.activate none "b", .changeFiles {}, .compile "a"]

theorem active_is_last_success_of_lost_theme :
    let start := Session.opened ⟨"themes"⟩ {} oneTheme default
    ∃ registry, start.usable? "a" = some registry ∧ start.successes lostTheme = [registry] ∧
      (start.after lostTheme).site.active = some registry ∧
      registry.contains "index" ∧ registry.contains "post" ∧
      (start.step (.renderIndex ⟨0, 0⟩ 1)).1 = .noTheme := by
  intro start
  obtain ⟨registry, hregistry⟩ := exists_usable_oneTheme
  have hother : start.usable? "b" = none := by rw [← Option.isNone_iff_eq_none]; decide +kernel
  have hcandidates :
      Theme.candidates none "b" (Theme.installed oneTheme ⟨"themes"⟩) = ["b", "a"] := by
    decide +kernel
  have hfound : start.produced? (.activate none "b") = some registry := by
    change (Theme.candidates none "b" (Theme.installed oneTheme ⟨"themes"⟩)).findSome? _ = _
    rw [hcandidates, List.findSome?_cons, hother, List.findSome?_cons, hregistry]
  have hlost (site : Site) (h : site.themes = ⟨"themes"⟩) :
      (Session.mk site {} default).usable? "a" = none := by
    change (Theme.compile {} (site.themes.join "a")).value.toOption = none
    rw [h, ← Option.isNone_iff_eq_none]
    decide +kernel
  have hsuccesses : start.successes lostTheme = [registry] := by
    have hthemes := start.themes_step (.activate none "b")
    simp only [lostTheme, Session.successes, hfound, Option.toList_some, List.singleton_append,
      List.cons.injEq, true_and]
    simp only [Session.produced?, Session.step, Option.toList_none, List.nil_append,
      List.append_nil]
    rw [Option.toList_eq_nil_iff]
    exact hlost _ hthemes
  obtain ⟨hactive, -, hrequired⟩ :=
    active_is_last_success ⟨"themes"⟩ {} oneTheme default lostTheme
  have hregistry' : (start.after lostTheme).site.active = some registry :=
    hactive.trans (congrArg List.getLast? hsuccesses)
  obtain ⟨-, hsteps, -⟩ := active_is_last_success ⟨"themes"⟩ {} oneTheme default []
  obtain ⟨hindex, hpost⟩ := hrequired (by simp [lostTheme]) registry hregistry'
  exact ⟨registry, hregistry, hsuccesses, hregistry', hindex, hpost, (hsteps _).2.2 rfl rfl⟩

end ThemePress.Site
