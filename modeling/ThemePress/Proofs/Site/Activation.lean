import Mathlib.Data.List.Induction
import ThemePress.Proofs.Template.Scanned
import ThemePress.Site.Activation

/-! # Which theme becomes active

Themes are tried one after the other. An attempt either makes its theme active, and is the last one
(`activateFirst_of_ok`), or leaves the site as it was (`activateFirst_of_error`). So the attempts
that have failed leave their warnings and nothing else, however many there are
(`activateFirst_append`).

A theme is never tried twice: the candidates are the names that do not stand at an earlier place
(`candidates_eq_firstOccurrences`). -/

namespace ThemePress

/-- Does the warning say that a theme has been passed over? -/
def Warning.isUnusable : Warning → Bool
  | themeUnusable .. => true
  | _ => false

/-! ### Warnings of a compilation -/

namespace Template

/-- Nothing is reported of a source but close tags without a block. -/
theorem strayCloser_of_mem_scanFrom (start : Nat) (data : List UInt8) {w : Warning}
    (h : w ∈ (scanFrom start data).warnings) : ∃ tag, w = .strayCloser tag := by
  induction start, data using scan_induction with
  | rest start data hcut =>
    rw [scanFrom_rest hcut] at h
    cases h
  | tag start data cut hcut hk ih =>
    rw [scanFrom_tag hcut hk] at h
    rcases List.mem_append.1 h with h | h
    · rw [Cut.warnings] at h
      split at h
      · exact ⟨_, List.mem_singleton.1 h⟩
      · cases h
    · exact ih h
  | unclosed start data cut hcut hk he =>
    rw [scanFrom_unclosed hcut hk he] at h
    cases h
  | block start data cut e hcut hk he ihinside ihafter =>
    rw [scanFrom_block hcut hk he] at h
    split at h
    · exact ihinside h
    · rcases List.mem_append.1 h with h | h
      · exact ihinside h
      · exact ihafter h

theorem strayCloser_of_mem_compileAll (sources : Sources) {w : Warning}
    (h : w ∈ (Registry.compileAll sources).warnings) : ∃ tag, w = .strayCloser tag := by
  induction sources with
  | nil => cases h
  | cons source rest ih =>
    have hroot : ∀ w ∈ (Node.compile source.1 source.2).warnings, ∃ tag, w = .strayCloser tag :=
      fun w hw => strayCloser_of_mem_scanFrom 0 source.2 hw
    rw [Registry.compileAll] at h
    split at h
    · exact hroot w h
    · rcases List.mem_append.1 h with h | h
      · exact hroot w h
      · exact ih h

end Template

namespace Theme

theorem strayCloser_of_mem_compile (tree : Files.Tree) (folder : Files.Path) {w : Warning}
    (h : w ∈ (compile tree folder).warnings) : ∃ tag, w = .strayCloser tag := by
  rw [compile] at h
  split at h
  · cases h
  · exact Template.strayCloser_of_mem_compileAll _ h

/-! ### Candidates -/

/-- The names that do not stand at an earlier place as well. -/
def firstOccurrences (names : List String) : List String :=
  (names.zipIdx.filter fun (name, place) => name ∉ names.take place).map (·.1)

theorem firstOccurrences_concat (names : List String) (name : String) :
    firstOccurrences (names ++ [name]) =
      firstOccurrences names ++ if name ∈ names then [] else [name] := by
  have hbefore : (names.zipIdx.filter fun (n, place) => n ∉ (names ++ [name]).take place) =
      names.zipIdx.filter fun (n, place) => n ∉ names.take place := by
    refine List.filter_congr fun (n, place) hplace => ?_
    -- none of the earlier places reaches to the last name
    have hlt : place < names.length + 0 := List.snd_lt_of_mem_zipIdx hplace
    dsimp only
    rw [List.take_append_of_le_length (by omega)]
  rw [firstOccurrences, List.zipIdx_append, List.filter_append, List.map_append, hbefore]
  by_cases h : name ∈ names <;> simp [firstOccurrences, h]

theorem eraseDups_eq_firstOccurrences (names : List String) :
    names.eraseDups = firstOccurrences names := by
  induction names using List.reverseRecOn with
  | nil => rfl
  | append_singleton names name ih =>
    rw [List.eraseDups_append, ih, firstOccurrences_concat]
    by_cases h : name ∈ names <;> simp [List.removeAll, List.eraseDups_cons, h]

theorem candidates_eq_firstOccurrences (preferred : Option String) (fallback : String)
    (installed : List String) : candidates preferred fallback installed =
      firstOccurrences ((preferred.toList ++ fallback :: installed).filter (· ≠ "")) :=
  eraseDups_eq_firstOccurrences _

example : candidates (some "b") "a" ["", "a", "b", "c"] = ["b", "a", "c"] := by decide

end Theme

namespace Site

open ThemePress.Template (Registry ThemeError)

variable {s : Site} {tree : Files.Tree} {theme : String} {names : List String}

/-! ### One attempt -/

theorem activateFirst_of_ok {registry : Registry}
    (h : (s.compiled tree theme).value = .ok registry) (rest : List String) :
    s.activateFirst tree (theme :: rest) =
      (⟨(s.compiled tree theme).warnings, .ok theme⟩, { s with active := some registry }) := by
  simp only [activateFirst, compile, settle, h, publish]

theorem activateFirst_of_error {e : ThemeError} (h : (s.compiled tree theme).value = .error e)
    (rest : List String) :
    s.activateFirst tree (theme :: rest) =
      ((s.activateFirst tree rest).1.after
        ((s.compiled tree theme).warnings ++ [.themeUnusable theme e.message]),
      (s.activateFirst tree rest).2) := by
  simp only [activateFirst, compile, settle, h]

/-- A compilation does not report on itself. -/
theorem filter_compiled_warnings (s : Site) (tree : Files.Tree) (theme : String) :
    (s.compiled tree theme).warnings.filter (·.isUnusable) = [] := by
  refine List.filter_eq_nil_iff.2 fun w hw => ?_
  obtain ⟨tag, rfl⟩ := Theme.strayCloser_of_mem_compile tree _ hw
  exact Bool.false_ne_true

/-! ### Attempts that fail -/

/-- A theme that was tried in vain, and why it cannot be used. -/
structure Failure where
  theme : String
  error : ThemeError

namespace Failure

/-- The theme cannot be compiled, for that reason. -/
def IsOf (f : Failure) (s : Site) (tree : Files.Tree) : Prop :=
  (s.compiled tree f.theme).value = .error f.error

def warning (f : Failure) : Warning :=
  .themeUnusable f.theme f.error.message

/-- All that is reported of the attempt. -/
def warnings (f : Failure) (s : Site) (tree : Files.Tree) : List Warning :=
  (s.compiled tree f.theme).warnings ++ [f.warning]

theorem filter_warnings (f : Failure) (s : Site) (tree : Files.Tree) :
    (f.warnings s tree).filter (·.isUnusable) = [f.warning] := by
  rw [warnings, List.filter_append, filter_compiled_warnings]
  rfl

theorem filter_flatMap_warnings (failures : List Failure) (s : Site) (tree : Files.Tree) :
    (failures.flatMap (·.warnings s tree)).filter (·.isUnusable) = failures.map (·.warning) := by
  rw [List.filter_flatMap, List.map_eq_flatMap]
  simp only [filter_warnings]

end Failure

theorem activateFirst_append {failures : List Failure} (h : ∀ f ∈ failures, f.IsOf s tree)
    (rest : List String) :
    s.activateFirst tree (failures.map (·.theme) ++ rest) =
      ((s.activateFirst tree rest).1.after (failures.flatMap (·.warnings s tree)),
        (s.activateFirst tree rest).2) := by
  induction failures with
  | nil => rfl
  | cons f failures ih =>
    -- the first attempt leaves the site to the others as it was, so `ih` is about them
    rw [List.map_cons, List.cons_append, activateFirst_of_error (h f List.mem_cons_self),
      ih fun f hf => h f (List.mem_cons_of_mem _ hf)]
    simp [Reported.after, Failure.warnings, Failure.warning]

/-- Of some themes, none can be used, or there is a first one that can. -/
theorem failures_or_first_usable (s : Site) (tree : Files.Tree) (names : List String) :
    ∃ failures : List Failure, (∀ f ∈ failures, f.IsOf s tree) ∧
      (names = failures.map (·.theme) ∨ ∃ theme rest registry,
        names = failures.map (·.theme) ++ theme :: rest ∧
          (s.compiled tree theme).value = .ok registry) := by
  induction names with
  | nil => exact ⟨[], by simp, .inl rfl⟩
  | cons name names ih =>
    cases h : (s.compiled tree name).value with
    | ok registry => exact ⟨[], by simp, .inr ⟨name, names, registry, rfl, h⟩⟩
    | error e =>
      obtain ⟨failures, hfailures, hnames⟩ := ih
      refine ⟨⟨name, e⟩ :: failures, List.forall_mem_cons.2 ⟨h, hfailures⟩, ?_⟩
      rcases hnames with rfl | ⟨theme, rest, registry, rfl, hregistry⟩
      · exact .inl rfl
      · exact .inr ⟨theme, rest, registry, rfl, hregistry⟩

/-- Trying themes in turn makes the first active that can be used. There is one warning of its own
for each theme that is passed over, and nothing else is left of it. -/
theorem activateFirst_cases (s : Site) (tree : Files.Tree) (names : List String) :
    let result := (s.activateFirst tree names).1
    let after := (s.activateFirst tree names).2
    ∃ failures : List Failure, (∀ f ∈ failures, f.IsOf s tree) ∧
      result.warnings.filter (·.isUnusable) = failures.map (·.warning) ∧
      ((∃ theme rest registry, names = failures.map (·.theme) ++ theme :: rest ∧
          (s.compiled tree theme).value = .ok registry ∧
          result.value = .ok theme ∧ after = { s with active := some registry }) ∨
        (names = failures.map (·.theme) ∧
          result.value = .error (.noUsableTheme s.themes) ∧ after = s)) := by
  intro result after
  obtain ⟨failures, hfailures, hnames⟩ := failures_or_first_usable s tree names
  refine ⟨failures, hfailures, ?_⟩
  rcases hnames with hnames | ⟨theme, rest, registry, hnames, hregistry⟩
  · have hrun := activateFirst_append hfailures []
    rw [List.append_nil, ← hnames] at hrun
    have hlast : s.activateFirst tree [] = (⟨[], .error (.noUsableTheme s.themes)⟩, s) := rfl
    refine ⟨?_, .inr ⟨hnames, ?_, ?_⟩⟩
    · simp only [result, hrun, hlast, Reported.after, List.append_nil,
        Failure.filter_flatMap_warnings]
    · simp only [result, hrun, hlast, Reported.after]
    · simp only [after, hrun, hlast]
  · have hrun := activateFirst_append hfailures (theme :: rest)
    rw [← hnames, activateFirst_of_ok hregistry] at hrun
    refine ⟨?_, .inl ⟨theme, rest, registry, hnames, hregistry, ?_, ?_⟩⟩
    · simp only [result, hrun, Reported.after, List.filter_append, filter_compiled_warnings,
        Failure.filter_flatMap_warnings, List.append_nil]
    · simp only [result, hrun, Reported.after]
    · simp only [after, hrun]

/-- **The first theme that can be used becomes the active one.** The candidates are the preferred
theme, the fallback and those installed, without the empty name and each only where it stands first.
Either some of them in front cannot be used and the next one can: then its name is the result, just
its templates are active and the site is otherwise as it was, and of each one before it there is one
warning that it has been passed over, in their order. Or none of them can be used: then the result
is an error, the site is as it was, and of each of them there is such a warning. -/
theorem activate_first_usable (s : Site) (tree : Files.Tree) (preferred : Option String)
    (fallback : String) :
    let names := Theme.candidates preferred fallback (s.installed tree)
    let result := (s.activate tree preferred fallback).1
    let after := (s.activate tree preferred fallback).2
    names = Theme.firstOccurrences
      ((preferred.toList ++ fallback :: s.installed tree).filter (· ≠ "")) ∧
    (∃ failures : List Failure, (∀ f ∈ failures, f.IsOf s tree) ∧
      result.warnings.filter (·.isUnusable) = failures.map (·.warning) ∧
      ((∃ theme rest registry, names = failures.map (·.theme) ++ theme :: rest ∧
          (s.compiled tree theme).value = .ok registry ∧
          result.value = .ok theme ∧ after = { s with active := some registry }) ∨
        (names = failures.map (·.theme) ∧
          result.value = .error (.noUsableTheme s.themes) ∧ after = s))) ∧
    (result.value = .error (.noUsableTheme s.themes) ∧ after.active = s.active ↔
      ∀ name ∈ names, ∃ e, (s.compiled tree name).value = .error e) := by
  intro names result after
  refine ⟨Theme.candidates_eq_firstOccurrences .., ?_, ?_⟩
  · exact activateFirst_cases s tree names
  · constructor
    · rintro ⟨herror, -⟩ name hname
      obtain ⟨failures, hfailures, -, ⟨_, _, _, -, -, hok, -⟩ | ⟨hnames, -⟩⟩ :=
        activateFirst_cases s tree names
      · cases herror.symm.trans hok
      · rw [hnames] at hname
        obtain ⟨f, hf, rfl⟩ := List.mem_map.1 hname
        exact ⟨f.error, hfailures f hf⟩
    · intro hall
      obtain ⟨failures, -, -, ⟨theme, rest, registry, hnames, hok, -⟩ | ⟨-, herror, hafter⟩⟩ :=
        activateFirst_cases s tree names
      · obtain ⟨e, he⟩ := hall theme (by rw [hnames]; simp)
        cases he.symm.trans hok
      · exact ⟨herror, congrArg Site.active hafter⟩

end Site

end ThemePress
