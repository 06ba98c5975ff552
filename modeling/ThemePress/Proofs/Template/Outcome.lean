import Mathlib.Data.List.Forall2
import ThemePress.Proofs.Template.Scanned
import ThemePress.Proofs.Template.Sources
import ThemePress.Proofs.Text.Utf8

/-! # What sources compile to

`Outcome theme sources` says what comes of compiling sources, and asks only for the last source of
each name: the fault of the first name, in the order of bytes, whose source cannot be scanned; else
that `index` is missing; else that `post` is; else a registry with one template for each name. There
is one outcome, and it is what compiling gives (`outcome_iff`). The compiler goes through a list
that is in order of the names (`compileAll_error`, `forall₂_of_compileAll`), so the first fault it
meets is that of the least name. -/

namespace ThemePress.Template

open ThemePress.Text.Utf8 (bytesOf bytesOf_lt_iff)

/-- The source can be scanned. -/
def Accepted (source : List UInt8) : Prop :=
  ∃ f, (scan source).value = .ok f

/-- All sources that count can be scanned. -/
def AllAccepted (sources : List (String × List UInt8)) : Prop :=
  ∀ name source, Named.last? sources name = some source → Accepted source

/-- What comes of compiling sources. -/
inductive Outcome (theme : String) (sources : List (String × List UInt8)) :
    Except ThemeError Registry → Prop where
  | refused {name : String} {source : List UInt8} {fault : ScanError}
    (last : Named.last? sources name = some source)
    (refuses : (scan source).value = .error fault)
    (least : ∀ other source', Named.last? sources other = some source' →
      bytesOf other < bytesOf name → Accepted source') :
    Outcome theme sources (.error (.parse name fault))
  | noIndex (accepted : AllAccepted sources) (index : Named.last? sources "index" = none) :
    Outcome theme sources (.error (.missingTemplate "index"))
  | noPost (accepted : AllAccepted sources) (index : Named.last? sources "index" ≠ none)
    (post : Named.last? sources "post" = none) :
    Outcome theme sources (.error (.missingTemplate "post"))
  | compiled {registry : Registry} (accepted : AllAccepted sources)
    (index : Named.last? sources "index" ≠ none) (post : Named.last? sources "post" ≠ none)
    (named : registry.theme = theme) (templates : registry.templates.Sorted)
    (get : ∀ name, registry.get? name = (Named.last? sources name).bind fun source =>
      (Node.compile name source).value.toOption)
    (fingerprint : registry.fingerprint = Sources.fingerprint (Named.ofList sources)) :
    Outcome theme sources (.ok registry)

/-! ### One template after the other -/

section
variable {name : String} {source : List UInt8}

theorem compile_error_iff {fault : ScanError} :
    (Node.compile name source).value = .error fault ↔ (scan source).value = .error fault := by
  unfold Node.compile Reported.map
  cases (scan source).value <;> simp [Except.map]

theorem accepted_iff : Accepted source ↔ ∃ root, (Node.compile name source).value = .ok root := by
  unfold Accepted Node.compile Reported.map
  cases (scan source).value <;> simp [Except.map]

theorem not_accepted_of_error {fault : ScanError} (h : (scan source).value = .error fault) :
    ¬ Accepted source := by
  rintro ⟨f, hf⟩
  cases h.symm.trans hf

end

namespace Registry

theorem compileAll_cons (name : String) (source : List UInt8) (m : Sources) :
    (compileAll ((name, source) :: m)).value =
      match (Node.compile name source).value with
      | .error fault => .error (.parse name fault)
      | .ok root => (compileAll m).value.map ((name, root) :: ·) := by
  rw [compileAll]
  cases (Node.compile name source).value <;> rfl

/-- What fails is the first template whose source cannot be scanned. -/
theorem compileAll_error {m : Sources} {e : ThemeError} (h : (compileAll m).value = .error e) :
    ∃ before name source after fault, m = before ++ (name, source) :: after ∧
      (∀ entry ∈ before, Accepted entry.2) ∧ (scan source).value = .error fault ∧
      e = .parse name fault := by
  induction m generalizing e with
  | nil => cases h
  | cons first m ih =>
    obtain ⟨name, source⟩ := first
    rw [compileAll_cons] at h
    cases hroot : (Node.compile name source).value with
    | error fault =>
      rw [hroot] at h
      exact ⟨[], name, source, m, fault, rfl, by simp, compile_error_iff.1 hroot,
        (Except.error.inj h).symm⟩
    | ok root =>
      rw [hroot] at h
      cases hrest : (compileAll m).value with
      | ok templates =>
        simp only [hrest, Except.map] at h
        cases h
      | error e' =>
        obtain ⟨before, other, source', after, fault, rfl, hbefore, hfault, he⟩ := ih hrest
        simp only [hrest, Except.map, Except.error.injEq] at h
        refine ⟨(name, source) :: before, other, source', after, fault, rfl, ?_, hfault, h ▸ he⟩
        exact List.forall_mem_cons.2 ⟨accepted_iff.2 ⟨root, hroot⟩, hbefore⟩

/-- Else there is one template for each source, in the same order. -/
theorem forall₂_of_compileAll {m : Sources} {templates : Named Node}
    (h : (compileAll m).value = .ok templates) :
    List.Forall₂ (fun entry template => template.1 = entry.1 ∧
      (Node.compile entry.1 entry.2).value = .ok template.2) m templates := by
  induction m generalizing templates with
  | nil =>
    obtain rfl : [] = templates := Except.ok.inj h
    exact .nil
  | cons first m ih =>
    obtain ⟨name, source⟩ := first
    rw [compileAll_cons] at h
    cases hroot : (Node.compile name source).value with
    | error fault =>
      rw [hroot] at h
      cases h
    | ok root =>
      rw [hroot] at h
      cases hrest : (compileAll m).value with
      | error e =>
        simp only [hrest, Except.map] at h
        cases h
      | ok rest =>
        simp only [hrest, Except.map, Except.ok.injEq] at h
        subst h
        exact .cons ⟨rfl, hroot⟩ (ih hrest)

section
variable {m : Sources} {templates : Named Node}
  (h : List.Forall₂ (fun entry template => template.1 = entry.1 ∧
    (Node.compile entry.1 entry.2).value = .ok template.2) m templates)

include h

theorem accepted_of_forall₂ : ∀ entry ∈ m, Accepted entry.2 := by
  induction h with
  | nil => simp
  | cons hd _ ih => exact List.forall_mem_cons.2 ⟨accepted_iff.2 ⟨_, hd.2⟩, ih⟩

theorem names_of_forall₂ : templates.map Prod.fst = m.map Prod.fst := by
  induction h with
  | nil => rfl
  | cons hd _ ih => rw [List.map_cons, List.map_cons, hd.1, ih]

theorem sorted_of_forall₂ (hm : m.Sorted) : templates.Sorted := by
  have hnames : (m.map Prod.fst).Pairwise (· < ·) := List.pairwise_map.2 hm
  rw [← names_of_forall₂ h] at hnames
  exact List.pairwise_map.1 hnames

theorem get?_of_forall₂ (name : String) :
    templates.get? name =
      (m.get? name).bind fun source => (Node.compile name source).value.toOption := by
  induction h with
  | nil => rfl
  | @cons entry template m templates hd _ ih =>
    rw [Named.get?_cons, Named.get?_cons, ih, hd.1]
    split_ifs with hname
    · rw [Option.bind_some, ← hname, hd.2]
      rfl
    · rfl

end

/-! ### The outcome -/

variable {theme : String} {sources : List (String × List UInt8)}

/-- Each source that counts stands in the list that is compiled, at the place of its name. -/
theorem last?_eq_some_iff {name : String} {source : List UInt8} :
    Named.last? sources name = some source ↔ (name, source) ∈ Named.ofList sources := by
  rw [← Named.get?_ofList]
  exact (Named.sorted_ofList sources).get?_eq_some_iff

theorem outcome_of_error {e : ThemeError}
    (h : (compileAll (Named.ofList sources)).value = .error e) :
    Outcome theme sources (.error e) := by
  obtain ⟨before, name, source, after, fault, hm, hbefore, hfault, rfl⟩ := compileAll_error h
  have hsorted := Named.sorted_ofList sources
  rw [hm] at hsorted
  have hafter := (List.pairwise_cons.1 (List.pairwise_append.1 hsorted).2.1).1
  refine .refused (last?_eq_some_iff.2 (by simp [hm])) hfault fun other source' hother hlt => ?_
  have hmem := last?_eq_some_iff.1 hother
  rw [bytesOf_lt_iff] at hlt
  rw [hm] at hmem
  rcases List.mem_append.1 hmem with hmem | hmem
  · exact hbefore _ hmem
  · rcases List.mem_cons.1 hmem with heq | hmem
    · exact absurd (Prod.mk.inj heq).1 hlt.ne
    · exact absurd (hafter _ hmem) hlt.asymm

theorem compile_of_error {e : ThemeError}
    (h : (compileAll (Named.ofList sources)).value = .error e) :
    (Registry.compile theme sources).value = .error e := by
  unfold Registry.compile Reported.map
  dsimp only
  rw [h]
  rfl

theorem compile_of_ok {templates : Named Node}
    (h : (compileAll (Named.ofList sources)).value = .ok templates) {registry : Registry}
    (hr : registry = ⟨theme, templates, Sources.fingerprint (Named.ofList sources)⟩) :
    (Registry.compile theme sources).value =
      registry.missing?.elim (.ok registry) fun name => .error (.missingTemplate name) := by
  subst hr
  unfold Registry.compile Reported.map
  dsimp only
  rw [h]
  simp only [bind, Except.bind]
  split
  · rename_i name hname
    rw [hname]
    rfl
  · rename_i hnone
    rw [hnone]
    rfl

theorem missing?_eq (r : Registry) :
    r.missing? =
      if (r.get? "index").isSome = false then some "index"
      else if (r.get? "post").isSome = false then some "post" else none := by
  simp only [missing?, required, contains, List.find?_cons]
  cases (r.get? "index").isSome <;> cases (r.get? "post").isSome <;> rfl

theorem outcome_of_ok {templates : Named Node}
    (h : (compileAll (Named.ofList sources)).value = .ok templates) :
    Outcome theme sources (Registry.compile theme sources).value := by
  have hall := forall₂_of_compileAll h
  have haccepted : AllAccepted sources := fun name source hlast =>
    accepted_of_forall₂ hall _ (last?_eq_some_iff.1 hlast)
  have hget : ∀ name, templates.get? name = (Named.last? sources name).bind fun source =>
      (Node.compile name source).value.toOption := fun name => by
    rw [get?_of_forall₂ hall, Named.get?_ofList]
  have hmissing : ∀ name,
      (templates.get? name).isSome = false ↔ Named.last? sources name = none := by
    intro name
    rw [hget]
    cases hlast : Named.last? sources name with
    | none => simp
    | some source =>
      obtain ⟨root, hroot⟩ : ∃ root, (Node.compile name source).value = .ok root :=
        accepted_iff.1 (haccepted name source hlast)
      simp [hroot, Except.toOption]
  rw [compile_of_ok h rfl, missing?_eq]
  simp only [Registry.get?, hmissing]
  split_ifs with hindex hpost
  · exact .noIndex haccepted hindex
  · exact .noPost haccepted hindex hpost
  · exact .compiled haccepted hindex hpost rfl
      (sorted_of_forall₂ hall (Named.sorted_ofList sources)) hget rfl

theorem outcome_compile (theme : String) (sources : List (String × List UInt8)) :
    Outcome theme sources (Registry.compile theme sources).value := by
  cases h : (compileAll (Named.ofList sources)).value with
  | ok templates => exact outcome_of_ok h
  | error e =>
    rw [compile_of_error h]
    exact outcome_of_error h

end Registry

theorem Outcome.unique {theme : String} {sources : List (String × List UInt8)}
    {r r' : Except ThemeError Registry} (h : Outcome theme sources r)
    (h' : Outcome theme sources r') : r = r' := by
  cases h with
  | @refused name source fault last refuses least =>
    cases h' with
    | @refused name' source' fault' last' refuses' least' =>
      have hnot : ¬ name < name' := fun hlt =>
        not_accepted_of_error refuses (least' _ _ last (bytesOf_lt_iff.2 hlt))
      have hnot' : ¬ name' < name := fun hlt =>
        not_accepted_of_error refuses' (least _ _ last' (bytesOf_lt_iff.2 hlt))
      obtain rfl := le_antisymm (not_lt.1 hnot') (not_lt.1 hnot)
      obtain rfl := Option.some.inj (last.symm.trans last')
      rw [Except.error.inj (refuses.symm.trans refuses')]
    | noIndex accepted | noPost accepted | compiled accepted =>
      exact absurd (accepted _ _ last) (not_accepted_of_error refuses)
  | noIndex accepted index =>
    cases h' with
    | refused last refuses => exact absurd (accepted _ _ last) (not_accepted_of_error refuses)
    | noIndex => rfl
    | noPost _ index' | compiled _ index' => exact absurd index index'
  | noPost accepted index post =>
    cases h' with
    | refused last refuses => exact absurd (accepted _ _ last) (not_accepted_of_error refuses)
    | noIndex _ index' => exact absurd index' index
    | noPost => rfl
    | compiled _ _ post' => exact absurd post post'
  | @compiled registry accepted index post named templates get fingerprint =>
    cases h' with
    | refused last refuses => exact absurd (accepted _ _ last) (not_accepted_of_error refuses)
    | noIndex _ index' => exact absurd index' index
    | noPost _ _ post' => exact absurd post' post
    | @compiled registry' _ _ _ named' templates' get' fingerprint' =>
      have hsame : registry.templates = registry'.templates :=
        templates.ext templates' fun name => (get name).trans (get' name).symm
      obtain ⟨_, _, _⟩ := registry
      obtain ⟨_, _, _⟩ := registry'
      simp_all

/-- **There is one outcome, and it is what compiling gives.** -/
theorem outcome_iff {theme : String} {sources : List (String × List UInt8)}
    {r : Except ThemeError Registry} :
    (Registry.compile theme sources).value = r ↔ Outcome theme sources r :=
  ⟨fun h => h ▸ Registry.outcome_compile theme sources,
    (Registry.outcome_compile theme sources).unique⟩

/-- Only the last source of each name counts. -/
theorem Registry.compile_congr {theme : String} {sources sources' : List (String × List UInt8)}
    (h : ∀ name, Named.last? sources name = Named.last? sources' name) :
    Registry.compile theme sources = Registry.compile theme sources' := by
  unfold Registry.compile
  rw [Named.ofList_eq_iff.2 h]

/-- Sources have one text for each name, so there is no duplicate among them. -/
theorem Registry.compile_ne_duplicate {theme name : String} {sources : List (String × List UInt8)}
    {first second : Files.Path} :
    (Registry.compile theme sources).value ≠ .error (.duplicateTemplate name first second) :=
  fun h => nomatch outcome_iff.1 h

end ThemePress.Template
