import Mathlib.Data.List.Nodup
import Mathlib.Data.List.Sort
import Mathlib.Data.String.Basic
import ThemePress.Proofs.Blog.References
import ThemePress.Proofs.Template.Outcome
import ThemePress.Theme.Folder

/-! # Templates in a folder

What the theme in a folder compiles to follows from the files that lie below it, each at its place:
`TemplateAt` says that one of them is a template of some name. Two templates of one name clash, and
then the theme is refused with the first file, in the order of the places, whose name is taken
already (`FirstClash`). Without a clash each name has one source, and the theme is compiled from
these (`compile_told_by_files`). The order in which a tree lists its files is nowhere asked for. No
place may be taken twice, and none is in a tree that is built by changes (`Tree.Built.distinct`).

Files are gone through in the order of their places (`found`), so the first clash is where a name
comes up for the second time (`sourcesAfter_clash`). -/

namespace ThemePress.Files

/-! ### The order of places -/

theorem Place.le_iff {p q : Place} : Place.le p q = true ↔ p = q ∨ p < q := by
  induction p generalizing q with
  | nil => cases q <;> simp [Place.le]
  | cons a p ih =>
    cases q with
    | nil => simp [Place.le]
    | cons b q =>
      rw [Place.le, List.cons_lt_cons_iff]
      split_ifs with hlt heq
      · simp [hlt]
      · simp [heq, ih]
      · simp [hlt, heq]

theorem Place.le_total (p q : Place) : (Place.le p q || Place.le q p) = true := by
  rw [Bool.or_eq_true, Place.le_iff, Place.le_iff]
  rcases lt_trichotomy p q with h | h | h
  · exact .inl (.inr h)
  · exact .inl (.inl h)
  · exact .inr (.inr h)

theorem Place.le_trans (p q r : Place) (h : Place.le p q = true) (h' : Place.le q r = true) :
    Place.le p r = true := by
  rw [Place.le_iff] at h h' ⊢
  rcases h with rfl | h
  · exact h'
  · rcases h' with rfl | h'
    · exact .inr h
    · exact .inr (h.trans h')

namespace Tree

/-- No place is taken twice. -/
def Distinct (t : Tree) : Prop :=
  (t.files.map Prod.fst).Nodup

/-! ### Trees that are built -/

/-- Trees that come about by changes, from the one with nothing in it. -/
inductive Built : Tree → Prop where
  | empty : Built {}
  | folders {t : Tree} (h : Built t) (folders : List Place) : Built { t with folders }
  | makeFolder {t t' : Tree} {path : Path} (h : Built t) (hmade : t.makeFolder path = .ok t') :
    Built t'
  | put {t : Tree} (h : Built t) (place : Place) (content : Content) : Built (t.put place content)
  | write {t t' : Tree} {path : Path} {bytes : List UInt8} (h : Built t)
    (hwritten : t.write path bytes = .ok t') : Built t'
  | remove {t : Tree} (h : Built t) (path : Path) : Built (t.remove path)

variable {t t' : Tree}

theorem files_makeFolders {pieces : List String} {place place' : Place}
    (h : t.makeFolders place pieces = .ok (t', place')) : t'.files = t.files := by
  induction pieces generalizing t place with
  | nil =>
    obtain ⟨rfl, -⟩ := Prod.mk.inj (Except.ok.inj h)
    rfl
  | cons piece rest ih =>
    simp only [makeFolders] at h
    split_ifs at h
    · exact ih h
    · exact ih h
    · exact ih h
    -- a folder is added, and no file
    · have hfiles := ih h
      exact hfiles

theorem files_makeFolder {path : Path} (h : t.makeFolder path = .ok t') : t'.files = t.files := by
  unfold makeFolder at h
  cases hmade : t.makeFolders [] path.pieces with
  | error e =>
    rw [hmade] at h
    cases h
  | ok made =>
    rw [hmade] at h
    obtain rfl := Except.ok.inj h
    exact files_makeFolders hmade

/-- To write a file is to put it at some place. -/
theorem exists_put_of_write {path : Path} {bytes : List UInt8}
    (h : t.write path bytes = .ok t') : ∃ place, t' = t.put place (.ok bytes) := by
  obtain ⟨place, -, h⟩ := Blog.bind_ok_iff.1 h
  split at h
  · cases h
  · cases h
  · cases h
  · cases h
  · dsimp only at h
    split_ifs at h
    exact ⟨_, (Except.ok.inj h).symm⟩

/-- A file that is put at a place takes it from what was there before. -/
theorem Distinct.put (h : t.Distinct) (place : Place) (content : Content) :
    (t.put place content).Distinct := by
  have hfilter : (t.files.filter (·.1 != place)).map Prod.fst =
      (t.files.map Prod.fst).filter (· != place) := by
    rw [List.filter_map]
    rfl
  rw [Distinct, Tree.put, List.map_append, hfilter, List.nodup_append]
  refine ⟨h.filter _, List.nodup_singleton _, fun a ha b hb => ?_⟩
  obtain rfl : b = place := List.mem_singleton.1 hb
  simpa using (List.mem_filter.1 ha).2

theorem Distinct.remove (h : t.Distinct) (path : Path) : (t.remove path).Distinct := by
  unfold Tree.remove
  split
  · exact h
  · exact h.sublist (List.filter_sublist.map Prod.fst)

/-- **Where trees are built, no place is taken twice.** -/
theorem Built.distinct (h : t.Built) : t.Distinct := by
  induction h with
  | empty => exact List.nodup_nil
  | folders _ _ ih => exact ih
  | makeFolder _ hmade ih => rwa [Distinct, files_makeFolder hmade]
  | put _ place content ih => exact ih.put place content
  | write _ hwritten ih =>
    obtain ⟨place, rfl⟩ := exists_put_of_write hwritten
    exact ih.put place _
  | remove _ path ih => exact ih.remove path

/-! ### What a folder holds -/

theorem mem_filesBelow {t : Tree} {place way : Place} {content : Content} :
    (way, content) ∈ t.filesBelow place ↔ (place ++ way, content) ∈ t.files := by
  unfold filesBelow
  rw [List.mem_mergeSort, List.mem_filterMap]
  constructor
  · rintro ⟨⟨file, content'⟩, hmem, h⟩
    obtain ⟨way', hway, h⟩ := Option.map_eq_some_iff.1 h
    obtain ⟨rfl, rfl⟩ := Prod.mk.inj h
    rw [List.isPrefixOf?_eq_some_iff_append_eq.1 hway]
    exact hmem
  · intro h
    refine ⟨_, h, ?_⟩
    show Option.map _ (place.isPrefixOf? (place ++ way)) = _
    rw [List.isPrefixOf?_eq_some_iff_append_eq.2 rfl]
    rfl

/-- The files below a folder stand in the order of their places. -/
theorem pairwise_filesBelow {t : Tree} (h : t.Distinct) (place : Place) :
    (t.filesBelow place).Pairwise fun a b => a.1 < b.1 := by
  have hsorted : (t.filesBelow place).Pairwise fun a b => Place.le a.1 b.1 = true :=
    List.pairwise_mergeSort (fun a b c => Place.le_trans a.1 b.1 c.1)
      (fun a b => Place.le_total a.1 b.1) _
  have hways : ((t.filesBelow place).map Prod.fst).Nodup := by
    have hmap : (t.files.filterMap fun entry =>
        (place.isPrefixOf? entry.1).map fun way => (way, entry.2)).map Prod.fst =
        (t.files.map Prod.fst).filterMap place.isPrefixOf? := by
      rw [List.map_filterMap, List.filterMap_map]
      congr 1
      funext entry
      exact (Option.map_map ..).trans (Option.map_id' ..)
    have hbelow : ((t.files.map Prod.fst).filterMap place.isPrefixOf?).Nodup := by
      refine h.filterMap fun file file' way hway hway' => ?_
      rw [← List.isPrefixOf?_eq_some_iff_append_eq.1 hway,
        ← List.isPrefixOf?_eq_some_iff_append_eq.1 hway']
    rw [← hmap] at hbelow
    exact ((List.mergeSort_perm _ _).map Prod.fst).nodup_iff.2 hbelow
  refine hsorted.imp₂ (fun a b hle hne => ?_) (List.pairwise_map.1 hways)
  exact (Place.le_iff.1 hle).resolve_left hne

/-- Only whether something lies at a place matters for following a path. -/
theorem follow_congr {t t' : Tree} (hfolders : t'.folders = t.folders)
    (hfiles : ∀ place, (t'.content? place).isSome = (t.content? place).isSome) (place : Place)
    (pieces : List String) : t'.follow place pieces = t.follow place pieces := by
  have hfolder : ∀ place, t'.isFolder place = t.isFolder place := fun place => by
    rw [isFolder, isFolder, hfolders]
  induction pieces generalizing place with
  | nil => rfl
  | cons piece pieces ih =>
    rw [follow, follow]
    simp only [hfolder, hfiles, ih]

section
variable {t t' : Tree} (hfiles : t'.files.Perm t.files) (hfolders : t'.folders = t.folders)
include hfiles hfolders

/-- The order in which a tree lists its files does not matter for the folder a path leads to. -/
theorem folder?_perm (path : Path) : t'.folder? path = t.folder? path := by
  have hlook : ∀ place, (t'.content? place).isSome = (t.content? place).isSome := fun place => by
    rw [content?, content?, Bool.eq_iff_iff]
    simp only [List.lookup_isSome_iff, hfiles.mem_iff]
  have hfolder : ∀ place, t'.isFolder place = t.isFolder place := fun place => by
    rw [isFolder, isFolder, hfolders]
  unfold folder? locate
  simp only [follow_congr hfolders hlook, hfolder]

end

/-- Nor does it for the files below a folder. -/
theorem filesBelow_perm {t t' : Tree} (hfiles : t'.files.Perm t.files) (h : t.Distinct)
    (place : Place) : t'.filesBelow place = t.filesBelow place := by
  have h' : t'.Distinct := (hfiles.map Prod.fst).nodup_iff.2 h
  have : Std.Irrefl fun a b : Place × Content => a.1 < b.1 := ⟨fun a => lt_irrefl a.1⟩
  have : Std.Antisymm fun a b : Place × Content => a.1 < b.1 :=
    ⟨fun a b hab hba => absurd hba hab.asymm⟩
  refine (pairwise_filesBelow h' place).eq_of_mem_iff (pairwise_filesBelow h place) fun entry => ?_
  obtain ⟨way, content⟩ := entry
  rw [mem_filesBelow, mem_filesBelow, hfiles.mem_iff]

end Tree
end ThemePress.Files

namespace ThemePress.Theme

open ThemePress.Blog (find?_of_mem)
open ThemePress.Files ThemePress.Template

/-! ### Templates among the files -/

theorem templateName?_eq_some_iff {file name : String} :
    templateName? file = some name ↔ file = name ++ ending ∧ name ≠ "" := by
  have hrev : ∀ stem, ending.toList.reverse.isPrefixOf? file.toList.reverse = some stem ↔
      file = String.ofList stem.reverse ++ ending := fun stem => by
    rw [List.isPrefixOf?_eq_some_iff_append_eq, ← List.reverse_inj, List.reverse_append,
      List.reverse_reverse, List.reverse_reverse, ← String.toList_inj, String.toList_append,
      String.toList_ofList]
    exact eq_comm
  unfold templateName?
  constructor
  · intro h
    split at h
    · cases h
    · cases h
    · rename_i stem hne hstem
      obtain rfl := Option.some.inj h
      refine ⟨(hrev stem).1 hstem, fun hempty => hne ?_⟩
      simpa using hempty
  · rintro ⟨hfile, hne⟩
    have hstem : ending.toList.reverse.isPrefixOf? file.toList.reverse =
        some name.toList.reverse := by
      rw [hrev, List.reverse_reverse, String.ofList_toList]
      exact hfile
    cases hrest : name.toList.reverse with
    | nil => exact absurd (by simpa using hrest) hne
    | cons c rest =>
      rw [hstem, hrest]
      dsimp only
      rw [← hrest, List.reverse_reverse, String.ofList_toList]

/-- Below the folder at `place`, at the place `way`, lies a template of this name and content. -/
def TemplateAt (tree : Tree) (place way : Place) (name : String) (content : Content) : Prop :=
  (place ++ way, content) ∈ tree.files ∧ way.getLast? = some (name ++ ending) ∧ name ≠ ""

/-- Two templates have the same name, and no template before the second has a name that is taken
already. -/
structure FirstClash (tree : Tree) (place : Place) (name : String) (first second : Place) :
    Prop where
  taken : ∃ content, TemplateAt tree place first name content
  again : ∃ content, TemplateAt tree place second name content
  lt : first < second
  least : ∀ other way way', (∃ content, TemplateAt tree place way other content) →
    (∃ content, TemplateAt tree place way' other content) → way < way' → ¬ way' < second

theorem TemplateAt.name_eq {tree : Tree} {place way : Place} {name name' : String}
    {content content' : Content} (h : TemplateAt tree place way name content)
    (h' : TemplateAt tree place way name' content') : name = name' :=
  (String.append_left_inj ending).1 (Option.some.inj (h.2.1.symm.trans h'.2.1))

theorem FirstClash.unique {tree : Tree} {place : Place} {name name' : String}
    {first second first' second' : Place} (h : FirstClash tree place name first second)
    (h' : FirstClash tree place name' first' second') :
    name = name' ∧ first = first' ∧ second = second' := by
  have hlt := h.least _ _ _ h'.taken h'.again h'.lt
  have hlt' := h'.least _ _ _ h.taken h.again h.lt
  obtain rfl : second = second' :=
    (lt_trichotomy second second').elim (absurd · hlt') (·.elim id (absurd · hlt))
  obtain ⟨_, hagain⟩ := h.again
  obtain ⟨_, hagain'⟩ := h'.again
  obtain rfl := hagain.name_eq hagain'
  refine ⟨rfl, ?_, rfl⟩
  -- of two earlier templates of this name, the later one would clash before
  rcases lt_trichotomy first first' with hfirst | hfirst | hfirst
  · exact absurd h'.lt (h.least _ _ _ h.taken h'.taken hfirst)
  · exact hfirst
  · exact absurd h.lt (h.least _ _ _ h'.taken h.taken hfirst)

/-! ### The templates of a folder in order -/

/-- A template with its place below a folder. -/
structure Found where
  way : Place
  name : String
  content : Content

namespace Found

/-- The template in its file. -/
def file (folder : Path) (f : Found) : TemplateFile :=
  ⟨f.name, f.way.foldl Path.join folder, f.content⟩

/-- What lies at a place, if it is a template. -/
def of? (entry : Place × Content) : Option Found :=
  (entry.1.getLast?.bind templateName?).map fun name => ⟨entry.1, name, entry.2⟩

end Found

/-- The templates below a folder, in the order of their places. -/
def found (tree : Tree) (place : Place) : List Found :=
  (tree.filesBelow place).filterMap Found.of?

theorem mem_found {tree : Tree} {place : Place} {f : Found} :
    f ∈ found tree place ↔ TemplateAt tree place f.way f.name f.content := by
  obtain ⟨way, name, content⟩ := f
  unfold found TemplateAt
  simp only [List.mem_filterMap, Found.of?, Option.map_eq_some_iff, Option.bind_eq_some_iff,
    templateName?_eq_some_iff, Found.mk.injEq]
  constructor
  · rintro ⟨entry, hmem, _, ⟨file, hlast, rfl, hne⟩, rfl, rfl, rfl⟩
    exact ⟨Tree.mem_filesBelow.1 hmem, hlast, hne⟩
  · rintro ⟨hmem, hlast, hne⟩
    exact ⟨(way, content), Tree.mem_filesBelow.2 hmem, _, ⟨_, hlast, rfl, hne⟩, rfl, rfl, rfl⟩

theorem pairwise_found {tree : Tree} (h : tree.Distinct) (place : Place) :
    (found tree place).Pairwise fun f g => f.way < g.way := by
  refine List.Pairwise.filterMap _ (fun a b hab f hf g hg => ?_) (Tree.pairwise_filesBelow h place)
  obtain ⟨_, -, rfl⟩ := Option.map_eq_some_iff.1 hf
  obtain ⟨_, -, rfl⟩ := Option.map_eq_some_iff.1 hg
  exact hab

theorem templateFiles_eq {tree : Tree} {folder : Path} {place : Place}
    (h : tree.folder? folder = some place) :
    templateFiles tree folder = .ok ((found tree place).map (Found.file folder)) := by
  unfold templateFiles found
  rw [h, List.map_filterMap]
  dsimp only
  congr 2
  funext ⟨way, content⟩
  unfold TemplateFile.of? Found.of?
  cases way.getLast? with
  | none => rfl
  | some file => cases hname : templateName? file <;> simp [hname, Found.file]

/-! ### Names that are taken already -/

theorem nodup_or_repeated {α β : Type} (key : α → β) (l : List α) :
    (l.map key).Nodup ∨ ∃ before a after, l = before ++ a :: after ∧ (before.map key).Nodup ∧
      ∃ b ∈ before, key b = key a := by
  induction l using List.reverseRecOn with
  | nil => exact .inl List.nodup_nil
  | append_singleton l a ih =>
    rcases ih with h | ⟨before, b, after, rfl, h⟩
    · by_cases ha : ∃ b ∈ l, key b = key a
      · exact .inr ⟨l, a, [], rfl, h, ha⟩
      · left
        rw [List.map_append, List.map_singleton, ← List.concat_eq_append]
        exact h.concat fun hmem => ha (List.mem_map.1 hmem)
    · exact .inr ⟨before, b, after ++ [a], by simp, h⟩

section
variable {folder : Path} {passed fs : List Found}

/-- Has a template of the name been passed? -/
theorem find?_passed_eq_none {name : String} (h : ∀ f ∈ passed, f.name ≠ name) :
    (passed.map (Found.file folder)).reverse.find? (·.name == name) = none := by
  rw [List.find?_eq_none]
  intro file hfile
  obtain ⟨f, hf, rfl⟩ := List.mem_map.1 (List.mem_reverse.1 hfile)
  simpa [Found.file] using h f hf

theorem find?_passed {first : Found} (hnames : (passed.map (·.name)).Nodup)
    (hfirst : first ∈ passed) :
    (passed.map (Found.file folder)).reverse.find? (·.name == first.name) =
      some (first.file folder) := by
  have hkeys : (((passed.map (Found.file folder)).reverse).map TemplateFile.name).Nodup := by
    rw [List.map_reverse, List.map_map, List.nodup_reverse]
    exact hnames
  have hmem : first.file folder ∈ (passed.map (Found.file folder)).reverse :=
    List.mem_reverse.2 (List.mem_map_of_mem hfirst)
  exact find?_of_mem hkeys hmem

/-- One template further. -/
theorem sourcesAfter_cons {f : Found} {source : List UInt8} (hf : f.content = .ok source)
    (hnew : ∀ g ∈ passed, g.name ≠ f.name) :
    TemplateFile.sourcesAfter (passed.map (Found.file folder)).reverse
        ((f :: fs).map (Found.file folder)) =
      (TemplateFile.sourcesAfter ((passed ++ [f]).map (Found.file folder)).reverse
        (fs.map (Found.file folder))).map ((f.name, source) :: ·) := by
  obtain ⟨way, name, content⟩ := f
  obtain rfl : content = .ok source := hf
  have hnone : (passed.map (Found.file folder)).reverse.find?
      (·.name == (Found.file folder ⟨way, name, .ok source⟩).name) = none :=
    find?_passed_eq_none hnew
  rw [List.map_cons, TemplateFile.sourcesAfter, hnone, List.map_append, List.reverse_append]
  rfl

/-- Where all names are different, each template gives its source. -/
theorem sourcesAfter_ok (folder : Path) (passed : List Found)
    (hread : ∀ f ∈ fs, ∃ source, f.content = .ok source)
    (hnames : ((passed ++ fs).map (·.name)).Nodup) :
    ∃ sources, TemplateFile.sourcesAfter (passed.map (Found.file folder)).reverse
        (fs.map (Found.file folder)) = .ok sources ∧
      sources.map Prod.fst = fs.map (·.name) ∧
      ∀ name source,
        (name, source) ∈ sources ↔ ∃ f ∈ fs, f.name = name ∧ f.content = .ok source := by
  induction fs generalizing passed with
  | nil => exact ⟨[], rfl, rfl, by simp⟩
  | cons f fs ih =>
    obtain ⟨source, hf⟩ := hread f (List.mem_cons_self ..)
    have hnew : ∀ g ∈ passed, g.name ≠ f.name := by
      rw [List.map_append, List.nodup_append] at hnames
      exact fun g hg => hnames.2.2 _ (List.mem_map_of_mem hg) _
        (List.mem_map_of_mem (List.mem_cons_self ..))
    have hnames' : ((passed ++ [f] ++ fs).map (·.name)).Nodup := by
      rw [List.append_assoc]
      exact hnames
    obtain ⟨sources, hsources, hfst, hmem⟩ :=
      ih (passed ++ [f]) (fun g hg => hread g (List.mem_cons_of_mem _ hg)) hnames'
    refine ⟨(f.name, source) :: sources, ?_, by rw [List.map_cons, List.map_cons, hfst], ?_⟩
    · rw [sourcesAfter_cons hf hnew, hsources]
      rfl
    · intro name source'
      rw [List.mem_cons, hmem, List.exists_mem_cons_iff, Prod.mk.injEq, hf, Except.ok.injEq,
        eq_comm (a := name), eq_comm (a := source')]

/-- A template whose name is taken is refused, with the one that took it. -/
theorem sourcesAfter_clash (folder : Path) (passed : List Found) {before after : List Found}
    {first second : Found}
    (hread : ∀ f ∈ before, ∃ source, f.content = .ok source)
    (hnames : ((passed ++ before).map (·.name)).Nodup) (hfirst : first ∈ passed ++ before)
    (hname : first.name = second.name) :
    TemplateFile.sourcesAfter (passed.map (Found.file folder)).reverse
        ((before ++ second :: after).map (Found.file folder)) =
      .error (.duplicateTemplate second.name (first.file folder).path
        (second.file folder).path) := by
  induction before generalizing passed with
  | nil =>
    rw [List.append_nil] at hnames hfirst
    have hfound : (passed.map (Found.file folder)).reverse.find?
        (·.name == (second.file folder).name) = some (first.file folder) := by
      rw [← find?_passed hnames hfirst, hname]
      rfl
    rw [List.nil_append, List.map_cons, TemplateFile.sourcesAfter, hfound]
    rfl
  | cons f before ih =>
    obtain ⟨source, hf⟩ := hread f (List.mem_cons_self ..)
    have hnew : ∀ g ∈ passed, g.name ≠ f.name := by
      rw [List.map_append, List.nodup_append] at hnames
      exact fun g hg => hnames.2.2 _ (List.mem_map_of_mem hg) _
        (List.mem_map_of_mem (List.mem_cons_self ..))
    rw [List.cons_append, sourcesAfter_cons hf hnew,
      ih (passed ++ [f]) (fun g hg => hread g (List.mem_cons_of_mem _ hg))
        (by rw [List.append_assoc]; exact hnames) (by rw [List.append_assoc]; exact hfirst)]
    rfl

end

/-! ### What a folder compiles to -/

/-- The templates below a folder can be read. -/
def Readable (tree : Tree) (place : Place) : Prop :=
  ∀ way name content, TemplateAt tree place way name content → ∃ source, content = .ok source

/-- Some template below a folder has this name and source. -/
def HasSource (tree : Tree) (place : Place) (name : String) (source : List UInt8) : Prop :=
  ∃ way, TemplateAt tree place way name (.ok source)

theorem way_lt_of_found {tree : Tree} (h : tree.Distinct) {place : Place}
    {before after : List Found} {second : Found}
    (hfound : found tree place = before ++ second :: after) {f : Found}
    (hf : f ∈ found tree place) : f ∈ before ↔ f.way < second.way := by
  have hsorted := pairwise_found h place
  rw [hfound] at hsorted hf
  obtain ⟨-, hafter, hbefore⟩ := List.pairwise_append.1 hsorted
  constructor
  · exact fun hmem => hbefore _ hmem _ (List.mem_cons_self ..)
  · intro hlt
    rcases List.mem_append.1 hf with hmem | hmem
    · exact hmem
    · rcases List.mem_cons.1 hmem with rfl | hmem
      · exact absurd hlt (lt_irrefl _)
      · exact absurd hlt ((List.pairwise_cons.1 hafter).1 _ hmem).asymm

/-- The template whose name is taken first. -/
theorem firstClash_of_found {tree : Tree} (h : tree.Distinct) {place : Place}
    {before after : List Found} {first second : Found}
    (hfound : found tree place = before ++ second :: after) (hnames : (before.map (·.name)).Nodup)
    (hfirst : first ∈ before) (hname : first.name = second.name) :
    FirstClash tree place second.name first.way second.way := by
  have hmem : ∀ f ∈ before, f ∈ found tree place := fun f hf =>
    hfound ▸ List.mem_append_left _ hf
  have hsecond : second ∈ found tree place :=
    hfound ▸ List.mem_append_right _ (List.mem_cons_self ..)
  refine ⟨⟨_, hname ▸ mem_found.1 (hmem _ hfirst)⟩, ⟨_, mem_found.1 hsecond⟩,
    (way_lt_of_found h hfound (hmem _ hfirst)).1 hfirst, ?_⟩
  rintro other way way' ⟨content, htaken⟩ ⟨content', hagain⟩ hlt hlt'
  have hbefore : ⟨way, other, content⟩ ∈ before :=
    (way_lt_of_found h hfound (mem_found.2 htaken)).2 (hlt.trans hlt')
  have hbefore' : ⟨way', other, content'⟩ ∈ before :=
    (way_lt_of_found h hfound (mem_found.2 hagain)).2 hlt'
  have hsame := List.inj_on_of_nodup_map hnames hbefore hbefore' rfl
  exact absurd hlt ((Found.mk.inj hsame).1 ▸ lt_irrefl way)

section
variable {tree : Tree} {folder : Path} {place : Place} (hplace : tree.folder? folder = some place)
  (hread : Readable tree place)

include hplace hread

/-- Where all names are different, the sources of the files are collected. -/
theorem collected_of_nodup (hnames : ((found tree place).map (·.name)).Nodup) :
    ∃ collected, templateFiles tree folder >>= TemplateFile.sourcesAfter [] = .ok collected ∧
      ∀ name source, Named.last? collected name = some source ↔
        HasSource tree place name source := by
  obtain ⟨collected, hcollected, hfst, hmem⟩ := sourcesAfter_ok folder []
    (fun f hf => hread _ _ _ (mem_found.1 hf)) hnames
  refine ⟨collected, ?_, fun name source => ?_⟩
  · rw [templateFiles_eq hplace]
    exact hcollected
  · rw [Named.last?_eq_some_iff_mem (hfst ▸ hnames), hmem]
    constructor
    · rintro ⟨f, hf, rfl, hcontent⟩
      exact ⟨f.way, hcontent ▸ mem_found.1 hf⟩
    · rintro ⟨way, hway⟩
      exact ⟨⟨way, name, .ok source⟩, mem_found.2 hway, rfl, rfl⟩

/-- Then the theme is compiled from them. -/
theorem compile_of_nodup (hnames : ((found tree place).map (·.name)).Nodup)
    {sources : List (String × List UInt8)}
    (hsources : ∀ name source, Named.last? sources name = some source ↔
      HasSource tree place name source) :
    compile tree folder = Registry.compile (folder.name?.getD "") sources := by
  obtain ⟨collected, hcollected, hlast⟩ := collected_of_nodup hplace hread hnames
  unfold compile
  rw [hcollected]
  exact Registry.compile_congr fun name => Option.ext fun source =>
    (hlast name source).trans (hsources name source).symm

/-- Else the theme is refused with the first template whose name is taken. -/
theorem compile_of_repeated {before after : List Found}
    {first second : Found} (hfound : found tree place = before ++ second :: after)
    (hnames : (before.map (·.name)).Nodup) (hfirst : first ∈ before)
    (hname : first.name = second.name) :
    (compile tree folder).value = .error (.duplicateTemplate second.name
      (first.way.foldl Path.join folder) (second.way.foldl Path.join folder)) := by
  have hclash : templateFiles tree folder >>= TemplateFile.sourcesAfter [] =
      .error (.duplicateTemplate second.name (first.file folder).path
        (second.file folder).path) := by
    rw [templateFiles_eq hplace, hfound]
    exact sourcesAfter_clash folder []
      (fun f hf => hread _ _ _ (mem_found.1 (hfound ▸ List.mem_append_left _ hf))) hnames hfirst
      hname
  unfold compile
  rw [hclash]
  rfl

end

/-- Where all names are different, no two templates have one name. -/
theorem way_eq_of_nodup {tree : Tree} {place : Place}
    (hnames : ((found tree place).map (·.name)).Nodup) {name : String} {way way' : Place} :
    (∃ content, TemplateAt tree place way name content) →
      (∃ content, TemplateAt tree place way' name content) → way = way' := by
  rintro ⟨content, hway⟩ ⟨content', hway'⟩
  have hf : ⟨way, name, content⟩ ∈ found tree place := mem_found.2 hway
  have hf' : ⟨way', name, content'⟩ ∈ found tree place := mem_found.2 hway'
  exact (Found.mk.inj (List.inj_on_of_nodup_map hnames hf hf' rfl)).1

section
variable {tree : Tree} {folder : Path} {place : Place} (hplace : tree.folder? folder = some place)
  (hdistinct : tree.Distinct) (hread : Readable tree place)

include hplace hdistinct hread

/-- The theme is refused for a duplicate just where there is a first clash, and with that clash. -/
theorem compile_duplicate_iff {name : String} {first second : Path} :
    (compile tree folder).value = .error (.duplicateTemplate name first second) ↔
      ∃ way way', FirstClash tree place name way way' ∧ way.foldl Path.join folder = first ∧
        way'.foldl Path.join folder = second := by
  rcases nodup_or_repeated (·.name) (found tree place) with
    hnames | ⟨before, f', after, hfound, hnames, f, hf, hname⟩
  · obtain ⟨collected, -, hlast⟩ := collected_of_nodup hplace hread hnames
    rw [compile_of_nodup hplace hread hnames hlast]
    constructor
    · exact fun h => absurd h Registry.compile_ne_duplicate
    · rintro ⟨way, way', hclash, -⟩
      exact absurd (way_eq_of_nodup hnames hclash.taken hclash.again) hclash.lt.ne
  · have hclash := firstClash_of_found hdistinct hfound hnames hf hname
    rw [compile_of_repeated hplace hread hfound hnames hf hname]
    simp only [Except.error.injEq, ThemeError.duplicateTemplate.injEq]
    constructor
    · rintro ⟨rfl, hfirst, hsecond⟩
      exact ⟨_, _, hclash, hfirst, hsecond⟩
    · rintro ⟨way, way', hclash', hfirst, hsecond⟩
      obtain ⟨rfl, rfl, rfl⟩ := hclash.unique hclash'
      exact ⟨rfl, hfirst, hsecond⟩

omit hdistinct in
/-- Where it is not refused for a duplicate, all names are different. -/
theorem nodup_of_compile_ne_duplicate
    (hne : ∀ name first second,
      (compile tree folder).value ≠ .error (.duplicateTemplate name first second)) :
    ((found tree place).map (·.name)).Nodup := by
  rcases nodup_or_repeated (·.name) (found tree place) with
    hnames | ⟨before, f', after, hfound, hnames, f, hf, hname⟩
  · exact hnames
  · exact absurd (compile_of_repeated hplace hread hfound hnames hf hname) (hne _ _ _)

end

/-- In what order the tree lists its files makes no difference. -/
theorem compile_perm {tree tree' : Tree} (hdistinct : tree.Distinct)
    (hfiles : tree'.files.Perm tree.files) (hfolders : tree'.folders = tree.folders)
    (folder : Path) : compile tree' folder = compile tree folder := by
  have hsame : templateFiles tree' folder = templateFiles tree folder := by
    unfold templateFiles
    rw [Tree.folder?_perm hfiles hfolders]
    simp only [Tree.filesBelow_perm hfiles hdistinct]
  unfold compile
  rw [hsame]

/-- **What the theme in a folder compiles to follows from the templates below it.** From sources
comes the one outcome there is, and only the last source of each name counts. Of a folder, the theme
is refused for a duplicate just where two templates have one name, with the first whose name is
taken and the one that took it; else it is compiled from the sources that the templates have. In
what order the tree lists its files makes no difference. -/
theorem compile_told_by_files {tree : Tree} {folder : Path} {place : Place}
    (hplace : tree.folder? folder = some place) (hdistinct : tree.Distinct)
    (hread : Readable tree place) :
    (∀ theme sources r, (Registry.compile theme sources).value = r ↔ Outcome theme sources r) ∧
    (∀ theme sources sources', (∀ name, Named.last? sources name = Named.last? sources' name) →
      Registry.compile theme sources = Registry.compile theme sources') ∧
    (∀ name first second, (compile tree folder).value =
        .error (.duplicateTemplate name first second) ↔
      ∃ way way', FirstClash tree place name way way' ∧ way.foldl Path.join folder = first ∧
        way'.foldl Path.join folder = second) ∧
    ((∃ name first second, (compile tree folder).value =
        .error (.duplicateTemplate name first second)) ↔
      ∃ name way way', way ≠ way' ∧ (∃ content, TemplateAt tree place way name content) ∧
        ∃ content, TemplateAt tree place way' name content) ∧
    ((∀ name first second,
        (compile tree folder).value ≠ .error (.duplicateTemplate name first second)) →
      (∃ sources, ∀ name source, Named.last? sources name = some source ↔
        HasSource tree place name source) ∧
      ∀ sources, (∀ name source, Named.last? sources name = some source ↔
          HasSource tree place name source) →
        compile tree folder = Registry.compile (folder.name?.getD "") sources) ∧
    ∀ tree' : Tree, tree'.files.Perm tree.files → tree'.folders = tree.folders →
      compile tree' folder = compile tree folder := by
  refine ⟨fun _ _ _ => outcome_iff, fun _ _ _ => Registry.compile_congr,
    fun _ _ _ => compile_duplicate_iff hplace hdistinct hread, ?_, fun hne => ?_,
    fun _ hfiles hfolders => compile_perm hdistinct hfiles hfolders folder⟩
  · constructor
    · rintro ⟨name, first, second, h⟩
      obtain ⟨way, way', hclash, -⟩ := (compile_duplicate_iff hplace hdistinct hread).1 h
      exact ⟨name, way, way', hclash.lt.ne, hclash.taken, hclash.again⟩
    · rintro ⟨name, way, way', hne, htaken, hagain⟩
      by_contra hnone
      push Not at hnone
      have hnames := nodup_of_compile_ne_duplicate hplace hread hnone
      exact hne (way_eq_of_nodup hnames htaken hagain)
  · have hnames := nodup_of_compile_ne_duplicate hplace hread hne
    obtain ⟨collected, -, hlast⟩ := collected_of_nodup hplace hread hnames
    exact ⟨⟨collected, hlast⟩, fun _ => compile_of_nodup hplace hread hnames⟩

/-- A theme with two templates of one name in different folders. -/
def sharedName : Tree where
  files := [
    (["plain", "b", "post.hbs"], .ok []),
    (["plain", "b", "index.hbs"], .ok []),
    (["plain", "a", "post.hbs"], .ok [])]
  folders := [["plain"], ["plain", "a"], ["plain", "b"]]

theorem compile_sharedName :
    sharedName.folder? ⟨"plain"⟩ = some ["plain"] ∧ sharedName.Distinct ∧
      Readable sharedName ["plain"] ∧ (compile sharedName ⟨"plain"⟩).value =
        .error (.duplicateTemplate "post" ⟨"plain/a/post.hbs"⟩ ⟨"plain/b/post.hbs"⟩) := by
  have hplace : sharedName.folder? ⟨"plain"⟩ = some ["plain"] := by decide
  have hbuilt : sharedName.Built :=
    (((Tree.Built.empty.folders [["plain"], ["plain", "a"], ["plain", "b"]]).put
      ["plain", "b", "post.hbs"] (.ok [])).put ["plain", "b", "index.hbs"] (.ok [])).put
      ["plain", "a", "post.hbs"] (.ok [])
  have hdistinct := hbuilt.distinct
  have hways : ∀ way name content, TemplateAt sharedName ["plain"] way name content →
      content = .ok [] ∧ (way = ["a", "post.hbs"] ∨ way = ["b", "index.hbs"] ∨
        way = ["b", "post.hbs"]) := by
    rintro way name content ⟨hmem, -⟩
    simp [sharedName] at hmem
    tauto
  have hread : Readable sharedName ["plain"] := fun way name content h =>
    ⟨[], (hways way name content h).1⟩
  refine ⟨hplace, hdistinct, hread,
    ((compile_told_by_files hplace hdistinct hread).2.2.1 _ _ _).2
      ⟨["a", "post.hbs"], ["b", "post.hbs"], ?_, by decide +kernel, by decide +kernel⟩⟩
  refine ⟨⟨.ok [], by simp [sharedName], by decide, by decide⟩,
    ⟨.ok [], by simp [sharedName], by decide, by decide⟩, by decide, ?_⟩
  rintro name way way' ⟨content, h⟩ ⟨content', h'⟩ hlt hlt'
  -- before the second post there is the first one, and the index after that has another name
  rcases (hways _ _ _ h').2 with rfl | rfl | rfl
  · rcases (hways _ _ _ h).2 with rfl | rfl | rfl <;> exact absurd hlt (by decide)
  · rcases (hways _ _ _ h).2 with rfl | rfl | rfl
    · have hname : some "post.hbs" = some "index.hbs" := h.2.1.trans h'.2.1.symm
      exact absurd hname (by decide)
    · exact absurd hlt (by decide)
    · exact absurd hlt (by decide)
  · exact absurd hlt' (by decide)

end ThemePress.Theme
