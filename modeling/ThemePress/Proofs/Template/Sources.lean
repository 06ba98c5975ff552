import Mathlib.Data.List.Induction
import Mathlib.Data.List.Sort
import Mathlib.Data.String.Basic
import ThemePress.Template.Registry

/-! # Sources by name

`Named.put` keeps the names of a list in order and each of them once (`Named.Sorted`), so what such
a list yields under the names says all about it (`Named.Sorted.ext`). Under each name, `Named.ofList`
yields what the last pair of that name has (`Named.get?_ofList`). A theme is compiled from the
sources that are left, and what a registry holds is told by `Registry.compile_ok_iff`. -/

namespace ThemePress.Template

namespace Named

variable {α : Type} {name : String} {value : α} {m m' : Named α}

/-! ### In order of the names -/

/-- The names stand in order, each of them once. -/
def Sorted (m : Named α) : Prop :=
  m.Pairwise (·.1 < ·.1)

theorem mem_put {entry : String × α} (h : entry ∈ put name value m) :
    entry = (name, value) ∨ entry ∈ m := by
  induction m with
  | nil => exact .inl (List.mem_singleton.1 h)
  | cons first rest ih =>
    rw [put] at h
    split_ifs at h <;> grind

theorem Sorted.put (h : m.Sorted) (name : String) (value : α) : (put name value m).Sorted := by
  induction m with
  | nil => exact List.pairwise_singleton ..
  | cons first rest ih =>
    obtain ⟨hfirst, hrest⟩ := List.pairwise_cons.1 h
    rw [Named.put]
    split_ifs with hlt heq
    · refine List.pairwise_cons.2 ⟨fun entry hm => ?_, h⟩
      rcases List.mem_cons.1 hm with rfl | hm
      · exact hlt
      · exact hlt.trans (hfirst entry hm)
    · exact List.pairwise_cons.2 ⟨fun entry hm => heq ▸ hfirst entry hm, hrest⟩
    · refine List.pairwise_cons.2 ⟨fun entry hm => ?_, ih hrest⟩
      rcases mem_put hm with rfl | hm
      · exact lt_of_le_of_ne (not_lt.1 hlt) (Ne.symm heq)
      · exact hfirst entry hm

theorem get?_nil (n : String) : get? ([] : Named α) n = none := rfl

theorem get?_cons (entry : String × α) (m : Named α) (n : String) :
    get? (entry :: m) n = if entry.1 = n then some entry.2 else m.get? n := by
  by_cases h : entry.1 = n <;> simp [get?, h]

theorem get?_put (m : Named α) (name : String) (value : α) (n : String) :
    (put name value m).get? n = if name = n then some value else m.get? n := by
  induction m with
  | nil => rw [put, get?_cons]
  | cons first rest ih =>
    rw [put]
    split_ifs with hlt heq <;> grind [get?_cons]

theorem Sorted.get?_eq_some_iff (h : m.Sorted) {v : α} : m.get? name = some v ↔ (name, v) ∈ m := by
  induction m with
  | nil => simp [get?_nil]
  | cons first rest ih =>
    obtain ⟨hfirst, hrest⟩ := List.pairwise_cons.1 h
    rw [get?_cons, List.mem_cons, ← ih hrest]
    split_ifs with heq
    · have hnone : get? rest name ≠ some v := fun hsome => by
        have hlt : first.1 < name := hfirst _ ((ih hrest).1 hsome)
        exact absurd heq hlt.ne
      simp [hnone, Prod.ext_iff, heq, eq_comm]
    · simp [Prod.ext_iff, Ne.symm heq]

/-- **What a list in order yields under each name determines it.** -/
theorem Sorted.ext (h : m.Sorted) (h' : m'.Sorted) (hget : ∀ n, m.get? n = m'.get? n) : m = m' := by
  have : Std.Irrefl fun a b : String × α => a.1 < b.1 := ⟨fun a => lt_irrefl a.1⟩
  have : Std.Antisymm fun a b : String × α => a.1 < b.1 :=
    ⟨fun a b hab hba => absurd hba hab.asymm⟩
  refine h.eq_of_mem_iff h' fun entry => ?_
  rw [← h.get?_eq_some_iff, hget, h'.get?_eq_some_iff]

/-! ### The last value of each name -/

/-- What the last pair of a name has. -/
def last? (l : List (String × α)) (name : String) : Option α :=
  (l.reverse.find? (·.1 == name)).map (·.2)

/-- Where no name comes twice, every pair counts. -/
theorem last?_eq_some_iff_mem {l : List (String × α)} (h : (l.map Prod.fst).Nodup) {name : String}
    {v : α} : last? l name = some v ↔ (name, v) ∈ l := by
  unfold last?
  constructor
  · intro hlast
    obtain ⟨entry, hfind, rfl⟩ := Option.map_eq_some_iff.1 hlast
    obtain rfl : entry.1 = name := by simpa using List.find?_some hfind
    exact List.mem_reverse.1 (List.mem_of_find?_eq_some hfind)
  · intro hmem
    cases hfind : l.reverse.find? (·.1 == name) with
    | none =>
      have hne := List.find?_eq_none.1 hfind _ (List.mem_reverse.2 hmem)
      simp at hne
    | some entry =>
      have hname : entry.1 = name := by simpa using List.find?_some hfind
      have hentry := List.mem_reverse.1 (List.mem_of_find?_eq_some hfind)
      rw [List.inj_on_of_nodup_map h hentry hmem hname]
      rfl

theorem ofList_concat (l : List (String × α)) (entry : String × α) :
    ofList (l ++ [entry]) = put entry.1 entry.2 (ofList l) := by
  rw [ofList, List.foldl_append]
  rfl

theorem sorted_ofList (l : List (String × α)) : (ofList l).Sorted := by
  induction l using List.reverseRecOn with
  | nil => exact .nil
  | append_singleton l entry ih =>
    rw [ofList_concat]
    exact ih.put _ _

theorem mem_of_mem_ofList {l : List (String × α)} {entry : String × α} (h : entry ∈ ofList l) :
    entry ∈ l := by
  induction l using List.reverseRecOn with
  | nil => exact h
  | append_singleton l last ih =>
    rw [ofList_concat] at h
    rcases mem_put h with rfl | h
    · exact List.mem_append_right _ (List.mem_singleton_self _)
    · exact List.mem_append_left _ (ih h)

/-- Under each name, the last pair of that name counts. -/
theorem get?_ofList (l : List (String × α)) (name : String) :
    (ofList l).get? name = last? l name := by
  induction l using List.reverseRecOn with
  | nil => rfl
  | append_singleton l entry ih =>
    rw [ofList_concat, get?_put, ih, last?, last?, List.reverse_append]
    exact (get?_cons entry l.reverse name).symm

theorem ofList_eq_iff {l l' : List (String × α)} :
    ofList l = ofList l' ↔ ∀ name, last? l name = last? l' name := by
  constructor
  · intro h name
    rw [← get?_ofList, h, get?_ofList]
  · intro h
    refine (sorted_ofList l).ext (sorted_ofList l') fun name => ?_
    rw [get?_ofList, h, get?_ofList]

end Named

/-! ### Compiled themes -/

theorem toOption_eq_some_iff {ε α : Type} {x : Except ε α} {a : α} :
    x.toOption = some a ↔ x = .ok a := by
  cases x <;> simp [Except.toOption]

/-- A theme is compiled when all of its templates are and none is missing that every theme has. -/
theorem Registry.compile_ok_iff {theme : String} {sources : List (String × List UInt8)}
    {registry : Registry} :
    (Registry.compile theme sources).value = .ok registry ↔
      ∃ templates, (compileAll (Named.ofList sources)).value = .ok templates ∧
        registry = ⟨theme, templates, Sources.fingerprint (Named.ofList sources)⟩ ∧
        registry.missing? = none := by
  unfold Registry.compile Reported.map
  dsimp only
  cases (compileAll (Named.ofList sources)).value with
  | error e => simp [bind, Except.bind]
  | ok templates =>
    simp only [bind, Except.bind, Except.ok.injEq]
    constructor
    · intro h
      split at h
      · cases h
      · next hmissing =>
        cases h
        exact ⟨templates, rfl, rfl, hmissing⟩
    · rintro ⟨_, rfl, rfl, hmissing⟩
      rw [hmissing]

end ThemePress.Template
