import ThemePress.Template.Scan

/-! # What scanning makes of a byte sequence

`Scanned start data f` are the rules by which a sequence falls into literal bytes and nodes: it has
no tag, or its first tag opens no block, or its first tag opens one. `scanned_iff` says that
scanning succeeds just when the rules apply, and with the fragment they give. A block without a
close tag is the only case without a rule, and `scan_induction` goes through all four cases. -/

namespace ThemePress.Template

/-- The name that closes the block which a tag opens. -/
def Tag.openName (t : Tag) : String :=
  Tag.blockName (Tag.blockText t.inner)

/-- The nodes for a tag that opens no block. -/
def Cut.nodes (cut : Cut) (place : Nat) : List Node :=
  match cut.tag.kind with
  | .divider | .value =>
    if cut.tag.inner.isEmpty then []
    else [Node.ofText cut.tag.inner cut.tag.unescaped place [] [] none]
  | _ => []

/-- The sequence `data`, which `start` literal bytes precede, is the fragment. -/
inductive Scanned : Nat → List UInt8 → Fragment → Prop where
  | rest {start : Nat} {data : List UInt8} (first : Cut.first? data = none) :
    Scanned start data ⟨data, []⟩
  | tag {start : Nat} {data : List UInt8} {cut : Cut} {f : Fragment}
      (first : Cut.first? data = some cut) (kind : cut.tag.kind ≠ .blockOpen)
      (after : Scanned (start + cut.before.length) cut.after f) :
    Scanned start data (f.prepend cut.before (cut.nodes (start + cut.before.length)))
  | block {start : Nat} {data : List UInt8} {cut : Cut} {e : Enclosed} {g f : Fragment}
      (first : Cut.first? data = some cut) (kind : cut.tag.kind = .blockOpen)
      (closer : Enclosed.first? cut.tag.openName cut.after = some e)
      (inside : Scanned 0 e.inside g)
      (after : Scanned (start + cut.before.length) e.after f) :
    Scanned start data (f.prepend cut.before
      [g.toBlock (Tag.blockText cut.tag.inner) cut.tag.unescaped (start + cut.before.length)])

/-- The cases of scanning: no tag, a tag that opens no block, a block without a close tag and a
block with one. -/
theorem scan_induction {motive : Nat → List UInt8 → Prop}
    (rest : ∀ start data, Cut.first? data = none → motive start data)
    (tag : ∀ start data cut, Cut.first? data = some cut → cut.tag.kind ≠ .blockOpen →
      motive (start + cut.before.length) cut.after → motive start data)
    (unclosed : ∀ start data cut, Cut.first? data = some cut → cut.tag.kind = .blockOpen →
      Enclosed.first? cut.tag.openName cut.after = none → motive start data)
    (block : ∀ start data cut e, Cut.first? data = some cut → cut.tag.kind = .blockOpen →
      Enclosed.first? cut.tag.openName cut.after = some e → motive 0 e.inside →
      motive (start + cut.before.length) e.after → motive start data)
    (start : Nat) (data : List UInt8) : motive start data := by
  cases h : Cut.first? data with
  | none => exact rest start data h
  | some cut =>
    have hlt := Cut.after_lt h
    by_cases hk : cut.tag.kind = .blockOpen
    · cases he : Enclosed.first? cut.tag.openName cut.after with
      | none => exact unclosed start data cut h hk he
      | some e =>
        have hlt' := Enclosed.first?_lt he
        exact block start data cut e h hk he (scan_induction rest tag unclosed block _ _)
          (scan_induction rest tag unclosed block _ _)
    · exact tag start data cut h hk (scan_induction rest tag unclosed block _ _)
termination_by data.length

/-! ### Scanning, case by case -/

/-- What is reported about a tag that opens no block. -/
def Cut.warnings (cut : Cut) : List Warning :=
  if cut.tag.kind = .blockClose then [.strayCloser cut.tag.inner] else []

section
variable {start : Nat} {data : List UInt8} {cut : Cut}

theorem scanFrom_rest (h : Cut.first? data = none) :
    scanFrom start data = ⟨[], .ok ⟨data, []⟩⟩ := by
  rw [scanFrom]
  split
  · rfl
  · simp_all

theorem scanFrom_tag (h : Cut.first? data = some cut) (hk : cut.tag.kind ≠ .blockOpen) :
    scanFrom start data = ((scanFrom (start + cut.before.length) cut.after).map
      (·.map (Fragment.prepend cut.before (cut.nodes (start + cut.before.length))))).after
        cut.warnings := by
  rw [scanFrom]
  split
  · simp_all
  · rename_i cut' h'
    obtain rfl := Option.some.inj (h.symm.trans h')
    cases hk' : cut.tag.kind with
    | blockOpen => exact absurd hk' hk
    | comment | blockClose | divider | value =>
      simp [Cut.nodes, Cut.warnings, hk', Reported.map, Reported.after]

theorem scanFrom_unclosed (h : Cut.first? data = some cut) (hk : cut.tag.kind = .blockOpen)
    (he : Enclosed.first? cut.tag.openName cut.after = none) :
    scanFrom start data = ⟨[], .error (.unterminatedBlock cut.tag.openName)⟩ := by
  rw [scanFrom]
  split
  · simp_all
  · rename_i cut' h'
    obtain rfl := Option.some.inj (h.symm.trans h')
    simp only [hk]
    split
    · rfl
    · rename_i he'
      cases he.symm.trans he'

theorem scanFrom_block {e : Enclosed} (h : Cut.first? data = some cut)
    (hk : cut.tag.kind = .blockOpen)
    (he : Enclosed.first? cut.tag.openName cut.after = some e) :
    scanFrom start data =
      match (scanFrom 0 e.inside).value with
      | .error fault => ⟨(scanFrom 0 e.inside).warnings, .error fault⟩
      | .ok g =>
        ((scanFrom (start + cut.before.length) e.after).map (·.map (Fragment.prepend cut.before
          [g.toBlock (Tag.blockText cut.tag.inner) cut.tag.unescaped
            (start + cut.before.length)]))).after (scanFrom 0 e.inside).warnings := by
  rw [scanFrom]
  split
  · simp_all
  · rename_i cut' h'
    obtain rfl := Option.some.inj (h.symm.trans h')
    simp only [hk]
    split
    · rename_i he'
      cases he.symm.trans he'
    · rename_i e' he'
      obtain rfl := Option.some.inj (he.symm.trans he')
      rfl

/-- A block is fine when its inside is and what follows it is. -/
theorem scanFrom_block_ok_iff {e : Enclosed} {f : Fragment} (h : Cut.first? data = some cut)
    (hk : cut.tag.kind = .blockOpen)
    (he : Enclosed.first? cut.tag.openName cut.after = some e) :
    (scanFrom start data).value = .ok f ↔
      ∃ g f', (scanFrom 0 e.inside).value = .ok g ∧
        (scanFrom (start + cut.before.length) e.after).value = .ok f' ∧
        f = f'.prepend cut.before [g.toBlock (Tag.blockText cut.tag.inner) cut.tag.unescaped
          (start + cut.before.length)] := by
  rw [scanFrom_block h hk he]
  cases (scanFrom 0 e.inside).value with
  | error _ => simp
  | ok g =>
    cases ha : (scanFrom (start + cut.before.length) e.after).value with
    | error _ => simp [Reported.after, Reported.map, ha, Except.map]
    | ok f' => simp [Reported.after, Reported.map, ha, Except.map, eq_comm]

theorem scanFrom_tag_ok_iff {f : Fragment} (h : Cut.first? data = some cut)
    (hk : cut.tag.kind ≠ .blockOpen) :
    (scanFrom start data).value = .ok f ↔
      ∃ f', (scanFrom (start + cut.before.length) cut.after).value = .ok f' ∧
        f = f'.prepend cut.before (cut.nodes (start + cut.before.length)) := by
  rw [scanFrom_tag h hk]
  cases ha : (scanFrom (start + cut.before.length) cut.after).value with
  | error _ => simp [Reported.after, Reported.map, ha, Except.map]
  | ok f' => simp [Reported.after, Reported.map, ha, Except.map, eq_comm]

end

/-- **Scanning follows the rules.** -/
theorem scanned_iff {start : Nat} {data : List UInt8} {f : Fragment} :
    Scanned start data f ↔ (scanFrom start data).value = .ok f := by
  constructor
  · intro h
    induction h with
    | rest first => rw [scanFrom_rest first]
    | tag first kind _ ih => exact (scanFrom_tag_ok_iff first kind).2 ⟨_, ih, rfl⟩
    | block first kind closer _ _ ih₁ ih₂ =>
      exact (scanFrom_block_ok_iff first kind closer).2 ⟨_, _, ih₁, ih₂, rfl⟩
  · intro h
    induction start, data using scan_induction generalizing f with
    | rest start data first =>
      rw [scanFrom_rest first] at h
      obtain rfl := Except.ok.inj h
      exact .rest first
    | tag start data cut first kind ih =>
      obtain ⟨f', h', rfl⟩ := (scanFrom_tag_ok_iff first kind).1 h
      exact .tag first kind (ih h')
    | unclosed start data cut first kind closer =>
      rw [scanFrom_unclosed first kind closer] at h
      cases h
    | block start data cut e first kind closer ih₁ ih₂ =>
      obtain ⟨g, f', hg, h', rfl⟩ := (scanFrom_block_ok_iff first kind closer).1 h
      exact .block first kind closer (ih₁ hg) (ih₂ h')

/-- A template compiles when its source can be scanned. -/
theorem compile_ok_iff {name : String} {source : List UInt8} {root : Node} :
    (Node.compile name source).value = .ok root ↔
      ∃ f, (scan source).value = .ok f ∧
        root = { Node.leaf name false 0 with
          block := f.block, children := f.nodes, bodySlot := Node.lastBody? f.nodes } := by
  unfold Node.compile Reported.map
  cases hs : (scan source).value with
  | error e => simp [Except.map]
  | ok f => simp [Except.map, eq_comm]

end ThemePress.Template
