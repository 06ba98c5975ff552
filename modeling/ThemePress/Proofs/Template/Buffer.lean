import ThemePress.Proofs.Template.Scanned
import ThemePress.Proofs.Template.Tags

/-! # Scanning a buffer in place

`edit` scans by taking bytes out of one buffer. It looks for the next tag behind a place that moves
on, cuts the tag out, and when the tag opens a block, looks for the close tag in what is left,
copies the bytes between for a buffer of their own and cuts them out too. Bytes that a cut brings
together lie on both sides of the place, so the search never sees them as neighbours: editing gives
what `scanFrom` reads off the bytes behind the place (`edit_eq`).

What is behind the place has not been touched. `edit` keeps count of where it stood in the sequence
at first, and so records which tag was found to close which block, as places in that sequence.
`blockPairs` are the same pairs, read off a list of tags. -/

namespace ThemePress.Template

/-- The buffer without the bytes from `start` up to `stop`. -/
def drain (data : List UInt8) (start stop : Nat) : List UInt8 :=
  data.take start ++ data.drop stop

theorem closer?_bounds {data : List UInt8} {start : Nat} {name : String} {r : Nat × Nat}
    (h : closer? data start name = some r) :
    start ≤ r.1 ∧ r.1 ≤ r.2 ∧ r.2 ≤ data.length := by
  obtain ⟨e, he, rfl⟩ := Option.map_eq_some_iff.1 h
  have h₁ := (Enclosed.first?_lt he).1
  have h₂ := congrArg List.length (Enclosed.find?_eq he).1
  simp only [List.length_drop, List.length_append] at h₁ h₂
  refine ⟨?_, ?_, ?_⟩ <;> dsimp only <;> omega

theorem length_drain_lt {data : List UInt8} {start : Nat} {t : Placed}
    (h : next? data start = some t) : (drain data t.start t.stop).length + 4 ≤ data.length := by
  have := next?_bounds h
  simp only [drain, List.length_append, List.length_take, List.length_drop]
  omega

theorem length_drain_le (data : List UInt8) {start stop : Nat} (h : start ≤ stop) :
    (drain data start stop).length ≤ data.length := by
  simp only [drain, List.length_append, List.length_take, List.length_drop]
  omega

theorem length_between_le (data : List UInt8) (start stop : Nat) :
    ((data.take stop).drop start).length ≤ data.length := by
  simp only [List.length_drop, List.length_take]
  omega

/-- An opening tag, and where the tag that closes its block starts and is over. -/
structure Match where
  opener : Placed
  start : Nat
  stop : Nat
  deriving DecidableEq

/-- Cuts the tags at and after `place` out of a buffer to which `nodes` belong already. The bytes
behind `place` are those behind `origin` of a sequence, in which `found` has been matched already.
-/
def edit (data : List UInt8) (place origin : Nat) (nodes : List Node) (found : List Match) :
    Reported (Except ScanError (Fragment × List Match)) :=
  match h : next? data place with
  | none => ⟨[], .ok (⟨data, nodes⟩, found)⟩
  | some t =>
    have := length_drain_lt h
    let left := drain data t.start t.stop
    let start := origin + (t.start - place)
    let stop := origin + (t.stop - place)
    match t.tag.kind with
    | .comment => edit left t.start stop nodes found
    | .blockClose => (edit left t.start stop nodes found).after [.strayCloser t.tag.inner]
    | .divider | .value =>
      if t.tag.inner.isEmpty then edit left t.start stop nodes found
      else
        edit left t.start stop
          (nodes ++ [Node.ofText t.tag.inner t.tag.unescaped t.start [] [] none]) found
    | .blockOpen =>
      let text := Tag.blockText t.tag.inner
      let name := Tag.blockName text
      match h' : closer? left t.start name with
      | none => ⟨[], .error (.unterminatedBlock name)⟩
      | some (closeStart, closeStop) =>
        have := length_between_le (drain data t.start t.stop) t.start closeStart
        have : (drain (drain data t.start t.stop) t.start closeStop).length ≤ _ :=
          length_drain_le _ (Nat.le_trans (closer?_bounds h').1 (closer?_bounds h').2.1)
        let inside := edit ((left.take closeStart).drop t.start) 0 stop [] []
        let pair : Match := ⟨⟨start, stop, t.tag⟩,
          stop + (closeStart - t.start), stop + (closeStop - t.start)⟩
        match inside.value with
        | .error e => ⟨inside.warnings, .error e⟩
        | .ok (f, within) =>
          (edit (drain left t.start closeStop) t.start pair.stop
            (nodes ++ [f.toBlock text t.tag.unescaped t.start])
            (found ++ within ++ [pair])).after inside.warnings
termination_by data.length
decreasing_by all_goals omega

/-! ### The pairs of a list of tags -/

/-- The opening tags of a list, each with the tag that closes its block. -/
def blockPairs : List Placed → List (Placed × Placed)
  | [] => []
  | t :: ts =>
    if t.tag.kind = .blockOpen then
      match h : splitAtCloser t.tag.openName 0 ts with
      | none => []
      | some (inside, closer, after) =>
        have := congrArg List.length (splitAtCloser_eq h)
        blockPairs inside ++ (t, closer) :: blockPairs after
    else blockPairs ts
termination_by ts => ts.length
decreasing_by all_goals simp_all; try omega

theorem blockPairs_nil : blockPairs [] = [] := by
  rw [blockPairs]

section
variable {t : Placed} {ts inside after : List Placed} {closer : Placed}

theorem blockPairs_tag (hk : t.tag.kind ≠ .blockOpen) : blockPairs (t :: ts) = blockPairs ts := by
  rw [blockPairs, if_neg hk]

theorem blockPairs_block (hk : t.tag.kind = .blockOpen)
    (h : splitAtCloser t.tag.openName 0 ts = some (inside, closer, after)) :
    blockPairs (t :: ts) = blockPairs inside ++ (t, closer) :: blockPairs after := by
  rw [blockPairs, if_pos hk]
  split
  · rename_i h'
    exact nomatch h.symm.trans h'
  · rename_i h'
    obtain ⟨rfl, rfl, rfl⟩ : inside = _ ∧ closer = _ ∧ after = _ := by
      simpa using h.symm.trans h'
    rfl

end

/-- A pair of tags as a match. -/
def Match.ofPair (pair : Placed × Placed) : Match :=
  ⟨pair.1, pair.2.start, pair.2.stop⟩

/-! ### Editing step by step -/

theorem next?_append (literal data : List UInt8) :
    next? (literal ++ data) literal.length = (Cut.first? data).map fun cut =>
      ⟨literal.length + cut.before.length, literal.length + cut.before.length + cut.text.length,
        cut.tag⟩ := by
  rw [next?, List.drop_left]

theorem closer?_append (literal data : List UInt8) (name : String) :
    closer? (literal ++ data) literal.length name = (Enclosed.first? name data).map fun e =>
      (literal.length + e.inside.length,
        literal.length + e.inside.length + e.closer.length) := by
  rw [closer?, List.drop_left]

theorem drain_append (literal between rest : List UInt8) :
    drain (literal ++ (between ++ rest)) literal.length (literal.length + between.length) =
      literal ++ rest := by
  rw [drain, List.take_left, ← List.append_assoc, ← List.length_append, List.drop_left]

theorem between_append (literal between rest : List UInt8) :
    ((literal ++ (between ++ rest)).take (literal.length + between.length)).drop literal.length =
      between := by
  rw [List.take_length_add_append, List.drop_left, List.take_left]

section
variable {literal data : List UInt8} {origin : Nat} {nodes : List Node} {found : List Match}
  {cut : Cut}

theorem edit_rest (h : Cut.first? data = none) :
    edit (literal ++ data) literal.length origin nodes found =
      ⟨[], .ok (⟨literal ++ data, nodes⟩, found)⟩ := by
  rw [edit]
  split
  · rfl
  · rename_i t ht
    rw [next?_append, h] at ht
    cases ht

/-- What the search in a buffer finds. -/
theorem next?_cut (h : Cut.first? data = some cut) :
    next? (literal ++ data) literal.length =
      some ⟨literal.length + cut.before.length,
        literal.length + cut.before.length + cut.text.length, cut.tag⟩ := by
  rw [next?_append, h, Option.map_some]

/-- What is left of a buffer once the first tag is cut out. -/
theorem drain_cut (h : Cut.first? data = some cut) :
    drain (literal ++ data) (literal.length + cut.before.length)
      (literal.length + cut.before.length + cut.text.length) =
        (literal ++ cut.before) ++ cut.after := by
  have hd : literal ++ data = (literal ++ cut.before) ++ (cut.text ++ cut.after) := by
    rw [List.append_assoc, ← Cut.first?_eq h]
  rw [hd, ← List.length_append, drain_append]

section
variable {name : String} {e : Enclosed}

/-- Where the search for the close tag finds it. -/
theorem closer?_enclosed (he : Enclosed.first? name data = some e) :
    closer? (literal ++ data) literal.length name =
      some (literal.length + e.inside.length,
        literal.length + e.inside.length + e.closer.length) := by
  rw [closer?_append, he, Option.map_some]

/-- The bytes between an opening tag that was cut out and its close tag. -/
theorem between_enclosed (he : Enclosed.first? name data = some e) :
    ((literal ++ data).take (literal.length + e.inside.length)).drop literal.length = e.inside := by
  rw [(Enclosed.find?_eq he).1]
  exact between_append literal e.inside (e.closer ++ e.after)

/-- What is left of a buffer once they are cut out with the close tag. -/
theorem drain_enclosed (he : Enclosed.first? name data = some e) :
    drain (literal ++ data) literal.length (literal.length + e.inside.length + e.closer.length) =
      literal ++ e.after := by
  have hl : (e.inside ++ e.closer).length = e.inside.length + e.closer.length :=
    List.length_append
  rw [(Enclosed.find?_eq he).1, ← List.append_assoc e.inside, Nat.add_assoc, ← hl]
  exact drain_append literal (e.inside ++ e.closer) e.after

end

theorem edit_tag (h : Cut.first? data = some cut) (hk : cut.tag.kind ≠ .blockOpen) :
    edit (literal ++ data) literal.length origin nodes found =
      (edit ((literal ++ cut.before) ++ cut.after) (literal.length + cut.before.length)
        (origin + cut.before.length + cut.text.length)
        (nodes ++ cut.nodes (literal.length + cut.before.length)) found).after cut.warnings := by
  rw [edit]
  split
  · rename_i ht
    rw [next?_cut h] at ht
    cases ht
  · rename_i t ht
    obtain rfl := Option.some.inj ((next?_cut h).symm.trans ht)
    have hs : origin + (literal.length + cut.before.length + cut.text.length - literal.length) =
        origin + cut.before.length + cut.text.length := by omega
    simp only [drain_cut h, hs]
    cases hk' : cut.tag.kind with
    | blockOpen => exact absurd hk' hk
    | comment | blockClose => simp [Cut.nodes, Cut.warnings, hk', Reported.after]
    | divider | value =>
      simp only [Cut.nodes, Cut.warnings, hk', Reported.after]
      split <;> simp

theorem edit_unclosed (h : Cut.first? data = some cut) (hk : cut.tag.kind = .blockOpen)
    (he : Enclosed.first? cut.tag.openName cut.after = none) :
    edit (literal ++ data) literal.length origin nodes found =
      ⟨[], .error (.unterminatedBlock cut.tag.openName)⟩ := by
  rw [edit]
  split
  · rename_i ht
    rw [next?_cut h] at ht
    cases ht
  · rename_i t ht
    obtain rfl := Option.some.inj ((next?_cut h).symm.trans ht)
    have hc : closer? ((literal ++ cut.before) ++ cut.after) (literal.length + cut.before.length)
        (Tag.blockName (Tag.blockText cut.tag.inner)) = none := by
      rw [← List.length_append, closer?_append, ← Tag.openName, he, Option.map_none]
    simp only [drain_cut h, hk]
    split
    · rfl
    · rename_i hc'
      rw [drain_cut h, hc] at hc'
      cases hc'

theorem edit_block {e : Enclosed} {opener : Placed} (h : Cut.first? data = some cut)
    (hk : cut.tag.kind = .blockOpen)
    (he : Enclosed.first? cut.tag.openName cut.after = some e)
    (ho : opener = ⟨origin + cut.before.length, origin + cut.before.length + cut.text.length,
      cut.tag⟩) :
    edit (literal ++ data) literal.length origin nodes found =
      match (edit e.inside 0 opener.stop [] []).value with
      | .error fault => ⟨(edit e.inside 0 opener.stop [] []).warnings, .error fault⟩
      | .ok (g, within) =>
        (edit ((literal ++ cut.before) ++ e.after) (literal.length + cut.before.length)
          (opener.stop + e.inside.length + e.closer.length)
          (nodes ++ [g.toBlock (Tag.blockText cut.tag.inner) cut.tag.unescaped
            (literal.length + cut.before.length)])
          (found ++ within ++ [⟨opener, opener.stop + e.inside.length,
            opener.stop + e.inside.length + e.closer.length⟩])).after
              (edit e.inside 0 opener.stop [] []).warnings := by
  subst ho
  rw [edit]
  split
  · rename_i ht
    rw [next?_cut h] at ht
    cases ht
  · rename_i t ht
    obtain rfl := Option.some.inj ((next?_cut h).symm.trans ht)
    have hc := @closer?_enclosed (literal ++ cut.before) _ _ _ he
    have hi := @between_enclosed (literal ++ cut.before) _ _ _ he
    have hd := @drain_enclosed (literal ++ cut.before) _ _ _ he
    rw [List.length_append] at hc hi hd
    rw [Tag.openName] at hc
    simp only [drain_cut h, hk]
    split
    · rename_i hc'
      rw [drain_cut h, hc] at hc'
      cases hc'
    · rename_i start stop hc'
      rw [drain_cut h, hc] at hc'
      obtain ⟨rfl, rfl⟩ := Prod.mk.inj (Option.some.inj hc')
      simp only [hi, hd]
      have h₁ : literal.length + cut.before.length + cut.text.length - literal.length =
          cut.before.length + cut.text.length := by omega
      have h₂ : literal.length + cut.before.length + e.inside.length + e.closer.length -
          (literal.length + cut.before.length) = e.inside.length + e.closer.length := by omega
      simp only [h₁, h₂, Nat.add_sub_cancel_left]
      simp only [← Nat.add_assoc]

end

/-! ### Editing and scanning -/

/-- **Editing a buffer gives what scanning reads off it.** -/
theorem edit_eq (literal data : List UInt8) (origin : Nat) (nodes : List Node)
    (found : List Match) :
    edit (literal ++ data) literal.length origin nodes found =
      (scanFrom literal.length data).map (·.map fun f =>
        (f.prepend literal nodes,
          found ++ (blockPairs (placedTags origin data)).map Match.ofPair)) := by
  generalize hs : literal.length = start
  induction start, data using scan_induction generalizing literal origin nodes found with
  | rest start data first =>
    subst hs
    rw [edit_rest first, scanFrom_rest first, placedTags_none first, blockPairs_nil]
    simp [Reported.map, Except.map, Fragment.prepend]
  | tag start data cut first kind ih =>
    subst hs
    rw [edit_tag first kind, scanFrom_tag first kind, placedTags_some first, blockPairs_tag kind,
      ih _ _ _ _ List.length_append]
    cases h : (scanFrom (literal.length + cut.before.length) cut.after).value with
    | error fault => simp [Reported.map, Reported.after, Except.map, h]
    | ok f => simp [Reported.map, Reported.after, Except.map, h, Fragment.prepend]
  | unclosed start data cut first kind closer =>
    subst hs
    rw [edit_unclosed first kind closer, scanFrom_unclosed first kind closer]
    rfl
  | block start data cut e first kind closer ih₁ ih₂ =>
    subst hs
    have ht : placedTags origin data = _ := placedTags_some first
    generalize ho : Placed.mk (origin + cut.before.length)
      (origin + cut.before.length + cut.text.length) cut.tag = opener at ht
    have hs : origin + cut.before.length + cut.text.length = opener.stop := by rw [← ho]
    have hn : opener.tag = cut.tag := by rw [← ho]
    obtain ⟨c, h₁, h₂, hc⟩ := splitAtCloser_of_find? closer opener.stop
    have hb : blockPairs (placedTags origin data) =
        blockPairs (placedTags opener.stop e.inside) ++
          (opener, c) :: blockPairs (placedTags c.stop e.after) := by
      rw [ht, hs]
      rw [← hn] at kind hc
      exact blockPairs_block kind hc
    have hi := ih₁ [] opener.stop [] [] rfl
    rw [List.nil_append] at hi
    rw [edit_block first kind closer ho.symm, scanFrom_block first kind closer, hb, hi]
    cases hin : (scanFrom 0 e.inside).value with
    | error e => simp [Reported.map, Except.map, hin]
    | ok g =>
      simp only [Reported.map, Except.map, hin]
      rw [← h₁, ← h₂, ih₂ _ _ _ _ List.length_append]
      cases h : (scanFrom (literal.length + cut.before.length) e.after).value with
      | error fault => simp [Reported.map, Reported.after, Except.map, h]
      | ok f =>
        simp [Reported.map, Reported.after, Except.map, h, Fragment.prepend, Match.ofPair]

/-- Editing a whole buffer is scanning it. -/
theorem edit_eq_scan (data : List UInt8) :
    edit data 0 0 [] [] = (scan data).map (·.map fun f =>
      (f, (blockPairs (tags data)).map Match.ofPair)) := by
  rw [scan, tags_eq]
  exact edit_eq [] data 0 [] []

end ThemePress.Template
