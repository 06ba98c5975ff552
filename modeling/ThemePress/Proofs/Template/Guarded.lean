import Mathlib.Data.Fintype.Basic
import Mathlib.Data.List.TakeWhile
import ThemePress.Proofs.Template.Buffer
import ThemePress.Proofs.Template.Order

/-! # Scanning by places, step by step within bounds

`Guarded.edit` scans a buffer in place and looks before each step whether the step can be taken.
Whatever is read from a buffer or cut out of it has to lie in it. A search for a close tag has to go
on behind where it was, a round of the scan has to leave at least four bytes less, and the inside of
a block, which is scanned by itself, has to be shorter than what it was taken from. A step that
fails one of these ends the scan with a `Fault`. The guards are also what lets the definitions
recurse, with no other bound on how often.

No guard ever fails. The search for a tag, the search for a close tag and the scan yield what they
yield without guards (`nextTag_eq`, `search_eq`, `edit_eq`), whatever the bytes
(`scan_within_bounds`).

On its way `edit` records the tags it meets, with the places that they had before anything was cut
out. -/

namespace ThemePress.Template

open ThemePress.Text

/-- Why a step cannot be taken. -/
inductive Fault where
  /-- The places `start` to `stop` do not lie among `length` entries. -/
  | outside (start stop length : Nat)
  /-- A search does not get on. -/
  | standstill (place stop : Nat)
  /-- A round does not leave four bytes less. -/
  | unshortened (length left : Nat)
  /-- What is scanned by itself is no shorter than what it was taken from. -/
  | undivided (length inside : Nat)
  deriving DecidableEq, Repr

/-- A tag that scanning has met. -/
structure Sight where
  tag : Placed
  /-- The tags gone through in search of the one that closes its block, with that one. -/
  passed : List Placed
  deriving DecidableEq, Repr

/-- The tag with its places counted from `origin` in place of `place`. -/
def Placed.moved (place origin : Nat) (t : Placed) : Placed :=
  ⟨origin + (t.start - place), origin + (t.stop - place), t.tag⟩

namespace Guarded

/-- Goes on where the condition holds. -/
def require (p : Prop) [Decidable p] (fault : Fault) : Except Fault (PLift p) :=
  if h : p then .ok ⟨h⟩ else .error fault

theorem require_eq {p : Prop} [Decidable p] (h : p) (fault : Fault) :
    require p fault = .ok ⟨h⟩ :=
  dif_pos h

/-! ### Reading and cutting -/

section
variable {α : Type}

/-- The entries from `start` up to `stop`. -/
def slice (l : List α) (start stop : Nat) : Except Fault (List α) := do
  let _ ← require (start ≤ stop ∧ stop ≤ l.length) (.outside start stop l.length)
  return (l.take stop).drop start

/-- The entry at a place, and all others. -/
def remove (l : List α) (place : Nat) : Except Fault (α × List α) := do
  let ⟨h⟩ ← require (place < l.length) (.outside place (place + 1) l.length)
  return (l.get ⟨place, h⟩, l.eraseIdx place)

/-- The entries before a place, and the others. -/
def splitOff (l : List α) (place : Nat) : Except Fault (List α × List α) := do
  let _ ← require (place ≤ l.length) (.outside place l.length l.length)
  return (l.take place, l.drop place)

theorem slice_append (before between after : List α) {start stop : Nat}
    (hstart : start = before.length) (hstop : stop = start + between.length) :
    slice (before ++ (between ++ after)) start stop = .ok between := by
  subst hstart hstop
  have h : before.length ≤ before.length + between.length ∧
      before.length + between.length ≤ (before ++ (between ++ after)).length := by
    simp only [List.length_append]
    omega
  rw [slice, require_eq h, List.take_length_add_append, List.take_left]
  simp only [bind, Except.bind, pure, Except.pure, List.drop_left]

theorem remove_append (before after : List α) (a : α) :
    remove (before ++ a :: after) before.length = .ok (a, before ++ after) := by
  have h : before.length < (before ++ a :: after).length := by simp
  rw [remove, require_eq h]
  simp [bind, Except.bind, pure, Except.pure, List.eraseIdx_append_of_length_le]

theorem splitOff_eq {l : List α} {place : Nat} (h : place ≤ l.length) :
    splitOff l place = .ok (l.take place, l.drop place) := by
  rw [splitOff, require_eq h]
  rfl

end

/-- The buffer without the bytes from `start` up to `stop`. -/
def cutOut (data : List UInt8) (start stop : Nat) : Except Fault (List UInt8) := do
  let _ ← require (start ≤ stop ∧ stop ≤ data.length) (.outside start stop data.length)
  return drain data start stop

theorem cutOut_eq {data : List UInt8} {start stop : Nat} (h : start ≤ stop ∧ stop ≤ data.length) :
    cutOut data start stop = .ok (drain data start stop) := by
  rw [cutOut, require_eq h]
  rfl

/-! ### The next tag -/

/-- The place where the byte `b` first stands twice. -/
def pairAt? (b : UInt8) (data : List UInt8) : Option Nat :=
  (splitAtPair b data).map (·.1.length)

/-- The tag that starts at `start` and whose text lies from `opened` up to `closed`. -/
def tagAt (data : List UInt8) (start opened closed : Nat) : Except Fault Placed := do
  let inner ← slice data opened closed
  if inner.head? = some openBrace then
    let inner ← slice inner 1 inner.length
    let stop := if data[closed + 2]? = some closeBrace then closed + 3 else closed + 2
    return ⟨start, stop, ⟨trim (Utf8.readLossy inner), true⟩⟩
  else
    return ⟨start, closed + 2, ⟨trim (Utf8.readLossy inner), false⟩⟩

/-- The next tag at or after the place `start`. -/
def nextTag (data : List UInt8) (start : Nat) : Except Fault (Option Placed) := do
  match pairAt? openBrace (data.drop start) with
  | none => return none
  | some before =>
    let opened := start + before + 2
    match pairAt? closeBrace (← slice data opened data.length) with
    | none => return none
    | some inside => return some (← tagAt data (start + before) opened (opened + inside))

theorem tagAt_eq (before front inner behind : List UInt8) {start opened closed : Nat}
    (hopened : opened = front.length) (hstart : opened = start + 2)
    (hclosed : closed = opened + inner.length) :
    tagAt (front ++ (inner ++ closeBrace :: closeBrace :: behind)) start opened closed =
      .ok ⟨start, start + (Cut.close before inner behind).text.length,
        (Cut.close before inner behind).tag⟩ := by
  have hbehind : (front ++ (inner ++ closeBrace :: closeBrace :: behind))[closed + 2]? =
      behind.head? := by
    rw [hclosed, hopened, Nat.add_assoc, List.getElem?_append_right (Nat.le_add_right ..),
      Nat.add_sub_cancel_left, List.getElem?_append_right (Nat.le_add_right ..),
      Nat.add_sub_cancel_left]
    cases behind <;> rfl
  rw [tagAt, slice_append front inner _ hopened hclosed]
  simp only [bind, Except.bind, pure, Except.pure, hbehind]
  by_cases hi : inner.head? = some openBrace
  · obtain ⟨inner', rfl⟩ := List.head?_eq_some_iff.1 hi
    have hinner : slice (openBrace :: inner') 1 (openBrace :: inner').length = .ok inner' := by
      have hlength : (openBrace :: inner').length = 1 + inner'.length := Nat.add_comm ..
      have h := slice_append [openBrace] inner' [] rfl hlength
      rwa [List.append_nil] at h
    rw [if_pos hi, hinner]
    by_cases hb : behind.head? = some closeBrace
    · simp [Cut.close, hb, hclosed, hstart]
      omega
    · simp [Cut.close, hb, hclosed, hstart]
      omega
  · simp [Cut.close, hi, hclosed, hstart]
    omega

/-- **The search for a tag stays within the bytes.** -/
theorem nextTag_eq (data : List UInt8) (start : Nat) :
    nextTag data start = .ok (next? data start) := by
  rw [next?, Cut.first?, nextTag, pairAt?]
  cases h₁ : splitAtPair openBrace (data.drop start) with
  | none => rfl
  | some p =>
    obtain ⟨before, rest⟩ := p
    have htail := splitAtPair_eq h₁
    have hlength := congrArg List.length htail
    simp only [List.length_drop, List.length_append, List.length_cons] at hlength
    -- all bytes in front of the text of the tag
    have hdata : data = (data.take start ++ before ++ [openBrace, openBrace]) ++ rest := by
      conv => lhs; rw [← List.take_append_drop start data, htail]
      simp
    have hfront : start + before.length + 2 =
        (data.take start ++ before ++ [openBrace, openBrace]).length := by
      simp only [List.length_append, List.length_take, List.length_cons, List.length_nil]
      omega
    generalize data.take start ++ before ++ [openBrace, openBrace] = front at hdata hfront
    subst hdata
    have hstop : (front ++ rest).length = start + before.length + 2 + rest.length := by
      rw [hfront, List.length_append]
    have hrest := slice_append front rest [] hfront hstop
    rw [List.append_nil] at hrest
    simp only [Option.map_some, Option.bind_some, hrest, bind, Except.bind]
    rw [pairAt?]
    cases h₂ : splitAtPair closeBrace rest with
    | none => rfl
    | some q =>
      obtain ⟨inner, behind⟩ := q
      simp only [Option.map_some, (Cut.close_eq before inner behind).1]
      rw [splitAtPair_eq h₂, tagAt_eq before front inner behind hfront rfl rfl]
      rfl

/-! ### The close tag of a block -/

/-- The tags gone through from a place on in search of the close tag of the block `name`, while
`depth` further blocks of that name stand open, and the close tag. -/
def search (data : List UInt8) (name : String) (depth place : Nat) :
    Except Fault (List Placed × Option Placed) := do
  match ← nextTag data place with
  | none => return ([], none)
  | some t =>
    match depthAfter name depth t.tag with
    | none => return ([], some t)
    | some depth =>
      let ⟨_⟩ ← require (place < t.stop ∧ t.stop ≤ data.length) (.standstill place t.stop)
      let (passed, closer) ← search data name depth t.stop
      return (t :: passed, closer)
termination_by data.length - place

/-- **The search for a close tag ends**, with what the tags of the bytes tell. -/
theorem search_eq (data : List UInt8) (name : String) (depth place : Nat) :
    search data name depth place =
      .ok (match splitAtCloser name depth (tagsFrom data place) with
        | none => (tagsFrom data place, none)
        | some (inside, closer, _) => (inside, some closer)) := by
  fun_induction tagsFrom data place generalizing depth with
  | case1 place h =>
    rw [search, nextTag_eq, h]
    rfl
  | case2 place t h _ ih =>
    have hbounds := next?_bounds h
    rw [search, nextTag_eq, h, splitAtCloser]
    cases hd : depthAfter name depth t.tag with
    | none => simp [hd, bind, Except.bind, pure, Except.pure]
    | some depth' =>
      simp only [bind, Except.bind, hd, pure, Except.pure]
      rw [require_eq ⟨by omega, hbounds.2.2⟩]
      simp only [ih]
      cases splitAtCloser name depth' (tagsFrom data t.stop) with
      | none => rfl
      | some r => rfl

/-! ### The node of a block -/

/-- The node of a block with the fragment `f` inside, split at its first divider. -/
def blockNode (f : Fragment) (text : String) (unescaped : Bool) (place : Nat) :
    Except Fault Node := do
  match f.nodes.findIdx? (·.name == Node.elseName) with
  | none => return Node.ofText text unescaped place f.block f.nodes none
  | some index =>
    let (divider, nodes) ← remove f.nodes index
    let behind := min divider.position f.block.length
    let (block, branchBlock) ← splitOff f.block behind
    let (nodes, later) ← splitOff nodes index
    let branch := { divider with
      block := branchBlock
      children := later.map fun n => { n with position := n.position - behind } }
    return Node.ofText text unescaped place block nodes (some branch)

/-- **A block is split within its bytes and its nodes.** -/
theorem blockNode_eq (f : Fragment) (text : String) (unescaped : Bool) (place : Nat) :
    blockNode f text unescaped place = .ok (f.toBlock text unescaped place) := by
  rw [Fragment.toBlock, Fragment.splitElse, blockNode]
  cases hd : f.nodes.dropWhile (·.name != Node.elseName) with
  | nil =>
    have hnone : f.nodes.findIdx? (·.name == Node.elseName) = none := by
      rw [List.findIdx?_eq_none_iff]
      intro n hn
      simpa using List.dropWhile_eq_nil_iff.1 hd n hn
    rw [hnone]
    rfl
  | cons divider later =>
    have hearlier : ∀ n ∈ f.nodes.takeWhile (·.name != Node.elseName),
        (n.name == Node.elseName) = false := fun n hn => by
      simpa using List.mem_takeWhile_imp hn
    have hdivider : (divider.name == Node.elseName) = true := by
      simpa [hd] using List.head?_dropWhile_not (·.name != Node.elseName) f.nodes
    have hnodes := Fragment.nodes_eq hd
    generalize f.nodes.takeWhile (·.name != Node.elseName) = earlier at hnodes hearlier
    have hindex : f.nodes.findIdx? (·.name == Node.elseName) = some earlier.length := by
      rw [hnodes, List.findIdx?_append, List.findIdx?_eq_none_iff.2 hearlier, List.findIdx?_cons,
        hdivider, if_pos rfl, Option.map_some, Nat.zero_add, Option.none_or]
    rw [hindex, hnodes]
    simp only [bind, Except.bind, remove_append, splitOff_eq (Nat.min_le_right ..),
      splitOff_eq (List.length_append ▸ Nat.le_add_right ..), List.take_left, List.drop_left]
    rfl

/-! ### Scanning -/

/-- Cuts the tags at and after `place` out of a buffer to which `nodes` belong already, and records
them. The bytes behind `place` are those behind `origin` of a sequence. -/
def edit (data : List UInt8) (place origin : Nat) (nodes : List Node) :
    Except Fault (Reported (Except ScanError Fragment) × List Sight) := do
  match ← nextTag data place with
  | none => return (⟨[], .ok ⟨data, nodes⟩⟩, [])
  | some t =>
    let here := t.moved place origin
    let left ← cutOut data t.start t.stop
    let onwards (more : List Node) (warnings : List Warning) := do
      let ⟨_⟩ ← require (left.length + 4 ≤ data.length) (.unshortened data.length left.length)
      let (r, sights) ← edit left t.start here.stop (nodes ++ more)
      return (r.after warnings, ⟨here, []⟩ :: sights)
    match t.tag.kind with
    | .comment => onwards [] []
    | .blockClose => onwards [] [.strayCloser t.tag.inner]
    | .divider | .value =>
      if t.tag.inner.isEmpty then onwards [] []
      else onwards [Node.ofText t.tag.inner t.tag.unescaped t.start [] [] none] []
    | .blockOpen =>
      let text := Tag.blockText t.tag.inner
      let name := Tag.blockName text
      match ← search left name 0 t.start with
      | (passed, none) =>
        return (⟨[], .error (.unterminatedBlock name)⟩,
          [⟨here, passed.map (Placed.moved t.start here.stop)⟩])
      | (passed, some closer) =>
        let sight : Sight := ⟨here, (passed ++ [closer]).map (Placed.moved t.start here.stop)⟩
        let there := closer.moved t.start here.stop
        let bytes ← slice left t.start closer.start
        let rest ← cutOut left t.start closer.stop
        let ⟨_⟩ ← require (bytes.length < data.length) (.undivided data.length bytes.length)
        let (inside, within) ← edit bytes 0 here.stop []
        match inside.value with
        | .error fault => return (⟨inside.warnings, .error fault⟩, sight :: within)
        | .ok f =>
          let node ← blockNode f text t.tag.unescaped t.start
          let ⟨_⟩ ← require (rest.length + 4 ≤ data.length) (.unshortened data.length rest.length)
          let (r, sights) ← edit rest t.start there.stop (nodes ++ [node])
          return (r.after inside.warnings, sight :: within ++ ⟨there, []⟩ :: sights)
termination_by data.length

section
variable {literal data : List UInt8} {origin : Nat} {nodes : List Node} {cut : Cut} {here : Placed}

theorem cutOut_cut (h : Cut.first? data = some cut) :
    cutOut (literal ++ data) (literal.length + cut.before.length)
      (literal.length + cut.before.length + cut.text.length) =
        .ok ((literal ++ cut.before) ++ cut.after) := by
  rw [cutOut_eq ⟨Nat.le_add_right .., (next?_bounds (next?_cut h)).2.2⟩, drain_cut h]

/-- A tag makes the buffer at least four bytes shorter. -/
theorem length_cut (literal : List UInt8) (h : Cut.first? data = some cut) :
    ((literal ++ cut.before) ++ cut.after).length + 4 ≤ (literal ++ data).length := by
  rw [← drain_cut h]
  exact length_drain_lt (next?_cut h)

/-- A tag is recorded with its place in the sequence. -/
theorem moved_cut (literal : List UInt8) (origin : Nat) (cut : Cut) :
    Placed.moved literal.length origin ⟨literal.length + cut.before.length,
      literal.length + cut.before.length + cut.text.length, cut.tag⟩ =
        ⟨origin + cut.before.length, origin + cut.before.length + cut.text.length, cut.tag⟩ := by
  simp only [Placed.moved, Nat.add_assoc, Nat.add_sub_cancel_left]

theorem edit_rest (h : Cut.first? data = none) :
    edit (literal ++ data) literal.length origin nodes =
      .ok (⟨[], .ok ⟨literal ++ data, nodes⟩⟩, []) := by
  rw [edit, nextTag_eq, next?_append, h]
  rfl

theorem edit_tag (h : Cut.first? data = some cut) (hk : cut.tag.kind ≠ .blockOpen)
    (hhere : here = ⟨origin + cut.before.length, origin + cut.before.length + cut.text.length,
      cut.tag⟩) :
    edit (literal ++ data) literal.length origin nodes =
      (edit ((literal ++ cut.before) ++ cut.after) (literal.length + cut.before.length) here.stop
        (nodes ++ cut.nodes (literal.length + cut.before.length))).map fun r =>
          (r.1.after cut.warnings, ⟨here, []⟩ :: r.2) := by
  rw [edit, nextTag_eq, next?_cut h]
  simp only [bind, Except.bind, cutOut_cut h, moved_cut, ← hhere,
    require_eq (length_cut literal h), pure, Except.pure, Cut.nodes, Cut.warnings]
  generalize (literal ++ cut.before) ++ cut.after = left
  cases hk' : cut.tag.kind with
  | blockOpen => exact absurd hk' hk
  | comment | blockClose =>
    simp only
    cases edit left (literal.length + cut.before.length) here.stop (nodes ++ []) <;> rfl
  | divider | value =>
    simp only
    split
    · cases edit left (literal.length + cut.before.length) here.stop (nodes ++ []) <;> rfl
    · cases edit left (literal.length + cut.before.length) here.stop (nodes ++ _) <;> rfl

end

/-! ### Scanning a block -/

/-- Places in a sequence are counted from wherever it starts. -/
theorem map_moved_placedTags (place origin before : Nat) (data : List UInt8) :
    (placedTags (place + before) data).map (Placed.moved place origin) =
      placedTags (origin + before) data := by
  generalize hp : place + before = p
  fun_induction placedTags p data generalizing before with
  | case1 p data h => rw [placedTags_none h, List.map_nil]
  | case2 p data cut h _ ih =>
    subst hp
    rw [placedTags_some h, List.map_cons, ih (before + cut.before.length + cut.text.length)
      (by omega)]
    simp only [Placed.moved, Nat.add_assoc, Nat.add_sub_cancel_left]

section
variable {name : String} {data : List UInt8}

theorem search_unclosed (literal : List UInt8) (h : Enclosed.first? name data = none) :
    search (literal ++ data) name 0 literal.length =
      .ok (placedTags literal.length data, none) := by
  rw [search_eq, tagsFrom_eq, List.drop_left, splitAtCloser_of_find?_none h]

/-- The close tag that is found, and the tags before and behind it. -/
theorem search_closed {e : Enclosed} (literal : List UInt8)
    (h : Enclosed.first? name data = some e) :
    ∃ closer : Placed, closer.start = literal.length + e.inside.length ∧
      closer.stop = literal.length + e.inside.length + e.closer.length ∧
      search (literal ++ data) name 0 literal.length =
        .ok (placedTags literal.length e.inside, some closer) ∧
      ∀ origin, placedTags origin data = placedTags origin e.inside ++
        closer.moved literal.length origin ::
          placedTags (closer.moved literal.length origin).stop e.after := by
  obtain ⟨closer, hstart, hstop, hsplit⟩ := splitAtCloser_of_find? h literal.length
  refine ⟨closer, hstart, by rw [hstop, hstart], ?_, fun origin => ?_⟩
  · rw [search_eq, tagsFrom_eq, List.drop_left, hsplit]
  · have hall := congrArg (List.map (Placed.moved literal.length origin))
      (splitAtCloser_eq hsplit)
    have hinside := map_moved_placedTags literal.length origin 0
    have hafter := map_moved_placedTags literal.length origin
      (e.inside.length + e.closer.length) e.after
    simp only [Nat.add_zero] at hinside
    rw [← Nat.add_assoc, ← hstart, ← hstop] at hafter
    rw [List.map_append, List.map_cons, hinside, hinside, hafter] at hall
    rw [hall]
    congr 3
    simp only [Placed.moved, hstop, hstart, Nat.add_assoc, Nat.add_sub_cancel_left]

end

section
variable {literal data : List UInt8} {origin : Nat} {nodes : List Node} {cut : Cut}
  {opener : Placed}

theorem edit_unclosed (h : Cut.first? data = some cut) (hk : cut.tag.kind = .blockOpen)
    (he : Enclosed.first? cut.tag.openName cut.after = none)
    (ho : opener = ⟨origin + cut.before.length, origin + cut.before.length + cut.text.length,
      cut.tag⟩) :
    edit (literal ++ data) literal.length origin nodes =
      .ok (⟨[], .error (.unterminatedBlock cut.tag.openName)⟩,
        [⟨opener, placedTags opener.stop cut.after⟩]) := by
  have hsearch := search_unclosed (literal ++ cut.before) he
  have hmoved := map_moved_placedTags (literal ++ cut.before).length opener.stop 0 cut.after
  rw [List.length_append] at hsearch hmoved
  rw [Nat.add_zero, Nat.add_zero] at hmoved
  rw [edit, nextTag_eq, next?_cut h]
  rw [Tag.openName] at hsearch ⊢
  simp only [bind, Except.bind, cutOut_cut h, moved_cut, ← ho, hk, hsearch, hmoved, pure,
    Except.pure]

theorem edit_block {e : Enclosed} (literal : List UInt8) (nodes : List Node)
    (h : Cut.first? data = some cut) (hk : cut.tag.kind = .blockOpen)
    (he : Enclosed.first? cut.tag.openName cut.after = some e)
    (ho : opener = ⟨origin + cut.before.length, origin + cut.before.length + cut.text.length,
      cut.tag⟩) :
    ∃ closer : Placed,
      placedTags opener.stop cut.after =
        placedTags opener.stop e.inside ++ closer :: placedTags closer.stop e.after ∧
      edit (literal ++ data) literal.length origin nodes =
        match edit e.inside 0 opener.stop [] with
        | .error fault => .error fault
        | .ok (inside, within) =>
          let sight : Sight := ⟨opener, placedTags opener.stop e.inside ++ [closer]⟩
          match inside.value with
          | .error fault => .ok (⟨inside.warnings, .error fault⟩, sight :: within)
          | .ok f =>
            (edit ((literal ++ cut.before) ++ e.after) (literal.length + cut.before.length)
              closer.stop (nodes ++ [f.toBlock (Tag.blockText cut.tag.inner) cut.tag.unescaped
                (literal.length + cut.before.length)])).map fun r =>
                  (r.1.after inside.warnings, sight :: within ++ ⟨closer, []⟩ :: r.2) := by
  obtain ⟨closer, hstart, hstop, hsearch, hafter⟩ :=
    search_closed (literal ++ cut.before) he
  have hmoved := map_moved_placedTags (literal ++ cut.before).length opener.stop 0 e.inside
  have hdata := (Enclosed.find?_eq he).1
  have hslice := slice_append (literal ++ cut.before) e.inside (e.closer ++ e.after) rfl hstart
  rw [← hdata] at hslice
  have hcut : cutOut ((literal ++ cut.before) ++ cut.after) (literal ++ cut.before).length
      closer.stop = .ok ((literal ++ cut.before) ++ e.after) := by
    rw [hstop, ← drain_enclosed he]
    refine cutOut_eq ⟨by omega, ?_⟩
    conv => rhs; rw [hdata]
    simp only [List.length_append]
    omega
  have hlength := length_cut literal h
  have hinside := (Enclosed.find?_eq he).2
  simp only [List.length_append] at hlength hsearch hmoved hslice hcut hafter
  have hshort : e.inside.length < (literal ++ data).length := by
    rw [List.length_append]
    omega
  have hless : ((literal ++ cut.before) ++ e.after).length + 4 ≤ (literal ++ data).length := by
    simp only [List.length_append]
    omega
  refine ⟨_, hafter opener.stop, ?_⟩
  rw [edit, nextTag_eq, next?_cut h]
  rw [Tag.openName] at hsearch
  rw [Nat.add_zero, Nat.add_zero] at hmoved
  simp only [bind, Except.bind, cutOut_cut h, moved_cut, ← ho, hk, hsearch, hslice, hcut,
    List.map_append, hmoved, require_eq hshort, require_eq hless, blockNode_eq, List.map_cons,
    List.map_nil, pure, Except.pure]
  cases edit e.inside 0 opener.stop [] with
  | error fault => rfl
  | ok r =>
    obtain ⟨inside, within⟩ := r
    simp only
    cases inside.value with
    | error fault => rfl
    | ok f =>
      simp only
      generalize edit (literal ++ cut.before ++ e.after) _ _ _ = run
      cases run <;> rfl

end

/-- What stands in front of a fragment stands in front of what was put there before. -/
theorem report_prepend (r : Reported (Except ScanError Fragment)) (warnings : List Warning)
    (literal before : List UInt8) (nodes more : List Node) :
    (r.map (·.map (Fragment.prepend (literal ++ before) (nodes ++ more)))).after warnings =
      ((r.map (·.map (Fragment.prepend before more))).after warnings).map
        (·.map (Fragment.prepend literal nodes)) := by
  obtain ⟨_, value⟩ := r
  cases value with
  | error fault => rfl
  | ok f => simp [Reported.map, Reported.after, Except.map, Fragment.prepend]

/-- What is seen in a block and behind it is seen in all: its two tags and what the search goes
through, which is the inside and the close tag. -/
theorem sights_of_block {opener there : Placed} {inside after : List Placed}
    {within sights : List Sight} (hwithin : ∀ s ∈ within, s.tag :: s.passed <:+: inside)
    (hsights : ∀ s ∈ sights, s.tag :: s.passed <:+: after) :
    ∀ s ∈ (⟨opener, inside ++ [there]⟩ :: within) ++ ⟨there, []⟩ :: sights,
      s.tag :: s.passed <:+: opener :: (inside ++ there :: after) := by
  have hsearch : opener :: (inside ++ [there]) <:+: opener :: (inside ++ there :: after) :=
    ⟨[], after, by simp⟩
  have hinside : inside <:+: opener :: (inside ++ there :: after) :=
    ⟨[opener], there :: after, by simp⟩
  have hthere : [there] <:+: opener :: (inside ++ there :: after) :=
    ⟨opener :: inside, after, by simp⟩
  have hafter : after <:+: opener :: (inside ++ there :: after) :=
    ⟨opener :: (inside ++ [there]), [], by simp⟩
  rw [List.forall_mem_append, List.forall_mem_cons, List.forall_mem_cons]
  exact ⟨⟨hsearch, fun s hs => (hwithin s hs).trans hinside⟩, hthere,
    fun s hs => (hsights s hs).trans hafter⟩

/-- **Scanning with guards gives what scanning gives.** All tags of a sequence that can be scanned
are on record, and the tags that a search has gone through are those right behind the opening
tag. -/
theorem edit_eq (literal data : List UInt8) (origin : Nat) (nodes : List Node) :
    ∃ sights, edit (literal ++ data) literal.length origin nodes =
        .ok ((scanFrom literal.length data).map (·.map (Fragment.prepend literal nodes)), sights) ∧
      (∀ f, (scanFrom literal.length data).value = .ok f →
        sights.map Sight.tag = placedTags origin data) ∧
      ∀ s ∈ sights, s.tag :: s.passed <:+: placedTags origin data := by
  generalize hs : literal.length = start
  induction start, data using scan_induction generalizing literal origin nodes with
  | rest start data first =>
    subst hs
    rw [edit_rest first, scanFrom_rest first, placedTags_none first]
    exact ⟨[], by simp [Reported.map, Except.map, Fragment.prepend], fun _ _ => rfl, by simp⟩
  | tag start data cut first kind ih =>
    subst hs
    obtain ⟨here, hhere⟩ : ∃ here : Placed, here = ⟨origin + cut.before.length,
      origin + cut.before.length + cut.text.length, cut.tag⟩ := ⟨_, rfl⟩
    have hplaced : placedTags origin data = here :: placedTags here.stop cut.after := by
      rw [placedTags_some first, hhere]
    obtain ⟨sights, hrun, htags, hpassed⟩ := ih (literal ++ cut.before) here.stop
      (nodes ++ cut.nodes (literal.length + cut.before.length)) List.length_append
    rw [edit_tag first kind hhere, hrun, hplaced]
    refine ⟨⟨here, []⟩ :: sights, ?_, fun f hf => ?_, ?_⟩
    · rw [scanFrom_tag first kind, ← report_prepend]
      rfl
    · obtain ⟨f', hf', -⟩ := (scanFrom_tag_ok_iff first kind).1 hf
      rw [List.map_cons, htags f' hf']
    · rw [List.forall_mem_cons]
      exact ⟨(List.prefix_append [here] _).isInfix, fun s hmem =>
        (hpassed s hmem).trans (List.suffix_cons here _).isInfix⟩
  | unclosed start data cut first kind closer =>
    subst hs
    rw [edit_unclosed first kind closer rfl, scanFrom_unclosed first kind closer,
      placedTags_some first]
    exact ⟨_, rfl, (fun _ hf => by cases hf), by simp⟩
  | block start data cut e first kind closer ih₁ ih₂ =>
    subst hs
    obtain ⟨opener, hopener⟩ : ∃ opener : Placed, opener = ⟨origin + cut.before.length,
      origin + cut.before.length + cut.text.length, cut.tag⟩ := ⟨_, rfl⟩
    obtain ⟨there, hafter, hrun⟩ := edit_block literal nodes first kind closer hopener
    have hplaced : placedTags origin data = opener ::
        (placedTags opener.stop e.inside ++ there :: placedTags there.stop e.after) := by
      rw [placedTags_some first, ← hafter, hopener]
    obtain ⟨within, hrun₁, htags₁, hpassed₁⟩ := ih₁ [] opener.stop [] rfl
    rw [List.nil_append] at hrun₁
    rw [hrun, hrun₁]
    simp only [Reported.map]
    cases hin : (scanFrom 0 e.inside).value with
    | error fault =>
      rw [scanFrom_block first kind closer, hin, hplaced]
      exact ⟨_, rfl, (fun _ hf => by cases hf),
        (List.forall_mem_append.1 (sights_of_block hpassed₁ (List.forall_mem_nil _))).1⟩
    | ok g =>
      obtain ⟨sights, hrun₂, htags₂, hpassed₂⟩ := ih₂ (literal ++ cut.before) there.stop
        (nodes ++ [g.toBlock (Tag.blockText cut.tag.inner) cut.tag.unescaped
          (literal.length + cut.before.length)]) List.length_append
      have hg : Except.map (Fragment.prepend [] []) (.ok g) = (.ok g : Except ScanError Fragment) :=
        rfl
      simp only [hg, hrun₂]
      refine ⟨_, congrArg Except.ok (Prod.ext ?_ rfl), fun f hf => ?_, ?_⟩
      · rw [scanFrom_block first kind closer, hin]
        exact report_prepend ..
      · obtain ⟨-, f', -, hf', -⟩ := (scanFrom_block_ok_iff first kind closer).1 hf
        simp [hplaced, htags₁ g hin, htags₂ f' hf']
      · rw [hplaced]
        exact sights_of_block hpassed₁ hpassed₂

/-- The same for a whole sequence. -/
theorem edit_eq_scan (data : List UInt8) :
    ∃ sights, edit data 0 0 [] = .ok (scan data, sights) ∧
      (∀ f, (scan data).value = .ok f → sights.map Sight.tag = tags data) ∧
      ∀ s ∈ sights, s.tag :: s.passed <:+: tags data := by
  obtain ⟨sights, hrun, htags, hpassed⟩ := edit_eq [] data 0 []
  rw [tags_eq]
  refine ⟨sights, ?_, htags, hpassed⟩
  rw [List.nil_append, List.length_nil] at hrun
  rw [hrun, scan]
  obtain ⟨warnings, value⟩ := scanFrom 0 data
  cases value <;> rfl

end Guarded

/-- **Scanning ends and stays within its bounds**, whatever the bytes and from wherever a search
starts: no guard keeps the search for a tag, the search for a close tag or the scan from yielding
what it yields without guards. Each search for a close tag therefore goes on behind where it was,
each round of the scan leaves at least four bytes less, the inside of a block is shorter than what
it was taken from, and all that is read, cut out or split off lies in its buffer. -/
theorem scan_within_bounds (data : List UInt8) :
    (∀ start, Guarded.nextTag data start = .ok (next? data start)) ∧
    (∀ start name, ∃ passed closer, Guarded.search data name 0 start = .ok (passed, closer) ∧
      closer.map (fun t => (t.start, t.stop)) = closer? data start name) ∧
    ∃ sights, Guarded.edit data 0 0 [] = .ok (scan data, sights) := by
  refine ⟨Guarded.nextTag_eq data, fun start name => ?_, ?_⟩
  · rw [Guarded.search_eq, tagsFrom_eq, closer?]
    cases he : Enclosed.first? name (data.drop start) with
    | none =>
      rw [splitAtCloser_of_find?_none he]
      exact ⟨_, _, rfl, rfl⟩
    | some e =>
      obtain ⟨closer, hstart, hstop, hsplit⟩ := splitAtCloser_of_find? he start
      rw [hsplit]
      exact ⟨_, _, rfl, by simp [hstart, hstop]⟩
  · obtain ⟨sights, hrun, -⟩ := Guarded.edit_eq_scan data
    exact ⟨sights, hrun⟩

end ThemePress.Template
