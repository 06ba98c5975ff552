import Mathlib.Data.List.Infix
import ThemePress.Proofs.Template.Scanned
import ThemePress.Proofs.Template.Tags
import ThemePress.Proofs.Text.Utf8

/-! # Scanning one sequence behind another

Where one sequence ends and another starts, braces of both could run together. They cannot when the
first is `SelfContained` and the second does not start with `}`: no tag of the first is still open
at its end, no `{` there starts one, and no third `}` belongs to its last tag. Then the tags of both
together are the tags of each (`Cut.first?_append`, `Cut.first?_append_rest`), a block is closed by
the tag that closed it before (`Enclosed.find?_append`), and the two fragments are put behind each
other, with the places in the second moved by the bytes of the first (`Scanned.append`).

`braced text` is a tag of its own in any surrounding. -/

namespace ThemePress.Template

open ThemePress.Text

/-- Nothing that follows the sequence becomes part of a tag in it: each `{{` has a `}}` behind it,
and no `{` stands at the end. -/
structure SelfContained (data : List UInt8) : Prop where
  closed : ∀ u v, data = u ++ openBrace :: openBrace :: v → [closeBrace, closeBrace] <:+: v
  ending : data.getLast? ≠ some openBrace

theorem selfContained_iff {data : List UInt8} : SelfContained data ↔
    (∀ i < data.length, [openBrace, openBrace] <+: data.drop i →
      [closeBrace, closeBrace] <:+: data.drop (i + 2)) ∧ data.getLast? ≠ some openBrace := by
  refine ⟨fun h => ⟨fun i _ ⟨v, hv⟩ => ?_, h.ending⟩, fun h => ⟨fun u v hdata => ?_, h.2⟩⟩
  · rw [← List.drop_drop, ← hv]
    refine h.closed (data.take i) v ?_
    conv => lhs; rw [← List.take_append_drop i data, ← hv]
    rfl
  · subst hdata
    have hv := h.1 u.length (by simp) (by simp)
    simpa using hv

instance (data : List UInt8) : Decidable (SelfContained data) :=
  decidable_of_iff _ selfContained_iff.symm

theorem SelfContained.of_append {s t : List UInt8} (h : SelfContained (s ++ t)) :
    SelfContained t := by
  refine ⟨fun u v ht => h.closed (s ++ u) v ?_, fun hlast => h.ending ?_⟩
  · rw [ht, List.append_assoc]
  · rw [List.getLast?_append, hlast]
    rfl

/-! ### Pairs of bytes -/

section
variable {b : UInt8} {s t l r : List UInt8}

theorem splitAtPair_append_some (h : splitAtPair b s = some (l, r)) (t : List UInt8) :
    splitAtPair b (s ++ t) = some (l, r ++ t) := by
  rw [splitAtPair_eq h, List.append_assoc]
  exact splitAtPair_append h (r ++ t)

theorem splitAtPair_append_none (h : splitAtPair b s = none) (hs : s.getLast? ≠ some b)
    (t : List UInt8) :
    splitAtPair b (s ++ t) = (splitAtPair b t).map fun p => (s ++ p.1, p.2) := by
  induction s with
  | nil =>
    rw [List.nil_append]
    exact (Option.map_id' (x := splitAtPair b t)).symm
  | cons x s ih =>
    cases s with
    | nil =>
      have hx : x ≠ b := fun hx => hs (by rw [hx]; rfl)
      cases t with
      | nil => rfl
      | cons y t => simp [splitAtPair, hx]
    | cons y s =>
      rw [splitAtPair] at h
      split at h
      · cases h
      · rename_i hxy
        have ih := ih (Option.map_eq_none_iff.1 h) (by rwa [List.getLast?_cons_cons] at hs)
        rw [List.cons_append, List.cons_append, splitAtPair, if_neg hxy, ← List.cons_append, ih,
          Option.map_map]
        rfl

theorem splitAtPair_ne_none (h : [b, b] <:+: s) : splitAtPair b s ≠ none := by
  obtain ⟨u, v, rfl⟩ := h
  induction u with
  | nil => simp [splitAtPair]
  | cons x u ih =>
    cases hu : u ++ [b, b] ++ v with
    | nil => simp at hu
    | cons y s =>
      rw [hu] at ih
      rw [List.cons_append, List.cons_append, hu, splitAtPair]
      split
      · exact Option.some_ne_none _
      · rwa [ne_eq, Option.map_eq_none_iff]

theorem splitAtPair_of_not_mem (h : b ∉ s) (t : List UInt8) :
    splitAtPair b (s ++ b :: b :: t) = some (s, t) := by
  have hnone : splitAtPair b s = none := by
    cases hs : splitAtPair b s with
    | none => rfl
    | some p =>
      rw [splitAtPair_eq hs] at h
      simp at h
  have hlast : s.getLast? ≠ some b := fun hs => h (List.mem_of_getLast? hs)
  rw [splitAtPair_append_none hnone hlast, splitAtPair, if_pos ⟨rfl, rfl⟩]
  simp

end

/-! ### The first tag -/

namespace Cut

/-- Puts bytes in front of the tag. -/
def prepend (s : List UInt8) (cut : Cut) : Cut :=
  { cut with before := s ++ cut.before }

section
variable {data rest : List UInt8} {cut : Cut}

theorem close_append (before inner behind : List UInt8) (hr : rest.head? ≠ some closeBrace) :
    close before inner (behind ++ rest) =
      { close before inner behind with after := (close before inner behind).after ++ rest } := by
  by_cases hi : inner.head? = some openBrace
  · cases behind with
    | nil => simp [close, hi, hr]
    | cons c behind => by_cases hc : c = closeBrace <;> simp [close, hi, hc]
  · simp [close, hi]

/-- The first tag is the same when more follows that does not start with `}`. -/
theorem first?_append (h : first? data = some cut) (hr : rest.head? ≠ some closeBrace) :
    first? (data ++ rest) = some { cut with after := cut.after ++ rest } := by
  obtain ⟨inner, behind, h₁, h₂, hcut⟩ := exists_of_first? h
  rw [first?, splitAtPair_append_some h₁, Option.bind_some]
  dsimp only
  rw [splitAtPair_append_some h₂, Option.map_some, close_append _ _ _ hr, ← hcut]

/-- Behind a sequence without a tag, the first tag of another is found. -/
theorem first?_append_rest (h : first? data = none) (hd : SelfContained data)
    (rest : List UInt8) :
    first? (data ++ rest) = (first? rest).map (prepend data) := by
  have hnone : splitAtPair openBrace data = none := by
    cases hs : splitAtPair openBrace data with
    | none => rfl
    | some p =>
      rw [first?, hs, Option.bind_some, Option.map_eq_none_iff] at h
      exact absurd h (splitAtPair_ne_none (hd.closed _ _ (splitAtPair_eq hs)))
  have hclose : ∀ before inner behind,
      close (data ++ before) inner behind = (close before inner behind).prepend data := by
    intro before inner behind
    unfold close prepend
    split_ifs <;> rfl
  rw [first?, splitAtPair_append_none hnone hd.ending, first?]
  cases splitAtPair openBrace rest with
  | none => rfl
  | some p => simp [Option.map_map, Function.comp_def, hclose]

end

end Cut

/-- **The tags of two sequences are those of each.** -/
theorem placedTags_append {data rest : List UInt8} (hd : SelfContained data)
    (hr : rest.head? ≠ some closeBrace) (place : Nat) :
    placedTags place (data ++ rest) =
      placedTags place data ++ placedTags (place + data.length) rest := by
  fun_induction placedTags place data with
  | case1 place data hc =>
    have hfirst := Cut.first?_append_rest hc hd rest
    rw [List.nil_append]
    cases hrest : Cut.first? rest with
    | none =>
      rw [hrest, Option.map_none] at hfirst
      rw [placedTags_none hfirst, placedTags_none hrest]
    | some cut =>
      rw [hrest, Option.map_some] at hfirst
      rw [placedTags_some hfirst, placedTags_some hrest]
      simp only [Cut.prepend, List.length_append, Nat.add_assoc]
  | case2 place data cut hc _ ih =>
    have hdata := Cut.first?_eq hc
    have hlength := congrArg List.length hdata
    rw [hdata] at hd
    rw [placedTags_some (Cut.first?_append hc hr), ih hd.of_append.of_append]
    simp only [List.length_append] at hlength
    rw [hlength, List.cons_append]
    simp only [Nat.add_assoc]

/-! ### Close tags -/

namespace Enclosed

/-- A block is closed by the same tag when more follows that does not start with `}`. -/
theorem find?_append {name : String} {depth : Nat} {data rest : List UInt8} {e : Enclosed}
    (h : find? name depth data = some e)
    (hr : rest.head? ≠ some closeBrace) :
    find? name depth (data ++ rest) = some { e with after := e.after ++ rest } := by
  cases hc : Cut.first? data with
  | none =>
    rw [find?_none hc] at h
    cases h
  | some cut =>
    have := Cut.after_lt hc
    rw [find?_some hc] at h
    rw [find?_some (Cut.first?_append hc hr)]
    dsimp only
    cases hd : depthAfter name depth cut.tag with
    | none =>
      simp only [hd, Option.some.injEq] at h
      subst h
      rfl
    | some depth' =>
      simp only [hd] at h
      obtain ⟨e', he', rfl⟩ := Option.map_eq_some_iff.1 h
      dsimp only
      rw [find?_append he' hr]
      rfl
termination_by data.length

/-- Behind a sequence without a tag, the search goes on in another. -/
theorem find?_append_rest {data rest : List UInt8} (h : Cut.first? data = none)
    (hd : SelfContained data) (name : String) (depth : Nat) :
    find? name depth (data ++ rest) = (find? name depth rest).map (prepend data) := by
  have hfirst := Cut.first?_append_rest h hd rest
  cases hc : Cut.first? rest with
  | none =>
    rw [hc, Option.map_none] at hfirst
    rw [find?_none hc, find?_none hfirst, Option.map_none]
  | some cut =>
    rw [hc, Option.map_some] at hfirst
    rw [find?_some hc, find?_some hfirst]
    dsimp only [Cut.prepend]
    cases depthAfter name depth cut.tag with
    | none => rfl
    | some depth' =>
      dsimp only
      rw [Option.map_map]
      congr 1
      funext e
      simp [prepend]

end Enclosed

/-! ### Fragments -/

/-- The node with its place moved. -/
def Node.moved (s : Nat) (n : Node) : Node :=
  { n with position := n.position + s }

namespace Fragment

/-- The fragment with its nodes moved. -/
def moved (s : Nat) (f : Fragment) : Fragment :=
  ⟨f.block, f.nodes.map (Node.moved s)⟩

/-- One fragment behind another. -/
def join (f g : Fragment) : Fragment :=
  (g.moved f.block.length).prepend f.block f.nodes

theorem prepend_prepend (f : Fragment) (l l' : List UInt8) (ns ns' : List Node) :
    (f.prepend l' ns').prepend l ns = f.prepend (l ++ l') (ns ++ ns') := by
  simp [prepend]

/-- What stands in front of a fragment stands in front of all that follows it. -/
theorem prepend_behind (f g : Fragment) (l : List UInt8) (ns : List Node) :
    g.prepend (f.prepend l ns).block (f.prepend l ns).nodes =
      (g.prepend f.block f.nodes).prepend l ns := by
  simp [prepend]

theorem moved_prepend (f : Fragment) (s : Nat) (l : List UInt8) (ns : List Node) :
    (f.prepend l ns).moved s = (f.moved s).prepend l (ns.map (Node.moved s)) := by
  simp [prepend, moved]

theorem moved_toBlock (f : Fragment) (text : String) (unescaped : Bool) (place s : Nat) :
    (f.toBlock text unescaped place).moved s = f.toBlock text unescaped (place + s) := rfl

end Fragment

theorem Cut.map_moved_nodes (cut : Cut) (place s : Nat) :
    (cut.nodes place).map (Node.moved s) = cut.nodes (place + s) := by
  unfold Cut.nodes
  split
  · split <;> rfl
  · split <;> rfl
  · rfl

/-! ### Scanning -/

namespace Scanned

variable {start : Nat} {data rest : List UInt8} {f g : Fragment}

/-- Bytes in front move the nodes, and nothing else. -/
theorem moved (h : Scanned start data f) (s : Nat) : Scanned (start + s) data (f.moved s) := by
  induction h with
  | rest first => exact .rest first
  | @tag start data cut f first kind _ ih =>
    rw [Fragment.moved_prepend, Cut.map_moved_nodes, Nat.add_right_comm]
    rw [Nat.add_right_comm] at ih
    exact .tag first kind ih
  | @block start data cut e g f first kind closer inside _ _ ih =>
    rw [Fragment.moved_prepend, List.map_singleton, Fragment.moved_toBlock, Nat.add_right_comm]
    rw [Nat.add_right_comm] at ih
    exact .block first kind closer inside ih

/-- Behind bytes without a tag. -/
theorem append_rest (h : Cut.first? data = none) (hd : SelfContained data)
    (hg : Scanned (start + data.length) rest g) :
    Scanned start (data ++ rest) (g.prepend data []) := by
  have hlength : ∀ before : List UInt8,
      start + (data ++ before).length = start + data.length + before.length := fun before => by
    rw [List.length_append, Nat.add_assoc]
  have hfirst := Cut.first?_append_rest h hd rest
  cases hg with
  | rest first =>
    rw [first, Option.map_none] at hfirst
    exact .rest hfirst
  | tag first kind after =>
    rw [first, Option.map_some] at hfirst
    rw [← hlength] at after ⊢
    rw [Fragment.prepend_prepend]
    exact .tag hfirst kind after
  | block first kind closer inside after =>
    rw [first, Option.map_some] at hfirst
    rw [← hlength] at after ⊢
    rw [Fragment.prepend_prepend]
    exact .block hfirst kind closer inside after

/-- **One sequence behind another is scanned as each of them.** -/
theorem append (h : Scanned start data f) (hd : SelfContained data)
    (hr : rest.head? ≠ some closeBrace) (hg : Scanned (start + f.block.length) rest g) :
    Scanned start (data ++ rest) (g.prepend f.block f.nodes) := by
  induction h with
  | rest first => exact append_rest first hd hg
  | @tag start data cut f first kind _ ih =>
    have hg' : Scanned (start + cut.before.length + f.block.length) rest g := by
      rw [Nat.add_assoc, ← List.length_append]
      exact hg
    rw [Cut.first?_eq first] at hd
    have hall := Scanned.tag (Cut.first?_append first hr) kind (ih hd.of_append.of_append hg')
    rw [Fragment.prepend_behind]
    exact hall
  | @block start data cut e g' f first kind closer inside _ _ ih =>
    have hg' : Scanned (start + cut.before.length + f.block.length) rest g := by
      rw [Nat.add_assoc, ← List.length_append]
      exact hg
    rw [Cut.first?_eq first, (Enclosed.find?_eq closer).1] at hd
    have hall := Scanned.block (Cut.first?_append first hr) kind (Enclosed.find?_append closer hr)
      inside (ih hd.of_append.of_append.of_append.of_append hg')
    rw [Fragment.prepend_behind]
    exact hall

end Scanned

/-- The same, from the start of a block. -/
theorem scan_append {data rest : List UInt8} {f g : Fragment} (hd : SelfContained data)
    (hr : rest.head? ≠ some closeBrace) (hf : (scan data).value = .ok f)
    (hg : (scan rest).value = .ok g) : (scan (data ++ rest)).value = .ok (f.join g) :=
  scanned_iff.1 ((scanned_iff.2 hf).append hd hr ((scanned_iff.2 hg).moved f.block.length))

/-- What scanning leaves, by its bytes and the names of its nodes. -/
theorem exists_of_scan {data block : List UInt8} {names : List String}
    (h : (scan data).value.toOption.map (fun f => (f.block, f.nodes.map Node.name)) =
      some (block, names)) :
    ∃ f, (scan data).value = .ok f ∧ f.block = block ∧ f.nodes.map Node.name = names := by
  cases hv : (scan data).value with
  | error fault => simp [hv, Except.toOption] at h
  | ok f =>
    obtain ⟨rfl, rfl⟩ : f.block = block ∧ f.nodes.map Node.name = names := by
      simpa [hv, Except.toOption] using h
    exact ⟨f, rfl, rfl, rfl⟩

/-! ### Tags by themselves -/

/-- A tag with this text. -/
def braced (text : String) : List UInt8 :=
  openBrace :: openBrace :: Utf8.bytesOf text ++ [closeBrace, closeBrace]

/-- The text holds no brace. -/
def Unbraced (text : String) : Prop :=
  '\x7b' ∉ text.toList ∧ '\x7d' ∉ text.toList

instance (text : String) : Decidable (Unbraced text) :=
  inferInstanceAs (Decidable (_ ∧ _))

theorem head?_braced_append (text : String) (rest : List UInt8) :
    (braced text ++ rest).head? ≠ some closeBrace := by
  show some openBrace ≠ some closeBrace
  decide

theorem head?_braced (text : String) : (braced text).head? ≠ some closeBrace := by
  rw [← List.append_nil (braced text)]
  exact head?_braced_append text []

section
variable {text : String} {rest : List UInt8}

theorem first?_braced (h : Unbraced text) (rest : List UInt8) :
    Cut.first? (braced text ++ rest) = some ⟨[], ⟨trim text, false⟩, braced text, rest⟩ := by
  have hopen : openBrace ∉ Utf8.bytesOf text :=
    mt (Utf8.mem_bytesOf_iff (n := 0x7B) (by decide)).1 h.1
  have hclose : closeBrace ∉ Utf8.bytesOf text := mt (Utf8.mem_bytesOf_iff (by decide)).1 h.2
  have hinner : (Utf8.bytesOf text).head? ≠ some openBrace := fun hi =>
    hopen (List.mem_of_mem_head? hi)
  have hsplit : splitAtPair openBrace (braced text ++ rest) =
      some ([], Utf8.bytesOf text ++ closeBrace :: closeBrace :: rest) := by
    simp [braced, splitAtPair]
  rw [Cut.first?, hsplit, Option.bind_some]
  dsimp only
  rw [splitAtPair_of_not_mem hclose, Option.map_some]
  simp [Cut.close, hinner, Utf8.readLossy_bytesOf, braced]

/-- A tag that opens no block, and what follows it. -/
theorem scanned_braced {start : Nat} {g : Fragment} (h : Unbraced text)
    (hk : Tag.kind ⟨trim text, false⟩ ≠ .blockOpen) (hg : Scanned start rest g) :
    Scanned start (braced text ++ rest)
      (g.prepend [] (Cut.nodes ⟨[], ⟨trim text, false⟩, braced text, rest⟩ start)) :=
  .tag (first?_braced h rest) hk hg

end

end ThemePress.Template
