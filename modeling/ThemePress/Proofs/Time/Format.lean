import Mathlib.Data.List.Nodup
import Mathlib.Data.List.TakeWhile
import ThemePress.Proofs.Text.Utf8
import ThemePress.Time.Format

/-! # Which token of a format is meant

`Formatted` says what a format stands for: text in square brackets is copied without them, and
otherwise the longest token that fits is written out, or one character is copied if none fits. The
order of the table is not part of it. `render` takes the first token of the table that fits, which
is the longest because longer ones come first (`find?_tokens_iff`), and so it writes what the format
stands for (`formatted_iff`).

A format is gone through by its bytes. `Loop` does this step by step: it looks at the first
character, searches the bytes behind a bracket, compares bytes with tokens and cuts what it has
written off the front. A cut is refused within a character, and this never happens
(`loop_bytesOf`). -/

namespace ThemePress.Time.Format

open ThemePress.Text
open String (utf8EncodeChar)

variable {t : Instant} {s : List Char}

/-! ### The longest token -/

/-- The entry of the table that is the longest of those a format starts with. -/
structure Longest (s : List Char) (name : String) (value : Instant → String) : Prop where
  mem : (name, value) ∈ tokens
  starts : name.toList <+: s
  longest : ∀ other ∈ tokens, other.1.toList <+: s → other.1.length ≤ name.length

/-- What a format stands for. -/
inductive Formatted (t : Instant) : List Char → List Char → Prop where
  | nil : Formatted t [] []
  | closed {inner rest out : List Char} (hinner : ']' ∉ inner) (hrest : Formatted t rest out) :
    Formatted t ('[' :: (inner ++ ']' :: rest)) (inner ++ out)
  | unclosed {inner : List Char} (hinner : ']' ∉ inner) : Formatted t ('[' :: inner) inner
  | token {name : String} {value : Instant → String} {rest out : List Char}
    (hlongest : Longest (name.toList ++ rest) name value) (hrest : Formatted t rest out) :
    Formatted t (name.toList ++ rest) ((value t).toList ++ out)
  | char {c : Char} {rest out : List Char} (hc : c ≠ '[')
    (hnone : ∀ token ∈ tokens, ¬ token.1.toList <+: c :: rest) (hrest : Formatted t rest out) :
    Formatted t (c :: rest) (c :: out)

theorem nodup_names : (tokens.map Prod.fst).Nodup := by
  decide

theorem sorted_names : (tokens.map Prod.fst).Pairwise fun a b => b.length ≤ a.length := by
  decide

theorem head_ne_bracket : ∀ token ∈ tokens, token.1.toList.head?.all (· != '[') = true := by
  decide

theorem value_unique {name : String} {value value' : Instant → String}
    (h : (name, value) ∈ tokens) (h' : (name, value') ∈ tokens) : value = value' :=
  congrArg Prod.snd (List.inj_on_of_nodup_map nodup_names h h' rfl)

theorem Longest.unique {name name' : String} {value value' : Instant → String}
    (h : Longest s name value) (h' : Longest s name' value') : name = name' ∧ value = value' := by
  have hle : name'.length ≤ name.length := h.longest _ h'.mem h'.starts
  have hge : name.length ≤ name'.length := h'.longest _ h.mem h.starts
  have hlength : name.toList.length = name'.toList.length := by
    rw [String.length_toList, String.length_toList]
    omega
  obtain rfl : name = name' := String.toList_inj.1
    ((List.prefix_of_prefix_length_le h.starts h'.starts hlength.le).eq_of_length hlength)
  exact ⟨rfl, value_unique h.mem h'.mem⟩

/-- The first entry that fits is the longest. -/
theorem find?_tokens_iff {name : String} {value : Instant → String} :
    (tokens.find? fun token => token.1.toList.isPrefixOf s) = some (name, value) ↔
      Longest s name value := by
  have hfirst : ∀ {name value},
      (tokens.find? fun token => token.1.toList.isPrefixOf s) = some (name, value) →
        Longest s name value := by
    intro name value h
    obtain ⟨hstarts, before, behind, htokens, hbefore⟩ := List.find?_eq_some_iff_append.1 h
    refine ⟨List.mem_of_find?_eq_some h, List.isPrefixOf_iff_prefix.1 hstarts,
      fun other hother hfits => ?_⟩
    have hsorted := sorted_names
    rw [htokens, List.map_append, List.map_cons, List.pairwise_append,
      List.pairwise_cons] at hsorted
    rw [htokens, List.mem_append, List.mem_cons] at hother
    rcases hother with hother | rfl | hother
    · have hno := hbefore other hother
      rw [List.isPrefixOf_iff_prefix.2 hfits] at hno
      cases hno
    · exact le_rfl
    · exact hsorted.2.1.1 _ (List.mem_map_of_mem hother)
  refine ⟨hfirst, fun h => ?_⟩
  cases hfind : tokens.find? fun token => token.1.toList.isPrefixOf s with
  | none =>
    have hno := List.find?_eq_none.1 hfind _ h.mem
    exact absurd (List.isPrefixOf_iff_prefix.2 h.starts) hno
  | some token =>
    obtain ⟨hname, hvalue⟩ := (hfirst hfind).unique h
    rw [← hname, ← hvalue]

theorem find?_tokens_eq_none_iff :
    (tokens.find? fun token => token.1.toList.isPrefixOf s) = none ↔
      ∀ token ∈ tokens, ¬ token.1.toList <+: s := by
  rw [List.find?_eq_none]
  exact forall₂_congr fun token _ => by rw [List.isPrefixOf_iff_prefix]

/-! ### What is written -/

theorem token?_eq_some {name : String} {value : Instant → String} {rest : List Char}
    (h : Longest (name.toList ++ rest) name value) :
    token? (name.toList ++ rest) = some (value, rest) := by
  rw [token?, find?_tokens_iff.2 h, Option.map_some]
  dsimp only
  rw [← String.length_toList, List.drop_left]

theorem exists_longest {value : Instant → String} {rest : List Char}
    (h : token? s = some (value, rest)) :
    ∃ name, s = name.toList ++ rest ∧ Longest s name value := by
  obtain ⟨⟨name, value'⟩, hfind, heq⟩ := Option.map_eq_some_iff.1 h
  obtain ⟨rfl, rfl⟩ := Prod.mk.inj heq
  have hlongest := find?_tokens_iff.1 hfind
  refine ⟨name, ?_, hlongest⟩
  rw [← String.length_toList]
  exact (List.prefix_iff_eq_append.1 hlongest.starts).symm

theorem token?_eq_none_iff : token? s = none ↔ ∀ token ∈ tokens, ¬ token.1.toList <+: s := by
  rw [token?, Option.map_eq_none_iff, find?_tokens_eq_none_iff]

theorem inner_pos {inner : List Char} (h : ']' ∉ inner) : ∀ c ∈ inner, (c != ']') = true :=
  fun _ hc => bne_iff_ne.2 fun he => h (he ▸ hc)

theorem takeWhile_inner (s : List Char) : ']' ∉ s.takeWhile (· != ']') := fun h => by
  have := List.mem_takeWhile_imp h
  simp at this

/-- The text in front of the first closing bracket, and the bracket. -/
theorem eq_of_dropWhile {c : Char} {rest : List Char} (h : s.dropWhile (· != ']') = c :: rest) :
    s = s.takeWhile (· != ']') ++ ']' :: rest := by
  obtain rfl : c = ']' := by
    have hc := List.head?_dropWhile_not (· != ']') s
    rw [h] at hc
    simpa using hc
  rw [← h, List.takeWhile_append_dropWhile]

theorem not_mem_of_dropWhile (h : s.dropWhile (· != ']') = []) : ']' ∉ s := by
  intro hmem
  have := List.dropWhile_eq_nil_iff.1 h _ hmem
  simp at this

theorem formatted_render (t : Instant) (s : List Char) : Formatted t s (render t s) := by
  fun_induction render t s with
  | case1 => exact .nil
  | case2 s h => exact .unclosed (not_mem_of_dropWhile h)
  | case3 s _ rest h _ ih =>
    have hclosed := Formatted.closed (takeWhile_inner s) ih
    rwa [← eq_of_dropWhile h] at hclosed
  | case4 c s hc value rest h _ ih =>
    obtain ⟨name, hs, hlongest⟩ := exists_longest h
    rw [hs] at hlongest ⊢
    exact .token hlongest ih
  | case5 c s hc h ih => exact .char hc (token?_eq_none_iff.1 h) ih

theorem render_closed {inner rest : List Char} (h : ']' ∉ inner) :
    render t ('[' :: (inner ++ ']' :: rest)) = inner ++ render t rest := by
  have hpos := inner_pos h
  have htake : (inner ++ ']' :: rest).takeWhile (· != ']') = inner := by
    rw [List.takeWhile_append_of_pos hpos, List.takeWhile_cons_of_neg (by simp), List.append_nil]
  have hdrop : (inner ++ ']' :: rest).dropWhile (· != ']') = ']' :: rest := by
    rw [List.dropWhile_append_of_pos hpos, List.dropWhile_cons_of_neg (by simp)]
  rw [render]
  split
  · next hnil =>
    rw [hdrop] at hnil
    cases hnil
  · next hcons =>
    rw [hdrop] at hcons
    obtain ⟨-, rfl⟩ := List.cons.inj hcons
    rw [htake]

theorem render_unclosed {inner : List Char} (h : ']' ∉ inner) :
    render t ('[' :: inner) = inner := by
  have hdrop : inner.dropWhile (· != ']') = [] := List.dropWhile_eq_nil_iff.2 (inner_pos h)
  rw [render]
  split
  · rfl
  · next hcons =>
    rw [hdrop] at hcons
    cases hcons

theorem render_of_token {c : Char} (hc : c ≠ '[') {value : Instant → String} {rest : List Char}
    (h : token? (c :: s) = some (value, rest)) :
    render t (c :: s) = (value t).toList ++ render t rest := by
  rw [render]
  · split
    · next heq =>
      rw [h] at heq
      obtain ⟨rfl, rfl⟩ := Prod.mk.inj (Option.some_inj.1 heq)
      rfl
    · next heq =>
      rw [h] at heq
      cases heq
  · exact hc

theorem render_of_no_token {c : Char} (hc : c ≠ '[') (h : token? (c :: s) = none) :
    render t (c :: s) = c :: render t s := by
  rw [render]
  · split
    · next heq =>
      rw [h] at heq
      cases heq
    · rfl
  · exact hc

/-- A token is at least one character, and no bracket. -/
theorem exists_cons_of_mem {name : String} {value : Instant → String} (h : (name, value) ∈ tokens)
    (rest : List Char) : ∃ c s, c ≠ '[' ∧ name.toList ++ rest = c :: s := by
  have hpos : 0 < name.length := length_pos_of_mem_tokens _ h
  rw [← String.length_toList] at hpos
  have hhead : name.toList.head?.all (· != '[') = true := head_ne_bracket _ h
  obtain ⟨c, s, hname⟩ := List.exists_cons_of_length_pos hpos
  rw [hname] at hhead ⊢
  exact ⟨c, s ++ rest, bne_iff_ne.1 hhead, rfl⟩

theorem formatted_iff {out : List Char} : Formatted t s out ↔ render t s = out := by
  refine ⟨fun h => ?_, fun h => h ▸ formatted_render t s⟩
  induction h with
  | nil => rw [render]
  | closed hinner _ ih => rw [render_closed hinner, ih]
  | unclosed hinner => exact render_unclosed hinner
  | @token name value rest _ hlongest _ ih =>
    have htoken := token?_eq_some hlongest
    obtain ⟨c, s, hc, hcons⟩ := exists_cons_of_mem hlongest.mem rest
    rw [hcons] at htoken ⊢
    rw [render_of_token hc htoken, ih]
  | char hc hnone _ ih => rw [render_of_no_token hc (token?_eq_none_iff.2 hnone), ih]

/-- A token alone stands for its value. -/
theorem format_token {name : String} {value : Instant → String} (h : (name, value) ∈ tokens)
    (t : Instant) : t.format name = value t := by
  have hlongest : Longest (name.toList ++ []) name value := by
    refine ⟨h, List.prefix_append .., fun other _ hother => ?_⟩
    rw [List.append_nil] at hother
    simpa only [String.length_toList] using hother.length_le
  have hrender : render t (name.toList ++ []) = (value t).toList ++ [] :=
    formatted_iff.1 (.token hlongest .nil)
  rw [List.append_nil, List.append_nil] at hrender
  rw [Instant.format, hrender, String.ofList_toList]

theorem format_of_token? {name : String} {value : Instant → String}
    (h : token? name.toList = some (value, [])) (t : Instant) : t.format name = value t := by
  obtain ⟨name', hname, hlongest⟩ := exists_longest h
  rw [List.append_nil, String.toList_inj] at hname
  exact hname ▸ format_token hlongest.mem t

/-! ### Going through the bytes -/

/-- The bytes from the place `n` on, unless that is within a character or past the end. -/
def cutAt? (s : List UInt8) (n : Nat) : Option (List UInt8) :=
  if n ≤ s.length ∧ s[n]?.all (!Utf8.isTail ·) = true then some (s.drop n) else none

/-- The bytes between two places. -/
def slice? (s : List UInt8) (first last : Nat) : Option (List UInt8) :=
  if first ≤ last ∧ (cutAt? s last).isSome then
    (cutAt? s first).map (·.take (last - first))
  else none

/-- One round: what is written for the start of a format, and the bytes behind it. -/
def step? (t : Instant) (s : List UInt8) : Option (List UInt8 × List UInt8) :=
  match (Utf8.decode s).head? with
  | some (some c) =>
    if c = '[' then do
      let inner ← cutAt? s 1
      match inner.idxOf? 0x5D with
      | some n => return (← slice? s 1 (1 + n), ← cutAt? s (n + 2))
      | none => return (inner, [])
    else
      match tokens.find? fun token => (Utf8.bytesOf token.1).isPrefixOf s with
      | some (name, value) =>
        return (Utf8.bytesOf (value t), ← cutAt? s (Utf8.bytesOf name).length)
      | none => return (utf8EncodeChar c, ← cutAt? s c.utf8Size)
  | _ => none

/-- Rounds until nothing is left. -/
inductive Loop (t : Instant) : List UInt8 → List UInt8 → Prop where
  | done : Loop t [] []
  | round {s written rest out : List UInt8} (hstep : step? t s = some (written, rest))
    (hrest : Loop t rest out) : Loop t s (written ++ out)

theorem Loop.unique {s out out' : List UInt8} (h : Loop t s out) (h' : Loop t s out') :
    out = out' := by
  induction h generalizing out' with
  | done =>
    cases h' with
    | done => rfl
    | round hstep _ => cases hstep
  | round hstep _ ih =>
    cases h' with
    | done => cases hstep
    | round hstep' hrest =>
      obtain ⟨rfl, rfl⟩ := Prod.mk.inj (Option.some_inj.1 (hstep.symm.trans hstep'))
      rw [ih hrest]

/-- Between characters a text can be cut. -/
theorem cutAt?_eq {l r : List Char} {bytes : List UInt8} {n : Nat}
    (hbytes : bytes = (l ++ r).flatMap utf8EncodeChar) (hn : n = (l.flatMap utf8EncodeChar).length) :
    cutAt? bytes n = some (r.flatMap utf8EncodeChar) := by
  rw [List.flatMap_append] at hbytes
  subst hbytes hn
  rw [cutAt?, if_pos, List.drop_left]
  refine ⟨by simp, ?_⟩
  rw [List.getElem?_append_right le_rfl, Nat.sub_self, ← List.head?_eq_getElem?, Option.all_eq_true]
  exact fun b hb => by rw [Utf8.not_tail_of_head hb]; rfl

theorem head?_decode (c : Char) (s : List Char) :
    (Utf8.decode ((c :: s).flatMap utf8EncodeChar)).head? = some (some c) := by
  rw [Utf8.decode_flatMap]
  rfl

theorem idxOf?_append {b : UInt8} {l : List UInt8} (h : b ∉ l) (r : List UInt8) :
    (l ++ b :: r).idxOf? b = some l.length := by
  induction l with
  | nil => simp [List.idxOf?_cons]
  | cons a l ih =>
    have hne : ¬ (a == b) = true := fun he => h (by simp [eq_of_beq he])
    rw [List.cons_append, List.idxOf?_cons, if_neg hne, ih (List.not_mem_of_not_mem_cons h)]
    rfl

theorem bracket_not_mem {inner : List Char} (h : ']' ∉ inner) :
    0x5D ∉ inner.flatMap utf8EncodeChar :=
  fun hmem => h ((Utf8.mem_flatMap_encodeChar_iff (by decide)).1 hmem)

theorem step?_closed {inner : List Char} (h : ']' ∉ inner) (rest : List Char) :
    step? t (('[' :: (inner ++ ']' :: rest)).flatMap utf8EncodeChar) =
      some (inner.flatMap utf8EncodeChar, rest.flatMap utf8EncodeChar) := by
  generalize hs : ('[' :: (inner ++ ']' :: rest)).flatMap utf8EncodeChar = bytes
  have hhead : (Utf8.decode bytes).head? = some (some '[') := hs ▸ head?_decode ..
  have hinner : cutAt? bytes 1 = some ((inner ++ ']' :: rest).flatMap utf8EncodeChar) :=
    cutAt?_eq (l := ['[']) hs.symm rfl
  have hindex : ((inner ++ ']' :: rest).flatMap utf8EncodeChar).idxOf? 0x5D =
      some (inner.flatMap utf8EncodeChar).length := by
    rw [List.flatMap_append]
    exact idxOf?_append (bracket_not_mem h) _
  have hbracket : cutAt? bytes (1 + (inner.flatMap utf8EncodeChar).length) =
      some ((']' :: rest).flatMap utf8EncodeChar) :=
    cutAt?_eq (l := '[' :: inner) hs.symm (by rw [List.flatMap_cons, List.length_append]; rfl)
  have hrest : cutAt? bytes ((inner.flatMap utf8EncodeChar).length + 2) =
      some (rest.flatMap utf8EncodeChar) := by
    refine cutAt?_eq (l := '[' :: (inner ++ [']'])) (by rw [← hs]; simp) ?_
    have hopening : (utf8EncodeChar '[').length = 1 := rfl
    have hclosing : ([']'].flatMap utf8EncodeChar).length = 1 := rfl
    rw [List.flatMap_cons, List.flatMap_append, List.length_append, List.length_append]
    omega
  have hslice : slice? bytes 1 (1 + (inner.flatMap utf8EncodeChar).length) =
      some (inner.flatMap utf8EncodeChar) := by
    rw [slice?, hbracket, hinner, if_pos ⟨Nat.le_add_right .., rfl⟩, Option.map_some,
      List.flatMap_append, Nat.add_sub_cancel_left, List.take_left]
  rw [step?, hhead]
  dsimp only
  rw [if_pos rfl]
  simp only [hinner, hindex, hslice, hrest, Option.bind_eq_bind, Option.bind_some]
  rfl

theorem step?_unclosed {inner : List Char} (h : ']' ∉ inner) :
    step? t (('[' :: inner).flatMap utf8EncodeChar) = some (inner.flatMap utf8EncodeChar, []) := by
  have hinner : cutAt? (('[' :: inner).flatMap utf8EncodeChar) 1 =
      some (inner.flatMap utf8EncodeChar) := cutAt?_eq (l := ['[']) rfl rfl
  have hindex : (inner.flatMap utf8EncodeChar).idxOf? 0x5D = none :=
    List.idxOf?_eq_none_iff.2 (bracket_not_mem h)
  rw [step?, head?_decode]
  dsimp only
  rw [if_pos rfl]
  simp only [hinner, hindex, Option.bind_eq_bind, Option.bind_some]
  rfl

theorem find?_bytes (s : List Char) :
    (tokens.find? fun token => (Utf8.bytesOf token.1).isPrefixOf (s.flatMap utf8EncodeChar)) =
      tokens.find? fun token => token.1.toList.isPrefixOf s := by
  congr 1
  funext token
  rw [Bool.eq_iff_iff, List.isPrefixOf_iff_prefix, List.isPrefixOf_iff_prefix]
  exact Utf8.flatMap_encodeChar_prefix_iff

theorem step?_token {name : String} {value : Instant → String} {rest : List Char}
    (h : Longest (name.toList ++ rest) name value) :
    step? t ((name.toList ++ rest).flatMap utf8EncodeChar) =
      some ((value t).toList.flatMap utf8EncodeChar, rest.flatMap utf8EncodeChar) := by
  have hfind := find?_tokens_iff.2 h
  have hrest : cutAt? ((name.toList ++ rest).flatMap utf8EncodeChar) (Utf8.bytesOf name).length =
      some (rest.flatMap utf8EncodeChar) := cutAt?_eq rfl rfl
  obtain ⟨c, s, hc, hcons⟩ := exists_cons_of_mem h.mem rest
  rw [hcons] at hfind hrest ⊢
  rw [step?, head?_decode]
  dsimp only
  rw [if_neg hc, find?_bytes, hfind]
  dsimp only
  rw [hrest]
  rfl

theorem step?_char {c : Char} (hc : c ≠ '[')
    (h : ∀ token ∈ tokens, ¬ token.1.toList <+: c :: s) :
    step? t ((c :: s).flatMap utf8EncodeChar) =
      some (utf8EncodeChar c, s.flatMap utf8EncodeChar) := by
  have hrest : cutAt? ((c :: s).flatMap utf8EncodeChar) c.utf8Size =
      some (s.flatMap utf8EncodeChar) := cutAt?_eq (l := [c]) rfl (by simp)
  rw [step?, head?_decode]
  dsimp only
  rw [if_neg hc, find?_bytes, find?_tokens_eq_none_iff.2 h]
  dsimp only
  rw [hrest]
  rfl

/-- What a format stands for is what its bytes are turned into, without a cut in a character. -/
theorem Formatted.loop {out : List Char} (h : Formatted t s out) :
    Loop t (s.flatMap utf8EncodeChar) (out.flatMap utf8EncodeChar) := by
  induction h with
  | nil => exact .done
  | @closed inner rest out hinner _ ih =>
    rw [List.flatMap_append]
    exact .round (step?_closed hinner rest) ih
  | @unclosed inner hinner =>
    rw [← List.append_nil (inner.flatMap _)]
    exact .round (step?_unclosed hinner) .done
  | token hlongest _ ih =>
    have hround := Loop.round (step?_token (t := t) hlongest) ih
    rwa [← List.flatMap_append] at hround
  | char hc hnone _ ih => exact .round (step?_char hc hnone) ih

/-- **A format is written with its longest tokens.** The text of an instant in a format is what the
format stands for and nothing else. Going through the bytes of the format comes to an end and never
cuts a character in two, and what it writes are the bytes of that text. -/
theorem format_takes_longest_tokens (t : Instant) (format : String) :
    (∀ out : String, Formatted t format.toList out.toList ↔ t.format format = out) ∧
      ∀ out, Loop t (Utf8.bytesOf format) out ↔ out = Utf8.bytesOf (t.format format) := by
  have hformat : (t.format format).toList = render t format.toList := String.toList_ofList
  refine ⟨fun out => ?_, fun out => ⟨fun h => h.unique ?_, fun h => h ▸ ?_⟩⟩
  · rw [formatted_iff, ← hformat, String.toList_inj]
  all_goals
    rw [Utf8.bytesOf, Utf8.bytesOf, hformat]
    exact (formatted_render t format.toList).loop

end ThemePress.Time.Format
