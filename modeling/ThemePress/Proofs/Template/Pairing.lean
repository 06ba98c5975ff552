import ThemePress.Proofs.Template.Buffer
import ThemePress.Proofs.Template.Scanned
import ThemePress.Proofs.Template.Tags
import ThemePress.Proofs.Text.Words

/-! # Pairing blocks with a stack

A reader that sees every tag once pairs opening and close tags with a stack of the blocks that stand
open: `Pairing.read` takes one tag, `stackPairs` all tags of a sequence. Scanning knows no stack. It
looks for the close tag of one block, counting tags of that block's name only, and starts again with
what lies inside.

Both find the same pairs. The reader on a block's inside behaves as if the block itself were not on
its stack, as long as no close tag of it is met (`readAll_under`): close tags of that name meet
another block of it above, and all others look past it. -/

namespace ThemePress.Template

open ThemePress.Text

/-! ### Names -/

/-- An opening tag in whose text a further `#` follows its leading ones after blanks. -/
def Tag.IsSplitOpener (t : Tag) : Prop :=
  t.kind = .blockOpen ∧
    ((t.inner.toList.dropWhile (· == '#')).dropWhile isBlank).head? = some '#'

instance (t : Tag) : Decidable t.IsSplitOpener :=
  inferInstanceAs (Decidable (_ ∧ _))

theorem Tag.openName_eq {t : Tag} (hk : t.kind = .blockOpen) (h : ¬ t.IsSplitOpener) :
    t.openName = Tag.blockName t.inner := by
  have hs : ((t.inner.toList.dropWhile (· == '#')).dropWhile isBlank).head? ≠ some '#' :=
    fun hs => h ⟨hk, hs⟩
  unfold openName blockText blockName trim
  simp only [String.toList_ofList]
  generalize t.inner.toList.dropWhile (· == '#') = s at hs ⊢
  have hd : (trimChars s).dropWhile (· == '#') = trimChars s := by
    obtain ⟨u, hu, -⟩ := dropTail_append isBlank (s.dropWhile isBlank)
    rw [hu] at hs
    unfold trimChars
    cases hc : dropTail isBlank (s.dropWhile isBlank) with
    | nil => rfl
    | cons c v =>
      rw [hc] at hs
      exact List.dropWhile_cons_of_neg (by simpa using hs)
  rw [hd, words_trimChars]

/-! ### Reading tags with a stack -/

/-- The opening tags of the blocks that stand open, innermost first, and the pairs of opening and
close tag found so far. -/
structure Pairing where
  stack : List Placed
  pairs : List (Placed × Placed)

/-- The name of the block that a tag opens. -/
def Placed.blockName (t : Placed) : String :=
  Tag.blockName t.tag.inner

namespace Pairing

/-- The names of the blocks that stand open. -/
def names (p : Pairing) : List String :=
  p.stack.map Placed.blockName

/-- Takes one tag. A close tag closes the innermost open block if it has its name, counts for
nothing if no open block has its name, and is refused otherwise. -/
def read (p : Pairing) (t : Placed) : Option Pairing :=
  match t.tag.kind with
  | .blockOpen => some { p with stack := t :: p.stack }
  | .blockClose =>
    match p.stack with
    | [] => some p
    | opener :: stack =>
      if opener.blockName = Tag.closeName t.tag.inner then
        some ⟨stack, p.pairs ++ [(opener, t)]⟩
      else if Tag.closeName t.tag.inner ∈ stack.map Placed.blockName then none
      else some p
  | _ => some p

/-- Takes one tag after the other. -/
def readAll (p : Pairing) (ts : List Placed) : Option Pairing :=
  ts.foldlM read p

theorem readAll_nil (p : Pairing) : p.readAll [] = some p := rfl

theorem readAll_cons (p : Pairing) (t : Placed) (ts : List Placed) :
    p.readAll (t :: ts) = (p.read t).bind (readAll · ts) := rfl

/-- The same with one more block open around all others. -/
def under (bottom : Placed) (p : Pairing) : Pairing :=
  { p with stack := p.stack ++ [bottom] }

end Pairing

/-- The opening tags among tags. -/
def openers (ts : List Placed) : List Placed :=
  ts.filter (·.tag.kind = .blockOpen)

/-- The pairs of opening and close tag of a sequence, if every block that is opened in it is closed
before those around it. -/
def stackPairs (data : List UInt8) : Option (List (Placed × Placed)) :=
  (Pairing.readAll ⟨[], []⟩ (tags data)).bind fun p =>
    if p.stack = [] then some p.pairs else none

namespace Pairing

/-! ### Reading the inside of a block -/

section
variable {bottom t : Placed} {p : Pairing} {depth : Nat}

/-- The tag that closes the block at the bottom. -/
theorem read_under_none
    (hd : depthAfter bottom.blockName (p.names.count bottom.blockName) t.tag = none) :
    (p.under bottom).read t =
      if p.stack = [] then some ⟨[], p.pairs ++ [(bottom, t)]⟩ else none := by
  obtain ⟨hk, hc, h0⟩ := depthAfter_eq_none_iff.1 hd
  have hn : bottom.blockName ∉ p.names := List.count_eq_zero.1 h0
  unfold read under
  rw [hk]
  cases hs : p.stack with
  | nil => simp [hc]
  | cons opener stack =>
    have ho : opener.blockName ≠ bottom.blockName := by
      intro ho
      exact hn (by simp [names, hs, ho])
    simp [hc, ho]

/-- A close tag that does not close the block at the bottom is taken as if it were not there: one of
its name meets another block of that name above it. -/
theorem read_under_close (hk : t.tag.kind = .blockClose)
    (hc : p.names.count bottom.blockName =
      depth + if Tag.closeName t.tag.inner = bottom.blockName then 1 else 0) :
    (p.under bottom).read t = (p.read t).map (under bottom) ∧
      ∀ q, p.read t = some q → q.names.count bottom.blockName = depth := by
  unfold read under
  rw [hk]
  cases hs : p.stack with
  | nil =>
    have h0 : p.names = [] := by simp [names, hs]
    rw [h0, List.count_nil] at hc
    have hn : Tag.closeName t.tag.inner ≠ bottom.blockName := by
      intro hn
      rw [if_pos hn] at hc
      omega
    rw [if_neg hn, Nat.add_zero] at hc
    simp [hs, h0, hn.symm, hc]
  | cons opener stack =>
    have hp : p.names = opener.blockName :: stack.map Placed.blockName := by simp [names, hs]
    rw [hp, List.count_cons] at hc
    by_cases ho : opener.blockName = Tag.closeName t.tag.inner
    · refine ⟨by simp [ho], fun q hq => ?_⟩
      have hq : ⟨stack, p.pairs ++ [(opener, t)]⟩ = q := by simpa [ho] using hq
      rw [← hq, names]
      simpa [ho] using hc
    · have hm : Tag.closeName t.tag.inner ∈ (stack ++ [bottom]).map Placed.blockName ↔
          Tag.closeName t.tag.inner ∈ stack.map Placed.blockName := by
        rw [List.map_append, List.mem_append]
        refine ⟨fun h => h.elim id fun h => ?_, .inl⟩
        have hn : Tag.closeName t.tag.inner = bottom.blockName := List.mem_singleton.1 h
        have hne : (opener.blockName == bottom.blockName) = false := by simpa [← hn] using ho
        rw [if_pos hn, hne, if_neg Bool.false_ne_true] at hc
        rw [hn]
        exact List.count_pos_iff.1 (by omega)
      refine ⟨?_, fun q hq => ?_⟩
      · simp only [List.cons_append, if_neg ho, hm]
        split <;> simp [hs]
      · simp only [if_neg ho] at hq
        split at hq
        · cases hq
        · rename_i hm'
          obtain rfl := Option.some.inj hq
          have hn : Tag.closeName t.tag.inner ≠ bottom.blockName := by
            intro hn
            refine hm' (hm.1 ?_)
            simp [hn]
          rw [hp, List.count_cons, hc, if_neg hn, Nat.add_zero]

/-- Any tag but the one that closes the block at the bottom is taken as if that block were not
there. -/
theorem read_under_some
    (hd : depthAfter bottom.blockName (p.names.count bottom.blockName) t.tag = some depth) :
    (p.under bottom).read t = (p.read t).map (under bottom) ∧
      ∀ q, p.read t = some q → q.names.count bottom.blockName = depth := by
  cases hk : t.tag.kind with
  | comment | divider | value =>
    have hd' : p.names.count bottom.blockName = depth := by simpa [depthAfter, hk] using hd
    simp [read, hk, hd']
  | blockOpen =>
    rw [depthAfter_open hk, Option.some.injEq] at hd
    change _ + (if t.blockName = bottom.blockName then 1 else 0) = _ at hd
    refine ⟨by simp [read, hk, under], fun q hq => ?_⟩
    have hq : ⟨t :: p.stack, p.pairs⟩ = q := by simpa [read, hk] using hq
    rw [← hq, names, List.map_cons, List.count_cons, ← hd, names]
    by_cases hn : t.blockName = bottom.blockName
    · rw [if_pos (beq_iff_eq.2 hn), if_pos hn]
    · rw [if_neg (by simpa using hn), if_neg hn]
  | blockClose => exact read_under_close hk ((depthAfter_close_eq_some_iff hk).1 hd)

/-- **Up to the tag that closes it, a block does not matter for what lies inside.** -/
theorem readAll_under_none {ts : List Placed}
    (h : splitAtCloser bottom.blockName (p.names.count bottom.blockName) ts = none) :
    (p.under bottom).readAll ts = (p.readAll ts).map (under bottom) := by
  induction ts generalizing p with
  | nil => rfl
  | cons t ts ih =>
    rw [splitAtCloser] at h
    cases hd : depthAfter bottom.blockName (p.names.count bottom.blockName) t.tag with
    | none => simp [hd] at h
    | some depth =>
      obtain ⟨hr, hq⟩ := read_under_some hd
      simp only [hd, Option.map_eq_none_iff] at h
      rw [readAll_cons, readAll_cons, hr]
      cases hp : p.read t with
      | none => rfl
      | some q =>
        simp only [Option.map_some, Option.bind_some]
        exact ih (by rw [hq q hp]; exact h)

/-- **The tag that closes a block finds it innermost just when all inside is paired off.** -/
theorem readAll_under_some {ts inside after : List Placed} {closer : Placed}
    (h : splitAtCloser bottom.blockName (p.names.count bottom.blockName) ts =
      some (inside, closer, after)) :
    (p.under bottom).readAll ts = (p.readAll inside).bind fun q =>
      if q.stack = [] then readAll ⟨[], q.pairs ++ [(bottom, closer)]⟩ after else none := by
  induction ts generalizing p inside with
  | nil => simp [splitAtCloser] at h
  | cons t ts ih =>
    rw [splitAtCloser] at h
    cases hd : depthAfter bottom.blockName (p.names.count bottom.blockName) t.tag with
    | none =>
      simp only [hd, Option.some.injEq, Prod.mk.injEq] at h
      obtain ⟨rfl, rfl, rfl⟩ := h
      rw [readAll_cons, read_under_none hd, readAll_nil, Option.bind_some]
      split <;> rfl
    | some depth =>
      obtain ⟨hr, hq⟩ := read_under_some hd
      simp only [hd, Option.map_eq_some_iff, Prod.mk.injEq] at h
      obtain ⟨⟨i, c, a⟩, h', rfl, rfl, rfl⟩ := h
      rw [readAll_cons, readAll_cons, hr]
      cases hp : p.read t with
      | none => rfl
      | some q =>
        simp only [Option.map_some, Option.bind_some]
        exact ih (by rw [hq q hp]; exact h')

end

/-! ### Reading and scanning succeed together -/

theorem read_outside {t : Placed} (hk : t.tag.kind ≠ .blockOpen) (pairs : List (Placed × Placed)) :
    read ⟨[], pairs⟩ t = some ⟨[], pairs⟩ := by
  unfold read
  cases hk' : t.tag.kind with
  | blockOpen => exact absurd hk' hk
  | comment | blockClose | divider | value => rfl

theorem readAll_outside {t : Placed} (hk : t.tag.kind ≠ .blockOpen) (pairs : List (Placed × Placed))
    (ts : List Placed) : readAll ⟨[], pairs⟩ (t :: ts) = readAll ⟨[], pairs⟩ ts := by
  rw [readAll_cons, read_outside hk, Option.bind_some]

theorem readAll_open {t : Placed} (hk : t.tag.kind = .blockOpen) (pairs : List (Placed × Placed))
    (ts : List Placed) : readAll ⟨[], pairs⟩ (t :: ts) = (under t ⟨[], pairs⟩).readAll ts := by
  rw [readAll_cons, read, hk]
  rfl

/-- A block without a close tag is still open at the end. -/
theorem readAll_unclosed {t : Placed} (hk : t.tag.kind = .blockOpen) {ts : List Placed}
    (h : splitAtCloser t.blockName 0 ts = none) (pairs pairs' : List (Placed × Placed)) :
    readAll ⟨[], pairs⟩ (t :: ts) ≠ some ⟨[], pairs'⟩ := by
  rw [readAll_open hk, readAll_under_none h]
  intro h'
  obtain ⟨q, -, hq⟩ := Option.map_eq_some_iff.1 h'
  have := congrArg stack hq
  simp [under] at this

/-- A block with a close tag is paired off when its inside is. -/
theorem readAll_closed {t : Placed} (hk : t.tag.kind = .blockOpen) {ts inside after : List Placed}
    {closer : Placed} (h : splitAtCloser t.blockName 0 ts = some (inside, closer, after))
    (pairs pairs' : List (Placed × Placed)) :
    readAll ⟨[], pairs⟩ (t :: ts) = some ⟨[], pairs'⟩ ↔
      ∃ pairs₁, readAll ⟨[], pairs⟩ inside = some ⟨[], pairs₁⟩ ∧
        readAll ⟨[], pairs₁ ++ [(t, closer)]⟩ after = some ⟨[], pairs'⟩ := by
  rw [readAll_open hk, readAll_under_some h, Option.bind_eq_some_iff]
  constructor
  · rintro ⟨⟨stack, pairs₁⟩, h₁, h₂⟩
    split at h₂
    · rename_i hs
      obtain rfl : stack = [] := hs
      exact ⟨pairs₁, h₁, h₂⟩
    · cases h₂
  · rintro ⟨pairs₁, h₁, h₂⟩
    exact ⟨⟨[], pairs₁⟩, h₁, by rw [if_pos rfl]; exact h₂⟩

/-- **Scanning succeeds just when the stack is empty at the end.** -/
theorem ok_iff_readAll (start : Nat) (data : List UInt8) :
    ∀ (place : Nat) (pairs : List (Placed × Placed)),
      (∀ t ∈ placedTags place data, ¬ t.tag.IsSplitOpener) →
      ((∃ f, (scanFrom start data).value = .ok f) ↔
        ∃ pairs', readAll ⟨[], pairs⟩ (placedTags place data) = some ⟨[], pairs'⟩) := by
  induction start, data using scan_induction with
  | rest start data first =>
    intro place pairs _
    rw [scanFrom_rest first, placedTags_none first]
    exact ⟨fun _ => ⟨pairs, rfl⟩, fun _ => ⟨_, rfl⟩⟩
  | tag start data cut first kind ih =>
    intro place pairs hs
    obtain ⟨t, ht, hts⟩ := placedTags_cons first place
    rw [hts] at hs ⊢
    rw [readAll_outside (by rw [ht]; exact kind),
      ← ih _ _ fun t ht => hs t (List.mem_cons_of_mem _ ht)]
    constructor
    · rintro ⟨f, hf⟩
      obtain ⟨f', hf', -⟩ := (scanFrom_tag_ok_iff first kind).1 hf
      exact ⟨f', hf'⟩
    · rintro ⟨f', hf'⟩
      exact ⟨_, (scanFrom_tag_ok_iff first kind).2 ⟨f', hf', rfl⟩⟩
  | unclosed start data cut first kind closer =>
    intro place pairs hs
    obtain ⟨t, ht, hts⟩ := placedTags_cons first place
    rw [hts] at hs ⊢
    rw [scanFrom_unclosed first kind closer]
    rw [← ht] at kind closer
    rw [Tag.openName_eq kind (hs t (List.mem_cons_self ..))] at closer
    have hc := splitAtCloser_of_find?_none closer t.stop
    constructor
    · rintro ⟨f, hf⟩
      cases hf
    · rintro ⟨pairs', h⟩
      exact absurd h (readAll_unclosed kind hc pairs pairs')
  | block start data cut e first kind closer ih₁ ih₂ =>
    intro place pairs hs
    obtain ⟨t, ht, hts⟩ := placedTags_cons first place
    rw [hts] at hs ⊢
    have hk : t.tag.kind = .blockOpen := by rw [ht]; exact kind
    have closer' := closer
    rw [← ht, Tag.openName_eq hk (hs t (List.mem_cons_self ..))] at closer'
    obtain ⟨c, -, -, hc⟩ := splitAtCloser_of_find? closer' t.stop
    rw [splitAtCloser_eq hc] at hs
    have hi := ih₁ t.stop pairs fun t ht => hs t (by simp [ht])
    have ha := fun pairs₁ => ih₂ c.stop pairs₁ fun t ht => hs t (by simp [ht])
    constructor
    · rintro ⟨f, hf⟩
      obtain ⟨g, f', hg, hf', -⟩ := (scanFrom_block_ok_iff first kind closer).1 hf
      obtain ⟨pairs₁, h₁⟩ := hi.1 ⟨g, hg⟩
      obtain ⟨pairs', h₂⟩ := (ha _).1 ⟨f', hf'⟩
      exact ⟨pairs', (readAll_closed hk hc pairs pairs').2 ⟨pairs₁, h₁, h₂⟩⟩
    · rintro ⟨pairs', h⟩
      obtain ⟨pairs₁, h₁, h₂⟩ := (readAll_closed hk hc pairs pairs').1 h
      obtain ⟨g, hg⟩ := hi.2 ⟨pairs₁, h₁⟩
      obtain ⟨f', hf'⟩ := (ha _).2 ⟨pairs', h₂⟩
      exact ⟨_, (scanFrom_block_ok_iff first kind closer).2 ⟨g, f', hg, hf', rfl⟩⟩

/-! ### What is paired off -/

/-- Taking a tag, an opening tag is either kept on the stack or put into a pair. -/
theorem perm_of_read {p q : Pairing} {t : Placed} (h : p.read t = some q) :
    (q.stack ++ q.pairs.map Prod.fst).Perm
      (openers [t] ++ (p.stack ++ p.pairs.map Prod.fst)) := by
  unfold read at h
  cases hk : t.tag.kind with
  | comment | divider | value =>
    rw [hk] at h
    obtain rfl := Option.some.inj h
    simp [openers, hk]
  | blockOpen =>
    rw [hk] at h
    obtain rfl := Option.some.inj h
    simp [openers, hk]
  | blockClose =>
    rw [hk] at h
    cases hs : p.stack with
    | nil =>
      simp only [hs, Option.some.injEq] at h
      subst h
      simp [openers, hk, hs]
    | cons opener stack =>
      simp only [hs] at h
      split at h
      · obtain rfl := Option.some.inj h
        have ho : openers [t] = [] := by simp [openers, hk]
        rw [ho, List.nil_append, List.map_append, ← List.append_assoc]
        exact List.perm_append_singleton opener (stack ++ p.pairs.map Prod.fst)
      · split at h
        · cases h
        · obtain rfl := Option.some.inj h
          simp [openers, hk, hs]

theorem perm_of_readAll {p q : Pairing} {ts : List Placed} (h : p.readAll ts = some q) :
    (q.stack ++ q.pairs.map Prod.fst).Perm
      (openers ts ++ (p.stack ++ p.pairs.map Prod.fst)) := by
  induction ts generalizing p with
  | nil =>
    obtain rfl := Option.some.inj h
    exact List.Perm.refl _
  | cons t ts ih =>
    rw [readAll_cons] at h
    obtain ⟨r, hr, h⟩ := Option.bind_eq_some_iff.1 h
    have ho : openers (t :: ts) = openers [t] ++ openers ts :=
      List.filter_append [t] ts
    calc (q.stack ++ q.pairs.map Prod.fst).Perm _ := ih h
      (openers ts ++ (r.stack ++ r.pairs.map Prod.fst)).Perm _ := (perm_of_read hr).append_left _
      (openers ts ++ (openers [t] ++ (p.stack ++ p.pairs.map Prod.fst))).Perm _ :=
        List.perm_append_comm_assoc ..
      _ = openers (t :: ts) ++ (p.stack ++ p.pairs.map Prod.fst) := by rw [ho, List.append_assoc]

/-- **The stack pairs an opening tag with the close tag that counting finds for it.** -/
theorem pairs_eq_blockPairs {ts : List Placed} (hs : ∀ t ∈ ts, ¬ t.tag.IsSplitOpener)
    {pairs pairs' : List (Placed × Placed)} (h : readAll ⟨[], pairs⟩ ts = some ⟨[], pairs'⟩) :
    pairs' = pairs ++ blockPairs ts := by
  match ts with
  | [] =>
    obtain rfl : pairs = pairs' := by simpa [readAll_nil] using h
    rw [blockPairs_nil, List.append_nil]
  | t :: ts =>
    by_cases hk : t.tag.kind = .blockOpen
    · cases hc : splitAtCloser t.blockName 0 ts with
      | none => exact absurd h (readAll_unclosed hk hc pairs pairs')
      | some r =>
        obtain ⟨inside, closer, after⟩ := r
        obtain ⟨pairs₁, h₁, h₂⟩ := (readAll_closed hk hc pairs pairs').1 h
        have hts := splitAtCloser_eq hc
        have := congrArg List.length hts
        simp only [List.length_append, List.length_cons] at this
        have e₁ := pairs_eq_blockPairs (fun u hu => hs u (by simp [hts, hu])) h₁
        have e₂ := pairs_eq_blockPairs (fun u hu => hs u (by simp [hts, hu])) h₂
        have hn : t.tag.openName = t.blockName := Tag.openName_eq hk (hs t (List.mem_cons_self ..))
        rw [← hn] at hc
        rw [e₂, e₁, blockPairs_block hk hc]
        simp
    · rw [readAll_outside hk] at h
      rw [blockPairs_tag hk]
      exact pairs_eq_blockPairs (fun u hu => hs u (List.mem_cons_of_mem _ hu)) h
termination_by ts.length

end Pairing

/-! ### Scanning and reading with a stack -/

theorem stackPairs_eq_some_iff {data : List UInt8} {pairs : List (Placed × Placed)} :
    stackPairs data = some pairs ↔
      Pairing.readAll ⟨[], []⟩ (tags data) = some ⟨[], pairs⟩ := by
  unfold stackPairs
  cases h : Pairing.readAll ⟨[], []⟩ (tags data) with
  | none => simp
  | some p =>
    obtain ⟨stack, pairs'⟩ := p
    by_cases hs : stack = [] <;> simp [hs]

/-- **Scanning pairs the tags that one pass with a stack pairs.** -/
theorem scan_pairs_as_stack (data : List UInt8) (h : ∀ t ∈ tags data, ¬ t.tag.IsSplitOpener) :
    (edit data 0 0 [] []).map (·.map Prod.fst) = scan data ∧
    ((∃ f, (scan data).value = .ok f) ↔ ∃ pairs, stackPairs data = some pairs) ∧
    (stackPairs data = none → ∃ name, (scan data).value = .error (.unterminatedBlock name)) ∧
    ∀ pairs, stackPairs data = some pairs →
      (pairs.map Prod.fst).Perm (openers (tags data)) ∧
      ∃ f, (edit data 0 0 [] []).value = .ok (f, pairs.map Match.ofPair) := by
  have hiff : (∃ f, (scan data).value = .ok f) ↔ ∃ pairs, stackPairs data = some pairs := by
    simp only [stackPairs_eq_some_iff]
    rw [tags_eq] at h ⊢
    exact Pairing.ok_iff_readAll 0 data 0 [] h
  refine ⟨?_, hiff, fun hn => ?_, fun pairs hp => ⟨?_, ?_⟩⟩
  · rw [edit_eq_scan]
    obtain ⟨warnings, value⟩ := scan data
    cases value <;> rfl
  · cases hv : (scan data).value with
    | error e =>
      obtain ⟨name⟩ := e
      exact ⟨name, rfl⟩
    | ok f =>
      obtain ⟨pairs, hp⟩ := hiff.1 ⟨f, hv⟩
      rw [hn] at hp
      cases hp
  · have := Pairing.perm_of_readAll (stackPairs_eq_some_iff.1 hp)
    simpa using this
  · obtain ⟨f, hf⟩ := hiff.2 ⟨pairs, hp⟩
    have e := Pairing.pairs_eq_blockPairs h (stackPairs_eq_some_iff.1 hp)
    rw [edit_eq_scan, e]
    exact ⟨f, by simp [Reported.map, hf, Except.map]⟩

/-- A block of the name `a` in one of the same name, and a close tag of neither. -/
def nested : List UInt8 :=
  ("\x7b\x7b#a\x7d\x7d\x7b\x7b#a\x7d\x7d\x7b\x7b/b\x7d\x7d" ++
    "\x7b\x7b/a\x7d\x7d\x7b\x7b/a\x7d\x7d").toUTF8.toList

theorem scan_pairs_as_stack_nested :
    (∀ t ∈ tags nested, ¬ t.tag.IsSplitOpener) ∧
    ∃ f, (edit nested 0 0 [] []).value =
      .ok (f, [⟨⟨6, 12, ⟨"#a", false⟩⟩, 18, 24⟩, ⟨⟨0, 6, ⟨"#a", false⟩⟩, 24, 30⟩]) := by
  have h : ∀ t ∈ tags nested, ¬ t.tag.IsSplitOpener := by decide +kernel
  have hp : stackPairs nested = some [(⟨6, 12, ⟨"#a", false⟩⟩, ⟨18, 24, ⟨"/a", false⟩⟩),
      (⟨0, 6, ⟨"#a", false⟩⟩, ⟨24, 30, ⟨"/a", false⟩⟩)] := by decide +kernel
  exact ⟨h, ((scan_pairs_as_stack nested h).2.2.2 _ hp).2⟩

end ThemePress.Template
