import Mathlib.Data.List.Chain
import ThemePress.Proofs.Render.Excerpts

/-! # What markup is left in plain text

Plain text has no ends of lines, no tabs and no blanks next to each other
(`singleBlanks_plainText`). Markup is looked for line by line, so a piece of it that goes over the
end of a line is not found. `Broken html` describes this in the HTML: a `<` that nothing closes on
its line, and a `>` on a later line that closes nothing there. Just then a `<` with a `>` somewhere
behind it is left in the plain text (`tag_plainText_iff`). What is left stands on one line, so a
second pass takes it away, and no further pass changes anything. -/

namespace ThemePress.Render

open ThemePress.Blog
open ThemePress.Template (Node)
open ThemePress.Text
open scoped List

namespace Excerpt

/-! ### Where a line ends before a piece of markup does -/

theorem gt_mem_of_closes {s t : List Char} (h : closes (s ++ t) = true) (hs : '\n' ∈ s) :
    '>' ∈ s := by
  rw [closes, List.find?_append, beq_iff_eq] at h
  cases hfirst : s.find? (fun c => c = '>' || c = '\n') with
  | none => exact absurd (List.find?_eq_none.1 hfirst '\n' hs) (by simp)
  | some c =>
    rw [hfirst, Option.some_or] at h
    obtain rfl := Option.some_inj.1 h
    exact List.mem_of_find?_eq_some hfirst

theorem line_of_not_closes {s t : List Char} (h : closes (s ++ '>' :: t) = false) :
    ∃ p q, s = p ++ '\n' :: q ∧ '>' ∉ p := by
  rw [closes, List.find?_append, beq_eq_false_iff_ne] at h
  cases hfirst : s.find? (fun c => c = '>' || c = '\n') with
  | none => simp [hfirst] at h
  | some c =>
    rw [hfirst, Option.some_or] at h
    obtain ⟨hc, p, q, rfl, hp⟩ := List.find?_eq_some_iff_append.1 hfirst
    obtain rfl : c = '\n' := by
      rcases (by simpa using hc : c = '>' ∨ c = '\n') with rfl | rfl
      · exact absurd rfl h
      · rfl
    exact ⟨p, q, rfl, fun hgt => by simpa using hp '>' hgt⟩

/-! ### Which brackets are left -/

/-- Each `<` of the text has a `>` or the end of its line behind it. -/
def Settled (s : List Char) : Prop :=
  ∀ rest, '<' :: rest <:+ s → '>' ∈ rest ∨ '\n' ∈ rest

theorem settled_nil : Settled [] := fun _ h => absurd (List.suffix_nil.1 h) (List.cons_ne_nil _ _)

theorem settled_cons {c : Char} {s : List Char} :
    Settled (c :: s) ↔ (c = '<' → '>' ∈ s ∨ '\n' ∈ s) ∧ Settled s := by
  simp only [Settled, List.suffix_cons_iff, List.cons.injEq]
  constructor
  · exact fun h => ⟨fun hc => h s (.inl ⟨hc.symm, rfl⟩), fun rest hrest => h rest (.inr hrest)⟩
  · rintro ⟨hc, hs⟩ rest (⟨rfl, rfl⟩ | hrest)
    · exact hc rfl
    · exact hs rest hrest

theorem settled_append_line (p : List Char) {s : List Char} :
    Settled (p ++ '\n' :: s) ↔ Settled s := by
  induction p with
  | nil => simp [settled_cons]
  | cons c p ih =>
    rw [List.cons_append, settled_cons, ih]
    exact and_iff_right fun _ => .inr (by simp)

/-- A place in a text is its start or a place behind its first character. -/
theorem exists_place_cons {x c : Char} {s : List Char} {P : List Char → List Char → Prop} :
    (∃ p q, c :: s = p ++ x :: q ∧ P p q) ↔
      c = x ∧ P [] s ∨ ∃ p q, s = p ++ x :: q ∧ P (c :: p) q := by
  constructor
  · rintro ⟨p, q, hs, hP⟩
    rcases List.cons_eq_append_iff.1 hs with ⟨rfl, hq⟩ | ⟨p, rfl, rfl⟩
    · obtain ⟨rfl, rfl⟩ := List.cons.inj hq
      exact .inl ⟨rfl, hP⟩
    · exact .inr ⟨p, q, rfl, hP⟩
  · rintro (⟨rfl, hP⟩ | ⟨p, q, rfl, hP⟩)
    · exact ⟨[], s, rfl, hP⟩
    · exact ⟨c :: p, q, rfl, hP⟩

/-- Markup ends at a `>`. -/
theorem ends_cons {c : Char} {s : List Char} :
    ((c != '>') = true → '>' ∈ s) ↔ '>' ∈ c :: s := by
  by_cases hc : c = '>'
  · simp [hc]
  · simp [hc, Ne.symm hc]

/-- A `>` is left when what leads up to it is settled; within markup, the markup ends before it. -/
theorem gt_mem_dropMarkup_iff {inside : Bool} {s : List Char} :
    '>' ∈ dropMarkup inside s ↔
      ∃ p q, s = p ++ '>' :: q ∧ (inside = true → '>' ∈ p) ∧ Settled p := by
  fun_induction dropMarkup inside s with
  | case1 => simp
  | case2 c s ih =>
    rw [ih, exists_place_cons, or_iff_right (by simp)]
    refine exists₂_congr fun p q => and_congr_right fun _ => ?_
    rw [ends_cons, settled_cons, forall_prop_of_true rfl]
    refine and_congr_right fun hp => (and_iff_right fun hc => .inl ?_).symm
    exact (List.mem_cons.1 hp).resolve_left (by simp [hc])
  | case3 inside c s hinside h ih =>
    -- the `<` starts markup, which ends before the end of the line
    obtain ⟨hc, hcloses⟩ := by simpa using h
    rw [ih, exists_place_cons, or_iff_right (by simp [hc])]
    refine exists₂_congr fun p q => and_congr_right fun hs => ⟨fun ⟨hp, hsettled⟩ => ?_,
      fun ⟨_, hsettled⟩ => ?_⟩
    · exact ⟨(absurd · hinside), settled_cons.2 ⟨fun _ => .inl (hp rfl), hsettled⟩⟩
    · obtain ⟨hopen, hsettled⟩ := settled_cons.1 hsettled
      exact ⟨fun _ => (hopen hc).elim id (gt_mem_of_closes (hs ▸ hcloses)), hsettled⟩
  | case4 inside c s hinside h ih =>
    rw [List.mem_cons, ih, exists_place_cons]
    refine or_congr ⟨fun hc => ⟨hc.symm, (absurd · hinside), settled_nil⟩, fun hc => hc.1.symm⟩ ?_
    refine exists₂_congr fun p q => and_congr_right fun hs => and_congr (by simp [hinside]) ?_
    refine ⟨fun hsettled => settled_cons.2 ⟨fun hc => .inr ?_, hsettled⟩,
      fun hsettled => (settled_cons.1 hsettled).2⟩
    -- a `<` that stays has the end of its line before the `>`
    have hcloses : closes (p ++ '>' :: q) = false := by simpa [hc, hs] using h
    obtain ⟨_, _, rfl, _⟩ := line_of_not_closes hcloses
    simp

/-! ### Which tags are left -/

/-- Behind a `<`, its line ends before a `>`, and later comes a `>` that what stands in between
leaves alone. -/
def Opens (rest : List Char) : Prop :=
  ∃ line more behind, rest = line ++ '\n' :: (more ++ '>' :: behind) ∧ '>' ∉ line ∧ Settled more

/-- Some piece of markup in the text goes over the end of a line. -/
def Broken (html : List Char) : Prop :=
  ∃ before rest, html = before ++ '<' :: rest ∧ Opens rest

theorem not_closes_of_opens {s : List Char} (h : Opens s) : closes s = false := by
  obtain ⟨line, more, behind, rfl, hline, -⟩ := h
  by_contra hcloses
  rw [Bool.not_eq_false, List.append_cons] at hcloses
  exact hline (by simpa using gt_mem_of_closes hcloses (by simp))

theorem opens_iff {s : List Char} (h : closes s = false) : Opens s ↔ '>' ∈ dropMarkup false s := by
  rw [gt_mem_dropMarkup_iff]
  constructor
  · rintro ⟨line, more, behind, rfl, -, hmore⟩
    exact ⟨line ++ '\n' :: more, behind, by simp, nofun, (settled_append_line line).2 hmore⟩
  · rintro ⟨p, behind, rfl, -, hp⟩
    obtain ⟨line, more, rfl, hline⟩ := line_of_not_closes h
    exact ⟨line, more, behind, by simp, hline, (settled_append_line line).1 hp⟩

theorem tag_sublist_cons {c : Char} {s : List Char} :
    ['<', '>'] <+ c :: s ↔ c = '<' ∧ '>' ∈ s ∨ ['<', '>'] <+ s := by
  rw [List.sublist_cons_iff, or_comm]
  simp [eq_comm]

/-- **A tag is left just when a piece of markup goes over the end of a line.** Within markup, that
piece starts after the markup ends. -/
theorem tag_dropMarkup_iff {inside : Bool} {s : List Char} :
    ['<', '>'] <+ dropMarkup inside s ↔
      ∃ before rest, s = before ++ '<' :: rest ∧ (inside = true → '>' ∈ before) ∧ Opens rest := by
  fun_induction dropMarkup inside s with
  | case1 => simp
  | case2 c s ih =>
    rw [ih, exists_place_cons, or_iff_right (by simp)]
    refine exists₂_congr fun p q => and_congr_right fun _ => and_congr_left fun _ => ?_
    rw [ends_cons, forall_prop_of_true rfl]
  | case3 inside c s hinside h ih =>
    obtain ⟨hc, hcloses⟩ := by simpa using h
    have hopen : ¬ Opens s := fun ho => by simp [not_closes_of_opens ho] at hcloses
    rw [ih, exists_place_cons, or_iff_right fun ho => hopen ho.2.2]
    refine exists₂_congr fun p q => and_congr_right fun hs => and_congr_left fun ho => ?_
    refine iff_of_true (fun _ => ?_) (absurd · hinside)
    -- the `>` that ends this markup stands before any line that the next `<` leaves open
    obtain ⟨line, more, behind, rfl, hline, -⟩ := ho
    have hcloses : closes (p ++ '<' :: (line ++ ['\n']) ++ (more ++ '>' :: behind)) = true := by
      rw [← hcloses, hs]
      simp
    have hgt := gt_mem_of_closes hcloses (by simp)
    simpa [hline] using hgt
  | case4 inside c s hinside h ih =>
    rw [tag_sublist_cons, ih, exists_place_cons]
    refine or_congr (and_congr_right fun hc => ?_) ?_
    · rw [and_iff_right (absurd · hinside), opens_iff (by simpa [hc] using h)]
    · exact exists₂_congr fun p q => and_congr_right fun _ => and_congr_left fun _ => by
        simp [hinside]

/-! ### Blanks -/

/-- No two blanks stand next to each other. -/
def SingleBlanks (s : List Char) : Prop :=
  s.IsChain fun a b => ¬ (isBlank a = true ∧ isBlank b = true)

/-- No blank follows a run whose space is already there. -/
theorem head?_foldBlanks {inRun : Bool} {s : List Char}
    (h : inRun = true ∨ s.head?.any isBlank = false) :
    ∀ c ∈ (foldBlanks inRun s).head?, isBlank c = false := by
  induction s generalizing inRun with
  | nil => simp [foldBlanks]
  | cons c s ih =>
    rw [foldBlanks]
    by_cases hc : isBlank c = true
    · obtain rfl : inRun = true := h.resolve_right (by simp [hc])
      simpa [hc] using ih (.inl rfl)
    · simp [hc]

theorem singleBlanks_foldBlanks (inRun : Bool) (s : List Char) :
    SingleBlanks (foldBlanks inRun s) := by
  have hcons : ∀ {a : Char} {l : List Char}, (isBlank a = true → ∀ c ∈ l.head?, isBlank c = false) →
      SingleBlanks l → SingleBlanks (a :: l) := fun ha hl =>
    List.isChain_cons.2 ⟨fun b hb ⟨hblank, hb'⟩ => by simp [ha hblank b hb] at hb', hl⟩
  induction s generalizing inRun with
  | nil => exact .nil
  | cons c s ih =>
    rw [foldBlanks]
    split
    · next hc => exact hcons (fun hblank => by simp [hblank] at hc) (ih false)
    · split
      · exact ih true
      · split
        · exact hcons (fun _ => head?_foldBlanks (.inl rfl)) (ih true)
        · next hs => exact hcons (fun _ => head?_foldBlanks (.inr (by simpa using hs))) (ih false)

theorem foldBlanks_eq_self {s : List Char} (h : SingleBlanks s) : foldBlanks false s = s := by
  induction s with
  | nil => rfl
  | cons c s ih =>
    obtain ⟨hnext, hs⟩ := List.isChain_cons.1 h
    rw [foldBlanks, ih hs]
    cases hc : isBlank c with
    | false => rfl
    | true =>
      have hhead : s.head?.any isBlank = false := by
        cases hd : s.head? with
        | none => rfl
        | some d => simpa [hc] using hnext d hd
      simp [hhead]

theorem mem_foldBlanks {inRun : Bool} {s : List Char} {c : Char} (h : c ∈ foldBlanks inRun s) :
    c ∈ s ∨ c = ' ' := by
  induction s generalizing inRun with
  | nil => exact absurd h List.not_mem_nil
  | cons a s ih =>
    rw [foldBlanks] at h
    split_ifs at h
    · exact (List.mem_cons.1 h).elim (fun h => .inl (h ▸ List.mem_cons_self ..))
        fun h => (ih h).imp_left (List.mem_cons_of_mem _)
    · exact (ih h).imp_left (List.mem_cons_of_mem _)
    · exact (List.mem_cons.1 h).elim .inr fun h => (ih h).imp_left (List.mem_cons_of_mem _)
    · exact (List.mem_cons.1 h).elim (fun h => .inl (h ▸ List.mem_cons_self ..))
        fun h => (ih h).imp_left (List.mem_cons_of_mem _)

theorem filter_foldBlanks (inRun : Bool) (s : List Char) :
    (foldBlanks inRun s).filter (!isBlank ·) = s.filter (!isBlank ·) := by
  induction s generalizing inRun with
  | nil => rfl
  | cons c s ih =>
    rw [foldBlanks]
    have hspace : isBlank ' ' = true := by decide
    split_ifs with hc <;> simp [hc, hspace, ih]

theorem filter_flatten (s : List Char) :
    (s.map flatten).filter (!isBlank ·) = s.filter (!isBlank ·) := by
  induction s with
  | nil => rfl
  | cons c s ih =>
    rw [List.map_cons, flatten]
    split
    · next hc =>
      have hblank : isBlank c = true := by rcases hc with rfl | rfl <;> decide
      rw [List.filter_cons_of_neg (by decide), List.filter_cons_of_neg (by simp [hblank]), ih]
    · rw [List.filter_cons, List.filter_cons, ih]

/-! ### Plain text -/

theorem singleBlanks_plainText (html : List Char) : SingleBlanks (plainText html) :=
  singleBlanks_foldBlanks _ _

theorem flat_plainText (html : List Char) : '\n' ∉ plainText html ∧ '\t' ∉ plainText html := by
  have hflat : ∀ c ∈ plainText html, c ≠ '\n' ∧ c ≠ '\t' := by
    intro c hc
    rcases mem_foldBlanks hc with hc | rfl
    · obtain ⟨a, -, rfl⟩ := List.mem_map.1 hc
      unfold flatten
      split
      · decide
      · next ha => exact not_or.1 ha
    · decide
  exact ⟨fun h => (hflat _ h).1 rfl, fun h => (hflat _ h).2 rfl⟩

/-- Brackets are not blank. -/
theorem tag_sublist_filter {s : List Char} :
    ['<', '>'] <+ s.filter (!isBlank ·) ↔ ['<', '>'] <+ s :=
  ⟨fun h => h.trans List.filter_sublist, fun h => h.filter (!isBlank ·)⟩

/-- **Plain text has a tag in it just when the HTML breaks a piece of markup over lines.** -/
theorem tag_plainText_iff {html : List Char} : ['<', '>'] <+ plainText html ↔ Broken html := by
  rw [plainText, ← tag_sublist_filter, filter_foldBlanks, filter_flatten, tag_sublist_filter,
    tag_dropMarkup_iff]
  exact exists₂_congr fun _ _ => and_congr_right fun _ => and_iff_right nofun

theorem not_broken_of_line {html : List Char} (h : '\n' ∉ html) : ¬ Broken html := by
  rintro ⟨before, _, rfl, line, more, behind, rfl, -⟩
  simp at h

theorem dropMarkup_eq_self {s : List Char} (h : ¬ ['<', '>'] <+ s) : dropMarkup false s = s := by
  induction s with
  | nil => rfl
  | cons c s ih =>
    rw [tag_sublist_cons, not_or] at h
    have hcloses : ¬ (c = '<' && closes s) = true := fun hc => by
      obtain ⟨hc, hs⟩ := by simpa using hc
      exact h.1 ⟨hc, List.mem_of_find?_eq_some (beq_iff_eq.1 hs)⟩
    rw [dropMarkup, if_neg Bool.false_ne_true, if_neg hcloses, ih h.2]

/-- Plain text without tags stays as it is. -/
theorem plainText_eq_self {s : List Char} (hflat : '\n' ∉ s ∧ '\t' ∉ s) (hblanks : SingleBlanks s)
    (htag : ¬ ['<', '>'] <+ s) : plainText s = s := by
  have hmap : s.map flatten = s := by
    refine (List.map_congr_left fun c hc => if_neg ?_).trans (List.map_id s)
    rintro (rfl | rfl)
    · exact hflat.1 hc
    · exact hflat.2 hc
  rw [plainText, dropMarkup_eq_self htag, hmap, foldBlanks_eq_self hblanks]

theorem plainText_plainText_iff {html : List Char} :
    plainText (plainText html) = plainText html ↔ ¬ Broken html := by
  rw [← tag_plainText_iff]
  constructor
  · intro h htag
    rw [← h, tag_plainText_iff] at htag
    exact not_broken_of_line (flat_plainText html).1 htag
  · exact plainText_eq_self (flat_plainText html) (singleBlanks_plainText html)

/-- An excerpt has no tag that the plain text does not have. -/
theorem tag_of_firstWords {k : Nat} {text : List Char} (h : ['<', '>'] <+ firstWords k text) :
    ['<', '>'] <+ text := by
  have hwords : (words (firstWords k text)).flatten <+ (words text).flatten := by
    rw [words_firstWords, ← List.take_append_drop k (words text), List.flatten_append,
      List.take_append_drop]
    exact List.sublist_append_left ..
  rw [flatten_words, flatten_words] at hwords
  exact tag_sublist_filter.1 ((tag_sublist_filter.2 h).trans hwords)

theorem tag_of_ofHtml {html : String} {characters count : Option String}
    (h : ['<', '>'] <+ (ofHtml html characters count).toList) :
    ['<', '>'] <+ plainText html.toList := by
  unfold ofHtml at h
  dsimp only at h
  split at h
  · rw [String.toList_ofList] at h
    exact h.trans (List.take_sublist ..)
  · rw [String.toList_ofList] at h
    exact tag_of_firstWords h

end Excerpt

/-- **Markup leaves plain text unless it is broken over lines.** Plain text never has an end of a
line, a tab or two blanks in a row. A `<` with a `>` behind it is left, in it and in the excerpts
that tags show of it, just when a piece of markup in the HTML goes over the end of a line; only then
does a second pass change it. After that pass no tag is left and no pass changes anything. -/
theorem plainText_markup (html : String) :
    let text := Excerpt.plainText html.toList
    ('\n' ∉ text ∧ '\t' ∉ text ∧ Excerpt.SingleBlanks text) ∧
      (['<', '>'] <+ text ↔ Excerpt.Broken html.toList) ∧
      (Excerpt.plainText text = text ↔ ¬ Excerpt.Broken html.toList) ∧
      (¬ ['<', '>'] <+ Excerpt.plainText text ∧
        Excerpt.plainText (Excerpt.plainText text) = Excerpt.plainText text) ∧
      ∀ (n : Node) (job : Job) (c : Context) (post : Post), n.name = "excerpt" → c.scope = .post →
        c.post? job.page = some post → post.html = html →
        ∃ output : String, evaluate job job.inside n c = (Utf8.bytesOf output, c) ∧
          (['<', '>'] <+ output.toList → Excerpt.Broken html.toList) := by
  intro text
  have hflat := Excerpt.flat_plainText html.toList
  have hline := Excerpt.not_broken_of_line hflat.1
  refine ⟨⟨hflat.1, hflat.2, Excerpt.singleBlanks_plainText _⟩, Excerpt.tag_plainText_iff,
    Excerpt.plainText_plainText_iff, ⟨?_, Excerpt.plainText_plainText_iff.2 hline⟩, ?_⟩
  · exact fun htag => hline (Excerpt.tag_plainText_iff.1 htag)
  · rintro n job c post hn hscope hpost rfl
    exact ⟨_, evaluate_excerpt hn job hscope hpost,
      fun htag => Excerpt.tag_plainText_iff.1 (Excerpt.tag_of_ofHtml htag)⟩

/-- A page with one post. -/
def pageOfPost (html : String) : Page where
  kind := .post
  blog := {}
  posts := [{ id := 1, html }]

/-- Markup that ends on its line is not shown, nested or not. -/
theorem plainText_markup_on_lines :
    let job : Job := { page := pageOfPost "<p>one\n<<b>two</b></p>", registry := .empty "" }
    ∃ output : String, evaluate job job.inside (Node.leaf "excerpt" true 0) (.start .post) =
        (Utf8.bytesOf output, .start .post) ∧ ¬ ['<', '>'] <+ output.toList := by
  intro job
  obtain ⟨-, htag, -, -, hshown⟩ := plainText_markup "<p>one\n<<b>two</b></p>"
  obtain ⟨output, hevaluate, hbroken⟩ := hshown (Node.leaf "excerpt" true 0) job (.start .post)
    { id := 1, html := "<p>one\n<<b>two</b></p>" } rfl rfl rfl rfl
  exact ⟨output, hevaluate, fun h => absurd (htag.2 (hbroken h)) (by decide)⟩

/-- **A tag with an end of a line in it is shown.** The next pass would take it away. -/
theorem excerpt_of_broken_tag :
    let html := "<p\nclass=\"x\">Hi</p>"
    let job : Job := { page := pageOfPost html, registry := .empty "" }
    evaluate job job.inside (Node.leaf "excerpt" false 0) (.start .post) =
        (Utf8.bytesOf "<p class=\"x\">Hi", .start .post) ∧
      Excerpt.plainText html.toList = "<p class=\"x\">Hi".toList ∧
      Excerpt.plainText (Excerpt.plainText html.toList) = "Hi".toList := by
  intro html job
  have hshown : Excerpt.ofHtml html none none = "<p class=\"x\">Hi" := by decide +kernel
  have hpost : (Context.start .post).post? job.page = some { id := 1, html } := rfl
  have hevaluate := evaluate_excerpt (n := Node.leaf "excerpt" false 0) rfl job rfl hpost
  exact ⟨hshown ▸ hevaluate, by decide, by decide⟩

end ThemePress.Render
