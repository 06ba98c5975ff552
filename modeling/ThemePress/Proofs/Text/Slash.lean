import Mathlib.Data.List.TakeWhile
import ThemePress.Proofs.Text.Words
import ThemePress.Text.Slash

/-! # The ends of a text

What `trim` and `trimSlashes` leave has nothing to be trimmed at its ends, and nothing else is left
as it is (`trimChars_eq_self_iff`, `trimSlashes_eq_self_iff`). A base and a path are `joined` when
one slash is between them, whatever slashes each has there (`eq_joined_iff`).

One after the other, trimming blanks and trimming slashes can leave more: a blank that stands in
front of the slashes at the end is in the way of the first and comes to the end by the second
(`Ragged`, `blank_at_end_iff`). -/

namespace ThemePress.Text

/-! ### Dropping an end -/

section
variable {α : Type} {p : α → Bool} {l t : List α}

theorem dropTail_isPrefix (p : α → Bool) (l : List α) : dropTail p l <+: l := by
  obtain ⟨t, ht, -⟩ := dropTail_append p l
  exact ⟨t, ht.symm⟩

theorem getLast?_dropTail : ∀ a ∈ (dropTail p l).getLast?, p a = false := by
  intro a ha
  have hhead := List.head?_dropWhile_not p l.reverse
  rw [dropTail, List.getLast?_reverse] at ha
  rw [Option.mem_def.1 ha] at hhead
  simpa using hhead

theorem dropTail_eq_self_iff : dropTail p l = l ↔ ∀ a ∈ l.getLast?, p a = false := by
  refine ⟨fun h => ?_, dropTail_eq_self⟩
  rw [← h]
  exact getLast?_dropTail

theorem dropTail_of_all (h : ∀ a ∈ l, p a = true) : dropTail p l = [] := by
  rw [dropTail, List.reverse_eq_nil_iff, List.dropWhile_eq_nil_iff]
  simpa using h

theorem dropTail_append_of_all (l : List α) (ht : ∀ a ∈ t, p a = true) :
    dropTail p (l ++ t) = dropTail p l := by
  rw [dropTail, List.reverse_append, List.dropWhile_append_of_pos (by simpa using ht), dropTail]

end

/-! ### Blanks -/

theorem trimChars_sublist (s : List Char) : (trimChars s).Sublist s :=
  (dropTail_isPrefix isBlank _).sublist.trans (List.dropWhile_sublist _)

theorem getLast?_trimChars (s : List Char) : ∀ c ∈ (trimChars s).getLast?, isBlank c = false :=
  getLast?_dropTail

/-- A part of a text that stands at its start starts as the text does. -/
theorem head?_of_isPrefix {s t : List Char} (h : s <+: t) : ∀ c ∈ s.head?, c ∈ t.head? := by
  obtain ⟨r, rfl⟩ := h
  cases s with
  | nil => simp
  | cons c s => simp

theorem head?_trimChars (s : List Char) : ∀ c ∈ (trimChars s).head?, isBlank c = false := by
  intro c hc
  have hhead := List.head?_dropWhile_not isBlank s
  rw [Option.mem_def.1 (head?_of_isPrefix (dropTail_isPrefix isBlank _) c hc)] at hhead
  simpa using hhead

/-- **A text is not trimmed just when it neither starts nor ends with a blank.** -/
theorem trimChars_eq_self_iff {s : List Char} : trimChars s = s ↔
    (∀ c ∈ s.head?, isBlank c = false) ∧ ∀ c ∈ s.getLast?, isBlank c = false := by
  constructor
  · intro h
    have hhead := head?_trimChars s
    have hlast := getLast?_trimChars s
    rw [h] at hhead hlast
    exact ⟨hhead, hlast⟩
  · rintro ⟨hhead, hlast⟩
    have hdrop : s.dropWhile isBlank = s := by
      cases s with
      | nil => rfl
      | cons c s => exact List.dropWhile_cons_of_neg (by simp [hhead c rfl])
    rw [trimChars, hdrop, dropTail_eq_self hlast]

theorem ofList_eq_self_iff {l : List Char} {s : String} :
    String.ofList l = s ↔ l = s.toList := by
  rw [← String.toList_inj, String.toList_ofList]

theorem trim_eq_self_iff {s : String} : trim s = s ↔
    (∀ c ∈ s.toList.head?, isBlank c = false) ∧ ∀ c ∈ s.toList.getLast?, isBlank c = false := by
  rw [← trimChars_eq_self_iff, trim, ofList_eq_self_iff]

theorem toList_trim (s : String) : (trim s).toList = trimChars s.toList :=
  String.toList_ofList

theorem trim_trim (s : String) : trim (trim s) = trim s := by
  rw [trim_eq_self_iff, toList_trim]
  exact ⟨head?_trimChars _, getLast?_trimChars _⟩

/-! ### Slashes -/

theorem toList_trimSlashes (s : String) :
    (trimSlashes s).toList = dropTail (· == '/') s.toList :=
  String.toList_ofList

theorem endsInSlash_eq_false_iff {s : String} :
    endsInSlash s = false ↔ ∀ c ∈ s.toList.getLast?, (c == '/') = false := by
  unfold endsInSlash
  cases s.toList.getLast? <;> simp

/-- **A text keeps its end just when no slash stands there.** -/
theorem trimSlashes_eq_self_iff {s : String} : trimSlashes s = s ↔ endsInSlash s = false := by
  rw [endsInSlash_eq_false_iff, ← dropTail_eq_self_iff, trimSlashes, ofList_eq_self_iff]

theorem endsInSlash_trimSlashes (s : String) : endsInSlash (trimSlashes s) = false := by
  rw [endsInSlash_eq_false_iff, toList_trimSlashes]
  exact getLast?_dropTail

theorem endsInSlash_slashed (s : String) : endsInSlash (slashed s) = true := by
  unfold slashed
  split
  · assumption
  · simp [endsInSlash]

theorem slashed_slashed (s : String) : slashed (slashed s) = slashed s := by
  conv => lhs; rw [slashed, if_pos (endsInSlash_slashed s)]

/-! ### Joining at slashes -/

/-- The number of slashes at the end. -/
def slashesAtEnd (s : String) : Nat :=
  (s.toList.reverse.takeWhile (· == '/')).length

/-- The number of slashes at the start. -/
def slashesAtStart (s : String) : Nat :=
  (s.toList.takeWhile (· == '/')).length

theorem takeWhile_slash (l : List Char) :
    l.takeWhile (· == '/') = List.replicate (l.takeWhile (· == '/')).length '/' :=
  List.eq_replicate_of_mem fun c hc => by simpa using List.mem_takeWhile_imp hc

/-- A text is what is left without the slashes at its end, and these. -/
theorem toList_eq_trimSlashes_append (s : String) :
    s.toList = (trimSlashes s).toList ++ List.replicate (slashesAtEnd s) '/' := by
  rw [toList_trimSlashes, slashesAtEnd, dropTail, ← List.reverse_replicate, ← takeWhile_slash,
    ← List.reverse_append, List.takeWhile_append_dropWhile, List.reverse_reverse]

/-- A text is the slashes at its start, and what follows them. -/
theorem toList_eq_slashes_append (s : String) :
    s.toList = List.replicate (slashesAtStart s) '/' ++ s.toList.dropWhile (· == '/') := by
  rw [slashesAtStart, ← takeWhile_slash, List.takeWhile_append_dropWhile]

/-- The base without slashes at its end, one slash, and the path without slashes at its start. -/
def joined (base path : String) : String :=
  trimSlashes base ++ "/" ++ String.ofList (path.toList.dropWhile (· == '/'))

theorem toList_joined (base path : String) : (joined base path).toList =
    (trimSlashes base).toList ++ ('/' :: path.toList.dropWhile (· == '/')) := by
  simp [joined]

/-- A base and a path with some number of slashes in between are joined when it is one. -/
theorem eq_joined_iff {s base path : String} {count : Nat} (hs : s.toList =
      (trimSlashes base).toList ++ (List.replicate count '/' ++ path.toList.dropWhile (· == '/'))) :
    s = joined base path ↔ count = 1 := by
  rw [← String.toList_inj, hs, toList_joined, List.append_cancel_left_eq]
  constructor
  · intro h
    have hlength := congrArg List.length h
    simp only [List.length_append, List.length_replicate, List.length_cons] at hlength
    omega
  · rintro rfl
    rfl

/-! ### Blanks in front of slashes -/

/-- A blank stands in front of the slashes at the end of the text, which blanks may follow. -/
def Ragged (s : String) : Prop :=
  ∃ before blank slashes behind, s.toList = before ++ blank :: (slashes ++ behind) ∧
    isBlank blank = true ∧ slashes ≠ [] ∧ (∀ c ∈ slashes, c = '/') ∧ ∀ c ∈ behind, isBlank c = true

theorem isBlank_slash : isBlank '/' = false := by decide

/-- What blanks are trimmed from is what neither follows them nor has any behind it. -/
theorem trimChars_of_dropWhile {s front behind : List Char}
    (hs : s.dropWhile isBlank = front ++ behind) (hfront : ∀ c ∈ front.getLast?, isBlank c = false)
    (hbehind : ∀ c ∈ behind, isBlank c = true) : trimChars s = front := by
  rw [trimChars, hs, dropTail_append_of_all _ hbehind, dropTail_eq_self hfront]

/-- **Once its blanks and then its slashes are trimmed, a text ends in a blank just when it is
ragged**, unless nothing is left of it. -/
theorem blank_at_end_iff {s : String} (h : trimSlashes (trim s) ≠ "") :
    (∃ c ∈ (trimSlashes (trim s)).toList.getLast?, isBlank c = true) ↔ Ragged s := by
  have hleft : (trimSlashes (trim s)).toList = dropTail (· == '/') (trimChars s.toList) := by
    rw [toList_trimSlashes, toList_trim]
  rw [hleft]
  constructor
  · rintro ⟨blank, hlast, hblank⟩
    obtain ⟨behind, hbehind, hall⟩ := dropTail_append isBlank (s.toList.dropWhile isBlank)
    obtain ⟨slashes, hslashes, hall'⟩ := dropTail_append (· == '/') (trimChars s.toList)
    obtain ⟨left, hleft⟩ := List.getLast?_eq_some_iff.1 hlast
    refine ⟨s.toList.takeWhile isBlank ++ left, blank, slashes, behind, ?_, hblank, ?_,
      by simpa using hall', hall⟩
    · calc s.toList = s.toList.takeWhile isBlank ++ s.toList.dropWhile isBlank :=
            List.takeWhile_append_dropWhile.symm
        _ = s.toList.takeWhile isBlank ++ (trimChars s.toList ++ behind) := by
            rw [← trimChars] at hbehind
            rw [← hbehind]
        _ = s.toList.takeWhile isBlank ++ (left ++ [blank] ++ slashes ++ behind) := by
            rw [← hleft, ← hslashes]
        _ = s.toList.takeWhile isBlank ++ left ++ blank :: (slashes ++ behind) := by simp
    · -- without slashes, what is left of the blanks would end in one
      rintro rfl
      rw [List.append_nil] at hslashes
      rw [← hslashes] at hlast
      rw [getLast?_trimChars _ _ hlast] at hblank
      cases hblank
  · rintro ⟨before, blank, slashes, behind, hs, hblank, hne, hslashes, hbehind⟩
    have hslash : ∀ c ∈ slashes, isBlank c = false := fun c hc => hslashes c hc ▸ isBlank_slash
    have hdrop : s.toList.dropWhile isBlank = if (before.dropWhile isBlank).isEmpty then
        (blank :: (slashes ++ behind)).dropWhile isBlank
        else before.dropWhile isBlank ++ blank :: (slashes ++ behind) := by
      rw [hs, List.dropWhile_append]
    split at hdrop
    · -- nothing but slashes is left of the blanks, and then nothing at all
      rw [List.dropWhile_cons_of_pos hblank] at hdrop
      have hstart : (slashes ++ behind).dropWhile isBlank = slashes ++ behind := by
        obtain ⟨c, slashes, rfl⟩ := List.exists_cons_of_ne_nil hne
        exact List.dropWhile_cons_of_neg (by simp [hslash c (List.mem_cons_self ..)])
      have htrim := trimChars_of_dropWhile (hdrop.trans hstart)
        (fun c hc => hslash c (List.mem_of_mem_getLast? hc)) hbehind
      rw [htrim, dropTail_of_all (by simpa using hslashes)] at hleft
      exact absurd (String.toList_eq_nil_iff.1 hleft) h
    · have hfront : s.toList.dropWhile isBlank =
          (before.dropWhile isBlank ++ [blank] ++ slashes) ++ behind := by rw [hdrop]; simp
      have hlast : ∀ c ∈ (before.dropWhile isBlank ++ [blank] ++ slashes).getLast?,
          isBlank c = false := by
        intro c hc
        rw [List.getLast?_append, List.getLast?_eq_some_getLast hne, Option.some_or] at hc
        exact hslash c (Option.some.inj hc ▸ List.getLast_mem hne)
      have htrim := trimChars_of_dropWhile hfront hlast hbehind
      have hkept : blank ≠ '/' := by
        rintro rfl
        exact absurd hblank (by decide)
      rw [htrim, dropTail_append_of_all _ (by simpa using hslashes),
        dropTail_eq_self (by simpa using hkept)]
      exact ⟨blank, by simp, hblank⟩

end ThemePress.Text
