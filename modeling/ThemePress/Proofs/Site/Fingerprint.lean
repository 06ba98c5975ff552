import ThemePress.Proofs.Render.Lifting
import ThemePress.Proofs.Template.Sources
import ThemePress.Site.Rendering

/-! # What a fingerprint says

The fingerprint of a theme is the digest of the names and sources of its templates, run together in
the order of the names. Each stands behind its length, and the eight bytes of a length can be read
back, so the parts can be told from the whole (`signature_inj`). As far as the digest tells messages
apart, themes with one fingerprint have the same sources, hence the same templates, and render every
page alike (`fingerprint_identifies_sources`). -/

namespace ThemePress.Template.Sources

open ThemePress.Text

/-! ### Lengths -/

theorem length_lengthBytes (n : Nat) : (lengthBytes n).length = 8 := by
  simp [lengthBytes]

theorem getElem?_lengthBytes (n : Nat) {i : Nat} (hi : i < 8) :
    (lengthBytes n)[i]?.map UInt8.toNat = some (n / 256 ^ i % 256) := by
  simp [lengthBytes, hi, Nat.shiftRight_eq_div_pow, Nat.pow_mul]

/-- The lowest bytes of a number tell it apart from others up to where they reach. -/
theorem mod_eq_of_bytes {n k : Nat} (j : Nat)
    (h : ∀ i < j, n / 256 ^ i % 256 = k / 256 ^ i % 256) : n % 256 ^ j = k % 256 ^ j := by
  induction j with
  | zero => rw [Nat.pow_zero, Nat.mod_one, Nat.mod_one]
  | succ j ih =>
    rw [Nat.mod_pow_succ, Nat.mod_pow_succ, ih fun i hi => h i (Nat.lt_succ_of_lt hi),
      h j (Nat.lt_succ_self j)]

theorem lengthBytes_inj {n k : Nat} (hn : n < 2 ^ 64) (hk : k < 2 ^ 64)
    (h : lengthBytes n = lengthBytes k) : n = k := by
  have hmod : n % 256 ^ 8 = k % 256 ^ 8 := by
    refine mod_eq_of_bytes 8 fun i hi => ?_
    have hbyte := getElem?_lengthBytes n hi
    rw [h, getElem?_lengthBytes k hi] at hbyte
    exact (Option.some.inj hbyte).symm
  rwa [Nat.mod_eq_of_lt (by omega), Nat.mod_eq_of_lt (by omega)] at hmod

/-! ### Signatures -/

/-- The names and sources are short enough for their lengths to be written in eight bytes. -/
def Measurable (sources : List (String × List UInt8)) : Prop :=
  ∀ entry ∈ sources, (Utf8.bytesOf entry.1).length < 2 ^ 64 ∧ entry.2.length < 2 ^ 64

/-- Behind its length, a byte sequence can be told from what follows it. -/
theorem measured_append_inj {a b s t : List UInt8} (ha : a.length < 2 ^ 64)
    (hb : b.length < 2 ^ 64) (h : measured a ++ s = measured b ++ t) : a = b ∧ s = t := by
  unfold measured at h
  rw [List.append_assoc, List.append_assoc] at h
  obtain ⟨hlength, hrest⟩ := List.append_inj h (by rw [length_lengthBytes, length_lengthBytes])
  exact List.append_inj hrest (lengthBytes_inj ha hb hlength)

theorem measured_ne_nil (a : List UInt8) : measured a ≠ [] := by
  intro h
  have hlength := congrArg List.length h
  rw [measured, List.length_append, length_lengthBytes] at hlength
  simp at hlength

/-- **No two collections of sources are run together into one byte sequence.** -/
theorem signature_inj {s t : Sources} (hs : Measurable s) (ht : Measurable t) :
    s.signature = t.signature ↔ s = t := by
  refine ⟨fun h => ?_, congrArg signature⟩
  replace h := List.append_cancel_left h
  induction s generalizing t with
  | nil =>
    cases t with
    | nil => rfl
    | cons entry t =>
      have hparts := List.append_eq_nil_iff.1 (List.flatMap_cons .. ▸ h.symm)
      exact absurd (List.append_eq_nil_iff.1 hparts.1).1 (measured_ne_nil _)
  | cons entry s ih =>
    cases t with
    | nil =>
      have hparts := List.append_eq_nil_iff.1 (List.flatMap_cons .. ▸ h)
      exact absurd (List.append_eq_nil_iff.1 hparts.1).1 (measured_ne_nil _)
    | cons entry' t =>
      obtain ⟨⟨hname, hsource⟩, hs⟩ := List.forall_mem_cons.1 hs
      obtain ⟨⟨hname', hsource'⟩, ht⟩ := List.forall_mem_cons.1 ht
      simp only [List.flatMap_cons, List.append_assoc] at h
      obtain ⟨hnames, h⟩ := measured_append_inj hname hname' h
      obtain ⟨hsources, h⟩ := measured_append_inj hsource hsource' h
      rw [ih hs ht h, Prod.ext (Utf8.bytesOf_inj.1 hnames) hsources]

theorem Measurable.ofList {sources : List (String × List UInt8)} (h : Measurable sources) :
    Measurable (Named.ofList sources) := fun entry hm => h entry (Named.mem_of_mem_ofList hm)

end ThemePress.Template.Sources

namespace ThemePress.Digest.Blake3

/-- Two different messages with the same digest. -/
def Collide (a b : List UInt8) : Prop :=
  a ≠ b ∧ digest a = digest b

end ThemePress.Digest.Blake3

namespace ThemePress.Site

open ThemePress.Digest.Blake3 (Collide)
open ThemePress.Render
open ThemePress.Template

/-! ### Themes with one fingerprint -/

variable {registry registry' : Registry}

theorem inside_of_templates (h : registry.templates = registry'.templates) (page : Page)
    (limit : Nat) : Job.inside ⟨page, registry, limit⟩ = Job.inside ⟨page, registry', limit⟩ :=
  Job.Alike.inside_eq ⟨rfl, h.symm, rfl, rfl⟩

theorem renderWith_of_templates (h : registry.templates = registry'.templates) (template : String)
    (page : Page) : renderWith registry template page = renderWith registry' template page := by
  unfold renderWith Job.render
  simp only [Registry.get?, h, inside_of_templates h]

/-- **The fingerprint of a theme identifies the sources of its templates.** From two collections of
sources the same bytes are digested just when each name has the same source last in both. So unless
these bytes collide, themes with one fingerprint have the same sources, whatever order they are given
in, the same templates, and pages that are rendered alike. -/
theorem fingerprint_identifies_sources {theme theme' : String}
    {sources sources' : List (String × List UInt8)}
    (h : (Registry.compile theme sources).value = .ok registry)
    (h' : (Registry.compile theme' sources').value = .ok registry')
    (hs : Sources.Measurable sources) (hs' : Sources.Measurable sources') :
    let signature := Sources.signature (Named.ofList sources)
    let signature' := Sources.signature (Named.ofList sources')
    (signature = signature' ↔ ∀ name, Named.last? sources name = Named.last? sources' name) ∧
    (¬ Collide signature signature' → registry.fingerprint = registry'.fingerprint →
      (∀ name, Named.last? sources name = Named.last? sources' name) ∧
      registry.templates = registry'.templates ∧
      (∀ page limit, Job.inside ⟨page, registry, limit⟩ = Job.inside ⟨page, registry', limit⟩) ∧
      ∀ template page, renderWith registry template page = renderWith registry' template page) := by
  intro signature signature'
  have hsignature : signature = signature' ↔
      ∀ name, Named.last? sources name = Named.last? sources' name :=
    (Sources.signature_inj hs.ofList hs'.ofList).trans Named.ofList_eq_iff
  refine ⟨hsignature, fun hcollide hfingerprint => ?_⟩
  obtain ⟨templates, htemplates, rfl, -⟩ := Registry.compile_ok_iff.1 h
  obtain ⟨templates', htemplates', rfl, -⟩ := Registry.compile_ok_iff.1 h'
  have heq : signature = signature' := by
    by_contra hne
    exact hcollide ⟨hne, hfingerprint⟩
  have hsame : templates = templates' := by
    rw [(Sources.signature_inj hs.ofList hs'.ofList).1 heq, htemplates'] at htemplates
    exact (Except.ok.inj htemplates).symm
  exact ⟨hsignature.1 heq, hsame, fun page limit => inside_of_templates hsame page limit,
    fun template page => renderWith_of_templates hsame template page⟩

/-- The first template is given twice. -/
def givenTwice : List (String × List UInt8) :=
  [("index", [0x61]), ("post", [0x62]), ("index", [0x63])]

def givenOnce : List (String × List UInt8) :=
  [("post", [0x62]), ("index", [0x63])]

theorem fingerprint_identifies_sources_given_twice :
    ∃ registry registry', (Registry.compile "a" givenTwice).value = .ok registry ∧
      (Registry.compile "b" givenOnce).value = .ok registry' ∧
      Sources.Measurable givenTwice ∧ Sources.Measurable givenOnce ∧
      registry.fingerprint = registry'.fingerprint ∧ registry.templates = registry'.templates ∧
      ∀ template page, renderWith registry template page = renderWith registry' template page := by
  have hok : (Registry.compile "a" givenTwice).value.toOption.isSome := by decide +kernel
  have hok' : (Registry.compile "b" givenOnce).value.toOption.isSome := by decide +kernel
  have hsame : Named.ofList givenTwice = Named.ofList givenOnce := by decide +kernel
  have hs : Sources.Measurable givenTwice := by unfold Sources.Measurable; decide +kernel
  have hs' : Sources.Measurable givenOnce := by unfold Sources.Measurable; decide +kernel
  obtain ⟨registry, h⟩ := Option.isSome_iff_exists.1 hok
  obtain ⟨registry', h'⟩ := Option.isSome_iff_exists.1 hok'
  rw [toOption_eq_some_iff] at h h'
  obtain ⟨hsignature, hidentifies⟩ := fingerprint_identifies_sources h h' hs hs'
  have heq := hsignature.2 (Named.ofList_eq_iff.1 hsame)
  have hfingerprint : registry.fingerprint = registry'.fingerprint := by
    obtain ⟨templates, -, rfl, -⟩ := Registry.compile_ok_iff.1 h
    obtain ⟨templates', -, rfl, -⟩ := Registry.compile_ok_iff.1 h'
    exact congrArg Digest.Blake3.digest heq
  obtain ⟨-, htemplates, -, hrender⟩ := hidentifies (fun hcollide => hcollide.1 heq) hfingerprint
  exact ⟨registry, registry', h, h', hs, hs', hfingerprint, htemplates, hrender⟩

end ThemePress.Site
