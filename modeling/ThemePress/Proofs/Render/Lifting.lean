import ThemePress.Proofs.Render.Parts

/-! # Relations between renderings

The same tags can be rendered in two monads, with two limits, with two ways of rendering one level
deeper, and in two jobs that have the same page and templates (`Job.Alike`). `Composing` says of a
relation between the actions of both sides that it holds of what tags do first, and passes from what
they are put together from to the whole. On it rests the one case analysis over all helpers
(`Composing.run`). It leaves out tags that set themselves aside and cursors that move. `Passing` has
these, too, and then the relation holds of every tag and of the inside of every node
(`Passing.evaluate`, `Passing.inside`). Where they are treated in a way of their own, renderers are
related as soon as their tags are (`TagRel`, `Composing.node`).

`Lifting` is the case in which both sides look at the same context. Otherwise the contexts may
differ in what no tag looks at: how deep it is, and where the blocks that were set aside had stood.

What is rendered one level deeper is related by a relation of its own, since `nested` changes what
can be said of an action. The warning that it gives is always one that no level was left. -/

namespace ThemePress

/-- Does the warning say that no level was left for something? -/
def Warning.isTooDeep : Warning → Bool
  | layoutTooDeep _ | templateTooDeep _ | contentTooDeep _ => true
  | _ => false

end ThemePress

namespace ThemePress.Render

open ThemePress.Template (Node)

variable {m m' : Type → Type}

/-! ### Relations between parts -/

/-- Related actions at the same places. -/
inductive PartsRel (R : (α : Type) → m α → m' α → Prop) :
    List (Nat × Action m) → List (Nat × Action m') → Prop where
  | nil : PartsRel R [] []
  | cons {place : Nat} {a : Action m} {a' : Action m'} {rest : List (Nat × Action m)}
      {rest' : List (Nat × Action m')} (head : R _ a a') (tail : PartsRel R rest rest') :
    PartsRel R ((place, a) :: rest) ((place, a') :: rest')

namespace PartsRel

variable {R : (α : Type) → m α → m' α → Prop} {parts : List (Nat × Action m)}
  {parts' : List (Nat × Action m')}

theorem tail (h : PartsRel R parts parts') : PartsRel R parts.tail parts'.tail := by
  cases h with
  | nil => exact .nil
  | cons _ tail => exact tail

theorem modify (h : PartsRel R parts parts') (slot : Nat) {a : Action m} {a' : Action m'}
    (ha : R _ a a') :
    PartsRel R (parts.modify slot fun part => (part.1, a))
      (parts'.modify slot fun part => (part.1, a')) := by
  induction h generalizing slot with
  | nil => cases slot <;> exact .nil
  | cons head tail ih =>
    cases slot with
    | zero => exact .cons ha tail
    | succ slot => exact .cons head (ih slot)

theorem map {ns : List Node} {f : Node → Action m} {f' : Node → Action m'}
    (h : ∀ n ∈ ns, R _ (f n) (f' n)) :
    PartsRel R (ns.map fun n => (n.position, f n)) (ns.map fun n => (n.position, f' n)) := by
  induction ns with
  | nil => exact .nil
  | cons n ns ih =>
    exact .cons (h n (List.mem_cons_self ..)) (ih fun n hn => h n (List.mem_cons_of_mem _ hn))

end PartsRel

/-- Related actions where there are any, and none on one side only. -/
inductive OptionRel (R : (α : Type) → m α → m' α → Prop) :
    Option (Action m) → Option (Action m') → Prop where
  | none : OptionRel R none none
  | some {a : Action m} {a' : Action m'} (h : R _ a a') : OptionRel R (some a) (some a')

theorem OptionRel.map {R : (α : Type) → m α → m' α → Prop} {n? : Option Node}
    {f : Node → Action m} {f' : Node → Action m'} (h : ∀ n ∈ n?, R _ (f n) (f' n)) :
    OptionRel R (n?.map f) (n?.map f') := by
  cases n? with
  | none => exact .none
  | some n => exact .some (h n rfl)

/-! ### Relations that tags respect -/

variable [Monad m] [MonadStateOf Context m] [Monad m'] [MonadStateOf Context m']

/-- What is read off a context does not depend on what is set aside and on how deep it is. -/
def Context.Shared {α : Type} (read : Context → α) : Prop :=
  ∀ c collected depth, read { c with collected, depth } = read c

/-- Nor does a field depend on that, or on where its tag stands. -/
structure Field.Placeless (f : Field) : Prop where
  shared (p : Page) (n : Node) : Context.Shared fun c => f p c n
  place (p : Page) (c : Context) (n : Node) (position : Nat) :
    f p c { n with position } = f p c n

/-- The block that was found under a name, one level deeper. -/
def Occurrence.foundBlock (job : Job) (deeper : Deeper m) (name : String) :
    Option Node → Action m
  | none => Action.nothing
  | some found => Action.nested job.limit (.contentTooDeep name) (deeper found none)

/-- The cursor `i` of `s` is one that a loop or a post block of the page sets. -/
inductive Page.Sets (p : Page) : Scope → Nat → Prop where
  | post {i : Nat} (h : i < p.posts.length) : Sets p .post i
  | tag {i : Nat} (c : Context) (h : i < (c.postTags p).length) : Sets p .tag i
  | navigation {i : Nat} (h : i < p.blog.navigation.length) : Sets p .navigation i
  | first : Sets p .post 0

/-- Does the tag move a cursor while its inside is rendered? -/
def Helper.moves : Helper → Bool
  | .loop | .post => true
  | _ => false

/-- The relation `R` between actions respects what tags are put together from, when the tags of both
sides, which may differ in where they stand, are related by `S`, and what they render one level
deeper is related by `D`. -/
structure Composing (limit limit' : Nat) (S : Node → Node → Prop)
    (R : (α : Type) → m α → m' α → Prop) (D : Action m → Action m' → Prop) : Prop where
  refl (n : Node) : S n n
  place {n n' : Node} (h : S n n') : ∃ position, n' = { n with position }
  pure {α : Type} (x : α) : R α (pure x) (pure x)
  bind {α β : Type} {x : m α} {x' : m' α} {k : α → m β} {k' : α → m' β} (hx : R α x x')
    (hk : ∀ a, R β (k a) (k' a)) : R β (x >>= k) (x' >>= k')
  read {α β : Type} {f : Context → α} (hf : Context.Shared f) {k : α → m β} {k' : α → m' β}
    (hk : ∀ c, R β (k (f c)) (k' (f c))) :
    R β (get >>= fun c => k (f c)) (get >>= fun c => k' (f c))
  find {β : Type} {p : Node → Bool} (hp : ∀ n position, p { n with position } = p n)
    {k : Option Node → m β} {k' : Option Node → m' β} (hnone : R β (k none) (k' none))
    (hsome : ∀ n n', S n n' → R β (k (some n)) (k' (some n'))) :
    R β (get >>= fun c => k (c.collected.find? p)) (get >>= fun c => k' (c.collected.find? p))
  warn (w : Warning) : R PUnit (modify (Context.warn · w)) (modify (Context.warn · w))
  inScope (s : Scope) {a : Action m} {a' : Action m'} (h : R _ a a') :
    R _ (Action.inScope s a) (Action.inScope s a')
  nested {tooDeep : Warning} (hw : tooDeep.isTooDeep) {a : Action m} {a' : Action m'}
    (h : D a a') : R _ (Action.nested limit tooDeep a) (Action.nested limit' tooDeep a')

/-- It also respects what tags do that set themselves aside or move a cursor. -/
structure Passing (limit limit' : Nat) (S : Node → Node → Prop)
    (R : (α : Type) → m α → m' α → Prop) (D : Action m → Action m' → Prop) : Prop
    extends Composing limit limit' S R D where
  collect {n n' : Node} (h : S n n') :
    R PUnit (modify (Context.collect · n)) (modify (Context.collect · n'))
  atCursor (s : Scope) (i : Nat) {a : Action m} {a' : Action m'} (h : R _ a a') :
    R _ (Action.atCursor s i a) (Action.atCursor s i a')

/-- Two renderers give related actions for a tag when all that the tag is made of is related. -/
def TagRel (S : Node → Node → Prop) (R : (α : Type) → m α → m' α → Prop) (r : Renderer m)
    (r' : Renderer m') : Prop :=
  ∀ {n n' : Node}, S n n' → OptionRel R (r.occurrence n).argument (r'.occurrence n').argument →
    R _ (r.inside n none) (r'.inside n' none) →
    OptionRel R (r.occurrence n).branch (r'.occurrence n').branch →
    R _ (r.evaluate n) (r'.evaluate n')

/-- Both jobs have the same page and the same templates, and these limits. -/
structure Job.Alike (limit limit' : Nat) (job job' : Job) : Prop where
  page : job'.page = job.page
  templates : job'.registry.templates = job.registry.templates
  limit : job.limit = limit
  limit' : job'.limit = limit'

theorem Job.Alike.get?_eq {limit limit' : Nat} {job job' : Job} (h : Alike limit limit' job job')
    (name : String) : job'.registry.get? name = job.registry.get? name := by
  rw [Template.Registry.get?, Template.Registry.get?, h.templates]

theorem Job.Alike.contains_eq {limit limit' : Nat} {job job' : Job}
    (h : Alike limit limit' job job') (name : String) :
    job'.registry.contains name = job.registry.contains name := by
  rw [Template.Registry.contains, Template.Registry.contains, h.get?_eq]

theorem Job.Alike.refl (job : Job) : Alike job.limit job.limit job job :=
  ⟨rfl, rfl, rfl, rfl⟩

namespace Composing

variable {limit limit' : Nat} {S : Node → Node → Prop} {R : (α : Type) → m α → m' α → Prop}
  {D : Action m → Action m' → Prop} (h : Composing limit limit' S R D)

include h

/-! ### Actions -/

theorem refuse (w : Warning) : R _ (Action.refuse w) (Action.refuse w) :=
  h.bind (h.warn w) fun _ => h.pure _

theorem outputs {parts : List (Nat × Action m)} {parts' : List (Nat × Action m')}
    (hp : PartsRel R parts parts') : R _ (Action.outputs parts) (Action.outputs parts') := by
  induction hp with
  | nil => exact h.pure _
  | cons head _ ih => exact h.bind head fun _ => h.bind ih fun _ => h.pure _

theorem splice (block : List UInt8) {parts : List (Nat × Action m)}
    {parts' : List (Nat × Action m')} (hp : PartsRel R parts parts') :
    R _ (Action.splice block parts) (Action.splice block parts') :=
  h.bind (h.outputs hp) fun _ => h.pure _

theorem times (n : Nat) {a : Nat → Action m} {a' : Nat → Action m'}
    (ha : ∀ i, i < n → R _ (a i) (a' i)) : R _ (Action.times n a) (Action.times n a') := by
  have hfold : ∀ (is : List Nat) (output : List UInt8), (∀ i ∈ is, i < n) →
      R _ (is.foldlM (fun output i => do return output ++ (← a i)) output)
        (is.foldlM (fun output i => do return output ++ (← a' i)) output) := by
    intro is
    induction is with
    | nil => exact fun output _ => h.pure output
    | cons i is ih =>
      intro output his
      rw [List.foldlM_cons, List.foldlM_cons]
      have hi := ha i (his i (List.mem_cons_self ..))
      refine h.bind (h.bind hi fun _ => h.pure _) fun output => ?_
      exact ih output fun i hi => his i (List.mem_cons_of_mem _ hi)
  exact hfold _ _ fun i hi => List.mem_range.1 hi

/-! ### Tags -/

variable {job job' : Job} {deeper : Deeper m} {deeper' : Deeper m'}

theorem wrap (hj : Job.Alike limit limit' job job')
    (hd : ∀ n n' fill, S n n' → D (deeper n fill) (deeper' n' fill)) (directive : Node)
    (inner : List UInt8) :
    R _ (Render.wrap job deeper directive inner)
      (Render.wrap job' deeper' directive inner) := by
  unfold Render.wrap
  simp only [hj.get?_eq, hj.limit, hj.limit']
  split
  · exact h.bind (h.warn _) fun _ => h.pure _
  · exact h.nested rfl (hd _ _ _ (h.refl _))

section
variable {node : Node} {position : Nat} {argument : Option (Action m)}
  {argument' : Option (Action m')} {inner : Action m} {inner' : Action m'}
  {branch : Option (Action m)} {branch' : Option (Action m')}

theorem template (hj : Job.Alike limit limit' job job')
    (hd : ∀ n n' fill, S n n' → D (deeper n fill) (deeper' n' fill)) (name : String) :
    R _ (Occurrence.template job deeper name)
      (Occurrence.template job' deeper' name) := by
  unfold Occurrence.template
  simp only [hj.get?_eq, hj.limit, hj.limit']
  split
  · exact h.refuse _
  · exact h.nested rfl (hd _ _ _ (h.refl _))

theorem templateIfAny (hj : Job.Alike limit limit' job job')
    (hd : ∀ n n' fill, S n n' → D (deeper n fill) (deeper' n' fill)) (name : String) :
    R _ (Occurrence.templateIfAny job deeper name)
      (Occurrence.templateIfAny job' deeper' name) := by
  show R _ (if job.registry.contains name then _ else _)
    (if job'.registry.contains name then _ else _)
  rw [hj.contains_eq]
  split
  · exact h.template hj hd name
  · exact h.pure _

theorem contentBlock (hj : Job.Alike limit limit' job job')
    (hd : ∀ n n' fill, S n n' → D (deeper n fill) (deeper' n' fill)) :
    R _ (Occurrence.contentBlock job deeper ⟨node, argument, inner, branch⟩)
      (Occurrence.contentBlock job' deeper'
        ⟨{ node with position }, argument', inner', branch'⟩) := by
  unfold Occurrence.contentBlock
  simp only [Node.firstArgument?_at]
  split
  · exact h.pure _
  · rename_i name _
    show R _ (get >>= fun c => Occurrence.foundBlock job deeper name (c.collected.find? _))
      (get >>= fun c => Occurrence.foundBlock job' deeper' name (c.collected.find? _))
    refine h.find (fun _ _ => rfl) (h.pure _) fun n n' hn => ?_
    unfold Occurrence.foundBlock
    rw [hj.limit, hj.limit']
    exact h.nested rfl (hd _ _ _ hn)

theorem otherwise (hb : OptionRel R branch branch') :
    R _ (Occurrence.otherwise ⟨node, argument, inner, branch⟩)
      (Occurrence.otherwise ⟨{ node with position }, argument', inner', branch'⟩) := by
  cases hb with
  | none => exact h.pure _
  | some hb => exact hb

theorem choose {holds fails : Action m} {holds' fails' : Action m'}
    (ha : OptionRel R argument argument') (hh : R _ holds holds') (hf : R _ fails fails') :
    R _ (Occurrence.choose ⟨node, argument, inner, branch⟩ holds fails)
      (Occurrence.choose ⟨{ node with position }, argument', inner', branch'⟩ holds' fails') := by
  cases ha with
  | none => exact h.pure _
  | some ha =>
    refine h.bind ha fun output => ?_
    split
    · exact hf
    · exact hh

theorem each (s : Scope) (length : Nat)
    (hm : ∀ i, i < length → R _ (Action.atCursor s i (Action.inScope s inner))
      (Action.atCursor s i (Action.inScope s inner')))
    (hb : OptionRel R branch branch') :
    R _ (Occurrence.each ⟨node, argument, inner, branch⟩ s length)
      (Occurrence.each ⟨{ node with position }, argument', inner', branch'⟩ s length) := by
  unfold Occurrence.each
  split
  · exact h.otherwise hb
  · exact h.times _ hm

theorem loop (hj : Job.Alike limit limit' job job')
    (hm : ∀ s i, job.page.Sets s i → R _ (Action.atCursor s i (Action.inScope s inner))
      (Action.atCursor s i (Action.inScope s inner')))
    (hb : OptionRel R branch branch') :
    R _ (Occurrence.loop job ⟨node, argument, inner, branch⟩)
      (Occurrence.loop job' ⟨{ node with position }, argument', inner', branch'⟩) := by
  unfold Occurrence.loop
  dsimp only
  simp only [hj.page, Node.firstArgument?_at]
  split
  · exact h.pure _
  · exact h.each _ _ (fun i hi => hm _ i (.post hi)) hb
  · exact h.read (f := fun c => (c.postTags job.page).length) (fun _ _ _ => rfl) fun c =>
      h.each _ _ (fun i hi => hm _ i (.tag c hi)) hb
  · exact h.each _ _ (fun i hi => hm _ i (.navigation hi)) hb
  · exact h.refuse _

theorem plural (ha : OptionRel R argument argument') :
    R _ (Occurrence.plural ⟨node, argument, inner, branch⟩)
      (Occurrence.plural ⟨{ node with position }, argument', inner', branch'⟩) := by
  cases ha with
  | none => exact h.pure _
  | some ha =>
    refine h.bind ha fun output => ?_
    dsimp only
    split <;> exact h.pure _

theorem encode (ha : OptionRel R argument argument') :
    R _ (Occurrence.encode ⟨node, argument, inner, branch⟩)
      (Occurrence.encode ⟨{ node with position }, argument', inner', branch'⟩) := by
  cases ha with
  | none => exact h.pure _
  | some ha => exact h.bind ha fun output => h.pure _

theorem field (hj : Job.Alike limit limit' job job') {f : Field} (hf : f.Placeless) :
    R _ (Occurrence.field job f ⟨node, argument, inner, branch⟩)
      (Occurrence.field job' f ⟨{ node with position }, argument', inner', branch'⟩) := by
  unfold Occurrence.field
  simp only [hj.page, hf.place]
  exact h.read (hf.shared job.page node) fun _ => h.pure _

/-- What a tag yields is related when all it is made of is. How it sets itself aside and moves a
cursor is asked for only if it does. -/
theorem run (hj : Job.Alike limit limit' job job')
    (hd : ∀ n n' fill, S n n' → D (deeper n fill) (deeper' n' fill)) (helper : Helper)
    (hc : helper = .contentFor → R PUnit (modify (Context.collect · node))
      (modify (Context.collect · { node with position })))
    (hm : helper.moves = true → ∀ s i, job.page.Sets s i →
      R _ (Action.atCursor s i (Action.inScope s inner))
        (Action.atCursor s i (Action.inScope s inner')))
    (ha : OptionRel R argument argument') (hi : helper.moves = false → R _ inner inner')
    (hb : OptionRel R branch branch') :
    R _ (Occurrence.run job deeper ⟨node, argument, inner, branch⟩ helper)
      (Occurrence.run job' deeper' ⟨{ node with position }, argument', inner', branch'⟩
        helper) := by
  cases helper with
  | conditional => exact h.choose ha (hi rfl) (h.otherwise hb)
  | negated => exact h.choose ha (h.otherwise hb) (hi rfl)
  | loop => exact h.loop hj (hm rfl) hb
  | layout => exact h.refuse _
  | body => exact hi rfl
  | inclusion =>
    unfold Occurrence.run
    dsimp only
    simp only [Node.firstArgument?_at]
    split
    · exact h.template hj hd _
    · exact h.pure _
  | contentFor => exact h.bind (hc rfl) fun _ => h.pure _
  | contentBlock => exact h.contentBlock hj hd
  | post => exact hm rfl _ _ .first
  | author =>
    show R _ (if node.isBlock then _ else _) (if node.isBlock then _ else _)
    split
    · exact h.inScope _ (hi rfl)
    · exact h.field hj ⟨fun _ _ _ _ _ => rfl, fun _ _ _ _ => rfl⟩
  | navigation =>
    show R _ (if job.page.blog.navigation.isEmpty then _ else _)
      (if job'.page.blog.navigation.isEmpty then _ else _)
    rw [hj.page]
    split
    · exact h.pure _
    · exact h.templateIfAny hj hd _
  | pagination => exact h.templateIfAny hj hd _
  | plural => exact h.plural ha
  | encode => exact h.encode ha
  | foot => exact h.pure _
  | _ => exact h.field hj ⟨fun _ _ _ _ _ => rfl, fun _ _ _ _ => rfl⟩

end

/-! ### Nodes -/

variable {r : Renderer m} {r' : Renderer m'}

theorem childParts {n : Node} (hc : ∀ c ∈ n.children, R _ (r.evaluate c) (r'.evaluate c))
    (fill : Option (List UInt8)) : PartsRel R (r.childParts n fill) (r'.childParts n fill) := by
  unfold Renderer.childParts
  dsimp only
  split
  · exact (PartsRel.map hc).modify _ (h.pure _)
  · exact .map hc

/-- Every tag and the inside of every node, when tags are related as soon as their parts are. -/
theorem node (hj : Job.Alike limit limit' r.job r'.job)
    (hd : ∀ n n' fill, S n n' → D (r.deeper n fill) (r'.deeper n' fill))
    (ht : TagRel S R r r') {n n' : Node} (hn : S n n') :
    R _ (r.evaluate n) (r'.evaluate n') ∧ ∀ fill, R _ (r.inside n fill) (r'.inside n' fill) := by
  induction n using Node.induction generalizing n' with
  | step n hc ha =>
    obtain ⟨position, rfl⟩ := h.place hn
    have hi : ∀ fill, R _ (r.inside n fill) (r'.inside { n with position } fill) := fun fill => by
      have hp := h.childParts (fun c hm => (hc c hm (h.refl c)).1) fill
      show R _ (r.inside n fill) (r'.inside n fill)
      rw [Renderer.inside_eq, Renderer.inside_eq]
      split
      · exact h.bind (h.splice _ hp.tail) fun inner => h.wrap hj hd _ inner
      · exact h.splice _ hp
    refine ⟨ht hn (.map fun a hm => (ha a ?_ (h.refl a)).1) (hi none)
      (.map fun b hm => (ha b ?_ (h.refl b)).2 none), hi⟩
    · exact Node.mem_of_firstArgument? hm
    · exact Node.mem_of_elseBranch? hm

end Composing

namespace Passing

variable {limit limit' : Nat} {S : Node → Node → Prop} {R : (α : Type) → m α → m' α → Prop}
  {D : Action m → Action m' → Prop} (h : Passing limit limit' S R D) {job job' : Job}
  {deeper : Deeper m} {deeper' : Deeper m'}

include h

theorem tag (hj : Job.Alike limit limit' job job')
    (hd : ∀ n n' fill, S n n' → D (deeper n fill) (deeper' n' fill)) :
    TagRel S R (plain job deeper) (plain job' deeper') := by
  intro n n' hn ha hi hb
  obtain ⟨position, rfl⟩ := h.place hn
  rw [Renderer.evaluate_eq, Renderer.evaluate_eq]
  show R _ (Occurrence.value job deeper _) (Occurrence.value job' deeper' _)
  unfold Occurrence.value Renderer.occurrence
  dsimp only
  split
  · exact h.run hj hd _ (fun _ => h.collect hn)
      (fun _ s i _ => h.atCursor s i (h.inScope s hi)) ha (fun _ => hi) hb
  · exact h.refuse _

theorem evaluate (hj : Job.Alike limit limit' job job')
    (hd : ∀ n n' fill, S n n' → D (deeper n fill) (deeper' n' fill)) {n n' : Node} (hn : S n n') :
    R _ (Render.evaluate job deeper n) (Render.evaluate job' deeper' n') := by
  rw [evaluate_plain, evaluate_plain]
  exact (h.node hj hd (h.tag hj hd) hn).1

theorem inside (hj : Job.Alike limit limit' job job')
    (hd : ∀ n n' fill, S n n' → D (deeper n fill) (deeper' n' fill)) {n n' : Node} (hn : S n n')
    (fill : Option (List UInt8)) :
    R _ (Render.inside job deeper n fill) (Render.inside job' deeper' n' fill) := by
  rw [inside_plain, inside_plain]
  exact (h.node hj hd (h.tag hj hd) hn).2 fill

end Passing

/-! ### Both sides in the same context -/

/-- The relation `R` between actions respects all that tags do, when what they render one level
deeper is related by `D`. -/
structure Lifting (limit limit' : Nat) (R : (α : Type) → m α → m' α → Prop)
    (D : Action m → Action m' → Prop) : Prop where
  pure {α : Type} (x : α) : R α (pure x) (pure x)
  bind {α β : Type} {x : m α} {x' : m' α} {k : α → m β} {k' : α → m' β} (hx : R α x x')
    (hk : ∀ a, R β (k a) (k' a)) : R β (x >>= k) (x' >>= k')
  get : R Context get get
  warn (w : Warning) : R PUnit (modify (Context.warn · w)) (modify (Context.warn · w))
  collect (n : Node) : R PUnit (modify (Context.collect · n)) (modify (Context.collect · n))
  inScope (s : Scope) {a : Action m} {a' : Action m'} (h : R _ a a') :
    R _ (Action.inScope s a) (Action.inScope s a')
  atCursor (s : Scope) (i : Nat) {a : Action m} {a' : Action m'} (h : R _ a a') :
    R _ (Action.atCursor s i a) (Action.atCursor s i a')
  nested {tooDeep : Warning} (hw : tooDeep.isTooDeep) {a : Action m} {a' : Action m'}
    (h : D a a') : R _ (Action.nested limit tooDeep a) (Action.nested limit' tooDeep a')

namespace Lifting

variable {limit limit' : Nat} {R : (α : Type) → m α → m' α → Prop}
  {D : Action m → Action m' → Prop} (h : Lifting limit limit' R D)

include h

/-- What is read off the same context is the same. -/
theorem passing : Passing limit limit' Eq R D where
  refl _ := rfl
  place {n n'} h := ⟨n.position, by cases h; cases n; rfl⟩
  pure := h.pure
  bind := h.bind
  read _ _ _ hk := h.bind h.get fun _ => hk _
  find {_ p} _ _ _ hnone hsome := h.bind h.get fun c => by
    cases c.collected.find? p with
    | none => exact hnone
    | some n => exact hsome n n rfl
  warn := h.warn
  collect {n n'} hn := hn ▸ h.collect n
  inScope := h.inScope
  atCursor := h.atCursor
  nested := h.nested

variable {job job' : Job} {deeper : Deeper m} {deeper' : Deeper m'}

theorem evaluate (hj : Job.Alike limit limit' job job')
    (hd : ∀ n fill, D (deeper n fill) (deeper' n fill)) (n : Node) :
    R _ (Render.evaluate job deeper n) (Render.evaluate job' deeper' n) :=
  h.passing.evaluate hj (fun n _ fill hn => hn ▸ hd n fill) rfl

theorem inside (hj : Job.Alike limit limit' job job')
    (hd : ∀ n fill, D (deeper n fill) (deeper' n fill)) (n : Node) (fill : Option (List UInt8)) :
    R _ (Render.inside job deeper n fill) (Render.inside job' deeper' n fill) :=
  h.passing.inside hj (fun n _ fill hn => hn ▸ hd n fill) rfl fill

end Lifting

/-! ### Jobs with the same templates -/

theorem lifting_eq (limit : Nat) :
    Lifting (m := m) limit limit (fun _ a a' => a = a') (fun a a' => a = a') where
  pure _ := rfl
  bind hx hk := by rw [hx, funext hk]
  get := rfl
  warn _ := rfl
  collect _ := rfl
  inScope _ _ _ h := by rw [h]
  atCursor _ _ _ _ h := by rw [h]
  nested _ _ _ h := by rw [h]

/-- **Of a theme only its templates matter.** -/
theorem Job.Alike.inside_eq {job job' : Job} (h : Job.Alike job.limit job.limit job job') :
    job.inside = job'.inside := by
  have hlevels : ∀ (past : Deeper (StateM Context)) (levels : Nat),
      renderTo job past levels = renderTo job' past levels := by
    intro past levels
    induction levels with
    | zero => rfl
    | succ levels ih =>
      funext n fill
      exact (lifting_eq job.limit).inside h (fun n fill => by rw [ih]) n fill
  rw [Job.inside, Job.inside, h.limit', hlevels]

end ThemePress.Render
