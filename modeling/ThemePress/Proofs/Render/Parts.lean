import ThemePress.Render.Evaluate

/-! # What a tag is made of

`meaning` goes down a tree and gives each node two actions at once. Here they are taken apart again:
`evaluate` is what a node yields as a tag, and follows from what its first argument yields, its own
inside and that of its `else` branch (`evaluate_eq`); `inside` is what its inside yields, and
follows from what its children yield (`inside_eq`).

Trees can be rendered in more ways than one: a `Renderer` may do something of its own about every
tag. What it yields for a tree is taken apart in the same way, and `evaluate` and `inside` are those
of the renderer that does nothing of its own (`plain`). -/

namespace ThemePress.Template

/-- What holds of a node when it holds of its children and arguments holds of all nodes. -/
theorem Node.induction {motive : Node → Prop}
    (step : ∀ n : Node, (∀ c ∈ n.children, motive c) → (∀ a ∈ n.arguments, motive a) → motive n)
    (n : Node) : motive n := by
  match n with
  | ⟨name, key, arguments, unescaped, position, block, children, bodySlot⟩ =>
    exact step _ (fun c _ => Node.induction step c) (fun a _ => Node.induction step a)
termination_by sizeOf n
decreasing_by
  all_goals
    have := List.sizeOf_lt_of_mem ‹_ ∈ _›
    simp only [Node.mk.sizeOf_spec] at this ⊢
    omega

theorem Node.firstArgument?_at (n : Node) (position : Nat) :
    Node.firstArgument? { n with position } = n.firstArgument? := rfl

theorem Node.mem_of_firstArgument? {n a : Node} (h : n.firstArgument? = some a) :
    a ∈ n.arguments :=
  List.mem_of_mem_head? (Option.filter_eq_some_iff.1 h).1

theorem Node.mem_of_elseBranch? {n b : Node} (h : n.elseBranch? = some b) : b ∈ n.arguments :=
  List.mem_of_getLast? (Option.filter_eq_some_iff.1 h).1

end ThemePress.Template

namespace ThemePress.Render

open ThemePress.Template (Node)

variable {m : Type → Type} [Monad m] [MonadStateOf Context m] {job : Job} {deeper : Deeper m}

/-- What a node yields as a tag. -/
def evaluate (job : Job) (deeper : Deeper m) (n : Node) : Action m :=
  (meaning job deeper n).value

/-- A node as a tag, with what its parts mean. -/
def occurrence (job : Job) (deeper : Deeper m) (n : Node) : Occurrence m where
  node := n
  argument := n.firstArgument?.map (evaluate job deeper)
  content := inside job deeper n none
  branch := n.elseBranch?.map (inside job deeper · none)

/-- The children's actions at their places. Bytes that are given stand for the child in the body
slot. -/
def childParts (job : Job) (deeper : Deeper m) (n : Node) (fill : Option (List UInt8)) :
    List (Nat × Action m) :=
  let placed := n.children.map fun c => (c.position, evaluate job deeper c)
  match fill, n.bodySlot with
  | some bytes, some slot => placed.modify slot fun part => (part.1, pure bytes)
  | _, _ => placed

/-- The directive that a node starts with, if its first child is one. -/
def directive? (n : Node) : Option Node :=
  n.children.head?.filter (·.name == Node.extendsName)

/-! ### Renderers -/

/-- A way to render trees in which more than `Occurrence.value` can be done about a tag. -/
structure Renderer (m : Type → Type) where
  job : Job
  deeper : Deeper m
  /-- What a tag yields when its parts mean what the occurrence says. -/
  tag : Occurrence m → Action m

namespace Renderer

mutual

/-- What a node yields as a tag, and what its inside yields. -/
def meaning (r : Renderer m) : Node → Meaning m
  | .mk name key arguments unescaped position block children bodySlot =>
    let n : Node := ⟨name, key, arguments, unescaped, position, block, children, bodySlot⟩
    let values := r.meanings arguments
    let inside := content r.job r.deeper n (r.meanings children) none
    let occurrence : Occurrence m :=
      { node := n
        argument := n.firstArgument?.bind fun _ => values.head?.map (·.value)
        content := inside
        branch := n.elseBranch?.bind fun _ => values.getLast?.map (·.content) }
    ⟨r.tag occurrence, inside⟩

def meanings (r : Renderer m) : List Node → List (Meaning m)
  | [] => []
  | n :: ns => r.meaning n :: r.meanings ns

end

variable (r : Renderer m)

def evaluate (n : Node) : Action m :=
  (r.meaning n).value

def inside : Deeper m := fun n fill =>
  content r.job r.deeper n (r.meanings n.children) fill

def occurrence (n : Node) : Occurrence m where
  node := n
  argument := n.firstArgument?.map r.evaluate
  content := r.inside n none
  branch := n.elseBranch?.map (r.inside · none)

def childParts (n : Node) (fill : Option (List UInt8)) : List (Nat × Action m) :=
  let placed := n.children.map fun c => (c.position, r.evaluate c)
  match fill, n.bodySlot with
  | some bytes, some slot => placed.modify slot fun part => (part.1, pure bytes)
  | _, _ => placed

theorem meanings_eq (ns : List Node) : r.meanings ns = ns.map r.meaning := by
  induction ns with
  | nil => rw [meanings, List.map_nil]
  | cons n ns ih => rw [meanings, ih, List.map_cons]

theorem meaning_content (n : Node) : (r.meaning n).content = r.inside n none := by
  obtain ⟨name, key, arguments, unescaped, position, block, children, bodySlot⟩ := n
  rw [meaning, inside]

theorem meaning_eq (n : Node) : r.meaning n = ⟨r.tag (r.occurrence n), r.inside n none⟩ := by
  obtain ⟨name, key, arguments, unescaped, position, block, children, bodySlot⟩ := n
  rw [meaning]
  generalize hn : Node.mk name key arguments unescaped position block children bodySlot = n
  have hargs : n.arguments = arguments := by rw [← hn]
  have hchildren : n.children = children := by rw [← hn]
  have hargument : (n.firstArgument?.bind fun _ => (r.meanings arguments).head?.map
      (·.value)) = n.firstArgument?.map r.evaluate := by
    rw [meanings_eq, Node.firstArgument?, hargs]
    cases arguments with
    | nil => rfl
    | cons a as => cases ha : a.isPositional <;> simp [Option.filter, ha, evaluate]
  have hbranch : (n.elseBranch?.bind fun _ => (r.meanings arguments).getLast?.map
      (·.content)) = n.elseBranch?.map (r.inside · none) := by
    rw [meanings_eq, Node.elseBranch?, hargs, List.getLast?_map]
    cases arguments.getLast? with
    | none => rfl
    | some b => cases hb : b.isElse <;> simp [Option.filter, hb, meaning_content]
  simp only [hargument, hbranch, occurrence, inside, hchildren]

theorem evaluate_eq (n : Node) : r.evaluate n = r.tag (r.occurrence n) := by
  rw [evaluate, meaning_eq]

theorem placedParts_eq (n : Node) (fill : Option (List UInt8)) :
    placedParts n (r.meanings n.children) fill = r.childParts n fill := by
  have h : List.zipWith (fun (c : Node) (p : Meaning m) => (c.position, p.value)) n.children
      (r.meanings n.children) = n.children.map fun c => (c.position, r.evaluate c) := by
    rw [meanings_eq, List.zipWith_map_right, List.zipWith_self]
    rfl
  cases fill with
  | none => exact h
  | some bytes => cases hs : n.bodySlot <;> simp only [placedParts, childParts, hs, h]

theorem inside_eq (n : Node) (fill : Option (List UInt8)) :
    r.inside n fill =
      match directive? n with
      | some directive => do
        let inner ← Action.splice n.block (r.childParts n fill).tail
        wrap r.job r.deeper directive inner
      | none => Action.splice n.block (r.childParts n fill) := by
  rw [inside, content, placedParts_eq]
  rfl

end Renderer

/-! ### The plain one -/

/-- Nothing but what the tags mean. -/
def plain (job : Job) (deeper : Deeper m) : Renderer m :=
  ⟨job, deeper, (·.value job deeper)⟩

theorem meaning_plain (n : Node) : meaning job deeper n = (plain job deeper).meaning n := by
  have hlist : ∀ ns : List Node, (∀ n ∈ ns, meaning job deeper n = (plain job deeper).meaning n) →
      meanings job deeper ns = (plain job deeper).meanings ns := by
    intro ns
    induction ns with
    | nil => exact fun _ => rfl
    | cons n ns ih =>
      intro h
      rw [meanings, Renderer.meanings, h n (List.mem_cons_self ..),
        ih fun n hn => h n (List.mem_cons_of_mem _ hn)]
  induction n using Node.induction with
  | step n hchildren harguments =>
    obtain ⟨name, key, arguments, unescaped, position, block, children, bodySlot⟩ := n
    rw [meaning, Renderer.meaning, hlist arguments harguments, hlist children hchildren]
    rfl

theorem evaluate_plain : evaluate job deeper = (plain job deeper).evaluate := by
  funext n
  rw [evaluate, meaning_plain, Renderer.evaluate]

theorem childParts_plain (n : Node) (fill : Option (List UInt8)) :
    childParts job deeper n fill = (plain job deeper).childParts n fill := by
  unfold childParts Renderer.childParts
  simp only [evaluate_plain]

theorem inside_plain : inside job deeper = (plain job deeper).inside := by
  funext n fill
  have hmeanings : meanings job deeper n.children = (plain job deeper).meanings n.children := by
    induction n.children with
    | nil => rfl
    | cons n ns ih => rw [meanings, Renderer.meanings, ih, meaning_plain]
  rw [inside, Renderer.inside, hmeanings]
  rfl

theorem occurrence_plain (n : Node) :
    occurrence job deeper n = (plain job deeper).occurrence n := by
  unfold occurrence Renderer.occurrence
  simp only [evaluate_plain, inside_plain]

theorem evaluate_eq (n : Node) :
    evaluate job deeper n = (occurrence job deeper n).value job deeper := by
  rw [occurrence_plain, evaluate_plain, Renderer.evaluate_eq]
  rfl

/-- A tag yields what the helper of its name does with its parts. -/
theorem evaluate_of_named? {n : Node} {helper : Helper} (h : Helper.named? n.name = some helper) :
    evaluate job deeper n = (occurrence job deeper n).run job deeper helper := by
  have hname : Helper.named? (occurrence job deeper n).node.name = some helper := h
  rw [evaluate_eq, Occurrence.value, hname]

theorem inside_eq (n : Node) (fill : Option (List UInt8)) :
    inside job deeper n fill =
      match directive? n with
      | some directive => do
        let inner ← Action.splice n.block (childParts job deeper n fill).tail
        wrap job deeper directive inner
      | none => Action.splice n.block (childParts job deeper n fill) := by
  rw [inside_plain, Renderer.inside_eq, childParts_plain]
  rfl

end ThemePress.Render
