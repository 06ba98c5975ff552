import ThemePress.Render.Context
import ThemePress.Render.Splice

/-! # Actions

Rendering a tag yields bytes and passes the context on: an action. This module has the actions that
all tags are made of. Some change the context for the time of another action and put it back
afterwards: `inScope`, `atCursor` and `nested`, which goes one level deeper unless the limit is
reached.

Actions are written for every monad that carries a context. Pages are rendered in `StateM Context`,
which does no more than that. -/

namespace ThemePress.Render

open ThemePress.Template (Node)

/-- Yields bytes and passes the context on. -/
abbrev Action (m : Type → Type) := m (List UInt8)

namespace Action

variable {m : Type → Type} [Monad m] [MonadStateOf Context m]

/-- The bytes of a text. -/
def text (s : String) : Action m :=
  pure (Text.Utf8.bytesOf s)

def nothing : Action m :=
  pure []

/-- Gives a warning and nothing else. -/
def refuse (w : Warning) : Action m := do
  modify (·.warn w)
  return []

/-- The action with the scope changed while it runs. -/
def inScope (s : Scope) (a : Action m) : Action m := do
  let before := (← get).scope
  modify ({ · with scope := s })
  let output ← a
  modify ({ · with scope := before })
  return output

/-- The action with the cursor of `s` moved while it runs. -/
def atCursor (s : Scope) (i : Nat) (a : Action m) : Action m := do
  let before := (← get).cursor s
  modify (·.setCursor s i)
  let output ← a
  modify (·.setCursor s before)
  return output

/-- The action one level deeper, or only a warning when `limit` levels are entered already. -/
def nested (limit : Nat) (tooDeep : Warning) (a : Action m) : Action m := do
  if (← get).depth < limit then
    modify Context.enter
    let output ← a
    modify Context.leave
    return output
  else refuse tooDeep

/-- Runs actions one after the other and keeps the place of each with its output. -/
def outputs : List (Nat × Action m) → m (List (Nat × List UInt8))
  | [] => return []
  | (place, a) :: rest => do
    let output ← a
    let others ← outputs rest
    return (place, output) :: others

/-- Runs actions one after the other and puts their outputs in at their places. -/
def splice (block : List UInt8) (parts : List (Nat × Action m)) : Action m := do
  return spliceAll block (← outputs parts)

/-- Runs an action for each number below `n` and joins the outputs. -/
def times (n : Nat) (a : Nat → Action m) : Action m :=
  (List.range n).foldlM (fun output i => return output ++ (← a i)) []

end Action

end ThemePress.Render
