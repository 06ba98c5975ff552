import ThemePress.Template.Tag
import ThemePress.Template.TagText
import ThemePress.Warning

/-! # From a template's bytes to nodes

`scan` cuts every tag out of a byte sequence. What remains are the literal bytes, and one node for
each tag that stands for a value or opens a block, placed where its tag was cut out. A block goes
from its opening tag to the close tag that pairs with it; the bytes between are scanned by
themselves, and a divider among the tags found there splits them into two branches. Comments leave
nothing, and neither do close tags that close no block, which are reported.

The only fault is a block without a close tag. -/

namespace ThemePress.Template

/-- Why a template cannot be compiled. -/
inductive ScanError where
  | unterminatedBlock (name : String)
  deriving DecidableEq, Repr

def ScanError.message : ScanError → String
  | unterminatedBlock name => s!"block '{name}' has no matching close tag"

/-- What is left of a byte sequence once its tags are cut out. -/
structure Fragment where
  /-- The literal bytes. -/
  block : List UInt8
  /-- The nodes for the tags, each placed where its tag was cut out. -/
  nodes : List Node

namespace Fragment

/-- Puts literal bytes and the nodes behind them in front. -/
def prepend (literal : List UInt8) (nodes : List Node) (f : Fragment) : Fragment :=
  ⟨literal ++ f.block, nodes ++ f.nodes⟩

/-- Splits a fragment at its first divider. The divider's node becomes the second branch and takes
what follows it, with places counted from its start. -/
def splitElse (f : Fragment) : Fragment × Option Node :=
  match f.nodes.dropWhile (·.name != Node.elseName) with
  | [] => (f, none)
  | divider :: later =>
    let place := min divider.position f.block.length
    let branch := { divider with
      block := f.block.drop place
      children := later.map fun n => { n with position := n.position - place } }
    (⟨f.block.take place, f.nodes.takeWhile (·.name != Node.elseName)⟩, some branch)

/-- The node of a block with the tag text `text` and this inside. -/
def toBlock (f : Fragment) (text : String) (unescaped : Bool) (position : Nat) : Node :=
  let (first, branch) := f.splitElse
  Node.ofText text unescaped position first.block first.nodes branch

end Fragment

/-- Scans `data`, which `start` literal bytes precede in its block. -/
def scanFrom (start : Nat) (data : List UInt8) : Reported (Except ScanError Fragment) :=
  match h : Cut.first? data with
  | none => ⟨[], .ok ⟨data, []⟩⟩
  | some cut =>
    have := Cut.after_lt h
    let place := start + cut.before.length
    let onwards (nodes : List Node) (after : Reported (Except ScanError Fragment)) :=
      after.map (·.map (Fragment.prepend cut.before nodes))
    match cut.tag.kind with
    | .comment => onwards [] (scanFrom place cut.after)
    | .blockClose => (onwards [] (scanFrom place cut.after)).after [.strayCloser cut.tag.inner]
    | .divider | .value =>
      let nodes := if cut.tag.inner.isEmpty then []
        else [Node.ofText cut.tag.inner cut.tag.unescaped place [] [] none]
      onwards nodes (scanFrom place cut.after)
    | .blockOpen =>
      let text := Tag.blockText cut.tag.inner
      let name := Tag.blockName text
      match h' : Enclosed.first? name cut.after with
      | none => ⟨[], .error (.unterminatedBlock name)⟩
      | some enclosed =>
        have := Enclosed.first?_lt h'
        let inside := scanFrom 0 enclosed.inside
        match inside.value with
        | .error e => ⟨inside.warnings, .error e⟩
        | .ok fragment =>
          (onwards [fragment.toBlock text cut.tag.unescaped place]
            (scanFrom place enclosed.after)).after inside.warnings
termination_by data.length

/-- Cuts every tag out of a byte sequence. -/
def scan (data : List UInt8) : Reported (Except ScanError Fragment) :=
  scanFrom 0 data

/-- The place of the last node that a layout leaves for its content. -/
def Node.lastBody? (nodes : List Node) : Option Nat :=
  (nodes.reverse.findIdx? (·.name == bodyName)).map (nodes.length - 1 - ·)

/-- The root of the template `name` with the given source. -/
def Node.compile (name : String) (source : List UInt8) : Reported (Except ScanError Node) :=
  (scan source).map (·.map fun f =>
    { Node.leaf name false 0 with
      block := f.block
      children := f.nodes
      bodySlot := Node.lastBody? f.nodes })

end ThemePress.Template
