import TikzPress.OptionList
import TikzPress.Reference
import TikzPress.Statement

/-!
Circuits: the `\draw` statements of a `circuitikz` body. A step is a wire `--` or a component
`to[…]`; the first option of a component names it. All ranges count from the start of the body.
-/

namespace TikzPress
namespace Circuit

inductive Link where
  | wire
  | component (name : Text) (options : Option OptionList)
  deriving DecidableEq, Repr

structure Segment where
  link : Link
  target : Reference
  range : Range
  deriving DecidableEq, Repr

structure Chain where
  options : Option OptionList
  source : Reference
  segments : List Segment
  range : Range
  deriving DecidableEq, Repr

def defaultComponent : Text := "short".toList

def componentName (options : Option OptionList) : Text :=
  match options.map OptionList.items with
  | some (name :: _) => name
  | _ => defaultComponent

-- The name without an inline label. Wires have none.
def Segment.kind? (s : Segment) : Option Text :=
  match s.link with
  | .wire => none
  | .component name _ => some <|
    match Text.cutAtChar? '=' name with
    | some (kind, _) => Text.trim kind
    | none => name

open Token

def Link.read : Reader Link :=
  (do literal "--".toList; return .wire) <|>
  (do
    keyword "to".toList
    let options ← optional OptionList.read
    return .component (componentName options) options)

def Segment.read (stop : Nat) : Reader Segment := do
  let ((link, target), range) ← ranged stop do
    let link ← Link.read
    let _ ← optional (literal "++".toList)
    return (link, ← Reference.read)
  return ⟨link, target, range⟩

-- What follows the last complete step is left.
def Chain.read (range : Range) : Reader Chain := do
  command "draw".toList
  let options ← optional OptionList.read
  let source ← Reference.read
  let segments ← fun t => some (Reader.many (Segment.read range.stop) t)
  return ⟨options, source, segments, range⟩

end Circuit

structure Circuit where
  chains : List Circuit.Chain
  deriving DecidableEq, Repr

def Circuit.parse (body : Text) : Circuit :=
  ⟨(Statement.split body).filterMap fun s => ((Circuit.Chain.read s.range).run s.text).map Prod.fst⟩

end TikzPress
