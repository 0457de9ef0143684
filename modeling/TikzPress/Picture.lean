import TikzPress.OptionList
import TikzPress.Reference
import TikzPress.Statement
import TikzPress.Text.Occurrence

/-!
Pictures: the statements of a `tikzpicture` body. The statements stand in layers or, when there is no
layer, directly in the body; what is neither a node, a coordinate nor a path is passed over. All
ranges count from the start of the body.
-/

namespace TikzPress
namespace Picture

-- `\node[…] (name) at (x, y) {label};`
structure Node where
  options : Option OptionList
  name : Option Text
  coordinate : Option Coordinate
  label : Option Text
  range : Range
  deriving DecidableEq, Repr

-- `\coordinate[…] (name) at (x, y);`
structure NamedCoordinate where
  options : Option OptionList
  name : Option Text
  coordinate : Option Coordinate
  range : Range
  deriving DecidableEq, Repr

-- `node[…]{label}`
structure EdgeNode where
  options : Option OptionList
  label : Option Text
  deriving DecidableEq, Repr

inductive Segment where
  | line (options : Option OptionList) (node : Option EdgeNode) (target : Reference)
  | curve (control₁ : Reference) (control₂ : Option Reference) (target : Reference)
  deriving DecidableEq, Repr

def Segment.target : Segment → Reference
  | line _ _ target => target
  | curve _ _ target => target

structure Chain where
  options : Option OptionList
  source : Reference
  segments : List Segment
  range : Range
  deriving DecidableEq, Repr

inductive Statement where
  | node (n : Node)
  | coordinate (c : NamedCoordinate)
  | draw (c : Chain)
  | path (c : Chain)
  deriving DecidableEq, Repr

def Statement.range : Statement → Range
  | node n => n.range
  | coordinate c => c.range
  | draw c => c.range
  | path c => c.range

structure Layer where
  name : Text
  statements : List Statement
  raw : Text
  deriving DecidableEq, Repr

end Picture

-- The statements are in the layers or, when there is none, outside of layers.
structure Picture where
  options : Option Text
  layers : List Picture.Layer
  statements : List Picture.Statement
  deriving DecidableEq, Repr

namespace Picture

def allStatements (p : Picture) : List Statement :=
  p.layers.flatMap Layer.statements ++ p.statements

open Token

-- Without a reference after it the word `at` is taken alone.
def readAt : Reader (Option Coordinate) := do
  match ← optional (keyword "at".toList) with
  | none => return none
  | some () => return (← optional Reference.read).bind Reference.coordinate?

def readName : Reader (Option Text) := do
  return (← optional Reference.read).bind Reference.name?

def readLabel : Reader Text := group '\x7b' '\x7d'

def Node.read (range : Range) : Reader Node := do
  command "node".toList
  let options ← optional OptionList.read
  let name ← readName
  let coordinate ← readAt
  let label ← optional readLabel
  return ⟨options, name, coordinate, label, range⟩

def NamedCoordinate.read (range : Range) : Reader NamedCoordinate := do
  command "coordinate".toList
  let options ← optional OptionList.read
  let name ← readName
  let coordinate ← readAt
  return ⟨options, name, coordinate, range⟩

def EdgeNode.read : Reader EdgeNode := do
  keyword "node".toList
  return ⟨← optional OptionList.read, ← optional readLabel⟩

-- `to[…] node[…]{…} (target)`
def Segment.readLine : Reader Segment := do
  keyword "to".toList
  let options ← optional OptionList.read
  let node ← optional EdgeNode.read
  return .line options node (← Reference.read)

-- `.. controls (c₁) and (c₂) .. (target)`
def Segment.readCurve : Reader Segment := do
  literal "..".toList
  keyword "controls".toList
  let control₁ ← Reference.read
  let control₂ ← optional do keyword "and".toList; Reference.read
  literal "..".toList
  return .curve control₁ control₂ (← Reference.read)

def Segment.read : Reader Segment := Segment.readLine <|> Segment.readCurve

-- What follows the last complete step is left.
def Chain.read (name : Text) (range : Range) : Reader Chain := do
  command name
  let options ← optional OptionList.read
  let source ← Reference.read
  let segments ← fun t => some (Reader.many Segment.read t)
  return ⟨options, source, segments, range⟩

def Statement.read (range : Range) : Reader Statement :=
  node <$> Node.read range <|> coordinate <$> NamedCoordinate.read range <|>
    draw <$> Chain.read "draw".toList range <|> path <$> Chain.read "path".toList range

def statementsOf (start : Nat) (t : Text) : List Statement :=
  (TikzPress.Statement.split t).filterMap fun s =>
    ((Statement.read (s.range.shift start)).run s.text).map Prod.fst

-- A name is not empty.
def layerHere? (t : Text) : Option (Text × Text) :=
  match Text.dropLiteral? "\\begin\x7bpgfonlayer\x7d\x7b".toList t with
  | none => none
  | some t =>
    match t.dropWhile (· ≠ '\x7d') with
    | [] => none
    | _ :: rest =>
      let name := t.takeWhile (· ≠ '\x7d')
      if name = [] then none else some (name, rest)

def nextLayer? : Text → Option (Text × Text)
  | [] => none
  | c :: t =>
    match layerHere? (c :: t) with
    | some found => some found
    | none => nextLayer? t

def layerClosing : Text := "\\end\x7bpgfonlayer\x7d".toList

theorem length_lt_of_layerHere? {t name rest : Text} (h : layerHere? t = some (name, rest)) :
    rest.length < t.length := by
  unfold layerHere? at h
  split at h
  case h_1 => simp at h
  case h_2 u hu =>
    split at h
    case h_1 => simp at h
    case h_2 c r hr =>
      dsimp only at h
      split at h
      case isTrue  => contradiction
      case isFalse =>
        simp only [Option.some.injEq, Prod.mk.injEq] at h
        have h₁ := (List.dropWhile_sublist (l := u) (· ≠ '\x7d')).length_le
        rw [Text.dropLiteral?_eq_some_iff.mp hu, ← h.2]
        rw [hr] at h₁
        simp at h₁ ⊢
        omega

theorem length_lt_of_nextLayer? {t name rest : Text} (h : nextLayer? t = some (name, rest)) :
    rest.length < t.length := by
  induction t
  case nil => simp [nextLayer?] at h
  case cons c t ih =>
    simp only [nextLayer?] at h
    split at h
    case h_1 hf =>
      cases h
      exact length_lt_of_layerHere? hf
    case h_2 =>
      have := ih h
      simp
      omega

-- Blanks before the closing marker of a layer are not part of it, and the first layer that is not closed ends the
-- search.
def layersOf (stop : Nat) (t : Text) : List Layer :=
  match _h : nextLayer? t with
  | none => []
  | some (name, t') =>
    match _h' : Text.cut? layerClosing t' with
    | none => []
    | some (inner, rest) =>
      let raw := Text.trimEnd inner
      ⟨name, statementsOf (stop - Text.width t') raw, raw⟩ :: layersOf stop rest
termination_by t.length
decreasing_by
  have h₁ := length_lt_of_nextLayer? _h
  have h₂ := Text.length_lt_of_cut? (by decide) _h'
  omega

def parse (body : Text) (options : Option Text) : Picture :=
  match layersOf (Text.width body) body with
  | [] => ⟨options, [], statementsOf 0 body⟩
  | layers => ⟨options, layers, []⟩

end Picture
end TikzPress
