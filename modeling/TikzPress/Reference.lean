import TikzPress.Decimal.Reading
import TikzPress.Token

/-!
References `(…)` to nodes and coordinates. A reference is anonymous, or it names a node, perhaps
with an anchor after the first point; a name with a comma is a coordinate, whose points are decimal
points. Main statement: name and anchor joined by a point are the trimmed text between the
parentheses.
-/

namespace TikzPress

structure Coordinate where
  x : Binary64
  y : Binary64
  deriving DecidableEq, Repr, Inhabited

def Coordinate.origin : Coordinate := ⟨.zero, .zero⟩

-- The first and the last byte are not looked at.
def Coordinate.ofRaw? (raw : Text) : Option Coordinate := do
  guard (raw ≠ [])
  let inner ← Text.slice? raw 1 (Text.width raw - 1)
  let (x, y) ← Text.cutAtChar? ',' inner
  return ⟨← Binary64.read? (Text.trim x), ← Binary64.read? (Text.trim y)⟩

inductive Place where
  | anonymous
  | named (name : Text) (anchor : Option Text)
  deriving DecidableEq, Repr

def Place.ofInner (inner : Text) : Place :=
  let inner := Text.trim inner
  if inner = [] then .anonymous
  else if ',' ∈ inner then .named inner none
  else match Text.cutAtChar? '.' inner with
    | some (name, anchor) => .named name (some anchor)
    | none => .named inner none

def Place.text : Place → Text
  | anonymous => []
  | named name none => name
  | named name (some anchor) => name ++ '.' :: anchor

theorem Place.text_ofInner (inner : Text) : (ofInner inner).text = Text.trim inner := by
  simp only [ofInner]
  split
  case isTrue h => exact h.symm
  case isFalse =>
    split
    case isTrue => rfl
    case isFalse =>
      split
      case h_1 h => simpa [text] using Text.append_of_cutAtChar? h
      case h_2   => rfl

structure Reference where
  place : Place
  raw : Text
  deriving DecidableEq, Repr

namespace Reference

def ofRaw (raw : Text) : Reference := ⟨.ofInner ((raw.drop 1).dropLast), raw⟩

def read : Reader Reference := ofRaw <$> Token.group '(' ')'

def name? (r : Reference) : Option Text :=
  match r.place with
  | .anonymous => none
  | .named name _ => some name

def anchor? (r : Reference) : Option Text :=
  match r.place with
  | .named _ anchor => anchor
  | .anonymous => none

def isAnonymous (r : Reference) : Bool := r.place = .anonymous

theorem isSome_name? (r : Reference) : r.name?.isSome = !r.isAnonymous := by
  cases h : r.place <;> simp [name?, isAnonymous, h]

def coordinate? (r : Reference) : Option Coordinate := Coordinate.ofRaw? r.raw

end Reference
end TikzPress
