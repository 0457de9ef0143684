import TikzPress.Text.Blank

/-!
Names of styles. A name is valid when it is not empty and holds ASCII letters, digits and colons
only; for any other text the nearest valid name can be suggested.
-/

namespace TikzPress.StyleName

def isNameChar (c : Char) : Bool := c.isAlphanum || c = ':'

def isValid (name : Text) : Bool := name ≠ [] && name.all isNameChar

def isSeparator (c : Char) : Bool :=
  Text.isBlank c || c = '_' || c = '/' || c = '.' || c = '-'

def fallback : Text := "style".toList

def collapse : Text → Text
  | ':' :: ':' :: t => collapse (':' :: t)
  | c :: t => c :: collapse t
  | [] => []

def dropColon : Text → Text
  | ':' :: t => t
  | t => t

-- Separators become colons, other characters that are not allowed are left out, a run of colons is one colon, and
-- a colon at either end is dropped.
def suggest (name : Text) : Text :=
  let separated := name.map fun c => if isSeparator c then ':' else c
  let joined := collapse (separated.filter isNameChar)
  match (dropColon (dropColon joined).reverse).reverse with
  | [] => fallback
  | suggestion => suggestion

end TikzPress.StyleName
