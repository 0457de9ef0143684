import TikzPress.Text.Blank

/-!
Paths as texts: their parts between slashes, joining, the parent and the absolute form. Nothing here
looks at files.
-/

namespace TikzPress.Path

def isAbsolute (p : Text) : Bool := p.head? = some '/'

def names (p : Text) : List Text :=
  (Text.piecesAt '/' p).filter fun part => part ≠ [] ∧ part ≠ ['.']

def join (p q : Text) : Text :=
  if isAbsolute q then q
  else match p.getLast? with
    | none => q
    | some '/' => p ++ q
    | some _ => p ++ '/' :: q

-- A point in front is kept.
def dropSilent : List Text → List Text
  | [] => []
  | part :: parts =>
    part :: ((parts.reverse.dropWhile fun part => part = [] ∨ part = ['.']).reverse)

def parent? (p : Text) : Option Text :=
  match dropSilent (Text.piecesAt '/' p) with
  | [] => none
  | [only] => if only = [] then none else some []
  | parts =>
    match dropSilent parts.dropLast with
    | [] | [[]] => some ['/']
    | parts => some (Text.joinWith ['/'] parts)

-- Points and repeated slashes are dropped; two points and a slash at the end are kept, and so are two slashes in
-- front.
def absolute (directory p : Text) : Text :=
  let start :=
    if Text.opensWith "//".toList p ∧ ¬Text.opensWith "///".toList p then "//".toList
    else if isAbsolute p then ['/']
    else directory
  let full := (names p).foldl join start
  if p.getLast? = some '/' then join full [] else full

end TikzPress.Path
