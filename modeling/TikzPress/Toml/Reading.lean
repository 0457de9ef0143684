import TikzPress.Toml.Quoted
import TikzPress.Toml.Scalar

/-!
Reading a configuration text. It is a sequence of lines, each a header or a key with a value; arrays
and inline tables may spread over several lines.
-/

namespace TikzPress.Toml

def dropBlanks (t : Text) : Text := t.dropWhile Quoted.isInlineBlank

def dropComment? : Text → Option Text
  | '#' :: t =>
    match t.dropWhile Quoted.isPlain with
    | [] => some []
    | rest => if (Quoted.dropBreak? rest).isSome then some rest else none
  | t => some t

def dropLines? (t : Text) : Option Text :=
  match dropComment? (dropBlanks t) with
  | none => none
  | some rest =>
    match Quoted.dropBreak? rest with
    | none => some rest
    | some more => if more.length < t.length then dropLines? more else none
termination_by t.length

def dropLineEnd? (t : Text) : Option Text :=
  match dropComment? (dropBlanks t) with
  | some [] => some []
  | some rest => Quoted.dropBreak? rest
  | none => none

def isKeyChar (c : Char) : Bool := c.isAlphanum || c = '_' || c = '-'

def keyPart : Reader Text := fun t =>
  match t.takeWhile isKeyChar with
  | [] => Quoted.oneLine t
  | part => some (part, t.dropWhile isKeyChar)

def key : Reader (List Text × Text) := fun t => do
  let (first, t) ← keyPart (dropBlanks t)
  let next : Reader Text := fun t => do
    let t ← Text.dropLiteral? ['.'] (dropBlanks t)
    keyPart (dropBlanks t)
  let (others, t) := Reader.many next t
  let parts := first :: others
  return ((parts.dropLast, parts.getLastD first), dropBlanks t)

def listed (item : Reader α) (close : Char) (t : Text) : Option (List α × Text) := do
  match ← dropLines? t with
  | [] => none
  | c :: rest =>
    if c = close then return ([], rest)
    let (a, after) ← item (c :: rest)
    match ← dropLines? after with
    | ',' :: more =>
      if _h : more.length < t.length then
        let (as, rest) ← listed item close more
        return (a :: as, rest)
      else none
    | d :: rest => if d = close then return ([a], rest) else none
    | [] => none
termination_by t.length

def pair (value : Reader Value) : Reader ((List Text × Text) × Value) := fun t => do
  let (name, t) ← key t
  let t ← Text.dropLiteral? ['='] t
  let (v, t) ← value (dropBlanks t)
  return ((name, v), t)

def inlineTable? (pairs : List ((List Text × Text) × Value)) : Option Value :=
  let assign (entries : Entries) (p : (List Text × Text) × Value) : Option Entries :=
    entries.assign? p.1.2 p.2 p.1.1
  (pairs.foldlM assign []).map (.table .inline)

def simple : Reader Value := fun t =>
  match t with
  | '"' :: _ | '\'' :: _ => (Quoted.string t).map fun (s, rest) => (.string s, rest)
  | _ => Scalar.read t

def value : Nat → Reader Value
  | depth + 1, '[' :: t => do
    let (items, rest) ← listed (value depth) ']' t
    return (.array items, rest)
  | depth + 1, '\x7b' :: t => do
    let (pairs, rest) ← listed (pair (value depth)) '\x7d' t
    return (← inlineTable? pairs, rest)
  | _, t => simple t

def maxDepth : Nat := 80

def statement : Reader Statement
  | '[' :: '[' :: t => do
    let ((parts, last), t) ← key t
    return (.openItem parts last, ← Text.dropLiteral? "]]".toList t)
  | '[' :: t => do
    let ((parts, last), t) ← key t
    return (.openTable parts last, ← Text.dropLiteral? [']'] t)
  | t => do
    let (((parts, last), v), t) ← pair (value maxDepth) t
    return (.assign parts last v, t)

def statements? (t : Text) : Option (List Statement) := do
  match ← dropLines? t with
  | [] => return []
  | rest =>
    let (s, after) ← statement rest
    let more ← dropLineEnd? after
    if more.length < t.length then return s :: (← statements? more) else none
termination_by t.length

-- A byte order mark in front is dropped.
def parse? (t : Text) : Option Entries := do
  let t := match t with
    | '\uFEFF' :: rest => rest
    | _ => t
  gather [] [] (← statements? t)

end TikzPress.Toml
