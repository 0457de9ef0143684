import TikzPress.Markdown.Html
import TikzPress.Markdown.Leaf

/-!
Containers of blocks: block quotes, lists and their items. A line stands within those containers whose
marks or indentation it repeats; a line of a paragraph may leave them out.
-/

namespace TikzPress.Markdown

inductive Container where
  | quote
  | list (sign : Char)
  | item (indent : Nat)
  deriving DecidableEq, Repr

def Container.enter? (m : Margin) : Container → Option Margin
  | quote => (m.take 3).2.quoteSign?
  | list _ => some m
  | item indent =>
    let (k, after) := m.take indent
    if k = indent ∨ after.atEnd then some after else none

def within (m : Margin) : List Container → List Container × Margin
  | [] => ([], m)
  | c :: cs =>
    match c.enter? m with
    | none => ([], m)
    | some after =>
      let (inner, after) := within after cs
      (c :: inner, after)

def withinAll? (m : Margin) (containers : List Container) : Option Margin :=
  let (entered, after) := within m containers
  if entered.length = containers.length then some after else none

structure ItemMark where
  sign : Char
  number? : Option Nat
  width : Nat
  deriving DecidableEq, Repr

namespace ItemMark

def read? (t : Text) : Option (ItemMark × Text) :=
  match t with
  | [] => none
  | c :: rest =>
    if c = '-' ∨ c = '+' ∨ c = '*' then some (⟨c, none, 1⟩, rest)
    else
      let digits := t.takeWhile Char.isDigit
      match t.dropWhile Char.isDigit with
      | sign :: rest =>
        if digits ≠ [] ∧ digits.length ≤ 9 ∧ (sign = '.' ∨ sign = ')') then
          let number := digits.foldl (fun n c => 10 * n + (c.toNat - '0'.toNat)) 0
          some (⟨sign, some number, digits.length + 1⟩, rest)
        else none
      | [] => none

-- The sign and the indentation of the item, for a mark that stands itself in some column. Content that is indented
-- like code has one column before it.
def open? (column : Nat) (m : Margin) : Option (Char × Nat × Margin) := do
  if isRule m.rest then none
  let (mark, rest) ← read? m.rest
  let after : Margin := { m with rest, column := m.column + mark.width }
  let (k, after) := after.take 1
  if k = 0 ∧ ¬after.atEnd then none
  let indent := column + mark.width + 1
  if isBlankLine after.rest then return (mark.sign, indent, after)
  let (k, further) := after.take 4
  if k < 4 then return (mark.sign, indent + k, further) else return (mark.sign, indent, after)

-- Within all containers of the paragraph a number has to be one, and the item may not be empty.
def interrupts (isInner : Bool) (t : Text) : Bool :=
  match read? t with
  | none => false
  | some (mark, rest) =>
    let separate := rest.head?.all fun c => c = ' ' || c = '\t' || c = '\n' || c = '\r'
    let empty := match dropBlankLine? rest with
      | some after => isBlankLine after
      | none => false
    separate && (!isInner || (mark.number?.all (· = 1) && !empty))

end ItemMark

def interrupts (isInner : Bool) (t : Text) : Bool :=
  (dropEnd? t).isSome || isRule t || isHeading t || (FenceSign.read? t).isSome ||
    Text.opensWith ['>'] t || ItemMark.interrupts isInner t ||
    match t with
    | '<' :: t => (Html.endText? t).isSome || Html.opensBlockElement t
    | _ => false

def continued? (containers : List Container) (t : Text) : Option Text :=
  let (entered, m) := within (.ofLine t) containers
  let (k, after) := m.take 4
  if k < 4 ∧ interrupts (entered.length = containers.length) after.rest then none
  else if (dropEnd? after.skip).isSome then none
  else some after.skip

def underlined? (containers : List Container) (t : Text) : Option Text := do
  let m ← withinAll? (.ofLine t) containers
  let (k, after) := m.take 4
  if k < 4 then dropUnderline? after.rest else none

end TikzPress.Markdown
