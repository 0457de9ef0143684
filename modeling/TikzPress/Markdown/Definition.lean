import TikzPress.Markdown.Container
import TikzPress.Markdown.Info

/-!
Definitions of links at the start of a paragraph. They are no part of its text, so a line under them
cannot make a heading of them.
-/

namespace TikzPress.Markdown.Definition

def nextLine? (containers : List Container) (t : Text) : Option Text := do
  let rest ← dropEnd? t
  if (underlined? containers rest).isSome then none else continued? containers rest

def dropSpace? (containers : List Container) (t : Text) : Option (Text × Bool) :=
  let t := t.dropWhile isLineBlank
  if (dropEnd? t).isSome then (nextLine? containers t).map (·, true) else some (t, false)

-- Up to a closing sign that no backslash precedes. Line ends are allowed where the paragraph goes on, the signs of
-- `refused` nowhere.
def dropThrough? (containers : List Container) (close : Char) (refused : List Char) (t : Text) :
    Option Text :=
  match t with
  | [] => none
  | c :: rest =>
    if c = close then some rest
    else if c ∈ refused then none
    else if c = '\\' then
      match rest with
      | d :: more =>
        if Info.isPunctuation d then dropThrough? containers close refused more
        else dropThrough? containers close refused (d :: more)
      | [] => none
    else if c = '\n' ∨ c = '\r' then
      match nextLine? containers (c :: rest) with
      | some more =>
        if more.length < (c :: rest).length then dropThrough? containers close refused more
        else none
      | none => none
    else dropThrough? containers close refused rest
termination_by t.length
decreasing_by
  all_goals simp only [List.length_cons] at *
  all_goals omega

def maxLabel : Nat := 999

def dropLabel? (containers : List Container) : Text → Option Text
  | '[' :: t => do
    let rest ← dropThrough? containers ']' ['['] t
    let label := t.take (t.length - rest.length - 1)
    if label.all isAsciiBlank ∨ maxLabel < label.length then none
    else Text.dropLiteral? [':'] rest
  | _ => none

def dropBare? (depth : Nat) : Text → Option Text
  | '\\' :: c :: t => if Info.isPunctuation c then dropBare? depth t else dropBare? depth (c :: t)
  | '(' :: t => if 1 < depth then none else dropBare? (depth + 1) t
  | ')' :: t => if depth = 0 then some (')' :: t) else dropBare? (depth - 1) t
  | c :: t =>
    if c.toNat ≤ 0x20 then (if depth = 0 then some (c :: t) else none) else dropBare? depth t
  | [] => if depth = 0 then some [] else none

def dropDestination? : Text → Option Text
  | '<' :: t => dropThrough? [] '>' ['<', '\n', '\r'] t
  | t =>
    match dropBare? 0 t with
    | some rest => if rest.length < t.length then some rest else none
    | none => none

def dropTitle? (containers : List Container) : Text → Option Text
  | '"' :: t => dropThrough? containers '"' [] t
  | '\'' :: t => dropThrough? containers '\'' [] t
  | '(' :: t => dropThrough? containers ')' ['('] t
  | _ => none

-- Between label, destination and title stands at most one line end each; what looks like a title and is none
-- belongs to the next line.
def drop? (containers : List Container) (t : Text) : Option Text := do
  let t ← dropLabel? containers t
  let (t, _) ← dropSpace? containers t
  let after ← dropDestination? t
  let bare := dropBlankLine? after
  match dropSpace? containers after with
  | none => bare
  | some (title, onNextLine) =>
    if title.length = after.length ∧ ¬onNextLine then none
    else
      match (dropTitle? containers title).bind dropBlankLine? with
      | some rest => some rest
      | none => if onNextLine then bare else none

-- At the start of a line, if the paragraph ends there, or else within one.
def dropAll (containers : List Container) (t : Text) : Text ⊕ Text :=
  match drop? containers t with
  | none => .inr t
  | some rest =>
    match continued? containers rest with
    | none => .inl rest
    | some more => if more.length < t.length then dropAll containers more else .inl rest
termination_by t.length

end TikzPress.Markdown.Definition
