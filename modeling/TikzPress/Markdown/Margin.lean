import TikzPress.Text

/-!
The left margin of a line of Markdown. Blanks are counted in columns, with tab stops every four; a tab
may be used up in parts.
-/

namespace TikzPress.Markdown

-- What follows, the number of columns since the last tab, and the columns of a tab that was passed but is not used
-- up.
structure Margin where
  rest : Text
  column : Nat
  owed : Nat
  deriving DecidableEq, Repr

def isLineBlank (c : Char) : Bool := c = '\t' || c = '\x0b' || c = '\x0c' || c = ' '

def isAsciiBlank (c : Char) : Bool := isLineBlank c || c = '\n' || c = '\r'

def dropEnd? : Text → Option Text
  | [] => some []
  | '\n' :: t => some t
  | '\r' :: '\n' :: t => some t
  | '\r' :: t => some t
  | _ => none

def dropBlankLine? (t : Text) : Option Text := dropEnd? (t.dropWhile isLineBlank)

def isBlankLine (t : Text) : Bool := (dropBlankLine? t).isSome

def dropLine (t : Text) : Text :=
  (dropEnd? (t.dropWhile fun c => c ≠ '\n' && c ≠ '\r')).getD []

def cutLine (t : Text) : Text × Text :=
  match t.dropWhile (· ≠ '\n') with
  | [] => (t, [])
  | c :: rest => (t.takeWhile (· ≠ '\n') ++ [c], rest)

namespace Margin

def ofLine (t : Text) : Margin := ⟨t, 0, 0⟩

def atEnd (m : Margin) : Bool := (dropEnd? m.rest).isSome

def passBlanks (n column : Nat) : Text → Nat × Margin
  | ' ' :: t =>
    match n with
    | 0 => (0, ⟨' ' :: t, column, 0⟩)
    | n + 1 =>
      let (k, m) := passBlanks n (column + 1) t
      (k + 1, m)
  | '\t' :: t =>
    let width := 4 - column % 4
    if n = 0 then (0, ⟨'\t' :: t, column, 0⟩)
    else if n ≤ width then (n, ⟨t, 0, width - n⟩)
    else
      let (k, m) := passBlanks (n - width) 0 t
      (width + k, m)
  | t => (0, ⟨t, column, 0⟩)

def take (n : Nat) (m : Margin) : Nat × Margin :=
  if n ≤ m.owed then (n, { m with owed := m.owed - n })
  else
    let (k, after) := passBlanks (n - m.owed) m.column m.rest
    (m.owed + k, after)

def skip (m : Margin) : Text := m.rest.dropWhile fun c => c = ' ' || c = '\t'

def quoteSign? (m : Margin) : Option Margin :=
  match m.rest with
  | '>' :: t => some (take 1 { m with rest := t, column := m.column + 1 }).2
  | _ => none

end Margin
end TikzPress.Markdown
