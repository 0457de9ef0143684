import TikzPress.Markdown.Margin

/-!
Lines that open a block without blocks inside: rules, headings and code fences.
-/

namespace TikzPress.Markdown

def dropRule? (t : Text) : Option Text :=
  match t with
  | [] => none
  | c :: _ =>
    let isPart (x : Char) := x = c || x = ' ' || x = '\t'
    let signs := (t.takeWhile isPart).filter (· = c)
    if (c = '*' ∨ c = '-' ∨ c = '_') ∧ 3 ≤ signs.length then dropEnd? (t.dropWhile isPart)
    else none

def isRule (t : Text) : Bool := (dropRule? t).isSome

def isHeading (t : Text) : Bool :=
  let level := (t.takeWhile (· = '#')).length
  1 ≤ level && level ≤ 6 && ((t.drop level).head?.all isAsciiBlank)

def dropUnderline? (t : Text) : Option Text :=
  match t with
  | [] => none
  | c :: _ =>
    if c = '=' ∨ c = '-' then dropBlankLine? (t.dropWhile (· = c)) else none

structure FenceSign where
  sign : Char
  count : Nat
  deriving DecidableEq, Repr

namespace FenceSign

-- After backticks the line has no further backtick.
def read? (t : Text) : Option (FenceSign × Text) :=
  match t with
  | [] => none
  | c :: _ =>
    let count := (t.takeWhile (· = c)).length
    let rest := t.drop count
    if (c = '~' ∨ c = '\x60') ∧ 3 ≤ count ∧ ¬(c = '\x60' ∧ c ∈ (cutLine rest).1) then
      some (⟨c, count⟩, rest)
    else none

-- A closing fence has at least as many signs and after them nothing but spaces. The end of the text closes a fence
-- as well.
def dropClosing? (f : FenceSign) (t : Text) : Option Text :=
  if t = [] then some []
  else
    let count := (t.takeWhile (· = f.sign)).length
    let rest := (t.drop count).dropWhile (· = ' ')
    if f.count ≤ count ∧ (dropEnd? rest).isSome then some rest else none

end FenceSign
end TikzPress.Markdown
