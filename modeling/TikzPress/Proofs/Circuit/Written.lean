import TikzPress.Circuit
import TikzPress.Proofs.OptionList
import TikzPress.Proofs.Statement
import TikzPress.Proofs.Token

/-!
Circuits as they are written: chains with all their blanks. A written chain has a value for each place where it
may stand, and this is what a reader should make of it.
-/

namespace TikzPress.Circuit

open Text

namespace Written

-- A part in brackets, with the blanks in front of it. No statement ends in it.
structure Part (o c : Char) where
  gap    : Gap
  text   : Text
  group  : Bracket.Group o c text
  braced : Statement.Braced text

abbrev Options := Part '[' ']'

abbrev Target := Part '(' ')'

namespace Part

def written (p : Part o c) : Text :=
  p.gap.text ++ p.text

def optionList (p : Options) : OptionList :=
  ⟨p.text⟩

def reference (p : Target) : Reference :=
  .ofRaw p.text

end Part

-- The values of parts that stand one behind the other, the first of them at the byte `start`.
def placed (text : α → Text) (value : Nat → α → β) (start : Nat) : List α → List β
  | []      => []
  | a :: as => value start a :: placed text value (start + width (text a)) as

-- What may be left out.
def given (f : α → Text) (o : Option α) : Text :=
  o.elim [] f

-- `--` or `to[…]`
inductive Link
  | wire
  | component (options : Option Options)

namespace Link

def word : Link → Text
  | wire        => "--".toList
  | component _ => "to".toList

def text (l : Link) : Text :=
  match l with
  | wire              => l.word
  | component options => l.word ++ given Part.written options

def value : Link → Circuit.Link
  | wire              => .wire
  | component options =>
    let options := options.map Part.optionList
    .component (componentName options) options

end Link

-- A link and a target, perhaps with `++` between them.
structure Segment where
  gap    : Gap
  link   : Link
  plus   : Option Gap
  target : Target

namespace Segment

-- Without the blanks in front.
def core (s : Segment) : Text :=
  s.link.text ++ (given (fun g => g.text ++ "++".toList) s.plus ++ s.target.written)

def text (s : Segment) : Text :=
  s.gap.text ++ s.core

-- The value of a segment whose text starts at the byte `start`.
def value (start : Nat) (s : Segment) : Circuit.Segment where
  link   := s.link.value
  target := s.target.reference
  range  := ⟨start + width s.gap.text, start + width s.text⟩

abbrev placed : Nat → List Segment → List Circuit.Segment :=
  Written.placed text value

end Segment

-- `\draw[…] (…)` and segments, closed by a semicolon.
structure Chain where
  gap      : Gap
  options  : Option Options
  source   : Target
  segments : List Segment
  close    : Gap

namespace Chain

-- What stands before the segments.
def front (c : Chain) : Text :=
  c.gap.text ++ ['\\'] ++ "draw".toList ++ (given Part.written c.options ++ c.source.written)

def steps (c : Chain) : Text :=
  c.segments.flatMap Segment.text

def text (c : Chain) : Text :=
  c.front ++ c.steps ++ c.close.text ++ [';']

-- The value of a chain whose text starts at the byte `start`.
def value (start : Nat) (c : Chain) : Circuit.Chain where
  options  := c.options.map Part.optionList
  source   := c.source.reference
  segments := Segment.placed (start + width c.front) c.segments
  range    := ⟨start, start + width c.text⟩

abbrev placed : Nat → List Chain → List Circuit.Chain :=
  Written.placed text value

end Chain

end Written
end TikzPress.Circuit
