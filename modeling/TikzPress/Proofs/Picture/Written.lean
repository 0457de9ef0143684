import TikzPress.Picture
import TikzPress.Proofs.Lexeme
import TikzPress.Proofs.Statement

/-!
Statements of a picture as they are written: the parts in brackets, which of them are given, and the lexemes
in their order. A written statement has a value, which is what a reader should make of it.
-/

namespace TikzPress.Picture

open Lexeme

-- The marker that opens a layer.
def layerOpening (name : Text) : Text :=
  "\\begin\x7bpgfonlayer\x7d\x7b".toList ++ name ++ ['\x7d']

namespace Written

inductive Kind
  | options
  | reference
  | label

namespace Kind

def opening : Kind → Char
  | options   => '['
  | reference => '('
  | label     => '\x7b'

def closing : Kind → Char
  | options   => ']'
  | reference => ')'
  | label     => '\x7d'

theorem opening_ne_closing (k : Kind) : k.opening ≠ k.closing := by
  cases k <;> decide

end Kind

-- A part in brackets of its kind, in which no statement ends and no layer opens.
structure Part (k : Kind) where
  text     : Text
  group    : Bracket.Group k.opening k.closing text
  braced   : Statement.Braced text
  unmarked : ∀ name, name ≠ [] → '\x7d' ∉ name → ¬layerOpening name <:+: text

namespace Part

theorem ne_nil (p : Part k) : p.text ≠ [] := by
  have := p.group.opens
  rintro h
  simp [h] at this

theorem head_eq (p : Part k) : p.text.head p.ne_nil = k.opening :=
  List.head_eq_iff_head?_eq_some _ |>.mpr p.group.opens

def lexeme (p : Part k) : Lexeme where
  text   := p.text
  full   := p.ne_nil
  shown  := by rw [p.head_eq]; cases k <;> decide
  letter := by rw [p.head_eq]; cases k <;> decide

theorem first_lexeme (p : Part k) : p.lexeme.first = k.opening :=
  p.head_eq

-- Without a backslash there is no marker.
def ofText (k : Kind) (t : Text) (group : Bracket.Group k.opening k.closing t)
    (braced : TikzPress.Statement.Braced t) (h : '\\' ∉ t) : Part k where
  text     := t
  group    := group
  braced   := braced
  unmarked := fun _ _ _ hi =>
    h (hi.subset (List.mem_append_left _ (List.mem_append_left _ (by decide))))

def optionList (p : Part .options) : OptionList :=
  ⟨p.text⟩

def reference (p : Part .reference) : Reference :=
  .ofRaw p.text

end Part

-- The lexemes of what may be left out.
def given (f : α → List Lexeme) (o : Option α) : List Lexeme :=
  o.elim [] f

-- A part that may be left out.
abbrev part (o : Option (Part k)) : List Lexeme :=
  given (fun p => [p.lexeme]) o

-- A word and a reference, which may be left out together.
def clause (w : Text) (h : Letters w) (o : Option (Part .reference)) : List Lexeme :=
  given (fun r => [word w h] ++ [r.lexeme]) o

def dots : Lexeme :=
  ⟨"..".toList, by decide, by decide, by decide⟩

def semicolon : Lexeme :=
  ⟨[';'], by decide, by decide, by decide⟩

-- `node[…]{…}`
structure EdgeNode where
  options : Option (Part .options)
  label   : Option (Part .label)

def EdgeNode.lexemes (n : EdgeNode) : List Lexeme :=
  [word "node".toList (by decide)] ++ (part n.options ++ part n.label)

def EdgeNode.value (n : EdgeNode) : Picture.EdgeNode where
  options := n.options.map Part.optionList
  label   := n.label.map Part.text

-- `to[…] node[…]{…} (…)` or `.. controls (…) and (…) .. (…)`
inductive Segment
  | line  (options : Option (Part .options)) (node : Option EdgeNode) (target : Part .reference)
  | curve (control₁ : Part .reference) (control₂ : Option (Part .reference)) (target : Part .reference)

namespace Segment

def lexemes : Segment → List Lexeme
  | line options node target =>
    [word "to".toList (by decide)] ++ (part options ++ (given EdgeNode.lexemes node ++ [target.lexeme]))
  | curve control₁ control₂ target =>
    [dots] ++ ([word "controls".toList (by decide)] ++ ([control₁.lexeme] ++
      (clause "and".toList (by decide) control₂ ++ ([dots] ++ [target.lexeme]))))

def value : Segment → Picture.Segment
  | line options node target =>
    .line (options.map Part.optionList) (node.map EdgeNode.value) target.reference
  | curve control₁ control₂ target =>
    .curve control₁.reference (control₂.map Part.reference) target.reference

end Segment

-- `at (…)`
abbrev position (o : Option (Part .reference)) : List Lexeme :=
  clause "at".toList (by decide) o

-- `\node[…] (…) at (…) {…}`
structure Node where
  options  : Option (Part .options)
  name     : Option (Part .reference)
  position : Option (Part .reference)
  label    : Option (Part .label)

namespace Node

def lexemes (n : Node) : List Lexeme :=
  [command "node".toList] ++
    (part n.options ++ (part n.name ++ (Written.position n.position ++ part n.label)))

def value (n : Node) (range : Range) : Picture.Node where
  options    := n.options.map Part.optionList
  name       := (n.name.map Part.reference).bind Reference.name?
  coordinate := (n.position.map Part.reference).bind Reference.coordinate?
  label      := n.label.map Part.text
  range      := range

end Node

-- `\coordinate[…] (…) at (…)`
structure NamedCoordinate where
  options  : Option (Part .options)
  name     : Option (Part .reference)
  position : Option (Part .reference)

namespace NamedCoordinate

def lexemes (c : NamedCoordinate) : List Lexeme :=
  [command "coordinate".toList] ++ (part c.options ++ (part c.name ++ Written.position c.position))

def value (c : NamedCoordinate) (range : Range) : Picture.NamedCoordinate where
  options    := c.options.map Part.optionList
  name       := (c.name.map Part.reference).bind Reference.name?
  coordinate := (c.position.map Part.reference).bind Reference.coordinate?
  range      := range

end NamedCoordinate

-- A command, and then `[…] (…)` and steps.
structure Chain where
  options  : Option (Part .options)
  source   : Part .reference
  segments : List Segment

namespace Chain

def lexemes (c : Chain) (name : Text) : List Lexeme :=
  [command name] ++ (part c.options ++ ([c.source.lexeme] ++ c.segments.flatMap Segment.lexemes))

def value (c : Chain) (range : Range) : Picture.Chain where
  options  := c.options.map Part.optionList
  source   := c.source.reference
  segments := c.segments.map Segment.value
  range    := range

end Chain

inductive Statement
  | node (n : Node)
  | coordinate (c : NamedCoordinate)
  | draw (c : Chain)
  | path (c : Chain)

namespace Statement

def lexemes : Statement → List Lexeme
  | node n       => n.lexemes
  | coordinate c => c.lexemes
  | draw c       => c.lexemes "draw".toList
  | path c       => c.lexemes "path".toList

def value (range : Range) : Statement → Picture.Statement
  | node n       => .node (n.value range)
  | coordinate c => .coordinate (c.value range)
  | draw c       => .draw (c.value range)
  | path c       => .path (c.value range)

end Statement
end Written

-- A statement as it stands in a body.
structure Writing where
  statement : Written.Statement
  text      : Text
  spaced    : Spaced (statement.lexemes ++ [Written.semicolon]) text

-- Each statement can be written.
def Writing.ofStatement (s : Written.Statement) : Writing where
  statement := s
  text      := (s.lexemes ++ [Written.semicolon]).flatMap fun l => [' '] ++ l.text
  spaced    := .of_blanks _

-- The statements of a body whose text begins at `start`.
def placed (start : Nat) : List Writing → List Statement
  | []      => []
  | w :: ws =>
    let stop := start + Text.width w.text
    w.statement.value ⟨start, stop⟩ :: placed stop ws

end TikzPress.Picture
