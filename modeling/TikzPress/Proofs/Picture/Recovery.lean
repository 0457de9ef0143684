import Mathlib.Data.List.Forall2
import TikzPress.Proofs.Picture.Layers
import TikzPress.Proofs.Picture.Reading
import TikzPress.Proofs.Reference

/-!
Recovery of a body from its written statements. In what stands before the semicolon of a written statement no
statement ends and no layer opens. Main statement: the picture of a body that consists of written statements
has these statements with their variants and parts, in order and each at its place, and nothing else
(`parse_written`).
-/

namespace TikzPress.Picture

open Lexeme TikzPress.Statement

-- No statement ends and no layer opens in a text.
structure Inert (t : Text) : Prop where
  passed : Passed t
  clear  : Clear t

namespace Inert

theorem append {s t : Text} (hs : Inert s) (ht : Inert t) : Inert (s ++ t) :=
  ⟨hs.passed.append ht.passed, hs.clear.append ht.clear⟩

theorem of_plain {t : Text} (h : ∀ c ∈ t, c ∉ ['\x7b', '\x7d', ';', '\\']) : Inert t where
  passed := Plain.passed fun c hc hm => h c hc (List.mem_append_left ['\\'] hm)
  clear  := clear_of_not_mem fun hm => h _ hm (by decide)

theorem of_isBlankOnly {t : Text} (h : Text.isBlankOnly t) : Inert t :=
  .of_plain (forall_not_mem h rfl)

end Inert

namespace Written

theorem inert_word {w : Text} (h : Letters w) : Inert (word w h).text :=
  .of_plain (forall_not_mem h.right rfl)

-- The marker of a layer is another command.
theorem inert_command {c : Char} {name : Text} (h : Letters (c :: name)) (hc : c ≠ 'b') :
    Inert (Lexeme.command (c :: name)).text where
  passed := Plain.passed (List.forall_mem_cons.mpr ⟨by decide, forall_not_mem h.right rfl⟩)
  clear := by
    intro rest
    show nextLayer? ('\\' :: c :: (name ++ rest)) = _
    rw [nextLayer?, layerHere?_command hc]
    exact (inert_word h).clear rest

section Lexemes

theorem forall_mem_given {P : Lexeme → Prop} {f : α → List Lexeme} (h : ∀ a, ∀ l ∈ f a, P l)
    (o : Option α) : ∀ l ∈ given f o, P l := by
  cases o
  case none   => exact fun _ hl => nomatch hl
  case some a => exact h a

theorem Part.inert (p : Part k) : Inert p.lexeme.text :=
  ⟨p.braced.passed, p.clear⟩

theorem inert_part (o : Option (Part k)) : ∀ l ∈ part o, Inert l.text :=
  forall_mem_given (fun p => List.forall_mem_singleton.mpr p.inert) o

theorem inert_clause {w : Text} (h : Letters w) (o : Option (Part .reference)) :
    ∀ l ∈ clause w h o, Inert l.text := by
  refine forall_mem_given (fun r => ?_) o
  simp only [List.forall_mem_append, List.forall_mem_singleton]
  exact ⟨inert_word h, r.inert⟩

theorem inert_edgeNode (n : EdgeNode) : ∀ l ∈ n.lexemes, Inert l.text := by
  simp only [EdgeNode.lexemes, List.forall_mem_append, List.forall_mem_singleton]
  exact ⟨inert_word _, inert_part _, inert_part _⟩

theorem inert_segment (s : Segment) : ∀ l ∈ s.lexemes, Inert l.text := by
  have dots : Inert dots.text := .of_plain (forall_not_mem (p := (· = '.')) rfl rfl)
  cases s
  case line options node target =>
    simp only [Segment.lexemes, List.forall_mem_append, List.forall_mem_singleton]
    exact ⟨inert_word _, inert_part _, forall_mem_given inert_edgeNode _, target.inert⟩
  case curve control₁ control₂ target =>
    simp only [Segment.lexemes, List.forall_mem_append, List.forall_mem_singleton]
    exact ⟨dots, inert_word _, control₁.inert, inert_clause _ _, dots, target.inert⟩

theorem inert_chain (c : Chain) {d : Char} {name : Text} (h : Letters (d :: name)) (hd : d ≠ 'b') :
    ∀ l ∈ c.lexemes (d :: name), Inert l.text := by
  simp only [Chain.lexemes, List.forall_mem_append, List.forall_mem_singleton, List.forall_mem_flatMap]
  exact ⟨inert_command h hd, inert_part _, c.source.inert, fun s _ => inert_segment s⟩

theorem inert_statement (s : Statement) : ∀ l ∈ s.lexemes, Inert l.text := by
  cases s
  case node n =>
    simp only [Statement.lexemes, Node.lexemes, List.forall_mem_append, List.forall_mem_singleton]
    exact ⟨inert_command (by decide) (by decide), inert_part _, inert_part _, inert_clause _ _, inert_part _⟩
  case coordinate c =>
    simp only [Statement.lexemes, NamedCoordinate.lexemes, List.forall_mem_append, List.forall_mem_singleton]
    exact ⟨inert_command (by decide) (by decide), inert_part _, inert_part _, inert_clause _ _⟩
  case draw c => exact inert_chain c (by decide) (by decide)
  case path c => exact inert_chain c (by decide) (by decide)

end Lexemes
end Written

namespace Writing

theorem eq_append (w : Writing) : ∃ u, w.text = u ++ [';'] ∧ Inert u :=
  w.spaced.eq_append (fun _ => Inert.of_isBlankOnly) (fun _ _ => Inert.append)
    (Written.inert_statement w.statement)

theorem clear (w : Writing) : Clear w.text := by
  obtain ⟨u, hu, hi⟩ := w.eq_append
  exact hu ▸ hi.clear.append (clear_of_not_mem (by decide))

theorem splitFrom_append (w : Writing) (start : Nat) (rest : Text) :
    splitFrom start (w.text ++ rest) = ⟨w.text, start⟩ :: splitFrom (start + Text.width w.text) rest := by
  obtain ⟨u, hu, hi⟩ := w.eq_append
  rw [hu, hi.passed.splitFrom_append]

theorem read_text (w : Writing) (range : Range) :
    ((Statement.read range).run w.text).map Prod.fst = some (w.statement.value range) := by
  obtain ⟨u, hu, -⟩ := Written.takes_statement range w.statement w.text w.spaced
  simp [StateT.run, hu]

end Writing

variable {tail : Text}

theorem clear_writings (ws : List Writing) : Clear (ws.flatMap Writing.text) := by
  induction ws
  case nil         => exact fun _ => rfl
  case cons w ws hi => exact w.clear.append hi

-- The body stands at `base`, and the statements that are passed already end at `start` within it.
theorem filterMap_splitFrom (ws : List Writing) (h : Text.isBlankOnly tail) (start base : Nat) :
    ((splitFrom start (ws.flatMap Writing.text ++ tail)).filterMap fun s =>
      ((Statement.read (s.range.shift base)).run s.text).map Prod.fst) = placed (start + base) ws := by
  induction ws generalizing start
  case nil =>
    rw [List.flatMap_nil, List.nil_append, splitFrom_blank h]
    rfl
  case cons w ws hi =>
    rw [List.flatMap_cons, List.append_assoc, w.splitFrom_append]
    simp only [List.filterMap_cons, w.read_text, hi]
    simp only [placed, Slice.range, Range.shift, Nat.add_right_comm]

theorem statementsOf_writings (ws : List Writing) (h : Text.isBlankOnly tail) (start : Nat) :
    statementsOf start (ws.flatMap Writing.text ++ tail) = placed start ws := by
  have := filterMap_splitFrom ws h 0 start
  rwa [Nat.zero_add] at this

theorem layersOf_writings (ws : List Writing) (h : Text.isBlankOnly tail) (stop : Nat) :
    layersOf stop (ws.flatMap Writing.text ++ tail) = [] := by
  have clear := (clear_writings ws).append (Inert.of_isBlankOnly h).clear
  exact layersOf_of_nextLayer?_eq_none clear.nextLayer?_eq_none stop

namespace Written

variable {range : Range}

def texts (o : Option (Part k)) : Option Text :=
  o.map Part.text

-- What is read of a part in brackets is its text. What a reference names and which point it gives is told by the
-- characters between its parentheses.
structure EdgeNode.Shown (w : EdgeNode) (n : Picture.EdgeNode) : Prop where
  options : n.options.map OptionList.raw = texts w.options
  label   : n.label = texts w.label

inductive Segment.Shown : Segment → Picture.Segment → Prop
  | line  : os.map OptionList.raw = texts o → Option.Rel EdgeNode.Shown n n' →
      Reference.Shows (Part.text t) t' → Shown (line o n t) (.line os n' t')
  | curve : Reference.Shows (Part.text c) c' → Option.Rel (Reference.Shows ∘ Part.text) d d' →
      Reference.Shows (Part.text t) t' → Shown (curve c d t) (.curve c' d' t')

structure Node.Shown (range : Range) (w : Node) (n : Picture.Node) : Prop where
  options    : n.options.map OptionList.raw = texts w.options
  name       : Reference.Names (texts w.name) n.name
  coordinate : Reference.Points (texts w.position) n.coordinate
  label      : n.label = texts w.label
  range      : n.range = range

structure NamedCoordinate.Shown (range : Range) (w : NamedCoordinate) (c : Picture.NamedCoordinate) : Prop where
  options    : c.options.map OptionList.raw = texts w.options
  name       : Reference.Names (texts w.name) c.name
  coordinate : Reference.Points (texts w.position) c.coordinate
  range      : c.range = range

structure Chain.Shown (range : Range) (w : Chain) (c : Picture.Chain) : Prop where
  options  : c.options.map OptionList.raw = texts w.options
  source   : c.source.Shows w.source.text
  segments : List.Forall₂ Segment.Shown w.segments c.segments
  range    : c.range = range

inductive Statement.Shown (range : Range) : Statement → Picture.Statement → Prop
  | node       : Node.Shown range w n → Shown range (node w) (.node n)
  | coordinate : NamedCoordinate.Shown range w c → Shown range (coordinate w) (.coordinate c)
  | draw       : Chain.Shown range w c → Shown range (draw w) (.draw c)
  | path       : Chain.Shown range w c → Shown range (path w) (.path c)

section Values

theorem map_optionList (o : Option (Part .options)) :
    (o.map Part.optionList).map OptionList.raw = texts o :=
  Option.map_map ..

theorem shows_reference (p : Part .reference) : p.reference.Shows p.text :=
  Reference.shows_ofRaw p.group

theorem names_reference (o : Option (Part .reference)) :
    Reference.Names (texts o) ((o.map Part.reference).bind Reference.name?) := by
  cases o
  case none   => exact .missing
  case some p => exact Reference.names_ofRaw p.group

theorem points_reference (o : Option (Part .reference)) :
    Reference.Points (texts o) ((o.map Part.reference).bind Reference.coordinate?) := by
  cases o
  case none   => exact .missing
  case some p => exact Reference.points_ofRaw p.group

-- What may be left out is shown if it is shown where it stands.
theorem rel_map {R : α → β → Prop} {f : α → β} (h : ∀ a, R a (f a)) (o : Option α) : Option.Rel R o (o.map f) := by
  cases o
  case none   => exact .none
  case some a => exact .some (h a)

theorem shown_edgeNode (n : EdgeNode) : n.Shown n.value :=
  ⟨map_optionList n.options, rfl⟩

theorem shown_segment (s : Segment) : s.Shown s.value := by
  cases s
  case line options node target =>
    exact .line (map_optionList options) (rel_map shown_edgeNode node) (shows_reference target)
  case curve control₁ control₂ target =>
    exact .curve (shows_reference control₁) (rel_map shows_reference control₂) (shows_reference target)

theorem shown_chain (c : Chain) : c.Shown range (c.value range) where
  options  := map_optionList c.options
  source   := shows_reference c.source
  segments := List.forall₂_map_right_iff.mpr (List.forall₂_same.mpr fun s _ => shown_segment s)
  range    := rfl

theorem shown_statement (s : Statement) : s.Shown range (s.value range) := by
  cases s
  case node n       => exact .node ⟨map_optionList _, names_reference _, points_reference _, rfl, rfl⟩
  case coordinate c => exact .coordinate ⟨map_optionList _, names_reference _, points_reference _, rfl⟩
  case draw c       => exact .draw (shown_chain c)
  case path c       => exact .path (shown_chain c)

end Values
end Written

-- Statements that stand one behind the other, from the byte `start` of a body on.
inductive Standing : Nat → List Writing → List Statement → Prop
  | nil  : Standing start [] []
  | cons : w.statement.Shown ⟨start, start + Text.width w.text⟩ s →
      Standing (start + Text.width w.text) ws ss → Standing start (w :: ws) (s :: ss)

theorem standing_placed (ws : List Writing) (start : Nat) : Standing start ws (placed start ws) := by
  induction ws generalizing start
  case nil          => exact .nil
  case cons w ws hi => exact .cons (Written.shown_statement w.statement) (hi _)

theorem parse_eq_placed (ws : List Writing) (h : Text.isBlankOnly tail) (options : Option Text) :
    parse (ws.flatMap Writing.text ++ tail) options = ⟨options, [], placed 0 ws⟩ := by
  rw [parse, layersOf_writings ws h, statementsOf_writings ws h]

-- A body of written statements has no layer. Its statements are those that are written, with their variants and
-- parts, each at its place, and no other.
theorem parse_written (ws : List Writing) (h : Text.isBlankOnly tail) (options : Option Text) :
    ∃ ss, parse (ws.flatMap Writing.text ++ tail) options = ⟨options, [], ss⟩ ∧ Standing 0 ws ss :=
  ⟨placed 0 ws, parse_eq_placed ws h options, standing_placed ws 0⟩

-- A node with a name, an anchor and a point, and a path with a line, whose label hides a semicolon, and a curve.
def sampleNode : Written.Statement :=
  .node {
    options  := none
    name     := some (.ofText .reference "( a.north)".toList (by decide) (by decide) (by decide))
    position := some (.ofText .reference "(1.5, -2)".toList (by decide) (by decide) (by decide))
    label    := some (.ofText .label "\x7b\x7d".toList (by decide) (by decide) (by decide)) }

def sampleDraw : Written.Statement :=
  .draw {
    options  := some (.ofText .options "[->]".toList (by decide) (by decide) (by decide))
    source   := .ofText .reference "(a)".toList (by decide) (by decide) (by decide)
    segments := [
      .line none
        (some ⟨none, some (.ofText .label "\x7bx;y\x7d".toList (by decide) (by decide) (by decide))⟩)
        (.ofText .reference "(b.east)".toList (by decide) (by decide) (by decide)),
      .curve (.ofText .reference "(1,2)".toList (by decide) (by decide) (by decide)) none
        (.ofText .reference "()".toList (by decide) (by decide) (by decide))] }

def sampleWritings : List Writing :=
  [.ofStatement sampleNode, .ofStatement sampleDraw]

def sampleBody : Text :=
  (" \\node ( a.north) at (1.5, -2) \x7b\x7d ; \\draw [->] (a) to node \x7bx;y\x7d (b.east) " ++
    ".. controls (1,2) .. () ;\n").toList

def sampleStatements : List Statement := [
  .node {
    options    := none
    name       := some "a".toList
    coordinate := some ⟨.finite false (3 * Nat.pow 2 51) (-52), .finite true (Nat.pow 2 52) (-51)⟩
    label      := some "\x7b\x7d".toList
    range      := ⟨0, 35⟩ },
  .draw {
    options  := some ⟨"[->]".toList⟩
    source   := ⟨.named "a".toList none, "(a)".toList⟩
    segments := [
      .line none (some ⟨none, some "\x7bx;y\x7d".toList⟩) ⟨.named "b".toList "east".toList, "(b.east)".toList⟩,
      .curve ⟨.named "1,2".toList none, "(1,2)".toList⟩ none ⟨.anonymous, "()".toList⟩]
    range    := ⟨35, 99⟩ }]

theorem parse_sampleBody : Text.isBlankOnly ['\n'] ∧
    parse sampleBody none = ⟨none, [], sampleStatements⟩ ∧ Standing 0 sampleWritings sampleStatements := by
  have blank : Text.isBlankOnly ['\n'] := by decide
  have placed : placed 0 sampleWritings = sampleStatements := by decide +kernel
  have parsed : parse sampleBody none = _ := parse_eq_placed sampleWritings blank none
  obtain ⟨ss, written, standing⟩ := parse_written sampleWritings blank none
  obtain rfl : ss = sampleStatements := by
    rw [← placed]
    exact congrArg Picture.statements (written.symm.trans parsed)
  exact ⟨blank, written, standing⟩

end TikzPress.Picture
