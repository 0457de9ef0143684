import TikzPress.Proofs.Picture.Written

/-!
Reading written statements. Which part comes next is told by its first character, so that a part that is left
out is not mistaken for a later one. Main statement: a written statement is read as its value
(`takes_statement`).
-/

namespace TikzPress.Picture.Written

open Lexeme Token

variable {cs : List Char} {rest : List Lexeme}

section Opens

theorem opens_given {c : Char} {f : α → List Lexeme} (hf : ∀ a, ∃ l ∈ (f a).head?, l.first = c)
    (o : Option α) (h : Opens cs rest) : Opens (c :: cs) (given f o ++ rest) := by
  intro l hl
  cases o
  case none   => exact .tail _ (h l hl)
  case some a =>
    obtain ⟨m, hm, rfl⟩ := hf a
    rw [given, Option.elim_some, List.head?_append, hm] at hl
    cases hl
    exact .head _

theorem opens_part (o : Option (Part k)) (h : Opens cs rest) :
    Opens (k.opening :: cs) (part o ++ rest) :=
  opens_given (fun p => ⟨_, rfl, p.first_lexeme⟩) o h

theorem opens_position (o : Option (Part .reference)) (h : Opens cs rest) :
    Opens ('a' :: cs) (position o ++ rest) :=
  opens_given (c := 'a') (fun _ => ⟨_, rfl, rfl⟩) o h

theorem opens_lexeme (l : Lexeme) (rest : List Lexeme) : Opens [l.first] (l :: rest) := by
  rintro _ ⟨⟩
  exact .head _

theorem opens_reference (r : Part .reference) (rest : List Lexeme) : Opens ['('] (r.lexeme :: rest) := by
  have := opens_lexeme r.lexeme rest
  rwa [r.first_lexeme] at this

end Opens

section Parts

theorem takes_part (p : Part k) (rest : List Lexeme) :
    Takes (group k.opening k.closing) [p.lexeme] p.text rest :=
  takes_group (l := p.lexeme) p.group k.opening_ne_closing rest

theorem takes_options (o : Option (Part .options)) (h : Opens cs rest) (hc : '[' ∉ cs) :
    Takes (optional OptionList.read) (part o) (o.map Part.optionList) rest :=
  takes_optional o (fun p _ => (takes_part p rest).map OptionList.mk) ((declines_group h hc).map _)

theorem takes_label (o : Option (Part .label)) (h : Opens cs rest) (hc : '\x7b' ∉ cs) :
    Takes (optional readLabel) (part o) (o.map Part.text) rest :=
  takes_optional o (fun p _ => takes_part p rest) (declines_group h hc)

theorem takes_reference (r : Part .reference) (rest : List Lexeme) :
    Takes Reference.read [r.lexeme] r.reference rest :=
  (takes_part r rest).map Reference.ofRaw

theorem takes_name (o : Option (Part .reference)) (h : Opens cs rest) (hc : '(' ∉ cs) :
    Takes readName (part o) ((o.map Part.reference).bind Reference.name?) rest := by
  have reference := takes_optional o (fun r _ => takes_reference r rest) ((declines_group h hc).map _)
  exact reference.bind_pure _

theorem takes_position (o : Option (Part .reference)) (h : Opens cs rest) (hc : 'a' ∉ cs) :
    Takes readAt (position o) ((o.map Part.reference).bind Reference.coordinate?) rest := by
  unfold readAt
  cases o
  case none =>
    show Takes _ ([] ++ []) none rest
    exact Takes.bind (declines_keyword h hc).optional (takes_pure none rest)
  case some r =>
    refine (takes_keyword (by decide) _).optional.bind ?_
    exact (takes_reference r rest).optional.bind_pure _

end Parts

section Segments

theorem takes_edgeNode (n : EdgeNode) (h : Opens cs rest) (ho : '[' ∉ cs) (hl : '\x7b' ∉ cs) :
    Takes Picture.EdgeNode.read n.lexemes n.value rest := by
  have label := opens_part n.label h
  refine (takes_keyword (by decide) _).bind ?_
  refine (takes_options n.options label (by simp [ho, Kind.opening])).bind ?_
  exact (takes_label n.label h hl).bind_pure _

theorem takes_segment (s : Segment) (rest : List Lexeme) :
    Takes Picture.Segment.read s.lexemes s.value rest := by
  cases s
  case line options node target =>
    have target' := opens_reference target rest
    have node' := opens_given (f := EdgeNode.lexemes) (c := 'n') (fun _ => ⟨_, rfl, rfl⟩) node target'
    refine Takes.orElse ?_
    refine (takes_keyword (by decide) _).bind ?_
    refine (takes_options options node'.assoc (by decide)).bind ?_
    refine Takes.bind (takes_optional (g := EdgeNode.value) node (fun n _ => ?_) ?_) ?_
    case refine_1 => exact takes_edgeNode n target' (by decide) (by decide)
    case refine_2 => exact (declines_keyword target' (by decide)).bind
    case refine_3 => exact (takes_reference target rest).bind_pure _
  case curve control₁ control₂ target =>
    refine Declines.orElse (declines_keyword (opens_lexeme dots _) (by decide)).bind ?_
    refine (takes_literal dots _).bind ?_
    refine (takes_keyword (by decide) _).bind ?_
    refine (takes_reference control₁ _).bind ?_
    refine Takes.bind (takes_optional (g := Part.reference) control₂ (fun c _ => ?_) ?_) ?_
    case refine_1 => exact (takes_keyword (by decide) _).bind (takes_reference c _)
    case refine_2 => exact (declines_keyword (opens_lexeme dots _) (by decide)).bind
    case refine_3 => exact (takes_literal dots _).bind ((takes_reference target rest).bind_pure _)

end Segments

section Statements

variable (range : Range)

theorem opens_semicolon : Opens [';'] [semicolon] :=
  opens_lexeme semicolon []

theorem takes_node (n : Node) :
    Takes (Picture.Node.read range) n.lexemes (n.value range) [semicolon] := by
  have label := opens_part n.label opens_semicolon
  have position := (opens_position n.position label).assoc
  have name := (opens_part n.name position).assoc
  refine (takes_command (by decide) _).bind ?_
  refine (takes_options n.options name (by decide)).bind ?_
  refine (takes_name n.name position (by decide)).bind ?_
  refine (takes_position n.position label (by decide)).bind ?_
  exact (takes_label n.label opens_semicolon (by decide)).bind_pure _

theorem takes_coordinate (c : NamedCoordinate) :
    Takes (Picture.NamedCoordinate.read range) c.lexemes (c.value range) [semicolon] := by
  have position := opens_position c.position opens_semicolon
  have name := (opens_part c.name position).assoc
  refine (takes_command (by decide) _).bind ?_
  refine (takes_options c.options name (by decide)).bind ?_
  refine (takes_name c.name position (by decide)).bind ?_
  exact (takes_position c.position opens_semicolon (by decide)).bind_pure _

-- No step opens with a semicolon.
theorem declines_segment : Declines Picture.Segment.read [semicolon] := by
  refine Declines.orElse_declines ?_ ?_
  case refine_1 => exact (declines_keyword opens_semicolon (by decide)).bind
  case refine_2 => exact (declines_literal opens_semicolon (by decide)).bind

theorem takes_segments (ss : List Segment) :
    Takes (fun t => some (Picture.Segment.read.many t)) (ss.flatMap Segment.lexemes) (ss.map Segment.value)
      [semicolon] := by
  refine takes_many (fun s => ?_) takes_segment declines_segment ss
  cases s <;> exact List.cons_ne_nil _ _

theorem takes_chain (c : Chain) {name : Text} (h : Letters name) :
    Takes (Picture.Chain.read name range) (c.lexemes name) (c.value range) [semicolon] := by
  have source := opens_reference c.source (c.segments.flatMap Segment.lexemes ++ [semicolon])
  refine (takes_command h _).bind ?_
  refine (takes_options c.options source (by decide)).bind ?_
  refine (takes_reference c.source _).bind ?_
  exact (takes_segments c.segments).bind_pure _

-- A statement with another command is declined at the first letter of the command.
theorem declines_other {c d : Char} (h : c ≠ d) {name other : Text} {f : Unit → Reader α} (g : α → β) :
    Declines (g <$> (Token.command (c :: name) >>= f)) (.command (d :: other) :: rest) :=
  (declines_command h name other rest).bind.map g

theorem takes_statement (s : Statement) :
    Takes (Picture.Statement.read range) s.lexemes (s.value range) [semicolon] := by
  cases s
  case node n => exact ((takes_node range n).map _).orElse
  case coordinate c =>
    refine Declines.orElse (declines_other (by decide) _) ?_
    exact ((takes_coordinate range c).map _).orElse
  case draw c =>
    refine Declines.orElse (declines_other (by decide) _) ?_
    refine Declines.orElse (declines_other (by decide) _) ?_
    exact ((takes_chain range c (by decide)).map _).orElse
  case path c =>
    refine Declines.orElse (declines_other (by decide) _) ?_
    refine Declines.orElse (declines_other (by decide) _) ?_
    refine Declines.orElse (declines_other (by decide) _) ?_
    exact (takes_chain range c (by decide)).map _

end Statements
end TikzPress.Picture.Written
