import Mathlib.Data.List.Forall2
import TikzPress.Circuit
import TikzPress.Proofs.Picture.Layered
import TikzPress.Proofs.Reader.Related
import TikzPress.Proofs.Statement.Slices

/-!
The language that pictures and circuits have in common. A text without wires, curves, nodes on edges and layers
is read alike as the body of a picture and as that of a circuit. Main statement: the chains that are drawn are the
same on both sides, step by step, also where a statement is not complete (`corresponding_chains`).
-/

namespace TikzPress

open Text Token Reader

def Picture.Statement.drawn? : Picture.Statement → Option Picture.Chain
  | draw c => some c
  | _      => none

-- The chains that are drawn, in order.
def Picture.draws (p : Picture) : List Picture.Chain :=
  p.allStatements.filterMap Picture.Statement.drawn?

namespace Drawing

-- What only one of both languages has.
def foreign : List Text :=
  ["--".toList, "++".toList, "..".toList, "node".toList, "pgfonlayer".toList]

def Common (t : Text) : Prop :=
  ∀ w ∈ foreign, ¬w <:+: t

instance (t : Text) : Decidable (Common t) :=
  inferInstanceAs (Decidable (∀ w ∈ foreign, ¬w <:+: t))

-- A line without a node on it, and a component with the same options and the same target.
inductive Parallel : Picture.Segment → Circuit.Segment → Prop
  | intro : Parallel (.line options none target) ⟨.component name options, target, range⟩

structure Corresponding (x : Picture.Chain) (y : Circuit.Chain) : Prop where
  range    : x.range = y.range
  options  : x.options = y.options
  source   : x.source = y.source
  segments : List.Forall₂ Parallel x.segments y.segments

-- The same text on both sides.
def Same (t u : Text) : Prop :=
  t = u ∧ Common t

variable {α : Type} {t u : Text} {r : Range} {stop : Nat}

theorem Common.of_infix (h : Common t) (hu : u <:+: t) : Common u :=
  fun w hw hi => h w hw (hi.trans hu)

section Declines

variable (h : Common t)
include h

theorem Common.literal_eq_none {w : Text} (hw : w ∈ foreign) : literal w t = none := by
  refine Option.eq_none_iff_forall_ne_some.mpr fun ⟨(), u⟩ hu => h w hw ?_
  exact (append_of_literal hu ▸ List.prefix_append w u).isInfix.trans (trimStart_suffix t).isInfix

theorem Common.keyword_eq_none {w : Text} (hw : w ∈ foreign) : keyword w t = none := by
  refine Option.eq_none_iff_forall_ne_some.mpr fun ⟨(), u⟩ hu => h w hw ?_
  exact (append_of_keyword hu ▸ List.prefix_append w u).isInfix.trans (trimStart_suffix t).isInfix

theorem Common.node_eq_none : command "node".toList t = none := by
  refine Option.eq_none_iff_forall_ne_some.mpr fun ⟨(), u⟩ hu => h "node".toList (by decide) ?_
  refine List.IsInfix.trans ⟨['\\'], u, ?_⟩ (trimStart_suffix t).isInfix
  exact append_of_command hu

end Declines

-- What both sides read in the same way is related.
theorem related_same {p : Reader α} (hp : Leaves p) : Related Same Eq p p := by
  rintro t _ ⟨rfl, h⟩
  cases hx : p t
  case none   => exact .none
  case some x => exact .some ⟨rfl, rfl, h.of_infix (hp t x hx).isInfix⟩

section Segments

theorem read_segment_trimStart (t : Text) : Picture.Segment.read (trimStart t) = Picture.Segment.read t := by
  have word (w : Text) : keyword w (trimStart t) = keyword w t := by rw [keyword, trimStart_trimStart]; rfl
  have points (l : Text) : literal l (trimStart t) = literal l t := by rw [literal, trimStart_trimStart]; rfl
  simp only [Picture.Segment.read, Picture.Segment.readLine, Picture.Segment.readCurve, orElse_apply, bind,
    StateT.bind, word, points]

-- A step of a path is a line, and nothing stands on it.
theorem Common.segment_eq (h : Common t) : Picture.Segment.read t = Picture.Segment.readLine t := by
  have curve : Picture.Segment.readCurve t = none := bind_of_none (h.literal_eq_none (by decide)) _
  rw [Picture.Segment.read, orElse_apply, curve]
  cases Picture.Segment.readLine t <;> rfl

-- A link is a component.
theorem Common.link_eq (h : Common t) : Circuit.Link.read t =
    (do
      keyword "to".toList
      let options ← optional OptionList.read
      return Circuit.Link.component (Circuit.componentName options) options : Reader Circuit.Link) t := by
  have wire : (do literal "--".toList; return Circuit.Link.wire : Reader Circuit.Link) t = none :=
    bind_of_none (h.literal_eq_none (by decide)) _
  rw [Circuit.Link.read, orElse_apply, wire]
  rfl

-- A line and a link with a target, wherever they stand.
def Leads (x : Picture.Segment) (y : Circuit.Link × Reference) : Prop :=
  ∀ r, Parallel x ⟨y.1, y.2, r⟩

theorem related_target (options : Option OptionList) (name : Text) : Related Same Leads
    (do
      let node ← optional Picture.EdgeNode.read
      return .line options node (← Reference.read))
    (do
      let _ ← optional (literal "++".toList)
      return (.component name options, ← Reference.read)) := by
  have target : Related Same Leads (return .line options none (← Reference.read))
      (return (.component name options, ← Reference.read)) :=
    (related_same Reference.leaves_read).bind fun _ _ ht => ht ▸ .pure fun _ => .intro
  refine target.congr ?_
  rintro t _ ⟨rfl, h⟩
  have node : Picture.EdgeNode.read t = none := bind_of_none (h.keyword_eq_none (by decide)) _
  have plus : literal "++".toList t = none := h.literal_eq_none (by decide)
  exact ⟨bind_of_some (optional_of_none node) _, bind_of_some (optional_of_none plus) _⟩

-- What a segment of a circuit is read from, without its range.
def core : Reader (Circuit.Link × Reference) := do
  let link ← Circuit.Link.read
  let _ ← optional (literal "++".toList)
  return (link, ← Reference.read)

theorem related_core : Related Same Leads Picture.Segment.read core := by
  have line : Related Same Leads Picture.Segment.readLine do
      keyword "to".toList
      let options ← optional OptionList.read
      let _ ← optional (literal "++".toList)
      return (.component (Circuit.componentName options) options, ← Reference.read) := by
    refine (related_same (leaves_keyword _)).bind fun _ _ _ => ?_
    refine (related_same OptionList.leaves_read.optional).bind fun options _ ho => ?_
    exact ho ▸ related_target options _
  refine line.congr ?_
  rintro t _ ⟨rfl, h⟩
  refine ⟨h.segment_eq, ?_⟩
  rw [core, bind_congr_at h.link_eq]
  simp only [bind_assoc, pure_bind]

theorem related_segment (stop : Nat) : Related Same Parallel Picture.Segment.read (Circuit.Segment.read stop) := by
  rintro t _ ⟨rfl, h⟩
  have here : Same (trimStart t) (trimStart t) := ⟨rfl, h.of_infix (trimStart_suffix t).isInfix⟩
  have := related_core _ _ here
  rw [read_segment_trimStart] at this
  show Option.Rel _ _ (((core (trimStart t)).map _).bind _)
  generalize Picture.Segment.read t = x, core (trimStart t) = y at this
  cases this
  case none => exact .none
  case some h' =>
    exact .some ⟨h'.left _, h'.right⟩

end Segments

section Chains

theorem related_chain (r : Range) :
    Related Same Corresponding (Picture.Chain.read "draw".toList r) (Circuit.Chain.read r) := by
  refine (related_same (leaves_command _)).bind fun _ _ _ => ?_
  refine (related_same OptionList.leaves_read.optional).bind fun options _ ho => ?_
  refine (related_same Reference.leaves_read).bind fun source _ hs => ?_
  refine ((related_segment r.stop).many ?_).bind fun _ _ hss => .pure ⟨rfl, ho, hs, hss⟩
  rintro t _ ⟨rfl, -⟩ x - y - ⟨hx, -⟩
  rw [hx]

theorem command_eq_none {c d : Char} {name other : Text} (hn : c ≠ d) (hc : command (c :: name) t ≠ none) :
    command (d :: other) t = none := by
  obtain ⟨⟨_, u⟩, hu⟩ := Option.ne_none_iff_exists'.mp hc
  refine Option.eq_none_iff_forall_ne_some.mpr fun ⟨(), v⟩ hv => hn ?_
  have whole := (append_of_command hu).trans (append_of_command hv).symm
  exact (List.cons.inj (List.cons.inj whole).right).left

-- A statement is drawn exactly if it is read as a chain that is drawn.
theorem Common.drawn_eq (h : Common t) (r : Range) :
    ((Picture.Statement.read r t).map Prod.fst).bind Picture.Statement.drawn? =
      (Picture.Chain.read "draw".toList r t).map Prod.fst := by
  have node : Picture.Node.read r t = none := bind_of_none h.node_eq_none _
  show (((_ <|> _ <|> _ <|> _ : Reader _) t).map _).bind _ = _
  simp only [orElse_apply, map_apply, node]
  cases hc : Picture.NamedCoordinate.read r t
  case none =>
    cases Picture.Chain.read "draw".toList r t
    case some => rfl
    case none => cases Picture.Chain.read "path".toList r t <;> rfl
  case some =>
    have word : command "coordinate".toList t ≠ none := fun hn => nomatch hc.symm.trans (bind_of_none hn _)
    have draw : Picture.Chain.read "draw".toList r t = none :=
      bind_of_none (command_eq_none (by decide) word) _
    rw [draw]
    rfl

end Chains

theorem corresponding_chains {body : Text} (h : Common body) (options : Option Text) :
    List.Forall₂ Corresponding (Picture.parse body options).draws (Circuit.parse body).chains := by
  have flat : ¬Picture.Layered body := fun hl =>
    h "pgfonlayer".toList (by decide) (List.IsInfix.trans ⟨"\\end\x7b".toList, ['\x7d'], rfl⟩ hl.closes)
  rw [Picture.draws, Picture.parse_of_not_layered flat, Circuit.parse]
  show List.Forall₂ _ ((Picture.statementsOf 0 body).filterMap _) _
  rw [Picture.statementsOf, List.filterMap_filterMap]
  have each : ∀ s ∈ Statement.split body, Option.Rel Corresponding
      (((Picture.Statement.read (s.range.shift 0) s.text).map Prod.fst).bind Picture.Statement.drawn?)
      ((Circuit.Chain.read s.range s.text).map Prod.fst) := by
    intro s hs
    obtain ⟨lead, rest, hb, -⟩ := (Statement.cut_of_mem hs).placed
    have part : Common s.text := h.of_infix ⟨lead, rest, hb⟩
    have := related_chain s.range _ _ ⟨rfl, part⟩
    rw [part.drawn_eq, Range.shift_zero]
    generalize Picture.Chain.read _ _ _ = x, Circuit.Chain.read _ _ = y at this
    cases this
    case none   => exact .none
    case some h => exact .some h.left
  have same : List.Forall₂ (fun s s' => s = s' ∧ s ∈ Statement.split body) (Statement.split body)
      (Statement.split body) :=
    List.forall₂_same.mpr fun _ hs => ⟨rfl, hs⟩
  exact List.rel_filterMap (fun s _ ⟨he, hs⟩ => he ▸ each s hs) same

-- The last chain is not complete, and a semicolon in front of it is in braces.
def truncated : Text :=
  "\\draw[->] (a) to[R, l=\x7b;\x7d] (b) to (c); \\draw () to (d) to[x".toList

theorem corresponding_truncated : Common truncated ∧
    (Circuit.parse truncated).chains.map (·.segments.length) = [2, 1] ∧
      List.Forall₂ Corresponding (Picture.parse truncated none).draws (Circuit.parse truncated).chains :=
  ⟨by decide, by decide +kernel, corresponding_chains (by decide) none⟩

end Drawing
end TikzPress
