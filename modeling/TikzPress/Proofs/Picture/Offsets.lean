import Mathlib.Data.List.Monad
import TikzPress.Proofs.Drawing
import TikzPress.Proofs.Picture.Layered

/-!
Where the statements of a picture stand. What stands in a layer has no layers itself, and neither has a part of
a body without layers, so each statement is read alone as it is read in the body. Main statement: the
statements of a picture are composed, those of all its layers together (`composed_parse`).
-/

namespace TikzPress.Picture

open Text Drawing TikzPress.Statement

section Reading

variable (r : Range)

theorem Node.read_eq : Node.read r = (fun n => { n with range := r }) <$> Node.read default := by
  simp only [Node.read, map_bind, map_pure]

theorem NamedCoordinate.read_eq :
    NamedCoordinate.read r = (fun c => { c with range := r }) <$> NamedCoordinate.read default := by
  simp only [NamedCoordinate.read, map_bind, map_pure]

theorem Chain.read_eq (name : Text) :
    Chain.read name r = (fun c => { c with range := r }) <$> Chain.read name default := by
  simp only [Chain.read, map_bind, map_pure]

-- The range of a statement is not used to read it.
theorem Statement.read_eq : Statement.read r = Statement.within r <$> Statement.read default := by
  unfold Statement.read
  rw [Node.read_eq r, NamedCoordinate.read_eq r, Chain.read_eq r, Chain.read_eq r]
  simp only [map_orElse, Functor.map_map]
  rfl

end Reading

-- The statement of a slice.
def part? (s : Slice) : Option Part :=
  ((Statement.read s.range).run s.text).map fun (x, _) => .statement x

theorem part?_eq (s : Slice) :
    part? s = ((Statement.read default).run s.text).map fun (x, _) => .statement (x.within s.range) := by
  rw [part?, Statement.read_eq]
  simp [Function.comp_def]

theorem slicewise_part? : Slicewise part? where
  shift t n := by
    simp only [part?_eq, Option.map_map]
    congr 1
    funext ⟨x, _⟩
    simp [Part.shift, Statement.shift_within, Slice.range, Range.shift, Nat.add_comm]
  range s x hx := by
    rw [part?_eq] at hx
    obtain ⟨⟨y, _⟩, -, rfl⟩ := Option.map_eq_some_iff.mp hx
    exact Statement.range_within ..

theorem map_statementsOf (start : Nat) (t : Text) :
    (statementsOf start t).map Part.statement = (splitFrom start t).filterMap part? := by
  have moved := splitFrom_add 0 start t
  rw [Nat.zero_add] at moved
  rw [moved, List.filterMap_map, statementsOf, List.map_filterMap]
  congr 1
  funext s
  simp only [Function.comp_apply, part?, Slice.range_shift, Option.map_map]
  rfl

variable (options : Option Text)

-- What a text makes as the body of a picture.
abbrev partsOf (t : Text) : List Part :=
  (picture (parse t options)).parts

theorem composed_statementsOf {t : Text} (h : ¬Layered t) (start : Nat) :
    Composed (partsOf options) start t ((statementsOf start t).map .statement) := by
  rw [map_statementsOf]
  refine slicewise_part?.composed_filterMap start fun u hu => ?_
  rw [partsOf, parse_of_not_layered fun hl => h (hl.of_infix hu)]
  exact map_statementsOf 0 u

theorem composed_layersOf (start : Nat) (t : Text) : Composed (partsOf options) start t
    (((layersOf (start + width t) t).flatMap Layer.statements).map .statement) := by
  generalize hs : start + width t = stop
  fun_induction layersOf stop t generalizing start
  case case1 => exact .nil ..
  case case2 => exact .nil ..
  case case3 t name t' hl inner rest hc raw hi =>
    obtain ⟨lead, rfl, -, -⟩ := exists_append_of_nextLayer? hl
    obtain ⟨gap, hg⟩ : raw <+: inner := trimEnd_prefix inner
    have flat : ¬Layered raw := fun h =>
      not_infix_of_cut? (by decide) hc (h.closes.trans ⟨[], gap, hg⟩)
    obtain rfl := append_of_cut? hc
    rw [← hg] at hs ⊢
    have here := composed_statementsOf options flat (start + width (lead ++ layerOpening name))
    have later := hi (start + width (lead ++ layerOpening name ++ raw ++ (gap ++ layerClosing))) (by
      simp only [width_append] at hs ⊢
      omega)
    have place : stop - width (raw ++ gap ++ layerClosing ++ rest) =
        start + width (lead ++ layerOpening name) := by
      simp only [width_append] at hs ⊢
      omega
    have whole := (((Composed.nil _ start _).append here).append (.nil _ _ (gap ++ layerClosing))).append
      later
    rw [place, List.flatMap_cons, List.map_append]
    simpa only [List.nil_append, List.append_nil, List.append_assoc] using whole

theorem composed_parse (body : Text) : Composed (partsOf options) 0 body (partsOf options body) := by
  have layers := composed_layersOf options 0 body
  rw [Nat.zero_add] at layers
  rw [partsOf, parts, allStatements, parse]
  split
  case h_1 h => exact composed_statementsOf options (layersOf_eq_nil_iff.mp h) 0
  case h_2 => simpa using layers

end TikzPress.Picture
