import TikzPress.Proofs.Drawing
import TikzPress.Proofs.Reader

/-!
Where the chains of a circuit and their segments stand. Main statement: the chains of a circuit are composed,
and the ranges of their segments move with them (`composed_parse`).
-/

namespace TikzPress.Circuit

open Text Drawing Reader Token TikzPress.Statement

theorem Link.narrows_read : Narrows Link.read := by
  refine Narrows.orElse ?_ ?_
  case refine_1 => exact (narrows_literal _).bind fun _ => .pure _
  case refine_2 =>
    refine (narrows_keyword _).bind fun _ => ?_
    exact OptionList.narrows_read.optional.bind fun _ => .pure _

-- What a segment is read from, without its range.
theorem Segment.narrows_step : Narrows do
    let link ← Link.read
    let _ ← optional (literal "++".toList)
    return (link, ← Reference.read) := by
  refine Link.narrows_read.bind fun _ => ?_
  refine (narrows_literal _).optional.bind fun _ => ?_
  exact Reference.narrows_read.bind fun _ => .pure _

theorem Segment.narrows_read (stop : Nat) : Narrows (Segment.read stop) :=
  (narrows_ranged narrows_step stop).bind fun _ => .pure _

theorem Segment.moves_read (stop n : Nat) :
    Moves stop (Segment.shift n) (Segment.read stop) (Segment.read (stop + n)) :=
  (moves_ranged narrows_step stop n).bind_pure fun _ => rfl

theorem Chain.moves_read (r : Range) (n : Nat) :
    Moves r.stop (Chain.shift n) (Chain.read r) (Chain.read (r.shift n)) := by
  refine (Moves.refl _ _).bind (narrows_command _) fun _ => ?_
  refine (Moves.refl _ _).bind OptionList.narrows_read.optional fun _ => ?_
  refine (Moves.refl _ _).bind Reference.narrows_read fun _ => ?_
  exact ((Segment.moves_read r.stop n).many (Segment.narrows_read _)).bind_pure fun _ => rfl

-- The range of a chain is the one that it is read with.
theorem Chain.map_read (r : Range) : (fun c => { c with range := r }) <$> Chain.read r = Chain.read r := by
  simp only [Chain.read, map_bind, map_pure]

-- The chain of a slice.
def part? (s : Slice) : Option Part :=
  ((Chain.read s.range).run s.text).map fun (c, _) => .chain c

theorem slicewise_part? : Slicewise part? where
  shift t n := by
    have moved := Chain.moves_read (Slice.range ⟨t, 0⟩) n t (Nat.le_add_left ..)
    have range : Slice.range ⟨t, n⟩ = (Slice.range ⟨t, 0⟩).shift n := by
      simp [Slice.range, Range.shift, Nat.add_comm]
    rw [part?, range, StateT.run, moved, part?, Option.map_map, Option.map_map]
    rfl
  range s x hx := by
    rw [part?, ← Chain.map_read] at hx
    obtain ⟨⟨c, u⟩, hc, rfl⟩ := Option.map_eq_some_iff.mp hx
    rw [StateT.run_map] at hc
    obtain ⟨⟨c', _⟩, -, heq⟩ := Option.map_eq_some_iff.mp hc
    cases heq
    rfl

theorem composed_parse (body : Text) :
    Composed (fun t => (circuit (.parse t)).parts) 0 body (circuit (.parse body)).parts := by
  have parts (t : Text) : (circuit (.parse t)).parts = (split t).filterMap part? := by
    rw [Drawing.parts, parse, List.map_filterMap]
    congr 1
    funext s
    simp [part?, Function.comp_def]
  rw [parts]
  exact slicewise_part?.composed_filterMap 0 fun u _ => parts u

end TikzPress.Circuit
