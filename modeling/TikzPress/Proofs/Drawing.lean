import TikzPress.Document
import TikzPress.Proofs.Statement.Slices

/-!
The parts of a drawing and where they stand. A part is composed if it stands at its place in a text and if the
text at that place, read alone, makes this part and no other. Main statement: what is read slice by slice is
composed (`composed_filterMap`).
-/

namespace TikzPress

open Text TikzPress.Statement

-- The same statement in another range.
def Picture.Statement.within (r : Range) : Picture.Statement → Picture.Statement
  | node s       => node { s with range := r }
  | coordinate s => coordinate { s with range := r }
  | draw c       => draw { c with range := r }
  | path c       => path { c with range := r }

-- The same statement when `n` more bytes stand in front.
def Picture.Statement.shift (n : Nat) (s : Picture.Statement) : Picture.Statement :=
  s.within (s.range.shift n)

theorem Picture.Statement.range_within (r : Range) (s : Picture.Statement) : (s.within r).range = r := by
  cases s <;> rfl

theorem Picture.Statement.shift_within (r : Range) (n : Nat) (s : Picture.Statement) :
    (s.within r).shift n = s.within (r.shift n) := by
  cases s <;> rfl

theorem Picture.Statement.within_within (r r' : Range) (s : Picture.Statement) :
    (s.within r).within r' = s.within r' := by
  cases s <;> rfl

def Circuit.Segment.shift (n : Nat) (s : Circuit.Segment) : Circuit.Segment :=
  { s with range := s.range.shift n }

-- The same chain when `n` more bytes stand in front. Its segments have places of their own.
def Circuit.Chain.shift (n : Nat) (c : Circuit.Chain) : Circuit.Chain :=
  { c with range := c.range.shift n, segments := c.segments.map (Segment.shift n) }

namespace Drawing

inductive Part
  | statement (s : Picture.Statement)
  | chain (c : Circuit.Chain)

namespace Part

def range : Part → Range
  | statement s => s.range
  | chain c     => c.range

def shift (n : Nat) : Part → Part
  | statement s => statement (s.shift n)
  | chain c     => chain (c.shift n)

theorem range_shift (n : Nat) (x : Part) : (x.shift n).range = x.range.shift n := by
  cases x
  case statement s => exact s.range_within _
  case chain       => rfl

end Part

-- The parts in order.
def parts : Drawing → List Part
  | picture p => p.allStatements.map .statement
  | circuit c => c.chains.map .chain

-- The part of a text at the byte `start` is what the text at its place makes alone, moved there.
def Alone (read : Text → List Part) (start : Nat) (t : Text) (x : Part) : Prop :=
  ∃ lead u rest x₀, lead ++ u ++ rest = t ∧ u ≠ [] ∧ read u = [x₀] ∧ x₀.range = ⟨0, width u⟩ ∧
    x = x₀.shift (start + width lead)

-- The parts of a text at the byte `start`, one behind another.
structure Composed (read : Text → List Part) (start : Nat) (t : Text) (xs : List Part) : Prop where
  ordered : xs.Pairwise fun x y => x.range.stop ≤ y.range.start
  alone   : ∀ x ∈ xs, Alone read start t x

variable {read : Text → List Part} {start : Nat} {t u : Text} {x : Part} {xs ys : List Part}

namespace Alone

theorem bounds (h : Alone read start t x) :
    start ≤ x.range.start ∧ x.range.start < x.range.stop ∧ x.range.stop ≤ start + width t := by
  obtain ⟨lead, u, rest, x₀, rfl, hn, -, hr, rfl⟩ := h
  have := mt width_eq_zero_iff.mp hn
  simp only [Part.range_shift, hr, Range.shift, width_append]
  omega

theorem append_right (h : Alone read start t x) (u : Text) : Alone read start (t ++ u) x := by
  obtain ⟨lead, v, rest, x₀, rfl, h⟩ := h
  exact ⟨lead, v, rest ++ u, x₀, by simp, h⟩

theorem append_left (h : Alone read (start + width u) t x) : Alone read start (u ++ t) x := by
  obtain ⟨lead, v, rest, x₀, rfl, hn, hu, hr, rfl⟩ := h
  refine ⟨u ++ lead, v, rest, x₀, by simp, hn, hu, hr, ?_⟩
  rw [width_append, Nat.add_assoc]

end Alone

namespace Composed

theorem nil (read : Text → List Part) (start : Nat) (t : Text) : Composed read start t [] where
  ordered := .nil
  alone   := fun _ h => nomatch h

theorem append (hx : Composed read start t xs) (hy : Composed read (start + width t) u ys) :
    Composed read start (t ++ u) (xs ++ ys) where
  ordered := List.pairwise_append.mpr ⟨hx.ordered, hy.ordered, fun x h y h' =>
    (hx.alone x h).bounds.right.right.trans (hy.alone y h').bounds.left⟩
  alone x h := by
    rcases List.mem_append.mp h with h | h
    case inl => exact (hx.alone x h).append_right u
    case inr => exact (hy.alone x h).append_left

end Composed

-- A reading of slices to which the place of a slice only adds.
structure Slicewise (f : Slice → Option Part) : Prop where
  shift : ∀ t n, f ⟨t, n⟩ = (f ⟨t, 0⟩).map (Part.shift n)
  range : ∀ s, ∀ x ∈ f s, x.range = s.range

theorem Slicewise.composed_filterMap {f : Slice → Option Part} (hf : Slicewise f) (start : Nat)
    (hr : ∀ u, u <:+: t → read u = (split u).filterMap f) :
    Composed read start t ((splitFrom start t).filterMap f) where
  ordered := by
    refine List.pairwise_filterMap.mpr ((pairwise_splitFrom start t).imp fun h x hx y hy => ?_)
    rwa [hf.range _ x hx, hf.range _ y hy]
  alone x h := by
    obtain ⟨⟨u, n⟩, hs, hx⟩ := List.mem_filterMap.mp h
    have cut := cut_of_mem hs
    obtain ⟨lead, rest, rfl, rfl⟩ := cut.placed
    rw [hf.shift] at hx
    obtain ⟨x₀, hx₀, rfl⟩ := Option.map_eq_some_iff.mp hx
    refine ⟨lead, u, rest, x₀, rfl, cut.full, ?_, ?_, rfl⟩
    case refine_1 =>
      rw [hr u ⟨lead, rest, rfl⟩, cut.alone]
      simp [hx₀]
    case refine_2 => rw [hf.range _ _ hx₀, Slice.range, Nat.zero_add]

end Drawing
end TikzPress
