import Mathlib.Order.Bounds.Basic
import Mathlib.Order.Lattice.Nat
import TikzPress.Proofs.Environment
import TikzPress.Proofs.Text.Boundary
import TikzPress.Proofs.Text.Marker

/-!
Which end marker closes a region. The search goes from one marker to the next and counts the regions that are
open, which comes to the same as counting all markers up to a place. Main statement: a region begins at the
first begin marker and ends at the first place behind an end marker up to which as many regions have ended as
begun, and where there is none the search says so (`matched_bounds`).
-/

namespace TikzPress.Environment

open Text

-- The bytes from `start` up to `stop` end with an end marker, and as many regions begin in them as end.
structure Balanced (name source : Text) (start stop : Nat) : Prop where
  behind : start < stop
  ended  : ∃ n, Occurs (closing name) source n ∧ n + width (closing name) = stop
  equal  : ∃ t, slice? source start stop = some t ∧
    occurrences (opening name) t = occurrences (closing name) t

-- The range from the first begin marker at or behind `offset` to the first place where it is balanced.
structure Matched (name source : Text) (offset : Nat) (range : Range) : Prop where
  begins : IsLeast { n | offset ≤ n ∧ Occurs (opening name) source n } range.start
  ends   : IsLeast { n | Balanced name source range.start n } range.stop

-- All regions that begin in the text end there, and `depth` others.
def Ends (name : Text) (depth : Nat) (t : Text) : Prop :=
  occurrences (closing name) t = occurrences (opening name) t + depth

variable {name source front lead inner rest s r t : Text} {depth offset start stop : Nat} {c : Char}

theorem Matched.unique {x y : Range} (hx : Matched name source offset x) (hy : Matched name source offset y) :
    x = y := by
  obtain ⟨start, stop⟩ := x
  obtain ⟨start', stop'⟩ := y
  obtain rfl : start = start' := hx.begins.unique hy.begins
  obtain rfl : stop = stop' := hx.ends.unique hy.ends
  rfl

theorem marker_opening (h : '\\' ∉ name) : Marker (opening name) := by
  have word : '\\' ∉ "begin\x7b".toList := by decide
  refine ⟨rfl, ?_⟩
  rw [opening_eq, List.tail_cons, List.mem_append, List.mem_append, not_or, not_or]
  exact ⟨⟨word, h⟩, by decide⟩

theorem marker_closing (h : '\\' ∉ name) : Marker (closing name) := by
  have word : '\\' ∉ "end\x7b".toList := by decide
  refine ⟨rfl, ?_⟩
  rw [closing_eq, List.tail_cons, List.mem_append, List.mem_append, not_or, not_or]
  exact ⟨⟨word, h⟩, by decide⟩

theorem ends_cons_iff (ho : ¬opening name <+: c :: t) (hc : ¬closing name <+: c :: t) :
    Ends name depth (c :: t) ↔ Ends name depth t := by
  rw [Ends, Ends, occurrences_cons, occurrences_cons, if_neg ho, if_neg hc, Nat.zero_add, Nat.zero_add]

section Depth

variable (h : '\\' ∉ name)
include h

theorem ends_nil_iff : Ends name depth [] ↔ depth = 0 := by
  rw [Ends, (marker_opening h).occurrences_nil, (marker_closing h).occurrences_nil, Nat.zero_add, eq_comm]

theorem ends_opening_iff : Ends name depth (opening name ++ t) ↔ Ends name (depth + 1) t := by
  have begun := (marker_opening h).occurrences_marker_append (marker_opening h) t
  have ended := (marker_closing h).occurrences_marker_append (marker_opening h) t
  rw [if_pos (List.prefix_append ..)] at begun
  rw [if_neg (not_closing_before_opening name _)] at ended
  rw [Ends, Ends, begun, ended]
  omega

theorem ends_closing_iff : Ends name (depth + 1) (closing name ++ t) ↔ Ends name depth t := by
  have begun := (marker_opening h).occurrences_marker_append (marker_closing h) t
  have ended := (marker_closing h).occurrences_marker_append (marker_closing h) t
  rw [if_neg (not_opening_before_closing name _)] at begun
  rw [if_pos (List.prefix_append ..)] at ended
  rw [Ends, Ends, begun, ended]
  omega

-- What the search for the end of a region passes over has as many markers of each kind.
theorem ends_of_close? (hs : close? name depth t = some (s, r)) : Ends name depth s := by
  fun_induction close? name depth t generalizing s
  case case1 => contradiction
  case case2 depth c t rest hrest ih =>
    obtain ⟨⟨s', r'⟩, h', heq⟩ := Option.map_eq_some_iff.mp hs
    cases heq
    exact (ends_opening_iff h).mpr (ih h')
  case case3 =>
    cases hs
    exact (ends_nil_iff h).mpr rfl
  case case4 c t _ rest hrest d ih =>
    obtain ⟨⟨s', r'⟩, h', heq⟩ := Option.map_eq_some_iff.mp hs
    cases heq
    exact (ends_closing_iff h).mpr (ih h')
  case case5 depth c t ho hc ih =>
    obtain ⟨⟨s', r'⟩, h', heq⟩ := Option.map_eq_some_iff.mp hs
    cases heq
    have part : c :: s' <+: c :: t :=
      List.cons_prefix_cons.mpr ⟨rfl, closing name ++ r, by rw [← append_of_close? h', List.append_assoc]⟩
    rw [dropLiteral?_eq_none_iff] at ho hc
    exact (ends_cons_iff (fun hp => ho (hp.trans part)) fun hp => hc (hp.trans part)).mpr (ih h')

-- The search does not pass over a place where a region ends.
theorem exists_close?_of_ends (ht : s ++ closing name ++ r = t) (hs : Ends name depth s) :
    ∃ x, close? name depth t = some x ∧ width x.fst ≤ width s := by
  fun_induction close? name depth t generalizing s
  case case1 =>
    have empty := (List.append_eq_nil_iff.mp ht).left
    exact absurd (List.append_eq_nil_iff.mp empty).right (closing_ne_nil name)
  case case2 depth c t rest hrest ih =>
    rw [dropLiteral?_eq_some_iff.mp hrest] at ht
    rcases (marker_closing h).eq_nil_or_of_append (marker_opening h) ht with rfl | ⟨w, rfl, hw⟩
    case inl => exact absurd ⟨r, ht⟩ (not_closing_before_opening name _)
    case inr =>
      obtain ⟨x, hx, hl⟩ := ih hw ((ends_opening_iff h).mp hs)
      refine ⟨_, by rw [hx]; rfl, ?_⟩
      rw [width_append, width_append]
      exact Nat.add_le_add_left hl _
  case case3 => exact ⟨_, rfl, Nat.zero_le _⟩
  case case4 c t _ rest hrest d ih =>
    rw [dropLiteral?_eq_some_iff.mp hrest] at ht
    rcases (marker_closing h).eq_nil_or_of_append (marker_closing h) ht with rfl | ⟨w, rfl, hw⟩
    case inl => exact absurd ((ends_nil_iff h).mp hs) (Nat.succ_ne_zero d)
    case inr =>
      obtain ⟨x, hx, hl⟩ := ih hw ((ends_closing_iff h).mp hs)
      refine ⟨_, by rw [hx]; rfl, ?_⟩
      rw [width_append, width_append]
      exact Nat.add_le_add_left hl _
  case case5 depth c t ho hc ih =>
    rw [dropLiteral?_eq_none_iff] at ho hc
    cases s
    case nil => exact absurd ⟨r, ht⟩ hc
    case cons d s =>
      have part : d :: s <+: c :: t := ⟨closing name ++ r, by rw [← ht, List.append_assoc]⟩
      obtain ⟨rfl, hw⟩ := List.cons.inj ht
      have hs := (ends_cons_iff (fun hp => ho (hp.trans part)) fun hp => hc (hp.trans part)).mp hs
      obtain ⟨x, hx, hl⟩ := ih hw hs
      refine ⟨_, by rw [hx]; rfl, ?_⟩
      rw [width_cons, width_cons]
      exact Nat.add_le_add_left hl _

theorem ends_region_iff : Ends name 0 (opening name ++ s ++ closing name) ↔ Ends name 0 s := by
  have last (l : Text) (hl : Marker l) := hl.occurrences_append (b := closing name) (by rintro _ ⟨⟩; rfl) s
  have begun := last _ (marker_opening h)
  have ended := last _ (marker_closing h)
  have alone : Ends name 1 (closing name ++ []) := (ends_closing_iff h).mpr ((ends_nil_iff h).mpr rfl)
  rw [List.append_nil, Ends] at alone
  rw [List.append_assoc, ends_opening_iff h, Ends, Ends, begun, ended]
  omega

end Depth

section Places

variable (h : '\\' ∉ name)
include h

theorem balanced_iff : Balanced name (front ++ (opening name ++ t)) (width front) stop ↔
    ∃ s r, s ++ closing name ++ r = t ∧ Ends name 0 s ∧
      stop = width front + width (opening name ++ s ++ closing name) := by
  constructor
  case mp =>
    rintro ⟨behind, ⟨_, ⟨lead, rest, hs, rfl⟩, rfl⟩, u, hu, he⟩
    rcases (marker_closing h).append_eq (by rintro _ ⟨⟩; rfl) hs with ⟨w, rfl, -⟩ | ⟨w, rfl, hw⟩
    case inl =>
      rw [width_append, width_append] at behind
      omega
    case inr =>
      rcases (marker_closing h).eq_nil_or_of_append (marker_opening h) hw.symm with rfl | ⟨s, rfl, rfl⟩
      case inl => exact absurd ⟨rest, hw.symm⟩ (not_closing_before_opening name _)
      case inr =>
        have place : width (front ++ (opening name ++ s)) + width (closing name) =
            width front + width (opening name ++ s ++ closing name) := by
          simp [Nat.add_assoc]
        have source : front ++ (opening name ++ (s ++ closing name ++ rest)) =
            front ++ (opening name ++ s ++ closing name) ++ rest := by simp
        rw [place, source, slice?_append] at hu
        cases hu
        exact ⟨s, rest, rfl, (ends_region_iff h).mp he.symm, place⟩
  case mpr =>
    rintro ⟨s, r, rfl, he, rfl⟩
    have whole := slice?_append front (opening name ++ s ++ closing name) r
    have source : front ++ (opening name ++ (s ++ closing name ++ r)) =
        front ++ (opening name ++ s ++ closing name) ++ r := by simp
    have := mt width_eq_zero_iff.mp (opening_ne_nil name)
    refine ⟨?_, ⟨_, ⟨front ++ opening name ++ s, r, by simp, rfl⟩, ?_⟩, _, source ▸ whole, ?_⟩
    case refine_1 =>
      simp only [width_append]
      omega
    case refine_2 => simp [Nat.add_assoc]
    case refine_3 => exact ((ends_region_iff h).mpr he).symm

theorem isLeast_of_close? (hc : close? name 0 t = some (s, r)) (front : Text) :
    IsLeast { n | Balanced name (front ++ (opening name ++ t)) (width front) n }
      (width front + width (opening name ++ s ++ closing name)) := by
  refine ⟨(balanced_iff h).mpr ⟨s, r, append_of_close? hc, ends_of_close? h hc, rfl⟩, fun n hn => ?_⟩
  obtain ⟨s', r', ht, he, rfl⟩ := (balanced_iff h).mp hn
  obtain ⟨x, hx, hl⟩ := exists_close?_of_ends h ht he
  cases hc.symm.trans hx
  simp only [width_append]
  exact Nat.add_le_add_left (Nat.add_le_add_right (Nat.add_le_add_left hl _) _) _

theorem matched_of_bounds? {range : Range} (hb : bounds? source name offset = some range) :
    Boundary source offset ∧ Matched name source offset range := by
  simp only [bounds?, Option.bind_eq_bind, Option.bind_eq_some_iff, Option.pure_def, Option.some.injEq] at hb
  obtain ⟨u, hu, region, hf, rfl⟩ := hb
  obtain ⟨front, rfl, rfl⟩ := dropBytes?_eq_some_iff.mp hu
  obtain ⟨t, hc, hi, -⟩ := find?_eq_some_iff.mp hf
  have place : width front + width region.lead = width (front ++ region.lead) := (width_append ..).symm
  have source : front ++ u = front ++ region.lead ++ (opening name ++ t) := by
    rw [← append_of_cut? hc]
    simp
  have stop : width (front ++ u) - width region.rest =
      width (front ++ region.lead) + width (opening name ++ region.inner ++ closing name) := by
    rw [source, ← append_of_close? hi]
    simp only [width_append]
    omega
  refine ⟨⟨front, u, rfl, rfl⟩, place ▸ isLeast_of_cut? hc front, ?_⟩
  rw [place, stop, source]
  exact isLeast_of_close? h hi _

theorem exists_bounds?_of_matched {range : Range} (hb : Boundary source offset)
    (hm : Matched name source offset range) : ∃ x, bounds? source name offset = some x := by
  obtain ⟨front, u, rfl, rfl⟩ := hb
  obtain ⟨m, hm', -⟩ := (occurs_append_iff_of_le hm.begins.left.left).mp hm.begins.left.right
  obtain ⟨lead, t, hc, -⟩ := exists_cut?_of_occurs hm'
  have start := hm.begins.unique (isLeast_of_cut? hc front)
  have source : front ++ u = front ++ lead ++ (opening name ++ t) := by
    rw [← append_of_cut? hc]
    simp
  have balanced := hm.ends.left
  rw [start, source] at balanced
  obtain ⟨s, r, ht, he, -⟩ := (balanced_iff h).mp balanced
  obtain ⟨x, hx, -⟩ := exists_close?_of_ends h ht he
  simp [bounds?, find?_of_cut? hc, hx]

theorem bounds?_eq_some_iff {range : Range} : bounds? source name offset = some range ↔
    Boundary source offset ∧ Matched name source offset range := by
  refine ⟨matched_of_bounds? h, fun ⟨hb, hm⟩ => ?_⟩
  obtain ⟨x, hx⟩ := exists_bounds?_of_matched h hb hm
  rw [hx, (matched_of_bounds? h hx).right.unique hm]

theorem matched_bounds (source : Text) (offset : Nat) :
    (∀ range, bounds? source name offset = some range ↔
      Boundary source offset ∧ Matched name source offset range) ∧
    (bounds? source name offset = none ↔
      width source < offset ∨ Inside source offset ∨ (∀ n, offset ≤ n → ¬Occurs (opening name) source n) ∨
        ∃ start, IsLeast { n | offset ≤ n ∧ Occurs (opening name) source n } start ∧
          ∀ stop, ¬Balanced name source start stop) := by
  have least {s : Set Nat} (hs : s.Nonempty) : IsLeast s (sInf s) := ⟨Nat.sInf_mem hs, fun _ => Nat.sInf_le⟩
  refine ⟨fun _ => bounds?_eq_some_iff h, ?_⟩
  rw [Option.eq_none_iff_forall_ne_some, ← or_assoc, ← not_boundary_iff]
  constructor
  case mp =>
    intro hn
    by_cases hb : Boundary source offset
    case neg => exact .inl hb
    case pos =>
      by_cases hf : { n | offset ≤ n ∧ Occurs (opening name) source n }.Nonempty
      case neg => exact .inr (.inl fun n hn ho => hf ⟨n, hn, ho⟩)
      case pos =>
        refine .inr (.inr ⟨_, least hf, fun stop hs => ?_⟩)
        have ends := least (s := { n | Balanced name source _ n }) ⟨stop, hs⟩
        exact hn ⟨_, _⟩ ((bounds?_eq_some_iff h).mpr ⟨hb, least hf, ends⟩)
  case mpr =>
    rintro hn range hr
    obtain ⟨hb, hm⟩ := (bounds?_eq_some_iff h).mp hr
    rcases hn with hn | hn | ⟨start, hl, hn⟩
    case inl     => exact hn hb
    case inr.inl => exact hn _ hm.begins.left.left hm.begins.left.right
    case inr.inr => exact hn _ (hl.unique hm.begins ▸ hm.ends.left)

end Places

-- An end marker stands in front of a region, one region inside of it, and an end marker behind it.
def nested : Text :=
  "é\\end\x7ba\x7d\\begin\x7ba\x7d\\begin\x7ba\x7d\\end\x7ba\x7dx\\end\x7ba\x7d\\end\x7ba\x7d".toList

theorem matched_nested :
    '\\' ∉ ['a'] ∧ bounds? nested ['a'] 2 = some ⟨9, 42⟩ ∧ Boundary nested 2 ∧ Matched ['a'] nested 2 ⟨9, 42⟩ := by
  have found : bounds? nested ['a'] 2 = some ⟨9, 42⟩ := by decide +kernel
  exact ⟨by decide, found, (matched_bounds (by decide) nested 2 |>.left _).mp found⟩

end TikzPress.Environment
