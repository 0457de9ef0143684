import Mathlib.Data.List.Chain
import TikzPress.Document

/-!
The segments of a parsed document tile its source. Main statement: their ranges lie one behind the
other over the whole source, each cuts out exactly the text of its segment, raw text is never split
in two, and a block keeps its markers (`parse_tiling`).
-/

namespace TikzPress.Document

open Environment

def Segment.IsRaw : Segment → Prop
  | raw .. => True
  | _      => False

-- Ranges that lie one behind the other from `start` to `stop`, none of them empty.
inductive Contiguous : (start : Nat) → List Segment → (stop : Nat) → Prop
  | nil  : Contiguous n [] n
  | cons : s.range.start = n → n < s.range.stop → Contiguous s.range.stop ss m →
           Contiguous n (s :: ss) m

structure Tiling (source : Text) (ss : List Segment) : Prop where
  contiguous : Contiguous 0 ss (Text.width source)
  slices     : ∀ s ∈ ss, Text.slice? source s.range.start s.range.stop = some s.text
  separated  : ss.IsChain fun s t => ¬(s.IsRaw ∧ t.IsRaw)
  opened     : ∀ b, .environment b ∈ ss → opening b.name <+: b.header
  closed     : ∀ b, .environment b ∈ ss → b.footer = closing b.name

-- Segments that are laid out from the byte `start` on, and the text that they cover. This is the
-- invariant of the scan: `start` is where it stands, and the covered text is what it still has to
-- read there.
inductive Laid : (start : Nat) → List Segment → Text → Prop
  | nil  : Laid n [] []
  | cons : s.range = ⟨n, n + Text.width s.text⟩ → s.text ≠ [] → Laid (n + Text.width s.text) ss t →
           Laid n (s :: ss) (s.text ++ t)

namespace Laid

variable {ss : List Segment} {t : Text} {n : Nat}

theorem contiguous (l : Laid n ss t) : Contiguous n ss (n + Text.width t) := by
  induction l
  case nil => exact .nil
  case cons n _ _ s hr hn _ hi =>
    have hw : Text.width s.text ≠ 0 := mt Text.width_eq_zero_iff.mp hn
    refine .cons (by rw [hr]) (by rw [hr]; simp only; omega) ?_
    rw [hr, Text.width_append, ← Nat.add_assoc]
    exact hi

theorem flatMap_text (l : Laid n ss t) : ss.flatMap Segment.text = t := by
  induction l
  case nil              => rfl
  case cons _ _ _ hi    => rw [List.flatMap_cons, hi]

-- A segment stands where its range says.
theorem exists_append (l : Laid n ss t) {s : Segment} (hm : s ∈ ss) : ∃ lead rest,
    lead ++ s.text ++ rest = t ∧ s.range = ⟨n + Text.width lead, n + Text.width lead + Text.width s.text⟩ := by
  induction l
  case nil => contradiction
  case cons t s' hr _ _ hi =>
    cases hm
    case head => exact ⟨[], t, rfl, hr⟩
    case tail hm =>
      obtain ⟨lead, rest, rfl, hs⟩ := hi hm
      refine ⟨s'.text ++ lead, rest, by simp, ?_⟩
      rw [hs, Text.width_append, ← Nat.add_assoc]

-- The part of the source in front of the segments is what turns their offsets into places.
theorem slices (l : Laid n ss t) (lead : Text) (h : Text.width lead = n) {s : Segment}
    (hm : s ∈ ss) : Text.slice? (lead ++ t) s.range.start s.range.stop = some s.text := by
  obtain ⟨front, rest, rfl, hr⟩ := l.exists_append hm
  have place := Text.slice?_append (lead ++ front) s.text rest
  rw [Text.width_append, h] at place
  rw [hr, ← place]
  simp only [List.append_assoc]

theorem ofRaw_append (lead : Text) (l : Laid (n + Text.width lead) ss t) :
    Laid n (Segment.ofRaw n lead ++ ss) (lead ++ t) := by
  cases lead
  case nil       => exact l
  case cons c cs => exact .cons (s := .raw (c :: cs) _) rfl (List.cons_ne_nil _ _) l

end Laid

theorem Block.text_ne_nil_of_ofRegion (start : Nat) (r : Region) : (Block.ofRegion start r).text ≠ [] := by
  rw [Block.text_ofRegion, Region.text, List.append_assoc]
  exact List.append_ne_nil_of_left_ne_nil (opening_ne_nil r.name) _

theorem laid_segmentsFrom (start : Nat) (t : Text) : Laid start (segmentsFrom start t) t := by
  fun_induction segmentsFrom start t
  case case1 start t _ => simpa using Laid.ofRaw_append t (.nil (n := start + Text.width t))
  case case2 start t r h at' hi =>
    rw [← Region.append_of_next? h, List.append_assoc]
    apply Laid.ofRaw_append
    rw [← Block.text_ofRegion at' r]
    refine .cons (s := .environment (.ofRegion at' r)) ?_ (Block.text_ne_nil_of_ofRegion at' r) ?_
    case refine_1 => simp only [Segment.text, Block.text_ofRegion]; rfl
    case refine_2 => simpa only [Segment.text, Block.text_ofRegion] using hi

theorem isChain_segmentsFrom (start : Nat) (t : Text) :
    (segmentsFrom start t).IsChain fun s t => ¬(s.IsRaw ∧ t.IsRaw) := by
  fun_induction segmentsFrom start t
  case case1 start t _ => cases t <;> simp [Segment.ofRaw]
  case case2 start t r _ at' hi =>
    -- Whatever follows a block, the block itself is no raw text.
    have h := List.isChain_cons (x := .environment (.ofRegion at' r)) |>.mpr
      ⟨fun _ _ h => h.left, hi⟩
    cases r.lead
    case nil  => exact h
    case cons => exact List.isChain_cons_cons.mpr ⟨fun h => h.right, h⟩

-- Every block comes from a region that was found, whose name the markers of the block carry.
theorem exists_region_of_mem_segmentsFrom {start : Nat} {t : Text} {b : Block}
    (h : .environment b ∈ segmentsFrom start t) :
    ∃ at' t' r, Region.next? t' = some r ∧ b = .ofRegion at' r := by
  fun_induction segmentsFrom start t
  case case1 start t _ => cases t <;> simp [Segment.ofRaw] at h
  case case2 start t r hr at' hi =>
    cases List.mem_append.mp h
    case inl h => cases hl : r.lead <;> simp [hl, Segment.ofRaw] at h
    case inr h =>
      cases h
      case head   => exact ⟨_, _, _, hr, rfl⟩
      case tail h => exact hi h

theorem tiling_segmentsFrom (source : Text) : Tiling source (segmentsFrom 0 source) where
  contiguous := by simpa using (laid_segmentsFrom 0 source).contiguous
  slices _ h := (laid_segmentsFrom 0 source).slices [] rfl h
  separated  := isChain_segmentsFrom 0 source
  opened b h := by
    obtain ⟨at', _, r, -, rfl⟩ := exists_region_of_mem_segmentsFrom h
    exact List.prefix_append ..
  closed b h := by
    obtain ⟨at', _, r, -, rfl⟩ := exists_region_of_mem_segmentsFrom h
    rfl

theorem segmentsFrom_eq_nil_iff {start : Nat} {t : Text} : segmentsFrom start t = [] ↔ t = [] := by
  constructor
  case mp  => intro h; simpa [h] using (laid_segmentsFrom start t).flatMap_text.symm
  case mpr =>
    intro h
    cases hs : segmentsFrom start t
    case nil  => rfl
    case cons =>
      have l := hs ▸ laid_segmentsFrom start t
      generalize t = u at l h
      cases l
      case cons hn _ _ => exact absurd (List.append_eq_nil_iff.mp h).left hn

-- A document is cut into segments without gap and overlap, and put together again it is the source.
theorem parse_tiling (source : Text) :
    Tiling source (parse source).segments ∧
    ((parse source).segments = [] ↔ source = []) ∧
    (parse source).serialize = source ∧
    Text.width (parse source).serialize = (parse source).sourceWidth :=
  ⟨tiling_segmentsFrom source, segmentsFrom_eq_nil_iff, serialize_parse source,
    congrArg Text.width (serialize_parse source)⟩

end TikzPress.Document
