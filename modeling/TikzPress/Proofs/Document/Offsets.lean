import TikzPress.Proofs.Circuit
import TikzPress.Proofs.Document.Tiling
import TikzPress.Proofs.Environment
import TikzPress.Proofs.Picture.Offsets

/-!
Where the drawings of a document stand in its source. Main statement: each block of a document draws something,
and the offsets of its parts add up, so that the source has each part at its place (`located_of_mem_blocks`).
-/

namespace TikzPress.Document

open Text Drawing

-- The parts of what a block draws stand in its body, and so in the source. The text at the place of a part,
-- as the whole body of the block, makes this part and no other.
structure Block.Located (source : Text) (b : Block) (d : Drawing) : Prop where
  drawn   : b.drawing? = some d
  body    : slice? source b.bodyStart (b.bodyStart + width b.body) = some b.body
  inside  : ∀ x ∈ d.parts, x.range.start < x.range.stop ∧ x.range.stop ≤ width b.body
  ordered : d.parts.Pairwise fun x y => x.range.start < y.range.start ∧ x.range.stop ≤ y.range.start
  alone   : ∀ x ∈ d.parts, ∃ t d₀ x₀,
    slice? source (b.bodyStart + x.range.start) (b.bodyStart + x.range.stop) = some t ∧
    { b with body := t }.drawing? = some d₀ ∧ d₀.parts = [x₀] ∧ x₀.range.start = 0 ∧
    x = x₀.shift x.range.start

-- What the texts that a block may have as its body draw.
theorem Block.exists_composed {b : Block} (h : b.name ∈ Region.supported) : ∃ draw : Text → Drawing,
    (∀ t, { b with body := t }.drawing? = some (draw t)) ∧
    ∀ t, Composed (fun u => (draw u).parts) 0 t (draw t).parts := by
  have picture : "circuitikz".toList ≠ "tikzpicture".toList := by decide
  rcases List.mem_pair.mp h with hn | hn
  case inl =>
    refine ⟨fun t => .picture (.parse t b.options?), fun t => ?_, Picture.composed_parse b.options?⟩
    rw [drawing?, if_pos hn]
    rfl
  case inr =>
    refine ⟨fun t => .circuit (.parse t), fun t => ?_, Circuit.composed_parse⟩
    rw [drawing?, if_neg (hn.trans_ne picture), if_pos hn]

theorem mem_blocks_iff {d : Document} {b : Block} : b ∈ d.blocks ↔ .environment b ∈ d.segments := by
  rw [blocks, List.mem_filterMap]
  constructor
  case mp =>
    rintro ⟨s, hs, hb⟩
    cases s
    case environment => cases hb; exact hs
    all_goals contradiction
  case mpr => exact fun h => ⟨_, h, rfl⟩

-- A part of a block's body is a part of the source, behind the header.
theorem slice?_bodyStart {source : Text} {b : Block} (h : .environment b ∈ segmentsFrom 0 source)
    {lead t rest : Text} (ht : lead ++ t ++ rest = b.body) :
    slice? source (b.bodyStart + width lead) (b.bodyStart + (width lead + width t)) = some t := by
  obtain ⟨front, back, rfl, hr⟩ := (laid_segmentsFrom 0 source).exists_append h
  have start : b.range.start = width front := (congrArg Range.start hr).trans (Nat.zero_add _)
  have place := slice?_append (front ++ b.header ++ lead) t (rest ++ b.footer ++ back)
  simpa [Segment.text, Block.text, Block.bodyStart, start, ← ht, Nat.add_assoc] using place

theorem located_of_mem_blocks {source : Text} {b : Block} (h : b ∈ (parse source).blocks) :
    ∃ d, b.Located source d := by
  rw [mem_blocks_iff] at h
  obtain ⟨at', t', r, hr, hb⟩ := exists_region_of_mem_segmentsFrom h
  have supported : b.name ∈ Region.supported := hb ▸ (Region.find?_of_next? hr).left
  obtain ⟨draw, drawn, composed⟩ := Block.exists_composed supported
  have ⟨ordered, alone⟩ := composed b.body
  have inside : ∀ x ∈ (draw b.body).parts, x.range.start < x.range.stop ∧ x.range.stop ≤ width b.body := by
    simpa using fun x hx => (alone x hx).bounds.right
  refine ⟨draw b.body, drawn b.body, ?_, inside, ?_, fun x hx => ?_⟩
  case refine_1 => simpa using slice?_bodyStart h (show [] ++ b.body ++ [] = b.body by simp)
  case refine_2 => exact ordered.imp_of_mem fun hx _ hxy => ⟨(inside _ hx).left.trans_le hxy, hxy⟩
  case refine_3 =>
    obtain ⟨lead, t, rest, x₀, ht, -, hd, hr, rfl⟩ := alone x hx
    have range : (x₀.shift (0 + width lead)).range = ⟨width lead, width lead + width t⟩ := by
      simp [Part.range_shift, hr, Range.shift, Nat.add_comm]
    refine ⟨t, draw t, x₀, ?_, drawn t, hd, by rw [hr], by rw [range, Nat.zero_add]⟩
    rw [range]
    exact slice?_bodyStart h ht

-- A block behind a character of raw text. Its statements are in two layers.
def layeredBlock : Block where
  name   := "tikzpicture".toList
  header := "\\begin\x7btikzpicture\x7d[a]".toList
  body   := ("\\begin\x7bpgfonlayer\x7d\x7bm\x7d\\node (u);\\end\x7bpgfonlayer\x7d" ++
    "\\begin\x7bpgfonlayer\x7d\x7bn\x7d \\draw (u) to (v);\\end\x7bpgfonlayer\x7d").toList
  footer := "\\end\x7btikzpicture\x7d".toList
  range  := ⟨1, 142⟩

theorem located_layeredBlock :
    layeredBlock ∈ (parse ('x' :: layeredBlock.text)).blocks ∧
    ∃ d, layeredBlock.Located ('x' :: layeredBlock.text) d ∧ d.parts.map Part.range = [⟨21, 31⟩, ⟨68, 86⟩] := by
  have mem : layeredBlock ∈ (parse ('x' :: layeredBlock.text)).blocks := by decide +kernel
  have ranges : layeredBlock.drawing?.map (fun d => d.parts.map Part.range) = some [⟨21, 31⟩, ⟨68, 86⟩] := by
    decide +kernel
  obtain ⟨d, hd⟩ := located_of_mem_blocks mem
  rw [hd.drawn] at ranges
  exact ⟨mem, d, hd, Option.some.inj ranges⟩

end TikzPress.Document
