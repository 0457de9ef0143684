import TikzPress.Proofs.Bytewise.Document
import TikzPress.Proofs.Bytewise.Graph

/-!
No source makes a scan by the byte fail. Main statement: with room for the width of the source, the document,
its drawings and what is read out of these are computed without a fault, and so are the graphs of the pictures
unless the number of a node, edge or path is too great (`faultless`).
-/

namespace TikzPress.Bytewise

open Text Document

-- What is computed of a source by the byte, and what that relies on.
structure Faultless (limit : Nat) (source : Text) : Prop where
  document : document limit source = .ok (parse source, (parse source).unclosed)
  ranges   : ∀ s ∈ (parse source).segments, length s.range = .ok s.range.length
  apart    : ∀ b ∈ (parse source).blocks, width (Environment.opening b.name) ≤ width b.header ∧
    width b.header + width b.footer ≤ width b.text ∧ width b.text = b.range.length
  drawings : drawings limit (parse source) = .ok (parse source).drawings
  products : ∀ d ∈ (parse source).drawings, AllSound limit (ofDrawing d)
  graphs   : ∀ p, .picture p ∈ (parse source).drawings → Counts (fun limit => graph limit p) (.ofPicture p)

variable {source : Text}

theorem length_range_eq {s : Segment} (h : s ∈ (parse source).segments) :
    length s.range = .ok s.range.length := by
  obtain ⟨lead, rest, -, hr⟩ := (laid_segmentsFrom 0 source).exists_append h
  refine difference_of_le ?_
  rw [hr]
  exact Nat.le_add_right ..

-- The header of a block ends before its footer begins.
theorem width_header_add_le {b : Block} (h : b ∈ (parse source).blocks) :
    width (Environment.opening b.name) ≤ width b.header ∧ width b.header + width b.footer ≤ width b.text ∧
      width b.text = b.range.length := by
  obtain ⟨start, _, r, -, rfl⟩ := exists_region_of_mem_segmentsFrom (mem_blocks_iff.mp h)
  refine ⟨?_, ?_, ?_⟩
  case refine_1 => simp [Block.ofRegion]
  case refine_2 =>
    rw [Block.text, width_append, width_append]
    omega
  case refine_3 =>
    rw [Block.text_ofRegion]
    simp [Block.ofRegion, Range.length]

theorem faultless (source : Text) (spare : Nat) : Faultless (width source + spare) source where
  document   := document_eq (Nat.le_add_right ..)
  ranges _   := length_range_eq
  apart _    := width_header_add_le
  drawings   := (drawings_eq (Nat.le_add_right ..)).left
  products   := (drawings_eq (Nat.le_add_right ..)).right
  graphs p _ := counts_graph p

end TikzPress.Bytewise
