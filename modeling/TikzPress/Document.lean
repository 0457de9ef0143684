import TikzPress.Circuit
import TikzPress.Environment
import TikzPress.Picture

/-!
Documents: a source text cut into raw text and closed regions of the supported environments. Main
statement: the texts of the segments joined together are the source (`serialize_parse`).
-/

namespace TikzPress
namespace Document

-- The header is the begin marker with an option list right after it.
structure Block where
  name : Text
  header : Text
  body : Text
  footer : Text
  range : Range
  deriving DecidableEq, Repr

namespace Block

def text (b : Block) : Text := b.header ++ b.body ++ b.footer

def options? (b : Block) : Option Text :=
  match Text.dropBytes? (Text.width (Environment.opening b.name)) b.header with
  | some [] => none
  | found => found

def bodyStart (b : Block) : Nat := b.range.start + Text.width b.header

def ofRegion (start : Nat) (r : Region) : Block :=
  let (options, body) := (Bracket.take? '[' ']' r.inner).getD ([], r.inner)
  { name := r.name
    header := Environment.opening r.name ++ options
    body := body
    footer := Environment.closing r.name
    range := ⟨start, start + Text.width r.text⟩ }

@[simp] theorem text_ofRegion (start : Nat) (r : Region) : (ofRegion start r).text = r.text := by
  simp only [ofRegion, text, Region.text]
  cases h : Bracket.take? '[' ']' r.inner
  case none => simp
  case some found => simp [← Bracket.append_of_take? h]

end Block

inductive Segment where
  | raw (text : Text) (range : Range)
  | command (name : Text) (text : Text) (range : Range)
  | environment (block : Block)
  deriving DecidableEq, Repr

namespace Segment

def text : Segment → Text
  | raw t _ => t
  | command _ t _ => t
  | environment b => b.text

def range : Segment → Range
  | raw _ r => r
  | command _ _ r => r
  | environment b => b.range

def block? : Segment → Option Block
  | environment b => some b
  | _ => none

def ofRaw (start : Nat) : Text → List Segment
  | [] => []
  | t => [raw t ⟨start, start + Text.width t⟩]

@[simp] theorem flatMap_text_ofRaw (start : Nat) (t : Text) : (ofRaw start t).flatMap text = t := by
  cases t <;> simp [ofRaw, text]

end Segment
end Document

structure Document where
  segments : List Document.Segment
  sourceWidth : Nat
  deriving DecidableEq, Repr

-- All later begin markers of the same environment in the segment were swallowed by the first.
structure Unclosed where
  name : Text
  swallowed : Nat
  offset : Nat
  deriving DecidableEq, Repr

structure Diagnostic where
  message : Text
  offset : Nat
  deriving DecidableEq, Repr

def Diagnostic.text (d : Diagnostic) : Text :=
  d.message ++ " at offset ".toList ++ Text.ofNat d.offset

def Unclosed.diagnostic (u : Unclosed) : Diagnostic :=
  let marker := Environment.opening u.name
  let first := "unterminated ".toList ++ marker
  let more :=
    if u.swallowed = 0 then []
    else "; ".toList ++ Text.ofNat u.swallowed ++ " later ".toList ++ marker ++
      " swallowed as raw text".toList
  ⟨first ++ more, u.offset⟩

inductive Drawing where
  | picture (p : Picture)
  | circuit (c : Circuit)
  deriving DecidableEq, Repr

namespace Document

def segmentsFrom (start : Nat) (t : Text) : List Segment :=
  match _h : Region.next? t with
  | none => Segment.ofRaw start t
  | some r =>
    let at' := start + Text.width r.lead
    Segment.ofRaw start r.lead ++ .environment (.ofRegion at' r) ::
      segmentsFrom (at' + Text.width r.text) r.rest
termination_by t.length
decreasing_by exact Region.length_rest_lt_of_next? _h

def parse (source : Text) : Document := ⟨segmentsFrom 0 source, Text.width source⟩

def serialize (d : Document) : Text := d.segments.flatMap Segment.text

def blocks (d : Document) : List Block := d.segments.filterMap Segment.block?

def Segment.unclosed : Segment → List Unclosed
  | .raw t r => Region.supported.filterMap fun name =>
    match Text.offsets (Environment.opening name) t with
    | [] => none
    | first :: later => some ⟨name, later.length, r.start + first⟩
  | _ => []

def unclosed (d : Document) : List Unclosed :=
  (d.segments.flatMap Segment.unclosed).mergeSort (·.offset ≤ ·.offset)

def diagnostics (d : Document) : List Diagnostic := d.unclosed.map Unclosed.diagnostic

def Block.drawing? (b : Block) : Option Drawing :=
  if b.name = "tikzpicture".toList then some (.picture (Picture.parse b.body b.options?))
  else if b.name = "circuitikz".toList then some (.circuit (Circuit.parse b.body))
  else none

def drawings (d : Document) : List Drawing := d.blocks.filterMap Block.drawing?

theorem flatMap_text_segmentsFrom (start : Nat) (t : Text) :
    (segmentsFrom start t).flatMap Segment.text = t := by
  fun_induction segmentsFrom start t
  case case1 start t => simp
  case case2 start t r h _ ih =>
    rw [List.flatMap_append, List.flatMap_cons, ih]
    simp [Segment.text, ← Region.append_of_next? h]

theorem serialize_parse (source : Text) : (parse source).serialize = source :=
  flatMap_text_segmentsFrom 0 source

end Document
end TikzPress
