import TikzPress.Proofs.Picture.Offsets
import TikzPress.Proofs.Text.Marker

/-!
Bodies that are written in layers. Only the first marker of a kind counts, so a marker that opens a layer within
another one, or one that closes a layer outside of all of them, is a part of the text that it stands in. Main
statement: the layers that such a body is written in are those of its picture, each with the statements that its
content makes alone, and a body without layers has the statements of its text (`extracted`).
-/

namespace TikzPress.Picture

open Text TikzPress.Statement

-- A layer as it is written, and what stands between it and the next one.
structure Sheet where
  name      : Text
  inner     : Text
  gap       : Text
  named     : name ≠ []
  braceless : '\x7d' ∉ name
  closed    : ¬layerClosing <:+: inner
  between   : ¬layerWord <:+: gap

namespace Sheet

def text (x : Sheet) : Text :=
  layerOpening x.name ++ x.inner ++ layerClosing ++ x.gap

-- What is in the layer, without the blanks at the end.
def raw (x : Sheet) : Text :=
  trimEnd x.inner

-- The layer of a sheet at the byte `start`. It has the statements that its text makes alone, moved there.
def layer (start : Nat) (x : Sheet) : Layer where
  name       := x.name
  statements := (parse x.raw none).statements.map (Statement.shift (start + width (layerOpening x.name)))
  raw        := x.raw

end Sheet

-- The layers of sheets that stand one behind another, the first of them at the byte `start`.
def layersAt (start : Nat) : List Sheet → List Layer
  | []      => []
  | x :: xs => x.layer start :: layersAt (start + width x.text) xs

-- What is found in a body that is written in sheets, in the content of a sheet, and in a body without layers.
structure Extracted (options : Option Text) : Prop where
  layered : ∀ front sheets, ¬layerWord <:+: front → sheets ≠ [] →
    parse (front ++ sheets.flatMap Sheet.text) options = ⟨options, layersAt (width front) sheets, []⟩
  within  : ∀ x : Sheet, parse x.raw options = ⟨options, [], statementsOf 0 x.raw⟩
  flat    : ∀ body, ¬Layered body → parse body options = ⟨options, [], statementsOf 0 body⟩

variable {t u name gap inner rest : Text} {start stop : Nat}

theorem marker_layerWord : Marker layerWord :=
  ⟨rfl, by decide⟩

theorem marker_layerClosing : Marker layerClosing :=
  ⟨rfl, by decide⟩

section Search

-- No layer opens in a gap in front of a marker or of the end.
theorem nextLayer?_append (h : ¬layerWord <:+: gap) (ht : ∀ c ∈ t.head?, c = '\\') :
    nextLayer? (gap ++ t) = nextLayer? t := by
  induction gap
  case nil => rfl
  case cons c gap ih =>
    have later := ih fun hi => h (hi.trans (List.suffix_cons c gap).isInfix)
    rw [List.cons_append, nextLayer?]
    cases hf : layerHere? (c :: (gap ++ t))
    case none => exact later
    case some found =>
      obtain ⟨he, -, -⟩ := eq_layerOpening_of_layerHere? hf
      rw [layerOpening_eq, List.append_assoc] at he
      rcases marker_layerWord.append_eq (u := []) (a := c :: gap) ht he.symm with ⟨w, hw, -⟩ | ⟨w, hw, -⟩
      case inl => exact absurd ⟨[], w, hw.symm⟩ h
      case inr => contradiction

theorem layersOf_gap (h : ¬layerWord <:+: gap) (stop : Nat) : layersOf stop gap = [] := by
  have none_here := nextLayer?_append (t := []) h (fun _ hc => nomatch hc)
  rw [List.append_nil] at none_here
  exact layersOf_of_nextLayer?_eq_none none_here stop

end Search

section Statements

-- What is in front of a text moves its statements.
theorem statementsOf_eq (start : Nat) (t : Text) :
    statementsOf start t = (statementsOf 0 t).map (Statement.shift start) := by
  rw [statementsOf, statementsOf, List.map_filterMap]
  congr 1
  funext s
  rw [Statement.read_eq, Statement.read_eq (s.range.shift 0)]
  simp [Function.comp_def, Statement.shift_within, Range.shift]

theorem Sheet.not_layered_raw (x : Sheet) : ¬Layered x.raw := by
  intro h
  have front : x.raw <+: x.inner := trimEnd_prefix x.inner
  exact x.closed (h.closes.trans front.isInfix)

theorem Sheet.layer_eq (x : Sheet) (start : Nat) : x.layer start =
    ⟨x.name, statementsOf (start + width (layerOpening x.name)) x.raw, x.raw⟩ := by
  rw [layer, parse_of_not_layered x.not_layered_raw, ← statementsOf_eq]

end Statements

theorem layersOf_sheets (h : ¬layerWord <:+: gap) (sheets : List Sheet) (start : Nat)
    (hs : start + width (gap ++ sheets.flatMap Sheet.text) = stop) :
    layersOf stop (gap ++ sheets.flatMap Sheet.text) = layersAt (start + width gap) sheets := by
  induction sheets generalizing gap start
  case nil =>
    rw [List.flatMap_nil, List.append_nil]
    exact layersOf_gap h stop
  case cons x xs ih =>
    have opened : nextLayer? (gap ++ (x :: xs).flatMap Sheet.text) =
        some (x.name, x.inner ++ layerClosing ++ (x.gap ++ xs.flatMap Sheet.text)) := by
      rw [nextLayer?_append h (by rintro _ ⟨⟩; rfl), ← nextLayer?_layerOpening x.named x.braceless]
      simp [Sheet.text]
    have closed := marker_layerClosing.cut?_append x.closed (x.gap ++ xs.flatMap Sheet.text)
    have place : stop - width (x.inner ++ layerClosing ++ (x.gap ++ xs.flatMap Sheet.text)) =
        start + width gap + width (layerOpening x.name) := by
      rw [← hs]
      simp only [List.flatMap_cons, Sheet.text, width_append]
      omega
    have later := ih x.between (start + width gap + width (layerOpening x.name ++ x.inner ++ layerClosing)) (by
        rw [← hs]
        simp only [List.flatMap_cons, Sheet.text, width_append]
        omega)
    rw [layersOf_of_cut? opened closed, place, later, layersAt, x.layer_eq, Nat.add_assoc _ _ (width x.gap),
      ← width_append]
    rfl

theorem extracted (options : Option Text) : Extracted options where
  layered front sheets hf hs := by
    have layers := layersOf_sheets hf sheets 0 rfl
    rw [Nat.zero_add, Nat.zero_add] at layers
    rw [parse, layers]
    cases sheets
    case nil  => contradiction
    case cons => rfl
  within x  := parse_of_not_layered x.not_layered_raw options
  flat _ h  := parse_of_not_layered h options

-- A marker that opens a layer within another one is text, and so is one that closes no layer. The statement in
-- front of the layers is not one of the picture.
def sampleFront : Text :=
  "\\node \x7bg\x7d;\n".toList

def sampleSheets : List Sheet := [
  ⟨"a".toList, "\\draw (n) to (m); \\begin\x7bpgfonlayer\x7d\x7bz\x7d\n".toList,
    "\n\\end\x7bpgfonlayer\x7d\n".toList, by decide, by decide, by decide, by decide⟩,
  ⟨"b".toList, "\\coordinate (n);".toList, [], by decide, by decide, by decide, by decide⟩]

def sampleLayers : List Layer := [
  { name := "a".toList
    statements := [.draw {
      options  := none
      source   := ⟨.named "n".toList none, "(n)".toList⟩
      segments := [.line none none ⟨.named "m".toList none, "(m)".toList⟩]
      range    := ⟨32, 49⟩ }]
    raw := "\\draw (n) to (m); \\begin\x7bpgfonlayer\x7d\x7bz\x7d".toList },
  { name := "b".toList
    statements := [.coordinate ⟨none, some "n".toList, none, ⟨127, 143⟩⟩]
    raw := "\\coordinate (n);".toList }]

theorem extracted_sampleSheets : ¬layerWord <:+: sampleFront ∧ sampleSheets ≠ [] ∧
    parse (sampleFront ++ sampleSheets.flatMap Sheet.text) none = ⟨none, sampleLayers, []⟩ := by
  have unopened : ¬layerWord <:+: sampleFront := by decide
  have written : sampleSheets ≠ [] := nofun
  have found : layersAt (width sampleFront) sampleSheets = sampleLayers := by decide +kernel
  have parsed := (extracted none).layered sampleFront sampleSheets unopened written
  exact ⟨unopened, written, found ▸ parsed⟩

end TikzPress.Picture
