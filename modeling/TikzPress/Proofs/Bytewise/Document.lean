import TikzPress.Proofs.Bytewise.Circuit
import TikzPress.Proofs.Bytewise.Picture
import TikzPress.Proofs.Document.Append
import TikzPress.Proofs.Document.Offsets
import TikzPress.Proofs.Text.Boundary

/-!
Documents by the byte. Main statements: the scan of a source for its environments makes the document that is
read from it, without a fault (`document_eq`), and so does the scan of the blocks for what they draw
(`drawings_eq`).
-/

namespace TikzPress.Bytewise

open Text Document

section Definitions

variable (limit : Nat)

-- The byte at which a literal first stands.
def find (l t : Text) : Option Nat :=
  (cut? l t).map fun (lead, _) => width lead

-- The byte behind a literal that stands `ahead` bytes behind `pos`.
def behind (pos ahead : Nat) (l : Text) : Checked Nat := do
  sum limit pos (← sum limit ahead (width l))

-- Where the outermost of `depth` open regions ends, when the scan has come to the byte `pos`.
def closeFrom (source name : Text) (depth pos : Nat) : Checked (Option Nat) := do
  let rest ← restAt source pos
  match find (Environment.closing name) rest with
  | none      => return none
  | some stop =>
    match (find (Environment.opening name) rest).filter (· < stop) with
    | some start =>
      let depth ← sum limit depth 1
      let next ← behind limit pos start (Environment.opening name)
      let ⟨_, _⟩ ← advance (width source) pos next
      closeFrom source name depth next
    | none =>
      let depth ← difference depth 1
      let next ← behind limit pos stop (Environment.closing name)
      if depth = 0 then return some next
      let ⟨_, _⟩ ← advance (width source) pos next
      closeFrom source name depth next
termination_by width source - pos

-- A place to start at that is none gives no region.
def bounds (source name : Text) (pos : Nat) : Checked (Option Range) := do
  match (dropBytes? pos source).bind (find (Environment.opening name)) with
  | none       => return none
  | some ahead =>
    let start ← sum limit pos ahead
    let inside ← sum limit start (width (Environment.opening name))
    return (← closeFrom limit source name 1 inside).map fun stop => ⟨start, stop⟩

-- Of two regions the one that starts first.
def earlier : Option (Text × Range) → Option (Text × Range) → Option (Text × Range)
  | some a, some b => if b.2.start < a.2.start then some b else some a
  | some a, none   => some a
  | none, b        => b

def next (source : Text) (pos : Nat) : Checked (Option (Text × Range)) := do
  let found ← Region.supported.mapM fun name => do
    return (← bounds limit source name pos).map (name, ·)
  return found.foldl earlier none

def rawSegment (source : Text) (start stop : Nat) : Checked Segment := do
  return .raw (← slice source start stop) ⟨start, stop⟩

-- No segment for the empty text.
def rawSegments (source : Text) (start stop : Nat) : Checked (List Segment) := do
  if start < stop then return [← rawSegment source start stop] else return []

-- The width of the header of a region, of which the text between the markers is given.
def headerWidth (name inner : Text) : Checked Nat := do
  match ← groupWidth limit '[' ']' inner with
  | none       => return width (Environment.opening name)
  | some width => sum limit (Text.width (Environment.opening name)) width

-- The block of a region whose text starts at the byte `start`.
def block (text name : Text) (start : Nat) : Checked Block := do
  let footerStart ← difference (width text) (width (Environment.closing name))
  let inner ← slice text (width (Environment.opening name)) footerStart
  let headerStop ← headerWidth limit name inner
  let header ← slice text 0 headerStop
  let body ← slice text headerStop footerStart
  let footer ← restAt text footerStart
  return ⟨name, header, body, footer, ⟨start, ← sum limit start (width text)⟩⟩

def segmentsFrom (source : Text) (pos : Nat) : Checked (List Segment) := do
  if width source ≤ pos then return []
  match ← next limit source pos with
  | none           => return [← rawSegment source pos (width source)]
  | some (name, r) =>
    let front ← rawSegments source pos r.start
    let block ← block limit (← slice source r.start r.stop) name r.start
    let ⟨_, _⟩ ← advance (width source) pos r.stop
    return front ++ .environment block :: (← segmentsFrom source r.stop)
termination_by width source - pos

def unclosedIn : Segment → Checked (List Unclosed)
  | .raw t r => Region.supported.filterMapM fun name =>
    match offsets (Environment.opening name) t with
    | []             => return none
    | first :: later => return some ⟨name, later.length, ← sum limit r.start first⟩
  | _ => return []

-- The document of a source and the regions without an end.
def document (source : Text) : Checked (Document × List Unclosed) := do
  let segments ← segmentsFrom limit source 0
  let unclosed ← segments.mapM (unclosedIn limit)
  return (⟨segments, width source⟩, unclosed.flatten.mergeSort (·.offset ≤ ·.offset))

def drawing (b : Block) : Checked (Option Drawing) := do
  if b.name = "tikzpicture".toList then return some (.picture (← picture limit b.body b.options?))
  if b.name = "circuitikz".toList then return some (.circuit (← circuit limit b.body))
  return none

def drawings (d : Document) : Checked (List Drawing) :=
  d.blocks.filterMapM (drawing limit)

-- What a drawing is made of.
def ofDrawing : Drawing → List Product
  | .picture p => ofPicture p
  | .circuit c => ofCircuit c

end Definitions

section Regions

open Environment

variable {limit : Nat} {name t a b r r' : Text}

section Literals

variable {l : Text}

theorem find_of_cut? (h : cut? l t = some (a, r)) : find l t = some (width a) := by
  rw [find, h]
  rfl

theorem append_append_of_cut? (lead : Text) (h : cut? l t = some (a, r)) :
    lead ++ (a ++ l) ++ r = lead ++ t := by
  rw [List.append_assoc, append_of_cut? h]

theorem behind_of_cut? (lead : Text) (h : cut? l t = some (a, r)) (hl : width (lead ++ t) ≤ limit) :
    behind limit (width lead) (width a) l = .ok (width (lead ++ (a ++ l))) := by
  rw [← append_append_of_cut? lead h] at hl
  simp only [width_append] at hl ⊢
  rw [behind, sum_of_le (by omega), ok_bind, sum_of_le (by omega)]

theorem lt_behind_of_cut? (lead : Text) (h : cut? l t = some (a, r)) (hl : l ≠ []) :
    width lead < width (lead ++ (a ++ l)) ∧ width (lead ++ (a ++ l)) ≤ width (lead ++ t) := by
  have := mt width_eq_zero_iff.mp hl
  rw [← append_append_of_cut? lead h]
  simp only [width_append]
  omega

end Literals

section Close

variable {d : Nat}

theorem close?_of_nested (hc : cut? (closing name) t = some (a, r)) (ho : cut? (opening name) t = some (b, r'))
    (h : width b < width a) :
    close? name d t = (close? name (d + 1) r').map fun (s, r) => (b ++ (opening name ++ s), r) := by
  have whole : b ++ (opening name ++ r') = t := by rw [← List.append_assoc, append_of_cut? ho]
  have front := close?_append_of_not_occurs name d (a := b) (t := opening name ++ r')
  rw [whole] at front
  rw [front fun n hn => ?_, close?_opening, Option.map_map]
  case _ => rfl
  exact ⟨fun h => Nat.not_le_of_lt hn (le_of_occurs ho h), fun h' => by have := le_of_occurs hc h'; omega⟩

theorem close?_of_first (hc : cut? (closing name) t = some (a, r))
    (h : ∀ b r', cut? (opening name) t = some (b, r') → width a ≤ width b) :
    close? name d t = (close? name d (closing name ++ r)).map fun (s, r) => (a ++ s, r) := by
  have whole : a ++ (closing name ++ r) = t := by rw [← List.append_assoc, append_of_cut? hc]
  have front := close?_append_of_not_occurs name d (a := a) (t := closing name ++ r)
  rw [whole] at front
  refine front fun n hn => ⟨fun ho => ?_, fun h => Nat.not_le_of_lt hn (le_of_occurs hc h)⟩
  obtain ⟨b, r', hb, hle⟩ := exists_cut?_of_occurs ho
  have := h b r' hb
  omega

end Close

theorem closeFrom_eq (hn : name ∈ Region.supported) (lead t : Text) {d : Nat} (hd : d < width lead)
    (hl : width (lead ++ t) ≤ limit) : closeFrom limit (lead ++ t) name (d + 1) (width lead) =
      .ok ((close? name d t).map fun (_, rest) => width (lead ++ t) - width rest) := by
  rw [closeFrom, restAt_append, ok_bind]
  cases hc : cut? (closing name) t
  case none =>
    rw [close?_of_not_occurs hc, find, hc]
    rfl
  case some x =>
    obtain ⟨a, r⟩ := x
    simp only [find_of_cut? hc]
    by_cases nested : ∃ b r', cut? (opening name) t = some (b, r') ∧ width b < width a
    case pos =>
      obtain ⟨b, r', ho, hlt⟩ := nested
      obtain ⟨ahead, inside⟩ := lt_behind_of_cut? lead ho (opening_ne_nil name)
      have whole := append_append_of_cut? lead ho
      have deeper : sum limit (d + 1) 1 = .ok (d + 1 + 1) := sum_of_le (by omega)
      have later := closeFrom_eq hn (lead ++ (b ++ opening name)) r' (d := d + 1) (by omega) (by rwa [whole])
      rw [whole] at later
      simp only [find_of_cut? ho, Option.filter_some, decide_eq_true hlt, if_true, deeper,
        behind_of_cut? lead ho hl, ok_bind, advance_of_lt ahead inside, later]
      rw [close?_of_nested hc ho hlt, Option.map_map]
      rfl
    case neg =>
      have before (b r' : Text) (ho : cut? (opening name) t = some (b, r')) : width a ≤ width b :=
        Nat.le_of_not_lt fun hlt => nested ⟨b, r', ho, hlt⟩
      have first : (find (opening name) t).filter (· < width a) = none := by
        cases ho : cut? (opening name) t
        case none   => simp [find, ho]
        case some x => simp [find, ho, before x.1 x.2 ho]
      obtain ⟨ahead, inside⟩ := lt_behind_of_cut? lead hc (closing_ne_nil name)
      have whole := append_append_of_cut? lead hc
      have shallower : difference (d + 1) 1 = .ok d := difference_of_le (by omega)
      simp only [first, shallower, behind_of_cut? lead hc hl, ok_bind]
      rw [close?_of_first hc before, close?_closing, Option.map_map]
      cases d
      case zero =>
        rw [if_pos rfl, ← whole]
        exact congrArg (Except.ok ∘ some) (width_append_sub _ r).symm
      case succ d =>
        have later := closeFrom_eq hn (lead ++ (a ++ closing name)) r (d := d) (by omega) (by rwa [whole])
        rw [whole] at later
        rw [if_neg (Nat.succ_ne_zero d)]
        simp only [advance_of_lt ahead inside, ok_bind, later, Option.map_map]
        rfl
termination_by t.length
decreasing_by
  · exact length_lt_of_cut? (opening_ne_nil name) ho
  · exact length_lt_of_cut? (closing_ne_nil name) hc

theorem bounds_eq (hn : name ∈ Region.supported) (hl : width t ≤ limit) (pos : Nat) :
    bounds limit t name pos = .ok (bounds? t name pos) := by
  rw [bounds, bounds?]
  cases h : dropBytes? pos t
  case none => rfl
  case some u =>
    obtain ⟨lead, rfl, rfl⟩ := dropBytes?_eq_some_iff.mp h
    simp only [Option.bind_eq_bind, Option.bind_some]
    cases hc : cut? (opening name) u
    case none =>
      rw [find, find?, hc]
      rfl
    case some x =>
      obtain ⟨a, r⟩ := x
      obtain ⟨ahead, inside⟩ := lt_behind_of_cut? lead hc (opening_ne_nil name)
      have whole := append_append_of_cut? lead hc
      have room : width (lead ++ (a ++ opening name) ++ r) ≤ limit := by rwa [whole]
      have closes := closeFrom_eq hn _ r (d := 0) (by omega) room
      have place : width (lead ++ (a ++ opening name)) = width lead + width a + width (opening name) := by
        simp [Nat.add_assoc]
      rw [whole, place] at closes
      have start : sum limit (width lead) (width a) = .ok (width lead + width a) := sum_of_le (by omega)
      have opened : sum limit (width lead + width a) (width (opening name)) = .ok _ := sum_of_le (by omega)
      simp only [find_of_cut? hc, find?_of_cut? hc, start, ok_bind, opened, closes]
      cases close? name 0 r <;> rfl

-- The name and the range of a region of a text of which it is given what precedes it.
def located (w start : Nat) (r : Region) : Text × Range :=
  (r.name, ⟨start + width r.lead, w - width r.rest⟩)

theorem width_lt_iff_of_prefix (ha : a <+: t) (hb : b <+: t) : width a < width b ↔ a.length < b.length := by
  have longer {a b : Text} (h : a <+: b) :
      (width a < width b ↔ a.length < b.length) ∧ (width b < width a ↔ b.length < a.length) := by
    obtain ⟨u, rfl⟩ := h
    have empty : width u = 0 ↔ u.length = 0 := by rw [width_eq_zero_iff, List.length_eq_zero_iff]
    rw [width_append, List.length_append]
    omega
  rcases List.prefix_or_prefix_of_prefix ha hb with h | h
  case inl => exact (longer h).left
  case inr => exact (longer h).right

theorem earlier_map {w n : Nat} {x y : Option Region} (hx : ∀ r ∈ x, r.lead <+: t)
    (hy : ∀ r ∈ y, r.lead <+: t) :
    earlier (x.map (located w n)) (y.map (located w n)) = (Region.earlier x y).map (located w n) := by
  cases x
  case none => rfl
  case some x =>
    cases y
    case none => rfl
    case some y =>
      have order := width_lt_iff_of_prefix (hy y rfl) (hx x rfl)
      simp only [Option.map_some, earlier, Region.earlier, located, Nat.add_lt_add_iff_left, order]
      split <;> rfl

theorem foldl_earlier_map {w n : Nat} {x : Option Region} {l : List (Option Region)}
    (hx : ∀ r ∈ x, r.lead <+: t) (hl : ∀ y ∈ l, ∀ r ∈ y, r.lead <+: t) :
    (l.map (Option.map (located w n))).foldl earlier (x.map (located w n)) =
      (l.foldl Region.earlier x).map (located w n) := by
  induction l generalizing x
  case nil => rfl
  case cons y l ih =>
    obtain ⟨hy, hl⟩ := List.forall_mem_cons.mp hl
    rw [List.map_cons, List.foldl_cons, List.foldl_cons, earlier_map hx hy]
    refine ih (fun r hr => ?_) hl
    rcases Region.earlier_eq_or x y with h | h
    case inl => exact hx r (h ▸ hr)
    case inr => exact hy r (h ▸ hr)

theorem mapM_eq {f : α → Checked β} {g : α → β} {l : List α} (h : ∀ a ∈ l, f a = .ok (g a)) :
    l.mapM f = .ok (l.map g) := by
  induction l
  case nil => rfl
  case cons a l ih =>
    obtain ⟨ha, hl⟩ := List.forall_mem_cons.mp h
    rw [List.mapM_cons, ha, ok_bind, ih hl]
    rfl

theorem next_eq (lead t : Text) (hl : width (lead ++ t) ≤ limit) : next limit (lead ++ t) (width lead) =
    .ok ((Region.next? t).map (located (width (lead ++ t)) (width lead))) := by
  have each : ∀ name ∈ Region.supported, (do
      return (← bounds limit (lead ++ t) name (width lead)).map (name, ·) : Checked _) =
      .ok ((find? name t).map (located (width (lead ++ t)) (width lead))) := by
    intro name hn
    rw [bounds_eq hn hl, ok_bind, bounds?, dropBytes?_width_append]
    cases hf : find? name t
    case none => simp [hf]
    case some r =>
      obtain ⟨-, -, -, rfl⟩ := find?_eq_some_iff.mp hf
      simp [hf, located]
  have prefixes : ∀ y ∈ Region.supported.map (find? · t), ∀ r ∈ y, r.lead <+: t := by
    intro y hy r hr
    obtain ⟨name, -, rfl⟩ := List.mem_map.mp hy
    exact ⟨r.text ++ r.rest, by rw [← List.append_assoc, append_of_find? hr]⟩
  have first := foldl_earlier_map (w := width (lead ++ t)) (n := width lead) (x := none) (by simp) prefixes
  rw [next, mapM_eq each, ok_bind, Region.next?, ← first, List.map_map]
  rfl

end Regions

section Segments

open Environment

variable {limit : Nat} {t : Text}

theorem headerWidth_eq {name inner options body : Text}
    (h : (Bracket.take? '[' ']' inner).getD ([], inner) = (options, body))
    (hl : width (opening name ++ inner) ≤ limit) :
    options ++ body = inner ∧ headerWidth limit name inner = .ok (width (opening name ++ options)) := by
  rw [width_append] at hl
  rw [headerWidth, groupWidth_eq (by decide) (by decide) (by omega)]
  cases hg : Bracket.take? '[' ']' inner
  case none =>
    rw [hg] at h
    cases h
    exact ⟨rfl, by simp⟩
  case some x =>
    rw [hg] at h
    obtain rfl : x = (options, body) := h
    have split := Bracket.append_of_take? hg
    rw [← split, width_append] at hl
    refine ⟨split, ?_⟩
    simp only [Option.map_some, ok_bind, width_append]
    exact sum_of_le (by omega)

theorem block_eq (r : Region) {start : Nat} (hl : start + width r.text ≤ limit) :
    block limit r.text r.name start = .ok (.ofRegion start r) := by
  have parts : r.text = opening r.name ++ r.inner ++ closing r.name := rfl
  have whole : width r.text = width (opening r.name ++ r.inner) + width (closing r.name) := by
    rw [parts, width_append]
  have footerStart : difference (width r.text) (width (closing r.name)) =
      .ok (width (opening r.name ++ r.inner)) := by
    rw [difference_of_le (by omega), whole, Nat.add_sub_cancel]
  have inner := slice_append (opening r.name) r.inner (closing r.name)
  rw [← parts, ← width_append] at inner
  have footer := restAt_append (opening r.name ++ r.inner) (closing r.name)
  rw [← parts] at footer
  rw [block, Block.ofRegion]
  cases hg : (Bracket.take? '[' ']' r.inner).getD ([], r.inner)
  case mk options body =>
    obtain ⟨split, headerStop⟩ := headerWidth_eq hg (show width (opening r.name ++ r.inner) ≤ limit by omega)
    have regrouped : opening r.name ++ r.inner = opening r.name ++ options ++ body := by
      rw [← split, List.append_assoc]
    have header := slice_zero_append (opening r.name ++ options) (body ++ closing r.name)
    have inside := slice_append (opening r.name ++ options) body (closing r.name)
    rw [← List.append_assoc, ← regrouped, ← parts] at header
    rw [← width_append, ← regrouped, ← parts] at inside
    have stop : sum limit start (width r.text) = .ok _ := sum_of_le hl
    simp only [footerStart, inner, headerStop, header, inside, footer, stop, ok_bind]
    rfl

theorem rawSegment_eq (lead a u : Text) : rawSegment (lead ++ a ++ u) (width lead) (width (lead ++ a)) =
    .ok (.raw a ⟨width lead, width lead + width a⟩) := by
  rw [rawSegment, width_append, slice_append]
  rfl

theorem rawSegments_eq (lead a u : Text) : rawSegments (lead ++ a ++ u) (width lead) (width (lead ++ a)) =
    .ok (Segment.ofRaw (width lead) a) := by
  rw [rawSegments, rawSegment_eq]
  cases a
  case nil      => rw [List.append_nil, if_neg (Nat.lt_irrefl _)]; rfl
  case cons c a =>
    have := c.utf8Size_pos
    rw [if_pos (by simp; omega)]
    rfl

theorem segmentsFrom_eq (lead t : Text) (hl : width (lead ++ t) ≤ limit) :
    segmentsFrom limit (lead ++ t) (width lead) = .ok (Document.segmentsFrom (width lead) t) := by
  rw [segmentsFrom]
  by_cases ht : t = []
  case pos =>
    subst ht
    rw [if_pos (by simp), segmentsFrom_of_none rfl]
    rfl
  case neg =>
    have wide := mt width_eq_zero_iff.mp ht
    rw [if_neg (by rw [width_append]; omega), next_eq lead t hl]
    cases hr : Region.next? t
    case none =>
      have raw := rawSegment_eq lead t []
      have single : Segment.ofRaw (width lead) t = [.raw t ⟨width lead, width lead + width t⟩] := by
        cases t
        case nil  => contradiction
        case cons => rfl
      rw [List.append_nil] at raw
      simp only [Option.map_none, ok_bind, raw, segmentsFrom_of_none hr, single]
      rfl
    case some r =>
      have parts := Region.append_of_next? hr
      have whole : lead ++ r.lead ++ r.text ++ r.rest = lead ++ t := by simp [← parts]
      have stop : width (lead ++ t) - width r.rest = width (lead ++ r.lead ++ r.text) := by
        rw [← whole, width_append_sub]
      have start : width lead + width r.lead = width (lead ++ r.lead) := by rw [width_append]
      have front := rawSegments_eq lead r.lead (r.text ++ r.rest)
      rw [← List.append_assoc, whole] at front
      have text := slice_append (lead ++ r.lead) r.text r.rest
      rw [whole, ← width_append] at text
      have ahead : width lead < width (lead ++ r.lead ++ r.text) := by
        have full := Block.text_ne_nil_of_ofRegion 0 r
        rw [Block.text_ofRegion] at full
        have := mt width_eq_zero_iff.mp full
        simp only [width_append]
        omega
      have inside : width (lead ++ r.lead ++ r.text) ≤ width (lead ++ t) := by
        rw [← whole, width_append _ r.rest]
        exact Nat.le_add_right ..
      have room : width (lead ++ r.lead) + width r.text ≤ limit := by
        rw [← width_append]
        omega
      have later := segmentsFrom_eq (lead ++ r.lead ++ r.text) r.rest (by rwa [whole])
      rw [whole] at later
      rw [segmentsFrom_of_some hr]
      simp only [Option.map_some, located, ok_bind, stop, start, front, text, block_eq r room,
        advance_of_lt ahead inside, later, ← width_append]
      rfl
termination_by t.length
decreasing_by exact Region.length_rest_lt_of_next? hr

theorem unclosedIn_eq {s : Segment} (h : ∀ u ∈ s.unclosed, u.offset ≤ limit) :
    unclosedIn limit s = .ok s.unclosed := by
  cases s
  case command     => rfl
  case environment => rfl
  case raw t r =>
    rw [unclosedIn, Segment.unclosed]
    refine filterMapM_eq fun name hn => ?_
    cases ho : offsets (opening name) t
    case nil => rfl
    case cons first later =>
      have mem : ⟨name, later.length, r.start + first⟩ ∈ (Segment.raw t r).unclosed :=
        List.mem_filterMap.mpr ⟨name, hn, by rw [ho]⟩
      simp only [sum_of_le (h _ mem), ok_bind]
      rfl

theorem offset_le_of_mem {source : Text} {s : Segment} (h : s ∈ (parse source).segments) {u : Unclosed}
    (hu : u ∈ s.unclosed) : u.offset ≤ width source := by
  obtain ⟨lead, rest, rfl, hr⟩ := (laid_segmentsFrom 0 source).exists_append h
  have before := (offset_lt_of_mem h hu).right
  simp only [hr] at before
  simp only [width_append]
  omega

theorem document_eq {source : Text} (hl : width source ≤ limit) :
    document limit source = .ok (parse source, (parse source).unclosed) := by
  have segments := segmentsFrom_eq [] source hl
  have each : ∀ s ∈ Document.segmentsFrom 0 source, unclosedIn limit s = .ok s.unclosed := fun s hs =>
    unclosedIn_eq fun u hu => Nat.le_trans (offset_le_of_mem hs hu) hl
  rw [List.nil_append, width_nil] at segments
  rw [document, segments, ok_bind, mapM_eq each]
  rfl

end Segments

section Drawings

variable {limit : Nat} {source : Text}

theorem drawing_eq {b : Block} (hl : width b.body ≤ limit) :
    drawing limit b = .ok b.drawing? ∧ ∀ d ∈ b.drawing?, AllSound limit (ofDrawing d) := by
  rw [drawing, Block.drawing?]
  split
  case isTrue =>
    obtain ⟨drawn, sound⟩ := picture_eq hl b.options?
    rw [drawn]
    exact ⟨rfl, fun d hd => Option.some.inj hd ▸ sound⟩
  case isFalse =>
    split
    case isTrue =>
      obtain ⟨drawn, sound⟩ := circuit_eq hl
      rw [drawn]
      exact ⟨rfl, fun d hd => Option.some.inj hd ▸ sound⟩
    case isFalse => exact ⟨rfl, by simp⟩

theorem width_body_le {b : Block} (h : b ∈ (parse source).blocks) : width b.body ≤ width source := by
  obtain ⟨lead, rest, rfl, -⟩ := (laid_segmentsFrom 0 source).exists_append (mem_blocks_iff.mp h)
  simp only [Segment.text, Block.text, width_append]
  omega

theorem drawings_eq (hl : width source ≤ limit) : drawings limit (parse source) = .ok (parse source).drawings ∧
    ∀ d ∈ (parse source).drawings, AllSound limit (ofDrawing d) :=
  filterMapM_sound fun _ hb => drawing_eq (Nat.le_trans (width_body_le hb) hl)

end Drawings

end TikzPress.Bytewise
