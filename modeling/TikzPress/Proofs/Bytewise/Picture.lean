import TikzPress.Picture
import TikzPress.Proofs.Bytewise.Statement
import TikzPress.Proofs.Bytewise.Token
import TikzPress.Proofs.Picture.Layered

/-!
Pictures by the byte. Main statement: the scan of a body makes the picture that is read from it, without a
fault, and all that the picture is made of is sound (`picture_eq`).
-/

namespace TikzPress.Bytewise

open Text Scanner

section Definitions

variable (limit : Nat)

-- A clause `at (…)`.
def atClause : Scanner (Option Coordinate) := do
  match ← attempt (keyword limit "at".toList) with
  | none    => return none
  | some () =>
    match ← attempt (reference limit) with
    | none   => return none
    | some r => return ← lift (coordinate r.raw)

def nodeName : Scanner (Option Text) := do
  return (← attempt (reference limit)).bind Reference.name?

def label : Scanner Text :=
  group limit '\x7b' '\x7d'

def node (range : Range) : Scanner Picture.Node := do
  command limit "node".toList
  let options ← attempt (options limit)
  let name ← nodeName limit
  let coordinate ← atClause limit
  let label ← attempt (label limit)
  return ⟨options, name, coordinate, label, range⟩

def namedCoordinate (range : Range) : Scanner Picture.NamedCoordinate := do
  command limit "coordinate".toList
  let options ← attempt (options limit)
  let name ← nodeName limit
  let coordinate ← atClause limit
  return ⟨options, name, coordinate, range⟩

def edgeNode : Scanner Picture.EdgeNode := do
  keyword limit "node".toList
  let options ← attempt (options limit)
  return ⟨options, ← attempt (label limit)⟩

-- A line, behind its word.
def line : Scanner Picture.Segment := do
  let options ← attempt (options limit)
  let node ← attempt (edgeNode limit)
  return .line options node (← reference limit)

-- A curve, behind its control points.
def curveTo (control₁ : Reference) (control₂ : Option Reference) : Scanner Picture.Segment := do
  literal limit "..".toList
  return .curve control₁ control₂ (← reference limit)

-- A curve, behind its points.
def curve : Scanner Picture.Segment := do
  keyword limit "controls".toList
  let control₁ ← reference limit
  match ← attempt (keyword limit "and".toList) with
  | none    => curveTo limit control₁ none
  | some () => curveTo limit control₁ (some (← reference limit))

def step : Scanner Picture.Segment := do
  match ← attempt (keyword limit "to".toList) with
  | some () => line limit
  | none    =>
    literal limit "..".toList
    curve limit

def path (name : Text) (range : Range) : Scanner Picture.Chain := do
  command limit name
  let options ← attempt (options limit)
  let source ← reference limit
  let segments ← many (step limit)
  return ⟨options, source, segments, range⟩

def statement (range : Range) : Scanner Picture.Statement :=
  orElse (do return .node (← node limit range)) <|
  orElse (do return .coordinate (← namedCoordinate limit range)) <|
  orElse (do return .draw (← path limit "draw".toList range)) <|
  do return .path (← path limit "path".toList range)

-- The range of a slice of a text at the byte `base`.
def rangeOf (base : Nat) (s : Slice) : Checked Range := do
  let stop ← sum limit s.start (width s.text)
  return ⟨← sum limit s.start base, ← sum limit stop base⟩

-- The statements of a text at the byte `base`.
def statements (base : Nat) (t : Text) : Checked (List Picture.Statement) := do
  (← split limit t).filterMapM fun s => do
    scanned (statement limit (← rangeOf limit base s)) s.text

-- Where the next marker that opens a layer ends, and the name of the layer.
def layerBegin? (body : Text) (pos : Nat) : Checked (Option (Text × Nat)) := do
  return (Picture.nextLayer? (← restAt body pos)).map fun (name, rest) => (name, width body - width rest)

-- Where the next marker that closes a layer stands, with the blanks in front of it.
def layerEnd? (body : Text) (pos : Nat) : Checked (Option (Nat × Nat)) := do
  return (cut? Picture.layerClosing (← restAt body pos)).map fun (inner, rest) =>
    (pos + width (trimEnd inner), width body - width rest)

def layersFrom (body : Text) (pos : Nat) : Checked (List Picture.Layer) := do
  match ← layerBegin? body pos with
  | none               => return []
  | some (name, start) =>
    match ← layerEnd? body start with
    | none              => return []
    | some (stop, next) =>
      let raw ← slice body start stop
      let statements ← statements limit start raw
      let ⟨_, _⟩ ← advance (width body) pos next
      return ⟨name, statements, raw⟩ :: (← layersFrom body next)
termination_by width body - pos

end Definitions

section Products

def ofSegment : Picture.Segment → List Product
  | .line options node target       =>
    ofOptions options ++ ofOptions (node.bind Picture.EdgeNode.options) ++ [.reference target]
  | .curve control₁ control₂ target =>
    [.reference control₁] ++ control₂.toList.map .reference ++ [.reference target]

def ofPath (c : Picture.Chain) : List Product :=
  ofOptions c.options ++ [.reference c.source] ++ c.segments.flatMap ofSegment ++ [.range c.range]

def ofStatement : Picture.Statement → List Product
  | .node n       => ofOptions n.options ++ [.range n.range]
  | .coordinate c => ofOptions c.options ++ [.range c.range]
  | .draw c       => ofPath c
  | .path c       => ofPath c

end Products

section Reading

open Picture

variable {w limit : Nat} {r : Range}

theorem follows_atClause (hl : w ≤ limit) : Follows w (fun _ => True) (atClause limit) Picture.readAt := by
  refine (follows_keyword hl _).attempt.bind fun o _ => ?_
  cases o
  case none => exact .pure trivial
  case some =>
    refine (follows_reference hl).attempt.bind fun r hr => ?_
    cases r
    case none   => exact .pure trivial
    case some r => exact .lift (hr r rfl).right trivial

theorem follows_nodeName (hl : w ≤ limit) : Follows w (fun _ => True) (nodeName limit) Picture.readName :=
  (follows_reference hl).attempt.bind fun _ _ => .pure trivial

theorem follows_label (hl : w ≤ limit) : Follows w (fun _ => True) (label limit) Picture.readLabel :=
  (follows_group hl (by decide) (by decide)).mono fun _ _ => trivial

theorem follows_node (hl : w ≤ limit) (hr : r.start ≤ r.stop) :
    Follows w (fun n => AllSound limit (ofStatement (.node n))) (node limit r) (Node.read r) := by
  refine (follows_command hl _).bind fun _ _ => ?_
  refine (follows_options hl).attempt.bind fun o ho => ?_
  refine (follows_nodeName hl).bind fun _ _ => ?_
  refine (follows_atClause hl).bind fun _ _ => ?_
  refine (follows_label hl).attempt.bind fun _ _ => .pure ?_
  simp [ofStatement, allSound_ofOptions ho, sound_range hr]

theorem follows_namedCoordinate (hl : w ≤ limit) (hr : r.start ≤ r.stop) :
    Follows w (fun c => AllSound limit (ofStatement (.coordinate c))) (namedCoordinate limit r)
      (NamedCoordinate.read r) := by
  refine (follows_command hl _).bind fun _ _ => ?_
  refine (follows_options hl).attempt.bind fun o ho => ?_
  refine (follows_nodeName hl).bind fun _ _ => ?_
  refine (follows_atClause hl).bind fun _ _ => .pure ?_
  simp [ofStatement, allSound_ofOptions ho, sound_range hr]

theorem follows_edgeNode (hl : w ≤ limit) :
    Follows w (fun n => AllSound limit (ofOptions n.options)) (edgeNode limit) EdgeNode.read := by
  refine (follows_keyword hl _).bind fun _ _ => ?_
  refine (follows_options hl).attempt.bind fun o ho => ?_
  exact (follows_label hl).attempt.bind fun _ _ => .pure (allSound_ofOptions ho)

-- Behind the word `to`, and behind the word `and`, no points can stand.
theorem literal_points_eq_none {word t : Text} (hw : word.head? ≠ some '.') (hn : word ≠ [])
    (h : Token.keyword word t ≠ none) : Token.literal "..".toList t = none := by
  obtain ⟨c, word, rfl⟩ := List.exists_cons_of_ne_nil hn
  refine Token.literal_eq_none (Token.starts_of_keyword rfl h) (c := '.') rfl ?_
  simpa [eq_comm] using hw

theorem follows_line (hl : w ≤ limit) :
    Follows w (fun s => AllSound limit (ofSegment s)) (line limit) do
      let options ← optional OptionList.read
      let node ← optional EdgeNode.read
      return .line options node (← Reference.read) := by
  refine (follows_options hl).attempt.bind fun o ho => ?_
  refine (follows_edgeNode hl).attempt.bind fun n hn => ?_
  refine (follows_reference hl).bind fun r hr => .pure ?_
  have node : AllSound limit (ofOptions (n.bind EdgeNode.options)) := by
    cases n
    case none   => exact allSound_nil
    case some n => exact hn n rfl
  simp [ofSegment, allSound_ofOptions ho, node, hr]

theorem follows_curveTo (hl : w ≤ limit) {control₁ : Reference} {control₂ : Option Reference}
    (h₁ : (Product.reference control₁).Sound limit) (h₂ : ∀ r ∈ control₂, (Product.reference r).Sound limit) :
    Follows w (fun s => AllSound limit (ofSegment s)) (curveTo limit control₁ control₂) do
      Token.literal "..".toList
      return .curve control₁ control₂ (← Reference.read) := by
  refine (follows_literal hl _).bind fun _ _ => ?_
  refine (follows_reference hl).bind fun r hr => .pure ?_
  have second : AllSound limit (control₂.toList.map .reference) := by
    cases control₂
    case none   => exact allSound_nil
    case some r => exact allSound_cons.mpr ⟨h₂ r rfl, allSound_nil⟩
  simp [ofSegment, h₁, second, hr]

theorem follows_curve (hl : w ≤ limit) :
    Follows w (fun s => AllSound limit (ofSegment s)) (curve limit) do
      Token.keyword "controls".toList
      let control₁ ← Reference.read
      let control₂ ← optional do Token.keyword "and".toList; Reference.read
      Token.literal "..".toList
      return .curve control₁ control₂ (← Reference.read) := by
  refine (follows_keyword hl _).bind fun _ _ => ?_
  refine (follows_reference hl).bind fun r₁ h₁ => ?_
  rw [Reader.optional_bind_eq_of_decides fun t ht =>
    Reader.bind_of_none (literal_points_eq_none (by decide) (by decide) ht) _]
  refine (follows_keyword hl _).attempt.bind fun o _ => ?_
  cases o
  case none => exact follows_curveTo hl h₁ nofun
  case some =>
    refine (follows_reference hl).bind fun r₂ h₂ => ?_
    exact follows_curveTo hl h₁ fun r hr => Option.some.inj hr ▸ h₂

theorem follows_step (hl : w ≤ limit) :
    Follows w (fun s => AllSound limit (ofSegment s)) (step limit) Segment.read := by
  rw [Segment.read, Segment.readLine, Segment.readCurve, Reader.orElse_eq_of_decides fun t ht =>
    Reader.bind_of_none (literal_points_eq_none (by decide) (by decide) ht) _]
  refine (follows_keyword hl _).attempt.bind fun o _ => ?_
  cases o
  case none => exact (follows_literal hl _).bind fun _ _ => follows_curve hl
  case some => exact follows_line hl

theorem narrows_edgeNode : Reader.Narrows EdgeNode.read := by
  refine (Token.narrows_keyword _).bind fun _ => ?_
  refine OptionList.narrows_read.optional.bind fun _ => ?_
  exact (Token.narrows_group _ _).optional.bind fun _ => .pure _

theorem shortens_step : Reader.Shortens Segment.read := by
  have ends (g : Reference → Segment) : Reader.Shortens (Reference.read >>= fun r => pure (g r)) :=
    Reference.shortens_read.bind fun _ => .pure _
  refine .orElse ?_ ?_
  case refine_1 =>
    refine .after (Token.narrows_keyword _) fun _ => ?_
    refine .after OptionList.narrows_read.optional fun _ => ?_
    exact .after narrows_edgeNode.optional fun _ => ends _
  case refine_2 =>
    refine .after (Token.narrows_literal _) fun _ => ?_
    refine .after (Token.narrows_keyword _) fun _ => ?_
    refine .after Reference.narrows_read fun _ => ?_
    refine .after ((Token.narrows_keyword _).bind fun _ => Reference.narrows_read).optional fun _ => ?_
    exact .after (Token.narrows_literal _) fun _ => ends _

theorem follows_path (hl : w ≤ limit) (hr : r.start ≤ r.stop) (name : Text) :
    Follows w (fun c => AllSound limit (ofPath c)) (path limit name r) (Chain.read name r) := by
  refine (follows_command hl _).bind fun _ _ => ?_
  refine (follows_options hl).attempt.bind fun o ho => ?_
  refine (follows_reference hl).bind fun s hs => ?_
  refine ((follows_step hl).many shortens_step).bind fun _ hss => .pure ?_
  simpa [ofPath, allSound_ofOptions ho, hs, sound_range hr] using hss

theorem follows_statement (hl : w ≤ limit) (hr : r.start ≤ r.stop) :
    Follows w (fun s => AllSound limit (ofStatement s)) (statement limit r) (Statement.read r) := by
  refine ((follows_node hl hr).map (g := Picture.Statement.node) fun _ h => h).orElse ?_
  refine ((follows_namedCoordinate hl hr).map (g := Picture.Statement.coordinate) fun _ h => h).orElse ?_
  refine ((follows_path hl hr _).map (g := Picture.Statement.draw) fun _ h => h).orElse ?_
  exact (follows_path hl hr _).map (g := Picture.Statement.path) fun _ h => h

end Reading

section Statements

variable {limit base : Nat} {t : Text} {s : Slice}

theorem rangeOf_eq (h : base + s.range.stop ≤ limit) : rangeOf limit base s = .ok (s.range.shift base) := by
  have room : base + (s.start + width s.text) ≤ limit := h
  rw [rangeOf, sum_of_le (by omega), ok_bind, sum_of_le (by omega), ok_bind, sum_of_le (by omega)]
  rfl

theorem statements_eq (hl : base + width t ≤ limit) :
    statements limit base t = .ok (Picture.statementsOf base t) ∧
    ∀ x ∈ Picture.statementsOf base t, AllSound limit (ofStatement x) := by
  have each : ∀ s ∈ Statement.split t, (do
      scanned (statement limit (← rangeOf limit base s)) s.text) = .ok
        (((Picture.Statement.read (s.range.shift base)).run s.text).map Prod.fst) ∧
      ∀ x ∈ ((Picture.Statement.read (s.range.shift base)).run s.text).map Prod.fst,
        AllSound limit (ofStatement x) := by
    intro s hs
    have inside := stop_le_of_mem_split hs
    rw [rangeOf_eq (by omega), ok_bind]
    simp only [Slice.range] at inside
    exact scanned_eq (follows_statement (by omega) (by simp [Slice.range, Range.shift]))
  rw [statements, split_eq (by omega), ok_bind]
  exact filterMapM_sound each

end Statements

section Layers

open Picture

variable {limit : Nat} {t name rest : Text}

theorem layerBegin?_of_none (lead : Text) (h : nextLayer? t = none) :
    layerBegin? (lead ++ t) (width lead) = .ok none := by
  rw [layerBegin?, restAt_append, ok_bind, h]
  rfl

theorem layerBegin?_of_some (lead : Text) (h : nextLayer? t = some (name, rest)) :
    ∃ front, front ++ rest = t ∧ front ≠ [] ∧
    layerBegin? (lead ++ t) (width lead) = .ok (some (name, width (lead ++ front))) := by
  obtain ⟨front, ht, -⟩ := exists_append_of_nextLayer? h
  have shorter := length_lt_of_nextLayer? h
  obtain ⟨front, rfl⟩ : ∃ opened, opened ++ rest = t := ⟨_, ht⟩
  refine ⟨front, rfl, fun hn => by simp [hn] at shorter, ?_⟩
  rw [layerBegin?, restAt_append, ok_bind, h, ← List.append_assoc, ← width_append_sub (lead ++ front) rest]
  rfl

theorem layerEnd?_of_none (lead : Text) (h : cut? layerClosing t = none) :
    layerEnd? (lead ++ t) (width lead) = .ok none := by
  rw [layerEnd?, restAt_append, ok_bind, h]
  rfl

theorem layerEnd?_of_some {inner : Text} (lead : Text) (h : cut? layerClosing t = some (inner, rest)) :
    ∃ gap, trimEnd inner ++ gap ++ rest = t ∧ layerEnd? (lead ++ t) (width lead) =
      .ok (some (width lead + width (trimEnd inner), width (lead ++ (trimEnd inner ++ gap)))) := by
  obtain ⟨blanks, hb⟩ := trimEnd_prefix inner
  obtain rfl := append_of_cut? h
  have parts : trimEnd inner ++ (blanks ++ layerClosing) = inner ++ layerClosing := by
    rw [← List.append_assoc, hb]
  refine ⟨blanks ++ layerClosing, by rw [parts], ?_⟩
  rw [layerEnd?, restAt_append, ok_bind, h, parts, ← List.append_assoc, ← width_append_sub (lead ++ _) rest]
  rfl

theorem layersFrom_eq {lead : Text} (hl : width (lead ++ t) ≤ limit) :
    layersFrom limit (lead ++ t) (width lead) = .ok (layersOf (width (lead ++ t)) t) ∧
      ∀ l ∈ layersOf (width (lead ++ t)) t, ∀ x ∈ l.statements, AllSound limit (ofStatement x) := by
  generalize hw : width (lead ++ t) = w at hl
  fun_induction layersOf w t generalizing lead
  case case1 t hn =>
    rw [layersFrom, layerBegin?_of_none lead hn]
    exact ⟨rfl, nofun⟩
  case case2 t name t' hn hc =>
    obtain ⟨front, rfl, -, opens⟩ := layerBegin?_of_some lead hn
    rw [layersFrom, opens, ← List.append_assoc]
    simp only [ok_bind, layerEnd?_of_none _ hc]
    exact ⟨rfl, nofun⟩
  case case3 t name t' hn inner rest hc raw ih =>
    obtain ⟨front, rfl, hne, opens⟩ := layerBegin?_of_some lead hn
    obtain ⟨gap, ht, closes⟩ := layerEnd?_of_some (lead ++ front) hc
    rw [show trimEnd inner = raw from rfl] at ht closes
    clear_value raw
    have inside : lead ++ (front ++ t') = lead ++ front ++ t' := by simp
    have around : lead ++ (front ++ t') = lead ++ front ++ raw ++ (gap ++ rest) := by simp [← ht]
    have behind : lead ++ (front ++ t') = lead ++ front ++ (raw ++ gap) ++ rest := by simp [around]
    have cut := slice_append (lead ++ front) raw (gap ++ rest)
    have start : w - width t' = width (lead ++ front) := by
      rw [← hw, inside, width_append_sub]
    have room : width (lead ++ front) + width raw ≤ limit := by
      rw [around, width_append, width_append] at hw
      omega
    have ahead : width lead < width (lead ++ front ++ (raw ++ gap)) := by
      have := mt width_eq_zero_iff.mp hne
      simp only [width_append]
      omega
    have reached : width (lead ++ front ++ (raw ++ gap)) ≤ width (lead ++ (front ++ t')) := by
      rw [behind, width_append _ rest]
      omega
    obtain ⟨read, sound⟩ := statements_eq room
    obtain ⟨later, sound'⟩ := ih (behind ▸ hw)
    rw [← inside] at closes
    rw [← around] at cut
    rw [← behind] at later
    rw [layersFrom, opens, start]
    simp only [ok_bind, closes, cut, read, advance_of_lt ahead reached, later]
    exact ⟨rfl, List.forall_mem_cons.mpr ⟨sound, sound'⟩⟩

end Layers

-- What a picture is made of.
def ofPicture (p : Picture) : List Product :=
  p.allStatements.flatMap ofStatement

def picture (limit : Nat) (body : Text) (options : Option Text) : Checked Picture := do
  let layers ← layersFrom limit body 0
  let statements ← if layers = [] then statements limit 0 body else pure []
  return ⟨options, layers, statements⟩

theorem picture_eq {limit : Nat} {body : Text} (hl : width body ≤ limit) (options : Option Text) :
    picture limit body options = .ok (Picture.parse body options) ∧
      AllSound limit (ofPicture (Picture.parse body options)) := by
  have whole : width ([] ++ body) ≤ limit := hl
  have alone : 0 + width body ≤ limit := by rwa [Nat.zero_add]
  obtain ⟨layers, sound⟩ := layersFrom_eq whole
  obtain ⟨statements, sound'⟩ := statements_eq alone
  simp only [List.nil_append, width_nil] at layers sound
  rw [picture, layers, Picture.parse, ok_bind]
  cases hn : Picture.layersOf (width body) body
  case nil =>
    rw [if_pos rfl, statements]
    exact ⟨rfl, allSound_flatMap.mpr sound'⟩
  case cons l ls =>
    rw [if_neg (List.cons_ne_nil _ _)]
    rw [hn] at sound
    refine ⟨rfl, allSound_flatMap.mpr fun x hx => ?_⟩
    have hx : x ∈ (l :: ls).flatMap Picture.Layer.statements ++ [] := hx
    rw [List.append_nil] at hx
    obtain ⟨l, hl, hx⟩ := List.mem_flatMap.mp hx
    exact sound l hl x hx

end TikzPress.Bytewise
