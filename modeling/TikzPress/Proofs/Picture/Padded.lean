import TikzPress.Proofs.Picture.Offsets
import TikzPress.Proofs.Picture.Recovery
import TikzPress.Proofs.Reader.Related

/-!
Bodies with blanks around them. Blanks behind a text are left by all its readers, and those in front are passed
over with the first token, so that the slices of a body are read alike. Main statement: with blanks around it a
body has the same layers and statements, all of them moved (`unplaced_parse`).
-/

namespace TikzPress

open Text Token Reader

-- Blanks stand behind the first text.
def Behind (g : Gap) (t u : Text) : Prop :=
  u = t ++ g.text

namespace Behind

variable {g : Gap} {α : Type}

theorem related {p : Reader α} (h : ∀ t, p (t ++ g.text) = (p t).map fun x => (x.1, x.2 ++ g.text)) :
    Related (Behind g) Eq p p := by
  rintro t _ rfl
  rw [h]
  cases p t
  case none => exact .none
  case some => exact .some ⟨rfl, rfl⟩

section Tokens

-- Free of blanks.
def Inked (t : Text) : Prop :=
  ∀ c ∈ t, isBlank c = false

instance (t : Text) : Decidable (Inked t) :=
  decidable_of_iff (t.all (isBlank · = false)) (by simp [Inked])

theorem not_mem_gap (g : Gap) {c : Char} (hc : isBlank c = false) : c ∉ g.text := fun hm => by
  have := List.all_eq_true.mp g.blank c hm
  simp [hc] at this

-- If only blanks are left, there is nothing behind them.
theorem append_trimStart {p : Text → Option (α × Text)} (hn : p [] = none)
    (h : ∀ t, p (t ++ g.text) = (p t).map fun x => (x.1, x.2 ++ g.text)) (t : Text) :
    p (trimStart (t ++ g.text)) = (p (trimStart t)).map fun x => (x.1, x.2 ++ g.text) := by
  have blank : g.text.dropWhile isBlank = [] := List.dropWhile_eq_nil_iff.mpr (List.all_eq_true.mp g.blank)
  rw [trimStart, List.dropWhile_append, blank]
  split
  case isTrue he  => rw [trimStart, List.isEmpty_iff.mp he, hn]; rfl
  case isFalse he => exact h _

theorem dropLiteral?_append_gap {l : Text} (hl : Inked l) (t : Text) :
    dropLiteral? l (t ++ g.text) = (dropLiteral? l t).map (· ++ g.text) := by
  induction l generalizing t
  case nil => simp [dropLiteral?]
  case cons c l hi =>
    cases t
    case cons x t =>
      simp only [List.cons_append, dropLiteral?]
      split
      case isTrue  => exact hi (fun c hc => hl c (.tail _ hc)) t
      case isFalse => rfl
    case nil =>
      refine dropLiteral?_eq_none (c := c) rfl fun hc => ?_
      exact not_mem_gap g (hl c (.head _)) (List.mem_of_head? hc)

theorem wordHere?_append_gap {w : Text} (hw : Inked w) (t : Text) :
    wordHere? w (t ++ g.text) = (wordHere? w t).map (· ++ g.text) := by
  simp only [wordHere?, dropLiteral?_append_gap hw]
  cases dropLiteral? w t
  case none => rfl
  case some u =>
    cases u
    case cons c u =>
      simp only [Option.map_some, List.cons_append]
      split <;> rfl
    case nil =>
      have blank := g.blank
      simp only [Option.map_some, List.nil_append]
      cases hg : g.text
      case nil => rfl
      case cons c u =>
        rw [hg] at blank
        simp [isWordChar_of_isBlank (List.all_eq_true.mp blank c (.head _))]

theorem related_literal {l : Text} (hn : l ≠ []) (hl : Inked l) : Related (Behind g) Eq (literal l) (literal l) := by
  obtain ⟨c, l, rfl⟩ := List.exists_cons_of_ne_nil hn
  refine related (append_trimStart (p := fun t => (dropLiteral? (c :: l) t).map ((), ·)) rfl fun t => ?_)
  simp [dropLiteral?_append_gap hl, Function.comp_def]

theorem related_keyword {w : Text} (hn : w ≠ []) (hw : Inked w) : Related (Behind g) Eq (keyword w) (keyword w) := by
  obtain ⟨c, w, rfl⟩ := List.exists_cons_of_ne_nil hn
  refine related (append_trimStart (p := fun t => (wordHere? (c :: w) t).map ((), ·)) rfl fun t => ?_)
  simp [wordHere?_append_gap hw, Function.comp_def]

theorem related_command {name : Text} (hn : Inked name) : Related (Behind g) Eq (command name) (command name) := by
  refine (related_literal (by decide) (by decide)).bind_same fun _ => related fun t => ?_
  simp [wordHere?_append_gap hn, Function.comp_def]

theorem close?_append_gap {o c : Char} (hc : isBlank c = false) (d : Nat) (t : Text) :
    Bracket.close? o c d (t ++ g.text) = (Bracket.close? o c d t).map fun x => (x.1, x.2 ++ g.text) := by
  induction t generalizing d
  case cons x t hi =>
    simp only [List.cons_append, Bracket.close?, hi]
    repeat' split
    all_goals simp [Function.comp_def]
  case nil =>
    refine Option.eq_none_iff_forall_ne_some.mpr fun parts h => not_mem_gap g hc ?_
    obtain ⟨inner, hs⟩ := Bracket.close?_eq_append h
    rw [← List.nil_append g.text, ← Bracket.append_of_close? h, hs]
    simp

theorem related_group {o c : Char} (ho : isBlank o = false) (hc : isBlank c = false) :
    Related (Behind g) Eq (group o c) (group o c) := by
  refine related (append_trimStart (p := Bracket.take? o c) rfl fun t => ?_)
  cases t
  case cons x t =>
    simp only [List.cons_append, Bracket.take?]
    split
    case isTrue  => simp [close?_append_gap hc, Function.comp_def]
    case isFalse => rfl
  case nil =>
    cases hg : g.text
    case nil => rfl
    case cons x u =>
      have hx : x ≠ o := by
        rintro rfl
        exact not_mem_gap g ho (hg ▸ .head _)
      exact if_neg hx

end Tokens

section Readers

theorem related_options : Related (Behind g) Eq OptionList.read OptionList.read :=
  (related_group (by decide) (by decide)).map_same _

theorem related_reference : Related (Behind g) Eq Reference.read Reference.read :=
  (related_group (by decide) (by decide)).map_same _

theorem related_label : Related (Behind g) Eq Picture.readLabel Picture.readLabel :=
  related_group (by decide) (by decide)

theorem related_name : Related (Behind g) Eq Picture.readName Picture.readName :=
  related_reference.optional_same.bind_same fun _ => .pure rfl

theorem related_at : Related (Behind g) Eq Picture.readAt Picture.readAt := by
  refine (related_keyword (by decide) (by decide)).optional_same.bind_same fun word => ?_
  cases word
  case none => exact .pure rfl
  case some => exact related_reference.optional_same.bind_same fun _ => .pure rfl

theorem related_node (r : Range) : Related (Behind g) Eq (Picture.Node.read r) (Picture.Node.read r) := by
  refine (related_command (by decide)).bind_same fun _ => ?_
  refine related_options.optional_same.bind_same fun _ => ?_
  refine related_name.bind_same fun _ => ?_
  refine related_at.bind_same fun _ => ?_
  exact related_label.optional_same.bind_same fun _ => .pure rfl

theorem related_coordinate (r : Range) :
    Related (Behind g) Eq (Picture.NamedCoordinate.read r) (Picture.NamedCoordinate.read r) := by
  refine (related_command (by decide)).bind_same fun _ => ?_
  refine related_options.optional_same.bind_same fun _ => ?_
  refine related_name.bind_same fun _ => ?_
  exact related_at.bind_same fun _ => .pure rfl

theorem related_edgeNode : Related (Behind g) Eq Picture.EdgeNode.read Picture.EdgeNode.read := by
  refine (related_keyword (by decide) (by decide)).bind_same fun _ => ?_
  refine related_options.optional_same.bind_same fun _ => ?_
  exact related_label.optional_same.bind_same fun _ => .pure rfl

theorem related_line : Related (Behind g) Eq Picture.Segment.readLine Picture.Segment.readLine := by
  refine (related_keyword (by decide) (by decide)).bind_same fun _ => ?_
  refine related_options.optional_same.bind_same fun _ => ?_
  refine related_edgeNode.optional_same.bind_same fun _ => ?_
  exact related_reference.bind_same fun _ => .pure rfl

theorem related_curve : Related (Behind g) Eq Picture.Segment.readCurve Picture.Segment.readCurve := by
  have points : Related (Behind g) Eq (literal "..".toList) (literal "..".toList) :=
    related_literal (by decide) (by decide)
  refine points.bind_same fun _ => (related_keyword (by decide) (by decide)).bind_same fun _ => ?_
  refine related_reference.bind_same fun _ => ?_
  refine ((related_keyword (by decide) (by decide)).bind_same fun _ => related_reference).optional_same.bind_same
    fun _ => ?_
  exact points.bind_same fun _ => related_reference.bind_same fun _ => .pure rfl

theorem related_chain {name : Text} (hn : Inked name) (r : Range) :
    Related (Behind g) Eq (Picture.Chain.read name r) (Picture.Chain.read name r) := by
  have step : Related (Behind g) Eq Picture.Segment.read Picture.Segment.read := related_line.orElse related_curve
  have steps := step.many fun t u hu x _ y _ hxy => by
    rw [show u = t ++ g.text from hu, show y.2 = x.2 ++ g.text from hxy]
    simp
  refine (related_command hn).bind_same fun _ => ?_
  refine related_options.optional_same.bind_same fun _ => ?_
  refine related_reference.bind_same fun _ => ?_
  exact steps.bind fun _ _ he => .pure (by rw [List.forall₂_eq_eq_eq] at he; rw [he])

theorem related_statement (r : Range) :
    Related (Behind g) Eq (Picture.Statement.read r) (Picture.Statement.read r) := by
  refine ((related_node r).map_same _).orElse (((related_coordinate r).map_same _).orElse ?_)
  exact ((related_chain (by decide) r).map_same _).orElse ((related_chain (by decide) r).map_same _)

end Readers

end Behind

namespace Picture

open TikzPress.Statement

-- What is read of a slice, wherever it stands.
def content? (t : Text) : Option Statement :=
  (Statement.read default t).map Prod.fst

-- Blanks in front are passed over with the first token.
theorem read_gap_append (g : Gap) (t : Text) : Statement.read default (g.text ++ t) = Statement.read default t := by
  have word (name : Text) : command name (g.text ++ t) = command name t := by
    simp only [command, bind, StateT.bind, literal, trimStart_gap]
  have chain (name : Text) : Chain.read name default (g.text ++ t) = Chain.read name default t := by
    simp only [Chain.read, bind, StateT.bind, word]
  have node : Node.read default (g.text ++ t) = Node.read default t := by
    simp only [Node.read, bind, StateT.bind, word]
  have coordinate : NamedCoordinate.read default (g.text ++ t) = NamedCoordinate.read default t := by
    simp only [NamedCoordinate.read, bind, StateT.bind, word]
  simp only [Statement.read, orElse_apply, map_apply, node, coordinate, chain]

theorem content?_gap_append (g : Gap) (t : Text) : content? (g.text ++ t) = content? t := by
  rw [content?, read_gap_append]
  rfl

theorem content?_append_gap (g : Gap) (t : Text) : content? (t ++ g.text) = content? t := by
  have := Behind.related_statement (g := g) default t _ rfl
  unfold content?
  generalize Statement.read default t = x, Statement.read default (t ++ g.text) = y at this
  cases this
  case none   => rfl
  case some h => exact congrArg some h.left.symm

-- The statements of a text without their places.
def contents (t : Text) : List Statement :=
  (split t).filterMap fun s => content? s.text

theorem contents_of_some {t s r : Text} (h : take? 0 t = some (s, r)) :
    contents t = (content? s).toList ++ contents r := by
  have moved := splitFrom_add 0 (0 + width s) r
  rw [Nat.zero_add] at moved
  rw [contents, split, splitFrom_of_some h, moved, List.filterMap_cons, List.filterMap_map]
  cases content? s <;> rfl

theorem contents_of_none {t : Text} (h : take? 0 t = none) :
    contents t = if isBlankOnly t then [] else (content? t).toList := by
  rw [contents, split, splitFrom_of_none h]
  split
  case isTrue  => rfl
  case isFalse => cases hc : content? t <;> simp [hc]

theorem isBlankOnly_append (t u : Text) : isBlankOnly (t ++ u) = (isBlankOnly t && isBlankOnly u) :=
  List.all_append

theorem contents_gap_append (g : Gap) (t : Text) : contents (g.text ++ t) = contents t := by
  have passed := (plain_of_isBlankOnly g.blank).passed t
  cases h : take? 0 t
  case some x =>
    rw [h] at passed
    rw [contents_of_some h, contents_of_some passed, content?_gap_append]
  case none =>
    rw [h] at passed
    rw [contents_of_none h, contents_of_none passed, content?_gap_append, isBlankOnly_append, g.blank, Bool.true_and]

theorem take?_of_not_mem {t : Text} (h : ';' ∉ t) (d : Nat) : take? d t = none := by
  induction t generalizing d
  case nil => rfl
  case cons c t hi =>
    have hc : ¬(c = ';' ∧ d = 0) := fun hc => h (hc.left ▸ .head _)
    rw [take?_cons hc, hi fun hm => h (.tail _ hm)]
    rfl

theorem take?_append_gap (g : Gap) (d : Nat) (t : Text) :
    take? d (t ++ g.text) = (take? d t).map fun x => (x.1, x.2 ++ g.text) := by
  induction t generalizing d
  case nil => exact take?_of_not_mem (Behind.not_mem_gap g (by decide)) d
  case cons c t hi =>
    by_cases hc : c = ';' ∧ d = 0
    case pos => simp [take?, hc]
    case neg =>
      rw [List.cons_append, take?_cons hc, take?_cons hc, hi]
      simp [Function.comp_def]

theorem contents_append_gap (g : Gap) (t : Text) : contents (t ++ g.text) = contents t := by
  have start : Nat := 0
  induction start, t using splitFrom.induct
  case case1 t s r h hi =>
    have long : take? 0 (t ++ g.text) = some (s, r ++ g.text) := by rw [take?_append_gap, h]; rfl
    rw [contents_of_some h, contents_of_some long, hi]
  case case2 t h hb =>
    have long : take? 0 (t ++ g.text) = none := by rw [take?_append_gap, h]; rfl
    rw [contents_of_none h, contents_of_none long, isBlankOnly_append, g.blank, hb]
    rfl
  case case3 t h hb =>
    have long : take? 0 (t ++ g.text) = none := by rw [take?_append_gap, h]; rfl
    rw [contents_of_none h, contents_of_none long, isBlankOnly_append, g.blank, content?_append_gap, Bool.and_true]

section Layers

theorem cutAtChar?_append_gap (g : Gap) {c : Char} (hc : isBlank c = false) (t : Text) :
    cutAtChar? c (t ++ g.text) = (cutAtChar? c t).map fun x => (x.1, x.2 ++ g.text) := by
  induction t
  case nil =>
    refine Option.eq_none_iff_forall_ne_some.mpr fun ⟨lead, rest⟩ h => Behind.not_mem_gap g hc ?_
    rw [← List.nil_append g.text, ← append_of_cutAtChar? h]
    simp
  case cons x t hi =>
    rw [List.cons_append, cutAtChar?_cons, cutAtChar?_cons, hi]
    split
    case isTrue  => rfl
    case isFalse => simp [Function.comp_def]

theorem layerHere?_eq (t : Text) : layerHere? t =
    ((dropLiteral? "\\begin\x7bpgfonlayer\x7d\x7b".toList t).bind (cutAtChar? '\x7d')).filter (·.1 ≠ []) := by
  unfold layerHere? cutAtChar?
  cases dropLiteral? "\\begin\x7bpgfonlayer\x7d\x7b".toList t
  case none => rfl
  case some u =>
    simp only [Option.bind_some]
    generalize u.dropWhile (· ≠ '\x7d') = rest, u.takeWhile (· ≠ '\x7d') = name
    cases rest
    case nil  => rfl
    case cons => by_cases hn : name = [] <;> simp [Option.filter, hn]

theorem layerHere?_append_gap (g : Gap) (t : Text) :
    layerHere? (t ++ g.text) = (layerHere? t).map fun x => (x.1, x.2 ++ g.text) := by
  have inked : Behind.Inked "\\begin\x7bpgfonlayer\x7d\x7b".toList := by decide
  rw [layerHere?_eq, layerHere?_eq, Behind.dropLiteral?_append_gap inked]
  cases dropLiteral? "\\begin\x7bpgfonlayer\x7d\x7b".toList t
  case none => rfl
  case some u =>
    simp only [Option.map_some, Option.bind_some, cutAtChar?_append_gap g (c := '\x7d') (by decide)]
    cases cutAtChar? '\x7d' u
    case none => rfl
    case some x => cases h : x.1 <;> simp [Option.filter, h]

theorem nextLayer?_append_gap (g : Gap) (t : Text) :
    nextLayer? (t ++ g.text) = (nextLayer? t).map fun x => (x.1, x.2 ++ g.text) := by
  induction t
  case nil => exact (clear_of_not_mem (Behind.not_mem_gap g (by decide))).nextLayer?_eq_none
  case cons c t hi =>
    rw [List.cons_append, nextLayer?, nextLayer?, hi, ← List.cons_append, layerHere?_append_gap]
    cases layerHere? (c :: t) <;> rfl

theorem cut?_append_gap (g : Gap) {c : Char} {l : Text} (hl : Behind.Inked (c :: l)) (t : Text) :
    cut? (c :: l) (t ++ g.text) = (cut? (c :: l) t).map fun x => (x.1, x.2 ++ g.text) := by
  induction t
  case nil =>
    refine Option.eq_none_iff_forall_ne_some.mpr fun ⟨lead, rest⟩ h => ?_
    refine Behind.not_mem_gap g (hl c (.head _)) ?_
    rw [← List.nil_append g.text, ← append_of_cut? h]
    simp
  case cons x t hi =>
    rw [List.cons_append, cut?, cut?, hi, ← List.cons_append, Behind.dropLiteral?_append_gap hl]
    cases dropLiteral? (c :: l) (x :: t)
    case some => rfl
    case none => simp [Function.comp_def]

end Layers

-- The same statement without its place.
def Statement.unplaced (s : Statement) : Statement :=
  s.within default

def Layer.unplaced (l : Layer) : Layer :=
  { l with statements := l.statements.map Statement.unplaced }

def unplaced (p : Picture) : Picture :=
  { p with layers := p.layers.map Layer.unplaced, statements := p.statements.map Statement.unplaced }

theorem map_unplaced_statementsOf (start : Nat) (t : Text) :
    (statementsOf start t).map Statement.unplaced = (contents t).map Statement.unplaced := by
  rw [statementsOf, contents, List.map_filterMap, List.map_filterMap]
  congr 1
  funext s
  rw [Statement.read_eq, StateT.run, map_apply, content?]
  simp only [Option.map_map]
  congr 1
  funext x
  exact Statement.within_within _ _ x.1

theorem layersOf_gap_append (g : Gap) (stop : Nat) (t : Text) : layersOf stop (g.text ++ t) = layersOf stop t := by
  have clear : nextLayer? (g.text ++ t) = nextLayer? t :=
    clear_of_not_mem (Behind.not_mem_gap g (by decide)) t
  cases hl : nextLayer? t
  case none => rw [layersOf_of_nextLayer?_eq_none hl, layersOf_of_nextLayer?_eq_none (clear.trans hl)]
  case some x =>
    obtain ⟨name, u⟩ := x
    cases hc : cut? layerClosing u
    case none => rw [layersOf_of_cut?_eq_none hl hc, layersOf_of_cut?_eq_none (clear.trans hl) hc]
    case some => rw [layersOf_of_cut? hl hc, layersOf_of_cut? (clear.trans hl) hc]

theorem layersOf_append_gap (g : Gap) (stop stop' : Nat) (t : Text) :
    (layersOf stop (t ++ g.text)).map Layer.unplaced = (layersOf stop' t).map Layer.unplaced := by
  have closing (u : Text) : cut? layerClosing (u ++ g.text) =
      (cut? layerClosing u).map fun x => (x.1, x.2 ++ g.text) :=
    cut?_append_gap g (by decide) u
  fun_induction layersOf stop' t
  case case1 t hl =>
    have long : nextLayer? (t ++ g.text) = none := by rw [nextLayer?_append_gap, hl]; rfl
    rw [layersOf_of_nextLayer?_eq_none long]
  case case2 t name u hl hc =>
    have long : nextLayer? (t ++ g.text) = some (name, u ++ g.text) := by rw [nextLayer?_append_gap, hl]; rfl
    have closes : cut? layerClosing (u ++ g.text) = none := by rw [closing, hc]; rfl
    rw [layersOf_of_cut?_eq_none long closes]
  case case3 t name u hl inner rest hc raw hi =>
    have long : nextLayer? (t ++ g.text) = some (name, u ++ g.text) := by rw [nextLayer?_append_gap, hl]; rfl
    have closes : cut? layerClosing (u ++ g.text) = some (inner, rest ++ g.text) := by rw [closing, hc]; rfl
    rw [layersOf_of_cut? long closes, List.map_cons, List.map_cons, hi]
    simp only [Layer.unplaced, map_unplaced_statementsOf, raw]

-- With blanks around it a body has the same layers and the same statements in other places.
theorem unplaced_parse (g g' : Gap) (t : Text) (options : Option Text) :
    (parse (g.text ++ t ++ g'.text) options).unplaced = (parse t options).unplaced := by
  have layers := layersOf_append_gap g' (width (g.text ++ t ++ g'.text)) (width t) (g.text ++ t)
  rw [layersOf_gap_append] at layers
  have statements : (statementsOf 0 (g.text ++ t ++ g'.text)).map Statement.unplaced =
      (statementsOf 0 t).map Statement.unplaced := by
    simp only [map_unplaced_statementsOf, contents_append_gap, contents_gap_append]
  unfold parse
  generalize layersOf _ (g.text ++ t ++ g'.text) = ls, layersOf _ t = ls' at layers
  cases ls
  case nil =>
    obtain rfl := List.map_eq_nil_iff.mp layers.symm
    simp only [unplaced, List.map_nil, statements]
  case cons =>
    obtain ⟨l, ls', rfl⟩ := List.exists_cons_of_ne_nil (l := ls') (by rintro rfl; contradiction)
    simp only [unplaced, layers]

end Picture
end TikzPress
