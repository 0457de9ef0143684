import Mathlib.Data.List.Forall2
import TikzPress.Proofs.Circuit.Reading
import TikzPress.Proofs.Reference

/-!
Recovery of a circuit from its written chains. No statement ends in a chain but at its semicolon. Main statement:
the circuit of a body that consists of written chains has these chains and segments, in order and each with its
place in the body, and nothing else (`recovered_parse`).
-/

namespace TikzPress.Circuit.Written

open Text OptionList TikzPress.Statement

section Passing

variable {o c : Char}

theorem passed_gap (g : Gap) : Passed g.text :=
  (plain_of_isBlankOnly g.blank).passed

theorem passed_word {t : Text} (h : t.all (· ∉ ['\x7b', '\x7d', ';'])) : Passed t :=
  Plain.passed fun c hc => of_decide_eq_true (List.all_eq_true.mp h c hc)

theorem passed_written (p : Part o c) : Passed p.written :=
  (passed_gap p.gap).append p.braced.passed

theorem passed_given {f : α → Text} (hf : ∀ a, Passed (f a)) (a? : Option α) : Passed (given f a?) := by
  cases a?
  case none   => exact passed_gap .none
  case some a => exact hf a

theorem passed_flatMap {f : α → Text} (hf : ∀ a, Passed (f a)) (as : List α) : Passed (as.flatMap f) := by
  induction as
  case nil          => exact passed_gap .none
  case cons a as hi => exact (hf a).append hi

theorem passed_segment (s : Segment) : Passed s.text := by
  have link : Passed s.link.text := by
    cases s.link
    case wire      => exact passed_word (by decide)
    case component => exact (passed_word (t := "to".toList) (by decide)).append (passed_given passed_written _)
  have plus (g : Gap) : Passed (g.text ++ "++".toList) := (passed_gap g).append (passed_word (by decide))
  exact (passed_gap s.gap).append (link.append ((passed_given plus s.plus).append (passed_written s.target)))

theorem passed_front (c : Chain) : Passed c.front := by
  have command : Passed (c.gap.text ++ ['\\'] ++ "draw".toList) :=
    ((passed_gap c.gap).append (passed_word (by decide))).append (passed_word (by decide))
  exact command.append ((passed_given passed_written _).append (passed_written c.source))

-- No statement ends in a chain but at its semicolon.
theorem splitFrom_chain (c : Chain) (start : Nat) (rest : Text) :
    splitFrom start (c.text ++ rest) = ⟨c.text, start⟩ :: splitFrom (start + width c.text) rest := by
  have steps : Passed c.steps := passed_flatMap passed_segment c.segments
  exact (((passed_front c).append steps).append (passed_gap c.close)).splitFrom_append start rest

end Passing

theorem read_chain (c : Chain) (start : Nat) :
    ((Circuit.Chain.read ⟨start, start + width c.text⟩).run c.text).map Prod.fst = some (c.value start) := by
  have reads := reads_chain c start
  rw [Reads, ← List.append_assoc] at reads
  exact congrArg (Option.map Prod.fst) reads

theorem filterMap_splitFrom (cs : List Chain) (tail : Gap) (start : Nat) :
    ((splitFrom start (cs.flatMap Chain.text ++ tail.text)).filterMap fun s =>
      ((Circuit.Chain.read s.range).run s.text).map Prod.fst) = Chain.placed start cs := by
  induction cs generalizing start
  case nil =>
    rw [List.flatMap_nil, List.nil_append, splitFrom_blank tail.blank]
    rfl
  case cons c cs hi =>
    have read : ((Circuit.Chain.read (Slice.range ⟨c.text, start⟩)).run c.text).map Prod.fst =
      some (c.value start) := read_chain c start
    rw [List.flatMap_cons, List.append_assoc, splitFrom_chain]
    simp only [List.filterMap_cons, read, hi]
    rfl

-- A circuit of written chains, closed by blanks.
theorem parse_eq_placed (cs : List Chain) (tail : Gap) :
    parse (cs.flatMap Chain.text ++ tail.text) = ⟨Chain.placed 0 cs⟩ :=
  congrArg Circuit.mk (filterMap_splitFrom cs tail 0)

-- The name of a component is the first item that is not blank, without the blanks around it.
inductive Named : Option Options → Text → Prop
  | bare  : Named none "short".toList
  | item  : p.text = ['['] ++ t ++ [']'] → Pieces t (ps ++ q :: qs) → (∀ b ∈ ps, isBlankOnly b) →
      ¬isBlankOnly q → Named (some p) (trim q)
  | blank : p.text = ['['] ++ t ++ [']'] → Pieces t ps → (∀ b ∈ ps, isBlankOnly b) →
      Named (some p) "short".toList

inductive Link.Shown : Link → Circuit.Link → Prop
  | wire      : Shown wire .wire
  | component : Named options name →
      Shown (component options) (.component name (options.map Part.optionList))

-- A segment stands in a body from its `--` or `to` to the parenthesis that closes its target.
structure Segment.Shown (body : Text) (w : Segment) (s : Circuit.Segment) : Prop where
  link   : w.link.Shown s.link
  target : s.target.Shows w.target.text
  stands : slice? body s.range.start s.range.stop = some w.core
  opens  : w.link.word <+: w.core
  closes : w.target.text <:+ w.core ∧ w.target.text.getLast? = some ')'

-- The segments of a chain stand in the chain, one behind the other.
structure Chain.Shown (body : Text) (w : Chain) (c : Circuit.Chain) : Prop where
  options  : c.options = w.options.map Part.optionList
  source   : c.source.Shows w.source.text
  segments : List.Forall₂ (Segment.Shown body) w.segments c.segments
  stands   : slice? body c.range.start c.range.stop = some w.text
  inside   : ∀ s ∈ c.segments,
    c.range.start ≤ s.range.start ∧ s.range.start < s.range.stop ∧ s.range.stop ≤ c.range.stop
  ordered  : c.segments.Pairwise fun s s' => s.range.stop ≤ s'.range.start

section Names

theorem named_componentName (options : Option Options) :
    Named options (componentName (options.map Part.optionList)) := by
  cases options
  case none => exact .bare
  case some p =>
    have ⟨t, hp⟩ := p.group.exists_inner (by decide)
    have ⟨ps, hps⟩ := exists_pieces t
    have hi : p.optionList.inner = t := by rw [Part.optionList, hp, inner_mk]
    have items : (some p.optionList).map OptionList.items =
        some ((ps.filter (¬isBlankOnly ·)).map trim) := congrArg some (items_eq (hi ▸ hps))
    rw [Option.map_some, componentName, items]
    cases hf : ps.filter (¬isBlankOnly ·)
    case nil =>
      refine .blank hp hps fun i hi => ?_
      simpa using List.filter_eq_nil_iff.mp hf i hi
    case cons item others =>
      obtain ⟨before, after, rfl, blank, full, -⟩ := List.filter_eq_cons_iff.mp hf
      refine .item hp hps (fun i hi => ?_) (by simpa using full)
      simpa using blank i hi

end Names

section Places

variable {body lead rest : Text}

theorem slice?_of_eq {t : Text} (h : body = lead ++ t ++ rest) :
    slice? body (width lead) (width lead + width t) = some t :=
  h ▸ slice?_append lead t rest

theorem shown_segment (s : Segment) (lead rest : Text) (h : body = lead ++ s.text ++ rest) :
    s.Shown body (s.value (width lead)) where
  link   := by
    rw [Segment.value]
    cases s.link
    case wire      => exact .wire
    case component => exact .component (named_componentName _)
  target := Reference.shows_ofRaw s.target.group
  stands := by
    have core : body = lead ++ s.gap.text ++ s.core ++ rest := by simp only [h, Segment.text, List.append_assoc]
    have stands := slice?_of_eq core
    rw [width_append, Nat.add_assoc, ← width_append s.gap.text] at stands
    exact stands
  opens  := by
    rw [Segment.core]
    refine .trans ?_ (List.prefix_append ..)
    cases s.link
    case wire      => exact List.prefix_rfl
    case component => exact List.prefix_append ..
  closes := by
    refine ⟨?_, s.target.group.getLast?_eq (by decide)⟩
    rw [Segment.core, Part.written]
    exact ⟨s.link.text ++ (given (fun g => g.text ++ "++".toList) s.plus ++ s.target.gap.text), by simp⟩

-- Parts that stand one behind the other in a body stand in it each at its own place.
theorem forall₂_placed {text : α → Text} {value : Nat → α → β} {R : α → β → Prop}
    (hr : ∀ a lead rest, body = lead ++ text a ++ rest → R a (value (width lead) a)) (as : List α)
    (h : body = lead ++ as.flatMap text ++ rest) :
    List.Forall₂ R as (placed text value (width lead) as) := by
  induction as generalizing lead
  case nil => exact .nil
  case cons a as hi =>
    rw [List.flatMap_cons] at h
    have first : body = lead ++ text a ++ (as.flatMap text ++ rest) := by simp only [h, List.append_assoc]
    have others : body = lead ++ text a ++ as.flatMap text ++ rest := by simp only [h, List.append_assoc]
    have placed := hi others
    rw [width_append] at placed
    exact .cons (hr a lead _ first) placed

theorem inside_segments (ss : List Segment) (start : Nat) :
    ∀ s ∈ Segment.placed start ss, start ≤ s.range.start ∧ s.range.start < s.range.stop ∧
      s.range.stop ≤ start + width (ss.flatMap Segment.text) := by
  induction ss generalizing start
  case nil => nofun
  case cons s ss hi =>
    rw [List.flatMap_cons, width_append]
    rintro _ (_ | ⟨_, hs⟩)
    case head =>
      have := Nat.pos_of_ne_zero (mt width_eq_zero_iff.mp (core_ne_nil s))
      simp only [Segment.value, Segment.text, width_append]
      omega
    case tail =>
      have := hi _ _ hs
      omega

theorem ordered_segments (ss : List Segment) (start : Nat) :
    (Segment.placed start ss).Pairwise fun s s' => s.range.stop ≤ s'.range.start := by
  induction ss generalizing start
  case nil          => exact .nil
  case cons s ss hi => exact .cons (fun s' hs' => (inside_segments ss _ s' hs').left) (hi _)

theorem shown_chain (c : Chain) (lead rest : Text) (h : body = lead ++ c.text ++ rest) :
    c.Shown body (c.value (width lead)) where
  options  := rfl
  source   := Reference.shows_ofRaw c.source.group
  segments := by
    have steps : body = lead ++ c.front ++ c.segments.flatMap Segment.text ++ (c.close.text ++ [';'] ++ rest) := by
      simp only [h, Chain.text, Chain.steps, List.append_assoc]
    have shown := forall₂_placed shown_segment c.segments steps
    rwa [width_append] at shown
  stands   := slice?_of_eq h
  inside   := by
    intro s hs
    have := inside_segments _ _ s hs
    simp only [Chain.value, Chain.text, Chain.steps, width_append]
    omega
  ordered  := ordered_segments c.segments _

end Places

-- The circuit of a body of written chains has these chains, each at its place, and no other. Read back from its
-- place, a segment goes from its `--` or `to` to the end of its target, and a component has the name that its
-- options give it.
theorem recovered_parse (cs : List Chain) (tail : Gap) :
    let body := cs.flatMap Chain.text ++ tail.text
    parse body = ⟨Chain.placed 0 cs⟩ ∧ List.Forall₂ (Chain.Shown body) cs (parse body).chains := by
  have recovered := parse_eq_placed cs tail
  refine ⟨recovered, ?_⟩
  rw [recovered]
  have whole : cs.flatMap Chain.text ++ tail.text = [] ++ cs.flatMap Chain.text ++ tail.text := rfl
  exact forall₂_placed shown_chain cs whole

-- The first item is blank, and the comma between parentheses separates none.
example : (parse "\\draw (a) to\u3000[ , R(1,2) = x] ++(b);".toList).chains.map (·.segments) =
    [[⟨.component "R(1,2) = x".toList (some ⟨"[ , R(1,2) = x]".toList⟩), .ofRaw "(b)".toList, ⟨10, 36⟩⟩]] := by
  decide +kernel

end TikzPress.Circuit.Written
