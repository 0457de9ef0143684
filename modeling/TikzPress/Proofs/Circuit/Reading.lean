import TikzPress.Proofs.Circuit.Written

/-!
Reading written chains. Which part comes next is told by the first character that is not blank. Main statements:
the segments of a chain are read as their values, up to what is no segment (`many_segments`), and a chain is
read up to what stands before its semicolon (`reads_chain`).
-/

namespace TikzPress.Circuit

open Text Token TikzPress.Statement

namespace Written

variable {o c : Char} {cs : List Char} {rest : Text}

section Parts

theorem starts_written (p : Part o c) (ho : isBlank o = false) (rest : Text) :
    Starts [o] (p.written ++ rest) := by
  rw [Part.written, List.append_assoc]
  exact (starts_append p.group.opens ho rest).gap p.gap

theorem starts_given {f : α → Text} (hf : ∀ a, Starts [o] (f a ++ rest)) (a? : Option α)
    (h : Starts cs rest) : Starts (o :: cs) (given f a? ++ rest) := by
  cases a?
  case none   => exact h.mono (List.subset_cons_self o cs)
  case some a => exact (hf a).mono (List.cons_subset_cons o (List.nil_subset cs))

theorem reads_options (options : Option Options) (h : Starts cs rest) (hc : '[' ∉ cs) :
    Reads (optional OptionList.read) (given Part.written options) (options.map Part.optionList) rest := by
  refine .optional options (fun p => ?_) (Reader.map_of_none (group_eq_none h hc _) _)
  exact (reads_group p.gap p.group (by decide) (by decide) rest).map OptionList.mk

theorem reads_target (p : Target) (rest : Text) : Reads Reference.read p.written p.reference rest :=
  (reads_group p.gap p.group (by decide) (by decide) rest).map Reference.ofRaw

end Parts

section Segments

variable {stop start : Nat}

theorem reads_link (l : Link) (h : Starts cs rest) (hw : cs.any isWordChar = false) (hc : '[' ∉ cs) :
    Reads Link.read l.text l.value rest := by
  cases l
  case wire =>
    refine .orElse (.bind_pure (a := ()) ?_ _)
    exact reads_literal .none (c := '-') rfl (by decide) rest
  case component options =>
    have options' := starts_given (fun p => starts_written p (by decide) rest) options h
    have word : Starts ['t'] ("to".toList ++ given Part.written options ++ rest) := by
      rw [List.append_assoc]
      exact starts_append rfl (by decide) _
    refine .orElse_of_none (Reader.bind_of_none (literal_eq_none (c := '-') word rfl (by decide)) _) ?_
    refine .bind (reads_keyword .none (c := 't') rfl (by decide) options' hw) ?_
    exact (reads_options options h hc).bind_pure _

-- What is read of a segment from its link on.
theorem reads_core (s : Segment) (rest : Text) :
    Reads (do
        let link ← Link.read
        let _ ← optional (literal "++".toList)
        return (link, ← Reference.read))
      s.core (s.link.value, s.target.reference) rest := by
  have target := starts_written s.target (by decide) rest
  have plus (g : Gap) : Starts ['+'] (g.text ++ "++".toList ++ (s.target.written ++ rest)) := by
    rw [List.append_assoc]
    exact (starts_append rfl (by decide) _).gap g
  have plus := starts_given plus s.plus target
  rw [← List.append_assoc] at plus
  refine .bind (reads_link s.link plus (by decide) (by decide)) ?_
  refine .bind (a := s.plus.map fun _ => ()) ?_ ?_
  case refine_1 =>
    refine .optional s.plus (fun g => ?_) (literal_eq_none (c := '+') target rfl (by decide))
    exact reads_literal g (c := '+') rfl (by decide) _
  case refine_2 => exact (reads_target s.target rest).bind_pure _

theorem head?_core (s : Segment) : ∃ d ∈ ['-', 't'], s.core.head? = some d := by
  rw [Segment.core]
  cases s.link
  case wire      => exact ⟨'-', by decide, rfl⟩
  case component => exact ⟨'t', by decide, rfl⟩

theorem core_ne_nil (s : Segment) : s.core ≠ [] := by
  obtain ⟨_, _, h⟩ := head?_core s
  rintro hn
  rw [hn] at h
  contradiction

theorem reads_segment (s : Segment) (hs : stop = start + width (s.text ++ rest)) :
    Reads (Circuit.Segment.read stop) s.text (s.value start) rest := by
  have first : ∀ d ∈ (s.core ++ rest).head?, isBlank d = false := by
    obtain ⟨d, hd, hh⟩ := head?_core s
    rw [List.head?_append, hh]
    rintro _ ⟨⟩
    have shown : ['-', 't'].any isBlank = false := rfl
    exact Bool.eq_false_iff.mpr (List.any_eq_false.mp shown d hd)
  rw [width_append, Segment.text, width_append] at hs
  have starts : stop - (width s.core + width rest) = start + width s.gap.text := by omega
  have stops : stop - width rest = start + (width s.gap.text + width s.core) := by omega
  have range := (reads_core s rest).ranged s.gap first stop
  rw [starts, stops] at range
  rw [Segment.value, Segment.text, width_append]
  exact range.bind_pure fun x => (⟨x.1.1, x.1.2, x.2⟩ : Circuit.Segment)

-- Neither link opens with another character.
theorem segment_read_eq_none (h : Starts cs rest) (hw : '-' ∉ cs) (ht : 't' ∉ cs) (stop : Nat) :
    Circuit.Segment.read stop rest = none := by
  have link : Circuit.Link.read (trimStart rest) = none := by
    rw [Circuit.Link.read, Reader.orElse_apply,
      Reader.bind_of_none (literal_eq_none h.trimStart rfl hw) _,
      Reader.bind_of_none (keyword_eq_none h.trimStart rfl ht) _]
    rfl
  refine Reader.bind_of_none ?_ _
  rw [ranged, Reader.bind_of_none link]
  rfl

-- The places of the segments are counted from the end of the text, which `stop` is.
theorem many_segments (ss : List Segment) (hn : Circuit.Segment.read stop rest = none)
    (hs : stop = start + width (ss.flatMap Segment.text ++ rest)) :
    (Circuit.Segment.read stop).many (ss.flatMap Segment.text ++ rest) = (Segment.placed start ss, rest) := by
  induction ss generalizing start
  case nil =>
    rw [Reader.many]
    simp [hn, placed]
  case cons s ss hi =>
    rw [List.flatMap_cons, List.append_assoc] at hs ⊢
    have next : stop = start + width s.text + width (ss.flatMap Segment.text ++ rest) := by
      rw [hs, width_append, Nat.add_assoc]
    have full := List.length_pos_iff.mpr (core_ne_nil s)
    have shorter : (ss.flatMap Segment.text ++ rest).length <
        (s.text ++ (ss.flatMap Segment.text ++ rest)).length := by
      simp only [Segment.text, List.length_append]
      omega
    rw [Reader.many, reads_segment s hs]
    simp only [shorter, if_true, hi next, placed]

end Segments

section Chains

theorem reads_chain (c : Chain) (start : Nat) :
    Reads (Circuit.Chain.read ⟨start, start + width c.text⟩) (c.front ++ c.steps) (c.value start)
      (c.close.text ++ [';']) := by
  have close : Starts [';'] (c.close.text ++ [';']) :=
    (starts_append (t := [';']) rfl (by decide) []).gap c.close
  have source : Starts ['('] (c.source.written ++ c.steps ++ (c.close.text ++ [';'])) := by
    rw [List.append_assoc]
    exact starts_written c.source (by decide) _
  have options : Starts ['[', '(']
      (given Part.written c.options ++ (c.source.written ++ c.steps) ++ (c.close.text ++ [';'])) := by
    rw [List.append_assoc]
    exact starts_given (fun p => starts_written p (by decide) _) c.options source
  have steps : Reads (fun t => some ((Circuit.Segment.read (start + width c.text)).many t)) c.steps
      (Segment.placed (start + width c.front) c.segments) (c.close.text ++ [';']) := by
    refine congrArg some (many_segments c.segments ?_ ?_)
    case refine_1 => exact segment_read_eq_none close (by decide) (by decide) _
    case refine_2 => simp [Chain.text, Chain.steps, Nat.add_assoc]
  have written : c.front ++ c.steps = c.gap.text ++ ['\\'] ++ "draw".toList ++
      (given Part.written c.options ++ (c.source.written ++ c.steps)) := by
    simp only [Chain.front, List.append_assoc]
  rw [written]
  refine .bind (reads_command c.gap options (by decide) _) ?_
  refine .bind (reads_options c.options source (by decide)) ?_
  refine .bind (reads_target c.source _) ?_
  exact steps.bind_pure _

end Chains

end Written
end TikzPress.Circuit
