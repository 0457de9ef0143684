import TikzPress.Proofs.Document.Unclosed

/-!
Documents one behind another. Where a document ends with a closed region and reports nothing, a text behind it
is read as a document of its own. Main statement: the segments and the errors of the second document are
moved, and nothing else happens (`parse_append`).
-/

namespace TikzPress

open Text Environment

-- The same report when `n` bytes stand in front.
def Unclosed.shift (n : Nat) (u : Unclosed) : Unclosed :=
  { u with offset := u.offset + n }

-- The same error when `n` bytes stand in front.
def Diagnostic.shift (n : Nat) (d : Diagnostic) : Diagnostic :=
  { d with offset := d.offset + n }

namespace Document

-- The same segment when `n` bytes stand in front.
def Segment.shift (n : Nat) : Segment → Segment
  | raw t r           => raw t (r.shift n)
  | command name t r  => command name t (r.shift n)
  | environment b     => environment { b with range := b.range.shift n }

theorem segmentsFrom_of_none {t : Text} (h : Region.next? t = none) (start : Nat) :
    segmentsFrom start t = Segment.ofRaw start t := by
  rw [segmentsFrom]
  split
  case h_1      => rfl
  case h_2 hr   => rw [h] at hr; contradiction

theorem segmentsFrom_of_some {t : Text} {r : Region} (h : Region.next? t = some r) (start : Nat) :
    segmentsFrom start t =
      Segment.ofRaw start r.lead ++ .environment (.ofRegion (start + width r.lead) r) ::
        segmentsFrom (start + width r.lead + width r.text) r.rest := by
  rw [segmentsFrom]
  split
  case h_1 hr => rw [h] at hr; contradiction
  case h_2 hr => rw [h] at hr; cases hr; rfl

section Shift

variable (n : Nat)

theorem map_shift_ofRaw (start : Nat) (t : Text) :
    (Segment.ofRaw start t).map (Segment.shift n) = Segment.ofRaw (start + n) t := by
  cases t
  case nil  => rfl
  case cons => simp [Segment.ofRaw, Segment.shift, Range.shift, Nat.add_right_comm]

theorem shift_ofRegion (start : Nat) (r : Region) :
    Segment.shift n (.environment (.ofRegion start r)) = .environment (.ofRegion (start + n) r) := by
  simp [Segment.shift, Block.ofRegion, Range.shift, Nat.add_right_comm]

-- What is in front of a text moves its segments.
theorem segmentsFrom_add (start : Nat) (t : Text) :
    segmentsFrom (start + n) t = (segmentsFrom start t).map (Segment.shift n) := by
  fun_induction segmentsFrom start t
  case case1 start t h => rw [segmentsFrom_of_none h, map_shift_ofRaw]
  case case2 start t r h at' hi =>
    rw [segmentsFrom_of_some h, List.map_append, List.map_cons, map_shift_ofRaw, shift_ofRegion, ← hi]
    simp only [at', Nat.add_right_comm _ n]

theorem unclosed_shift (s : Segment) : (s.shift n).unclosed = s.unclosed.map (Unclosed.shift n) := by
  cases s
  case command     => rfl
  case environment => rfl
  case raw t r =>
    simp only [Segment.shift, Segment.unclosed, List.map_filterMap]
    congr 1
    funext name
    cases offsets (opening name) t
    case nil  => rfl
    case cons => simp [Unclosed.shift, Range.shift, Nat.add_right_comm]

theorem mergeSort_map_shift (us : List Unclosed) :
    (us.map (Unclosed.shift n)).mergeSort (·.offset ≤ ·.offset) =
      (us.mergeSort (·.offset ≤ ·.offset)).map (Unclosed.shift n) :=
  (List.map_mergeSort fun _ _ _ _ => by simp [Unclosed.shift]).symm

end Shift

-- No raw text stands at the end.
def Ends (ss : List Segment) : Prop :=
  ∀ s ∈ ss.getLast?, ∃ b, s = .environment b

theorem Ends.of_append (ss : List Segment) {ss' : List Segment} (h : Ends (ss ++ ss')) : Ends ss' := fun s hs =>
  h s (by rw [List.getLast?_append, hs]; rfl)

-- What reports nothing has no begin marker.
theorem not_occurs_of_ofRaw {start : Nat} {t : Text} (h : (Segment.ofRaw start t).flatMap Segment.unclosed = [])
    {name : Text} (hn : name ∈ Region.supported) (n : Nat) : ¬Occurs (opening name) t n := fun ho => by
  have marker : start + n ∈ markers name t start := ⟨n, ho, rfl⟩
  obtain ⟨first, later, hl⟩ := Unclosed.exists_offsets marker
  have reports : Unclosed.Reports _ t start := Unclosed.reports_of_offsets hn hl
  have mem := List.mem_flatMap.mpr
    ⟨_, exists_ofRaw_of_occurs ho, Unclosed.mem_unclosed_raw_iff.mpr reports⟩
  simp [h] at mem

theorem segmentsFrom_append {start : Nat} {a : Text} (hu : (segmentsFrom start a).flatMap Segment.unclosed = [])
    (he : Ends (segmentsFrom start a)) (b : Text) :
    segmentsFrom start (a ++ b) = segmentsFrom start a ++ segmentsFrom (start + width a) b := by
  fun_induction segmentsFrom start a
  case case1 start a h =>
    cases a
    case nil  => rfl
    case cons =>
      obtain ⟨b, hb⟩ := he _ rfl
      contradiction
  case case2 start a r h at' hi =>
    rw [List.flatMap_append, List.flatMap_cons, List.append_eq_nil_iff, List.append_eq_nil_iff] at hu
    have next := Region.next?_append h (fun _ hn => not_occurs_of_ofRaw hu.left hn) b
    have later := hi hu.right.right (.of_append [_] (he.of_append _))
    have stop : at' + width r.text + width r.rest = start + width a := by
      rw [← Region.append_of_next? h]
      simp only [at', width_append, Nat.add_assoc]
    rw [segmentsFrom_of_some next, List.append_assoc, List.cons_append, ← stop, ← later]
    rfl

-- A document that ends with a block and has no open region is not changed by what comes behind it.
theorem parse_append {a : Text} (closed : (parse a).unclosed = [])
    (ends : a = [] ∨ ∃ b, (parse a).segments.getLast? = some (.environment b)) (b : Text) :
    (parse (a ++ b)).segments = (parse a).segments ++ (parse b).segments.map (Segment.shift (width a)) ∧
    (parse (a ++ b)).unclosed = (parse b).unclosed.map (Unclosed.shift (width a)) ∧
    (parse (a ++ b)).diagnostics = (parse b).diagnostics.map (Diagnostic.shift (width a)) := by
  have none : (segmentsFrom 0 a).flatMap Segment.unclosed = [] := by
    have := closed
    rwa [unclosed, ← List.length_eq_zero_iff, List.length_mergeSort, List.length_eq_zero_iff] at this
  have ends : Ends (segmentsFrom 0 a) := by
    rcases ends with rfl | ⟨c, hc⟩
    case inl => simp [Ends, segmentsFrom_eq_nil_iff.mpr]
    case inr => exact fun s hs => ⟨c, Option.some.inj (hs.symm.trans hc)⟩
  have segments : segmentsFrom 0 (a ++ b) =
      segmentsFrom 0 a ++ (segmentsFrom 0 b).map (Segment.shift (width a)) := by
    rw [segmentsFrom_append none ends, segmentsFrom_add]
  have unclosed : (parse (a ++ b)).unclosed = (parse b).unclosed.map (Unclosed.shift (width a)) := by
    simp only [unclosed, parse, segments, List.flatMap_append, none, List.nil_append, List.flatMap_map,
      unclosed_shift]
    rw [← mergeSort_map_shift, List.map_flatMap]
  refine ⟨segments, unclosed, ?_⟩
  rw [diagnostics, unclosed, diagnostics, List.map_map, List.map_map]
  rfl

-- The region in the block was never closed, and what closes it stands too late.
theorem parse_append_hidden :
    let a := "x\\begin\x7btikzpicture\x7d\\begin\x7bcircuitikz\x7d\\end\x7btikzpicture\x7d".toList
    let b := "\\end\x7bcircuitikz\x7d\\begin\x7bcircuitikz\x7d".toList
    (parse a).unclosed = [] ∧ (a = [] ∨ ∃ b, (parse a).segments.getLast? = some (.environment b)) ∧
    (parse (a ++ b)).segments = (parse a).segments ++ (parse b).segments.map (Segment.shift (width a)) ∧
    (parse (a ++ b)).unclosed = (parse b).unclosed.map (Unclosed.shift (width a)) ∧
    (parse (a ++ b)).diagnostics = (parse b).diagnostics.map (Diagnostic.shift (width a)) := by
  intro a b
  have closed : (parse a).unclosed = [] := by decide +kernel
  have last : (parse a).segments.getLast? = some (.environment {
      name   := "tikzpicture".toList
      header := "\\begin\x7btikzpicture\x7d".toList
      body   := "\\begin\x7bcircuitikz\x7d".toList
      footer := "\\end\x7btikzpicture\x7d".toList
      range  := ⟨1, 55⟩ }) := by
    decide +kernel
  exact ⟨closed, .inr ⟨_, last⟩, parse_append closed (.inr ⟨_, last⟩) b⟩

end Document
end TikzPress
