import TikzPress.Proofs.Document.Append
import TikzPress.Proofs.Environment.Matching
import TikzPress.Proofs.Picture.Padded
import TikzPress.Standalone

/-!
Documents around a fragment. A marker does not stand across the end of a line, so that none is made where the
lines are joined, and the region that is opened before the fragment is the first one and closed behind it. Main
statement: what is put around a fragment is read back as one picture with the layers and statements of the
fragment, and it is put around only once (`wrapped`).
-/

namespace TikzPress.Standalone

open Text Environment

def picture : Text :=
  "tikzpicture".toList

def document : Text :=
  "document".toList

-- What is put into a picture of a document of its own.
structure Fragment (content : Text) : Prop where
  bare     : ¬opening document <:+: content
  unopened : ¬opening picture <:+: content
  unclosed : ¬closing picture <:+: content

-- No region is opened in the lines.
def Neutral (lines : List Text) : Prop :=
  ∀ line ∈ lines, ∀ name ∈ Region.supported, ¬opening name <:+: line

-- A document with one block, which is a picture without options that has the content as lines of its own.
structure ReadBack (content : Text) (d : Document) : Prop where
  closed : d.unclosed = []
  block  : ∃ b p, d.blocks = [b] ∧ b.name = picture ∧ b.options? = none ∧
    b.body = '\n' :: content ++ ['\n'] ∧ b.drawing? = some (.picture p) ∧
    p.unplaced = (Picture.parse content none).unplaced

structure Wrapped : Prop where
  read : ∀ content preamble, Fragment content → Neutral preamble →
    ReadBack content (Document.parse (wrap content preamble))
  once : ∀ content preamble preamble', wrap (wrap content preamble) preamble' = wrap content preamble

section Lines

variable {l a b : Text} {c : Char}

theorem infix_of_infix_append_cons (hl : l ≠ []) (hc : c ∉ l) (h : l <:+: a ++ c :: b) : l <:+: a ∨ l <:+: b := by
  obtain ⟨u, v, h⟩ := h
  rcases append_eq_cases h with ⟨w, rfl, -⟩ | ⟨w, -, hb⟩ | ⟨x, d, y, -, rfl, -, hb⟩
  case inl => exact .inl ⟨u, w, rfl⟩
  case inr.inl =>
    cases w
    case cons d w => exact .inr ⟨w, v, (List.cons.inj hb).right.symm⟩
    case nil =>
      obtain ⟨d, l, rfl⟩ := List.exists_cons_of_ne_nil hl
      exact absurd ((List.cons.inj hb).left ▸ .head _) hc
  case inr.inr => exact absurd ((List.cons.inj hb).left ▸ by simp) hc

-- The lines with the end of each of them.
def ended (lines : List Text) : Text :=
  lines.flatMap (· ++ ['\n'])

theorem joinWith_append (lines : List Text) (line : Text) (lines' : List Text) :
    joinWith ['\n'] (lines ++ line :: lines') = ended lines ++ joinWith ['\n'] (line :: lines') := by
  induction lines
  case nil => rfl
  case cons t lines hi =>
    cases lines <;> simp_all [joinWith, ended]

theorem not_infix_ended {lines : List Text} (hl : l ≠ []) (hc : '\n' ∉ l) (h : ∀ line ∈ lines, ¬l <:+: line) :
    ¬l <:+: ended lines := by
  induction lines
  case nil => exact fun hi => hl (List.infix_nil.mp hi)
  case cons t lines hi =>
    intro hm
    rw [ended, List.flatMap_cons, List.append_assoc] at hm
    rcases infix_of_infix_append_cons hl hc hm with hm | hm
    case inl => exact h t (.head _) hm
    case inr => exact hi (fun line hline => h line (.tail _ hline)) hm

end Lines

section Region

variable {name lead inner rest : Text}

-- What has no marker of the environment itself is closed by the first end marker behind it.
theorem close?_of_bare (hn : '\\' ∉ name) (ho : ¬opening name <:+: inner) (hc : ¬closing name <:+: inner) :
    close? name 0 (inner ++ closing name ++ rest) = some (inner, rest) := by
  have starts : ∀ c ∈ (closing name ++ rest).head?, c = '\\' := by
    rintro c ⟨⟩
    rfl
  have inside {l : Text} (hl : Marker l) (h : ¬l <:+: inner) :
      ∀ n < width inner, ¬Occurs l (inner ++ (closing name ++ rest)) n := by
    rintro n hw ⟨u, v, heq, rfl⟩
    rcases hl.append_eq starts heq with ⟨w, hi, -⟩ | ⟨w, rfl, -⟩
    case inl => exact h ⟨u, w, hi.symm⟩
    case inr =>
      rw [width_append] at hw
      omega
  rw [List.append_assoc, close?_append_of_not_occurs name 0 fun n h =>
    ⟨inside (marker_opening hn) ho n h, inside (marker_closing hn) hc n h⟩, close?_closing]
  simp

theorem next?_of_bare (hn : name ∈ Region.supported) (hl : ∀ other ∈ Region.supported, ¬opening other <:+: lead)
    (ho : ¬opening name <:+: inner) (hc : ¬closing name <:+: inner) :
    Region.next? (lead ++ opening name ++ (inner ++ closing name ++ rest)) = some ⟨name, lead, inner, rest⟩ := by
  have plain : '\\' ∉ name := by
    have : ∀ name ∈ Region.supported, '\\' ∉ name := by decide
    exact this name hn
  refine Region.next?_of_first hn ?_ fun other hn' hne r hr => ?_
  case refine_1 =>
    rw [find?_of_cut? ((marker_opening plain).cut?_append (hl name hn) _), close?_of_bare plain ho hc]
    rfl
  case refine_2 =>
    rw [List.append_assoc] at hr
    exact Region.length_lt_of_find? hn' hn hne (hl other hn') (List.prefix_append ..) hr

end Region

section Reading

variable {content : Text} {preamble : List Text}

-- The lines in front of the picture.
def front (preamble : List Text) : Text :=
  ended (documentClass :: libraries :: preamble ++ [opening document])

def back : Text :=
  '\n' :: closing document

def body (content : Text) : Text :=
  '\n' :: content ++ ['\n']

theorem lines_eq (content : Text) (preamble : List Text) :
    lines content preamble = [documentClass, libraries] ++ preamble ++ [opening document] ++
      (if occursIn (opening picture) content then [content]
        else [opening picture, content, closing picture]) ++ [closing document] :=
  rfl

theorem wrap_of_document (h : opening document <:+: content) (preamble : List Text) :
    wrap content preamble = content :=
  if_pos (occursIn_iff.mpr h)

theorem wrap_of_bare (h : ¬opening document <:+: content) (preamble : List Text) :
    wrap content preamble = joinWith ['\n'] (lines content preamble) :=
  if_neg (mt occursIn_iff.mp h)

theorem wrap_eq (h : Fragment content) (preamble : List Text) :
    wrap content preamble = front preamble ++ opening picture ++ (body content ++ closing picture ++ back) := by
  have all : lines content preamble = (documentClass :: libraries :: preamble ++ [opening document]) ++
      opening picture :: [content, closing picture, closing document] := by
    rw [lines_eq, if_neg (mt occursIn_iff.mp h.unopened)]
    simp only [List.cons_append, List.nil_append, List.append_assoc]
  rw [wrap_of_bare h.bare, all, joinWith_append, front]
  simp only [joinWith, back, body, List.append_assoc, List.cons_append, List.nil_append]

theorem not_infix_body {l : Text} (hl : l ≠ []) (hc : '\n' ∉ l) (h : ¬l <:+: content) : ¬l <:+: body content := by
  intro hi
  rcases infix_of_infix_append_cons (a := []) hl hc hi with hi | hi
  case inl => exact hl (List.infix_nil.mp hi)
  case inr =>
    rcases infix_of_infix_append_cons hl hc hi with hi | hi
    case inl => exact h hi
    case inr => exact hl (List.infix_nil.mp hi)

theorem not_infix_front (h : Neutral preamble) {name : Text} (hn : name ∈ Region.supported) :
    ¬opening name <:+: front preamble := by
  have plain : ∀ name ∈ Region.supported, '\n' ∉ opening name := by decide
  have own : ∀ line ∈ [documentClass, libraries, opening document], ∀ name ∈ Region.supported,
      ¬opening name <:+: line := by
    decide
  refine not_infix_ended (opening_ne_nil name) (plain name hn) fun line hline => ?_
  simp only [List.cons_append, List.mem_cons, List.mem_append, List.not_mem_nil, or_false] at hline
  rcases hline with rfl | rfl | hline | rfl
  case inr.inr.inl => exact h line hline name hn
  all_goals exact own _ (by simp) name hn

theorem next?_wrap (h : Fragment content) (hp : Neutral preamble) :
    Region.next? (wrap content preamble) = some ⟨picture, front preamble, body content, back⟩ := by
  rw [wrap_eq h]
  refine next?_of_bare (.head _) (fun _ => not_infix_front hp) ?_ ?_
  case refine_1 => exact not_infix_body (opening_ne_nil _) (by decide) h.unopened
  case refine_2 => exact not_infix_body (closing_ne_nil _) (by decide) h.unclosed

theorem next?_back : Region.next? back = none := by
  decide

theorem segments_wrap (h : Fragment content) (hp : Neutral preamble) :
    (Document.parse (wrap content preamble)).segments =
      Document.Segment.ofRaw 0 (front preamble) ++
        .environment (.ofRegion (width (front preamble)) ⟨picture, front preamble, body content, back⟩) ::
          Document.Segment.ofRaw (width (front preamble) +
            width (Region.text ⟨picture, front preamble, body content, back⟩)) back := by
  rw [Document.parse, Document.segmentsFrom_of_some (next?_wrap h hp), Document.segmentsFrom_of_none next?_back]
  simp only [Nat.zero_add]

theorem readBack_wrap (h : Fragment content) (hp : Neutral preamble) :
    ReadBack content (Document.parse (wrap content preamble)) where
  closed := by
    have behind : ∀ name ∈ Region.supported, ¬opening name <:+: back := by decide
    refine List.eq_nil_iff_forall_not_mem.mpr fun u hu => ?_
    obtain ⟨t, r, ht, hr⟩ := Document.mem_unclosed_iff.mp hu
    obtain ⟨_, ⟨lead, rest, hi, -⟩, -⟩ := hr.first.left
    rw [segments_wrap h hp] at ht
    rcases List.mem_append.mp ht with ht | ht
    case inl =>
      obtain ⟨-, rfl, -⟩ := Document.mem_ofRaw_iff.mp ht
      exact not_infix_front hp hr.supported ⟨lead, rest, hi⟩
    case inr =>
      obtain ⟨-, rfl, -⟩ := Document.mem_ofRaw_iff.mp ((List.mem_cons.mp ht).resolve_left nofun)
      exact behind _ hr.supported ⟨lead, rest, hi⟩
  block := by
    have raw (start : Nat) (t : Text) : (Document.Segment.ofRaw start t).filterMap Document.Segment.block? = [] := by
      cases t <;> rfl
    let b : Document.Block := .ofRegion (width (front preamble)) ⟨picture, front preamble, body content, back⟩
    have bare : b.options? = none := by
      have drop : dropBytes? (width (opening b.name)) b.header = some [] := by
        show dropBytes? (width (opening picture)) (opening picture ++ []) = some []
        exact dropBytes?_width_append _ _
      rw [Document.Block.options?, drop]
    have drawn : b.drawing? = some (.picture (Picture.parse (body content) b.options?)) := rfl
    refine ⟨b, Picture.parse (body content) none, ?_, rfl, bare, rfl, bare ▸ drawn, ?_⟩
    case refine_1 =>
      rw [Document.blocks, segments_wrap h hp, List.filterMap_append, List.filterMap_cons, raw, raw]
      rfl
    case refine_2 => exact Picture.unplaced_parse ⟨['\n'], by decide⟩ ⟨['\n'], by decide⟩ content none

end Reading

theorem prefix_joinWith (between t : Text) (ts : List Text) : t <+: joinWith between (t :: ts) := by
  cases ts
  case nil  => exact List.prefix_rfl
  case cons => rw [joinWith, List.append_assoc]; exact List.prefix_append ..

-- The document that is made is one already.
theorem wrap_wrap (content : Text) (preamble preamble' : List Text) :
    wrap (wrap content preamble) preamble' = wrap content preamble := by
  by_cases h : opening document <:+: content
  case pos => rw [wrap_of_document h, wrap_of_document h]
  case neg =>
    refine wrap_of_document ?_ preamble'
    rw [wrap_of_bare h, lines_eq, List.append_assoc, List.append_assoc _ [_], List.singleton_append, joinWith_append]
    exact (prefix_joinWith ..).isInfix.trans (List.suffix_append ..).isInfix

theorem wrapped : Wrapped where
  read _ _ := readBack_wrap
  once     := wrap_wrap

-- The region of the other environment in the fragment is not closed, and the last statement lacks its semicolon.
def sampleFragment : Text :=
  "\\draw (a) to (b); \\begin\x7bcircuitikz\x7d \x7b \\node".toList

-- A marker of an environment that is none of the regions, and lines that are not joined to one.
def samplePreamble : List Text :=
  ["\\usepackage\x7bamsmath\x7d \\begin\x7balign\x7d".toList, "\\begin".toList, "\x7btikzpicture\x7d".toList]

theorem wrapped_sampleFragment : Fragment sampleFragment ∧ Neutral samplePreamble ∧
    ReadBack sampleFragment (Document.parse (wrap sampleFragment samplePreamble)) := by
  have fragment : Fragment sampleFragment := ⟨by decide, by decide, by decide⟩
  have neutral : ∀ line ∈ samplePreamble, ∀ name ∈ Region.supported, ¬opening name <:+: line := by decide
  exact ⟨fragment, neutral, wrapped.read _ _ fragment neutral⟩

end TikzPress.Standalone
