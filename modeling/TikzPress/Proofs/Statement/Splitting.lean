import TikzPress.Proofs.Statement.Slices
import TikzPress.Proofs.Text.Occurrence

/-!
Where the statements of a body end. The depth of open braces is counted from the start of the body, and it is
zero wherever a statement has ended, so each statement can be split as if it were alone. Main statement: the
statements are the parts of the body between its semicolons outside of braces, and they are the same in front of
another body (`exact_split`).
-/

namespace TikzPress.Statement

open Text

-- The depth of open braces behind a text that stands inside of `d` open braces.
def bracesAfter (d : Nat) (t : Text) : Nat :=
  t.foldl braceAfter d

-- A semicolon stands at the byte `n` of a text inside of `d` open braces, and no brace is open there.
def Semicolon (d : Nat) (t : Text) (n : Nat) : Prop :=
  ∃ lead rest, lead ++ ';' :: rest = t ∧ width lead = n ∧ bracesAfter d lead = 0

-- The last character of a text is a semicolon outside of braces.
def Ended (t : Text) : Prop :=
  ∃ lead, lead ++ [';'] = t ∧ bracesAfter 0 lead = 0

-- What follows the last semicolon outside of braces.
def Tail (t tail : Text) : Prop :=
  ∃ lead, lead ++ tail = t ∧ (lead = [] ∨ Ended lead) ∧ ∀ n, Semicolon 0 t n → n < width lead

structure Exact (body : Text) : Prop where
  whole  : ∃ tail, isBlankOnly tail ∧ (split body).flatMap Slice.text ++ tail = body
  starts : ∀ before s after, split body = before ++ s :: after → s.start = width (before.flatMap Slice.text)
  placed : ∀ s ∈ split body, slice? body s.start s.range.stop = some s.text
  stops  : ∀ n, (∃ s ∈ split body, s.range.stop = n + 1) ↔
    Semicolon 0 body n ∨ (n + 1 = width body ∧ ∃ tail, Tail body tail ∧ ¬isBlankOnly tail)
  alone  : ∀ s ∈ split body, split s.text = [⟨s.text, 0⟩]
  append : ∀ b, body = [] ∨ Ended body → split (body ++ b) = split body ++ (split b).map (Slice.shift (width body))

variable {a b s r t u tail : Text} {c : Char} {d n m start : Nat}

section Depth

theorem bracesAfter_append (d : Nat) (a b : Text) : bracesAfter d (a ++ b) = bracesAfter (bracesAfter d a) b :=
  List.foldl_append

-- No brace is open behind a semicolon outside of braces.
theorem Ended.bracesAfter (h : Ended t) : bracesAfter 0 t = 0 := by
  obtain ⟨lead, rfl, hd⟩ := h
  rw [bracesAfter_append, hd]
  rfl

theorem Ended.ne_nil (h : Ended t) : t ≠ [] := by
  obtain ⟨lead, rfl, -⟩ := h
  exact List.concat_ne_nil _ _

theorem Ended.semicolon (h : Ended a) (b : Text) : ∃ n, Semicolon 0 (a ++ b) n ∧ n < width a := by
  obtain ⟨lead, rfl, hd⟩ := h
  refine ⟨_, ⟨lead, b, by simp, rfl, hd⟩, ?_⟩
  rw [width_append]
  exact Nat.lt_add_of_pos_right (by decide)

-- A part behind an ended one ends as it does alone.
theorem Ended.append_iff (h : Ended a) : Ended (a ++ b) ↔ b = [] ∨ Ended b := by
  have alone (lead : Text) : Statement.bracesAfter 0 (a ++ lead) = Statement.bracesAfter 0 lead := by
    rw [bracesAfter_append, h.bracesAfter]
  constructor
  case mpr =>
    rintro (rfl | ⟨lead, rfl, hd⟩)
    case inl => rwa [List.append_nil]
    case inr => exact ⟨a ++ lead, List.append_assoc .., (alone lead).trans hd⟩
  case mp =>
    rintro ⟨lead, hl, hd⟩
    rcases List.eq_nil_or_concat b with rfl | ⟨front, last, rfl⟩
    case inl => exact .inl rfl
    case inr =>
      rw [List.concat_eq_append, ← List.append_assoc] at hl
      obtain ⟨rfl, hc⟩ := List.append_inj' hl rfl
      exact .inr ⟨front, by rw [hc, List.concat_eq_append], (alone front).symm.trans hd⟩

theorem semicolon_cons_iff : Semicolon d (c :: t) n ↔
    (c = ';' ∧ d = 0 ∧ n = 0) ∨ ∃ m, Semicolon (braceAfter d c) t m ∧ n = c.utf8Size + m := by
  constructor
  case mp =>
    rintro ⟨lead, rest, h, rfl, hd⟩
    cases lead
    case nil => cases h; exact .inl ⟨rfl, hd, rfl⟩
    case cons e lead => cases h; exact .inr ⟨_, ⟨lead, rest, rfl, rfl, hd⟩, rfl⟩
  case mpr =>
    rintro (⟨rfl, rfl, rfl⟩ | ⟨_, ⟨lead, rest, rfl, rfl, hd⟩, rfl⟩)
    case inl => exact ⟨[], t, rfl, rfl, rfl⟩
    case inr => exact ⟨c :: lead, rest, rfl, rfl, hd⟩

end Depth

section Take

-- What is taken as a statement ends with the first semicolon outside of braces.
theorem semicolon_iff_of_take? (h : take? d t = some (s, r)) :
    Semicolon d t n ↔ n + 1 = width s ∨ ∃ m, Semicolon 0 r m ∧ n = width s + m := by
  induction t generalizing d s n
  case nil => contradiction
  case cons c t ih =>
    rw [semicolon_cons_iff]
    by_cases hc : c = ';' ∧ d = 0
    case pos =>
      obtain ⟨rfl, rfl⟩ := hc
      cases h
      have size : width [';'] = 1 := rfl
      simp [size, show braceAfter 0 ';' = 0 from rfl, show ';'.utf8Size = 1 from rfl]
    case neg =>
      rw [take?_cons hc] at h
      obtain ⟨⟨s', r'⟩, h', heq⟩ := Option.map_eq_some_iff.mp h
      cases heq
      have here : ¬(c = ';' ∧ d = 0 ∧ n = 0) := fun ⟨h, h', _⟩ => hc ⟨h, h'⟩
      simp only [here, false_or, ih h', width_cons]
      constructor
      case mp =>
        rintro ⟨m, hm | ⟨k, hk, rfl⟩, rfl⟩
        case inl => exact .inl (by omega)
        case inr => exact .inr ⟨k, hk, (Nat.add_assoc ..).symm⟩
      case mpr =>
        have := length_le_width s'
        have := List.length_pos_iff.mpr (ne_nil_of_take? h')
        rintro (hn | ⟨k, hk, rfl⟩)
        case inl => exact ⟨width s' - 1, .inl (by omega), by omega⟩
        case inr => exact ⟨width s' + k, .inr ⟨k, hk, rfl⟩, Nat.add_assoc ..⟩

theorem not_semicolon_of_take? (h : take? d t = none) : ¬Semicolon d t n := by
  induction t generalizing d n
  case nil =>
    rintro ⟨lead, rest, hl, -⟩
    exact absurd (List.append_eq_nil_iff.mp hl).right (List.cons_ne_nil _ _)
  case cons c t ih =>
    by_cases hc : c = ';' ∧ d = 0
    case pos => simp [take?, hc] at h
    case neg =>
      rw [take?_cons hc, Option.map_eq_none_iff] at h
      rw [semicolon_cons_iff]
      rintro (⟨rfl, rfl, -⟩ | ⟨m, hm, -⟩)
      case inl => exact hc ⟨rfl, rfl⟩
      case inr => exact ih h hm

theorem exists_lead_of_take? (h : take? d t = some (s, r)) :
    ∃ lead, lead ++ [';'] = s ∧ bracesAfter d lead = 0 := by
  induction t generalizing d s
  case nil => contradiction
  case cons c t ih =>
    by_cases hc : c = ';' ∧ d = 0
    case pos =>
      obtain ⟨rfl, rfl⟩ := hc
      cases h
      exact ⟨[], rfl, rfl⟩
    case neg =>
      rw [take?_cons hc] at h
      obtain ⟨⟨s', r'⟩, h', heq⟩ := Option.map_eq_some_iff.mp h
      cases heq
      obtain ⟨lead, rfl, hd⟩ := ih h'
      exact ⟨c :: lead, rfl, hd⟩

theorem ended_of_take? (h : take? 0 t = some (s, r)) : Ended s :=
  exists_lead_of_take? h

theorem tail_iff_of_take? (h : take? 0 t = some (s, r)) : Tail t tail ↔ Tail r tail := by
  have hs := ended_of_take? h
  have stands (n : Nat) := semicolon_iff_of_take? (n := n) h
  have size := append_of_take? h
  constructor
  case mp =>
    rintro ⟨lead, hl, he, hn⟩
    have full : 0 < width s := Nat.pos_of_ne_zero (mt width_eq_zero_iff.mp hs.ne_nil)
    have last := hn (width s - 1) ((stands _).mpr (.inl (Nat.sub_add_cancel full)))
    obtain ⟨w, rfl, rfl⟩ := exists_append_of_width_le (size.trans hl.symm) (by omega)
    have ended := he.resolve_left (List.append_ne_nil_of_left_ne_nil hs.ne_nil w)
    refine ⟨w, rfl, hs.append_iff.mp ended, fun n hn' => ?_⟩
    have behind := hn _ ((stands _).mpr (.inr ⟨n, hn', rfl⟩))
    rw [width_append] at behind
    exact Nat.lt_of_add_lt_add_left behind
  case mpr =>
    rintro ⟨lead, rfl, he, hn⟩
    refine ⟨s ++ lead, by rw [← size, List.append_assoc], .inr (hs.append_iff.mpr he), fun n hn' => ?_⟩
    rw [width_append]
    rcases (stands n).mp hn' with hn' | ⟨m, hm, rfl⟩
    case inl => omega
    case inr => exact Nat.add_lt_add_left (hn m hm) _

theorem tail_iff_of_none (h : take? 0 t = none) : Tail t tail ↔ tail = t := by
  constructor
  case mpr => rintro rfl; exact ⟨[], rfl, .inl rfl, fun n hn => absurd hn (not_semicolon_of_take? h)⟩
  case mp =>
    rintro ⟨lead, rfl, rfl | he, -⟩
    case inl => rfl
    case inr =>
      obtain ⟨n, hn, -⟩ := he.semicolon tail
      exact absurd hn (not_semicolon_of_take? h)

end Take

section Split

theorem exists_tail (start : Nat) (t : Text) :
    ∃ tail, isBlankOnly tail ∧ (splitFrom start t).flatMap Slice.text ++ tail = t := by
  fun_induction splitFrom start t
  case case1 start t s r ht ih =>
    obtain ⟨tail, hb, hw⟩ := ih
    refine ⟨tail, hb, ?_⟩
    rw [List.flatMap_cons, List.append_assoc, hw, append_of_take? ht]
  case case2 start t ht hb => exact ⟨t, hb, rfl⟩
  case case3 start t ht hb => exact ⟨[], rfl, by simp⟩

theorem start_eq {x : Slice} {before after : List Slice} (h : splitFrom start t = before ++ x :: after) :
    x.start = start + width (before.flatMap Slice.text) := by
  fun_induction splitFrom start t generalizing before
  case case1 start t s r ht ih =>
    cases before
    case nil => cases h; rfl
    case cons y before =>
      obtain ⟨rfl, hr⟩ := List.cons.inj h
      rw [ih hr, List.flatMap_cons, width_append, Nat.add_assoc]
  case case2 => simp at h
  case case3 start t ht hb =>
    cases before
    case nil => cases h; rfl
    case cons => simp at h

theorem start_lt_stop {x : Slice} (h : x ∈ splitFrom start t) : start < x.range.stop := by
  have cut := cut_of_mem h
  have := mt width_eq_zero_iff.mp cut.full
  obtain ⟨lead, rest, -, hs⟩ := cut.placed
  simp only [Slice.range, hs]
  omega

theorem exists_stop_iff (start : Nat) (t : Text) (n : Nat) :
    (∃ x ∈ splitFrom start t, x.range.stop = start + (n + 1)) ↔
      Semicolon 0 t n ∨ (n + 1 = width t ∧ ∃ tail, Tail t tail ∧ ¬isBlankOnly tail) := by
  fun_induction splitFrom start t generalizing n
  case case1 start t s r ht ih =>
    have size : width t = width s + width r := by rw [← append_of_take? ht, width_append]
    have first : (⟨s, start⟩ : Slice).range.stop = start + (n + 1) ↔ n + 1 = width s := by
      simp [Slice.range, eq_comm]
    simp only [List.exists_mem_cons_iff, first, semicolon_iff_of_take? ht, tail_iff_of_take? ht, or_assoc]
    refine or_congr_right' fun hne => ?_
    by_cases hn : width s ≤ n
    case pos =>
      obtain ⟨m, rfl⟩ := Nat.exists_eq_add_of_le hn
      have later := ih m
      rw [Nat.add_assoc] at later
      simp only [Nat.add_assoc, size, Nat.add_left_cancel_iff, exists_eq_right', later]
    case neg =>
      constructor
      case mp =>
        rintro ⟨x, hx, hs⟩
        have behind := start_lt_stop hx
        omega
      case mpr => rintro (⟨m, -, hm⟩ | ⟨hm, -⟩) <;> omega
  case case2 start t ht hb =>
    simp only [not_semicolon_of_take? ht, tail_iff_of_none ht, exists_eq_left, hb]
    simp
  case case3 start t ht hb =>
    simp only [not_semicolon_of_take? ht, tail_iff_of_none ht, exists_eq_left, List.mem_singleton, Slice.range,
      Nat.add_left_cancel_iff, false_or, hb, Bool.false_eq_true, not_false_eq_true, and_true]
    exact eq_comm

theorem eq_nil_of_none (h : a = [] ∨ Ended a) (ha : take? 0 a = none) : a = [] :=
  h.resolve_right fun he => by
    obtain ⟨n, hn, -⟩ := he.semicolon []
    exact not_semicolon_of_take? ha (a.append_nil ▸ hn)

-- What follows an ended text does not change its statements.
theorem splitFrom_append (h : a = [] ∨ Ended a) (start : Nat) (b : Text) :
    splitFrom start (a ++ b) = splitFrom start a ++ splitFrom (start + width a) b := by
  fun_induction splitFrom start a
  case case1 start a s r ha ih =>
    have size := append_of_take? ha
    have hs := ended_of_take? ha
    have he := h.resolve_left (size ▸ List.append_ne_nil_of_left_ne_nil hs.ne_nil r)
    have hr : r = [] ∨ Ended r := hs.append_iff.mp (size ▸ he)
    have taken := take?_append_of_some ha (r ++ b)
    rw [← List.append_assoc, size] at taken
    rw [splitFrom_of_some taken, ih hr, ← size, width_append, Nat.add_assoc, List.cons_append]
  case case2 start a ha hb =>
    obtain rfl := eq_nil_of_none h ha
    rfl
  case case3 start a ha hb =>
    obtain rfl := eq_nil_of_none h ha
    exact absurd rfl hb

theorem exact_split (body : Text) : Exact body where
  whole  := exists_tail 0 body
  starts := fun _ _ _ h => (start_eq h).trans (Nat.zero_add _)
  placed := by
    intro s hs
    obtain ⟨lead, rest, rfl, hl⟩ := (cut_of_mem hs).placed
    rw [Slice.range, hl, Nat.zero_add]
    exact slice?_append ..
  stops  := by
    intro n
    have := exists_stop_iff 0 body n
    rwa [Nat.zero_add] at this
  alone  := fun _ hs => (cut_of_mem hs).alone
  append := by
    intro b h
    rw [split, splitFrom_append h, splitFrom_add]
    rfl

end Split
end TikzPress.Statement
