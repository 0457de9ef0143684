import TikzPress.Proofs.Statement

/-!
The slices that a body is split into. Main statements: they lie one behind another (`pairwise_splitFrom`), and
each of them is a part of the body whose text alone is not split any further (`cut_of_mem`).
-/

namespace TikzPress

open Text

-- The same part when `n` more bytes stand in front.
def Slice.shift (n : Nat) (s : Slice) : Slice :=
  { s with start := s.start + n }

theorem Slice.range_shift (n : Nat) (s : Slice) : (s.shift n).range = s.range.shift n := by
  simp [Slice.range, shift, Range.shift, Nat.add_right_comm]

namespace Statement

variable {start depth : Nat} {t s r : Text}

-- What is taken as a statement is taken whatever follows it.
theorem take?_append_of_some (h : take? depth t = some (s, r)) (u : Text) :
    take? depth (s ++ u) = some (s, u) := by
  induction t generalizing depth s
  case nil => contradiction
  case cons c t hi =>
    simp only [take?] at h
    split at h
    case isTrue hc =>
      cases h
      simp [take?, hc]
    case isFalse hc =>
      obtain ⟨⟨s', r'⟩, h', heq⟩ := Option.map_eq_some_iff.mp h
      cases heq
      simp only [List.cons_append, take?, if_neg hc, hi h']
      rfl

theorem split_of_take? (h : take? 0 t = some (s, r)) : split s = [⟨s, 0⟩] := by
  have alone := take?_append_of_some h []
  rw [List.append_nil] at alone
  rw [split, splitFrom_of_some alone, splitFrom_blank rfl]

-- A slice stands in a body at the byte `start`, and it is the only one of its own text.
structure Cut (start : Nat) (t : Text) (s : Slice) : Prop where
  full   : s.text ≠ []
  placed : ∃ lead rest, lead ++ s.text ++ rest = t ∧ s.start = start + width lead
  alone  : split s.text = [⟨s.text, 0⟩]

theorem cut_of_mem {s : Slice} (h : s ∈ splitFrom start t) : Cut start t s := by
  fun_induction splitFrom start t
  case case1 start t u rest ht hi =>
    cases h
    case head => exact ⟨ne_nil_of_take? ht, ⟨[], rest, append_of_take? ht, rfl⟩, split_of_take? ht⟩
    case tail h =>
      obtain ⟨lead, rest', rfl, hs⟩ := (hi h).placed
      refine ⟨(hi h).full, ⟨u ++ lead, rest', ?_, ?_⟩, (hi h).alone⟩
      case refine_1 => simp [← append_of_take? ht]
      case refine_2 => rw [hs, width_append, Nat.add_assoc]
  case case2 => contradiction
  case case3 start t ht hb =>
    obtain rfl := List.mem_singleton.mp h
    refine ⟨fun hn => hb ?_, ⟨[], [], List.append_nil _, rfl⟩, ?_⟩
    case refine_1 =>
      rw [show t = [] from hn]
      rfl
    case refine_2 => rw [split, splitFrom_of_none ht, if_neg hb]

theorem pairwise_splitFrom (start : Nat) (t : Text) :
    (splitFrom start t).Pairwise fun s s' => s.range.stop ≤ s'.range.start := by
  fun_induction splitFrom start t
  case case1 start t u rest ht hi =>
    refine .cons (fun s hs => ?_) hi
    obtain ⟨_, _, -, h⟩ := (cut_of_mem hs).placed
    exact (Nat.le_add_right ..).trans h.ge
  case case2 => exact .nil
  case case3 => exact List.pairwise_singleton ..

-- What is in front of a body moves its slices.
theorem splitFrom_add (start n : Nat) (t : Text) :
    splitFrom (start + n) t = (splitFrom start t).map (Slice.shift n) := by
  fun_induction splitFrom start t
  case case1 start t u rest ht hi =>
    rw [splitFrom_of_some ht, List.map_cons, ← hi, Nat.add_right_comm]
    rfl
  case case2 start t ht hb => rw [splitFrom_of_none ht, if_pos hb, List.map_nil]
  case case3 start t ht hb => rw [splitFrom_of_none ht, if_neg hb]; rfl

end Statement
end TikzPress
