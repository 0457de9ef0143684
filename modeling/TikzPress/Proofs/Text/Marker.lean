import Mathlib.Order.Bounds.Defs
import TikzPress.Proofs.Text.Occurrence

/-!
Literals that begin with a backslash. Such a literal shows where it begins, so two of them never overlap, and
the occurrences in a text are counted part by part. Main statements: an occurrence does not stand across a place
where a backslash follows (`Marker.append_eq`), and the numbers of occurrences add up there
(`Marker.occurrences_append`).
-/

namespace TikzPress.Text

-- In how many places the literal stands in a text.
def occurrences (l t : Text) : Nat :=
  (offsets l t).length

-- A literal that begins with a backslash and has no other one.
structure Marker (l : Text) : Prop where
  opens : l.head? = some '\\'
  alone : '\\' ∉ l.tail

variable {l m a b s t u v : Text} {n : Nat} {c : Char}

theorem occurs_append_iff_of_le (h : width a ≤ n) :
    Occurs l (a ++ b) n ↔ ∃ m, Occurs l b m ∧ n = width a + m := by
  constructor
  case mpr =>
    rintro ⟨_, ⟨lead, rest, rfl, rfl⟩, rfl⟩
    exact ⟨a ++ lead, rest, by simp, width_append ..⟩
  case mp =>
    rintro ⟨lead, rest, ht, rfl⟩
    rw [List.append_assoc] at ht
    obtain ⟨w, rfl, hw⟩ := exists_append_of_width_le ht.symm h
    exact ⟨width w, ⟨w, rest, by rw [hw, List.append_assoc], rfl⟩, width_append ..⟩

-- The first occurrence behind a part in front.
theorem isLeast_of_cut? {lead rest : Text} (h : cut? l b = some (lead, rest)) (a : Text) :
    IsLeast { n | width a ≤ n ∧ Occurs l (a ++ b) n } (width (a ++ lead)) := by
  have place : width (a ++ lead) = width a + width lead := width_append ..
  refine ⟨⟨by omega, (occurs_append_iff_of_le (by omega)).mpr ⟨_, occurs_of_cut? h, place⟩⟩, ?_⟩
  rintro n ⟨hn, ho⟩
  obtain ⟨m, hm, rfl⟩ := (occurs_append_iff_of_le hn).mp ho
  exact place ▸ Nat.add_le_add_left (le_of_occurs h hm) _

section Counting

theorem length_offsetsFrom (l t : Text) (k : Nat) : (offsetsFrom l k t).length = occurrences l t := by
  suffices h : ∀ k k', (offsetsFrom l k t).length = (offsetsFrom l k' t).length from h k 0
  induction t
  case nil => intro k k'; simp only [offsetsFrom]; split <;> rfl
  case cons c t hi =>
    intro k k'
    simp only [offsetsFrom]
    split
    case isTrue  => simp [hi (k + c.utf8Size) (k' + c.utf8Size)]
    case isFalse => exact hi ..

theorem occurrences_cons (l : Text) (c : Char) (t : Text) :
    occurrences l (c :: t) = (if l <+: c :: t then 1 else 0) + occurrences l t := by
  rw [occurrences, offsets, offsetsFrom]
  simp only [opensWith_iff]
  split
  case isTrue  => rw [List.length_cons, length_offsetsFrom, Nat.add_comm]
  case isFalse => rw [length_offsetsFrom, Nat.zero_add]

end Counting

namespace Marker

variable (hl : Marker l)
include hl

theorem eq_cons : l = '\\' :: l.tail :=
  (List.cons_head?_tail hl.opens).symm

theorem occurrences_nil : occurrences l [] = 0 := by
  rw [hl.eq_cons]
  rfl

theorem not_prefix_cons (h : c ≠ '\\') (t : Text) : ¬l <+: c :: t := by
  rw [hl.eq_cons, List.cons_prefix_cons]
  exact fun ⟨he, _⟩ => h he.symm

-- An occurrence stands before a place where a backslash follows, or behind it.
theorem append_eq (hb : ∀ c ∈ b.head?, c = '\\') (h : u ++ l ++ v = a ++ b) :
    (∃ w, a = u ++ l ++ w ∧ v = w ++ b) ∨ ∃ w, u = a ++ w ∧ b = w ++ l ++ v := by
  refine or_assoc.mpr (append_eq_cases h) |>.resolve_right ?_
  rintro ⟨x, c, y, hx, rfl, rfl, rfl⟩
  refine hl.alone (hb c rfl ▸ ?_)
  rw [List.tail_append_of_ne_nil hx]
  exact List.mem_append_right _ (.head _)

-- What another marker is in front of has the literal at its front or behind that marker.
theorem eq_nil_or_of_append (hm : Marker m) (h : s ++ l ++ u = m ++ t) :
    s = [] ∨ ∃ w, s = m ++ w ∧ w ++ l ++ u = t := by
  -- The backslash of the literal is not the one of the marker unless nothing is in front of it.
  have front {y : Text} (hy : y.head? = some '\\') (he : m = s ++ y) : s = [] := by
    refine Classical.byContradiction fun hs => hm.alone ?_
    rw [he, List.tail_append_of_ne_nil hs]
    exact List.mem_append_right _ (List.mem_of_head? hy)
  rcases append_eq_cases h with ⟨w, he, -⟩ | ⟨w, rfl, rfl⟩ | ⟨x, c, y, hx, hxy, he, -⟩
  case inl =>
    refine .inl (front (y := l ++ w) ?_ (by rw [he, List.append_assoc]))
    rw [List.head?_append, hl.opens]
    rfl
  case inr.inl => exact .inr ⟨w, rfl, rfl⟩
  case inr.inr =>
    refine .inl (front ?_ he)
    have := hl.opens
    rwa [hxy, List.head?_append_of_ne_nil _ hx] at this

-- A text that the literal is not in is what stands before its first occurrence.
theorem cut?_append (h : ¬l <:+: a) (t : Text) : cut? l (a ++ l ++ t) = some (a, t) := by
  have here : Occurs l (a ++ l ++ t) (width a) := ⟨a, t, rfl, rfl⟩
  obtain ⟨lead, rest, hc, hle⟩ := exists_cut?_of_occurs here
  have whole := append_of_cut? hc
  rw [List.append_assoc, List.append_assoc] at whole
  obtain ⟨w, rfl, hw⟩ := exists_append_of_width_le whole hle
  rw [← List.append_assoc w] at hw
  rcases hl.eq_nil_or_of_append hl hw.symm with rfl | ⟨w, rfl, -⟩
  case inr => exact absurd ⟨lead, w, List.append_assoc ..⟩ h
  case inl =>
    obtain rfl : rest = t := by simpa using hw
    rwa [List.append_nil] at hc ⊢

theorem occurrences_append_of_not_mem (ha : '\\' ∉ a) (t : Text) :
    occurrences l (a ++ t) = occurrences l t := by
  induction a
  case nil => rfl
  case cons c a hi =>
    rw [List.mem_cons, not_or] at ha
    rw [List.cons_append, occurrences_cons, if_neg (hl.not_prefix_cons (Ne.symm ha.left) _), hi ha.right,
      Nat.zero_add]

theorem occurrences_marker_append (hm : Marker m) (t : Text) :
    occurrences l (m ++ t) = (if l <+: m ++ t then 1 else 0) + occurrences l t := by
  rw [hm.eq_cons, List.cons_append, occurrences_cons, hl.occurrences_append_of_not_mem hm.alone]

theorem occurrences_append (hb : ∀ c ∈ b.head?, c = '\\') (a : Text) :
    occurrences l (a ++ b) = occurrences l a + occurrences l b := by
  induction a
  case nil => rw [List.nil_append, hl.occurrences_nil, Nat.zero_add]
  case cons c a hi =>
    have same : l <+: c :: (a ++ b) ↔ l <+: c :: a := by
      refine ⟨fun ⟨v, hv⟩ => ?_, fun hp => hp.trans (List.prefix_append (c :: a) b)⟩
      rcases hl.append_eq (u := []) (a := c :: a) hb hv with ⟨w, hw, -⟩ | ⟨w, hw, -⟩
      case inl => exact ⟨w, hw.symm⟩
      case inr => contradiction
    rw [List.cons_append, occurrences_cons, occurrences_cons, hi, Nat.add_assoc]
    simp only [same]

end Marker
end TikzPress.Text
