import Mathlib.Data.List.Infix
import TikzPress.Text.Occurrence

/-!
Where a literal occurs in a text. Main statements: the offsets that are looked up are those of the
occurrences in increasing order (`mem_offsets_iff`, `pairwise_offsets`), a text is cut at the first of them
(`head?_offsets`), and a literal that shows its ends does not stand across a border (`Delimited.append_eq`).
-/

namespace TikzPress.Text

theorem dropLiteral?_eq_none_iff {l t : Text} : dropLiteral? l t = none ↔ ¬l <+: t := by
  rw [Option.eq_none_iff_forall_ne_some, ← not_exists]
  exact not_congr ⟨fun ⟨rest, h⟩ => ⟨rest, (dropLiteral?_eq_some_iff.mp h).symm⟩,
    fun ⟨rest, h⟩ => ⟨rest, dropLiteral?_eq_some_iff.mpr h.symm⟩⟩

theorem opensWith_iff {l t : Text} : opensWith l t ↔ l <+: t := by
  rw [opensWith, Option.isSome_iff_ne_none, ne_eq, dropLiteral?_eq_none_iff, not_not]

-- The literal stands at the byte `n` of the text.
def Occurs (literal t : Text) (n : Nat) : Prop :=
  ∃ lead rest, lead ++ literal ++ rest = t ∧ width lead = n

-- What stands at a byte of a text.
theorem Occurs.exists_prefix {l l' t : Text} {n : Nat} (h : Occurs l t n) (h' : Occurs l' t n) :
    ∃ rest, l <+: rest ∧ l' <+: rest := by
  obtain ⟨lead, rest, rfl, rfl⟩ := h
  obtain ⟨lead', rest', ht, hn⟩ := h'
  have drop := dropBytes?_width_append lead' (l' ++ rest')
  rw [← List.append_assoc, ht, hn, List.append_assoc, dropBytes?_width_append] at drop
  exact ⟨l ++ rest, List.prefix_append .., Option.some.inj drop ▸ List.prefix_append ..⟩

section Offsets

variable {l : Text}

theorem occurs_cons_iff {c : Char} {t : Text} {n : Nat} :
    Occurs l (c :: t) n ↔ (l <+: c :: t ∧ n = 0) ∨ ∃ m, Occurs l t m ∧ n = c.utf8Size + m := by
  constructor
  case mp =>
    rintro ⟨lead, rest, h, rfl⟩
    cases lead
    case nil       => exact .inl ⟨⟨rest, h⟩, rfl⟩
    case cons d ds =>
      cases h
      exact .inr ⟨_, ⟨ds, rest, rfl, rfl⟩, rfl⟩
  case mpr =>
    rintro (⟨⟨rest, h⟩, rfl⟩ | ⟨_, ⟨lead, rest, rfl, rfl⟩, rfl⟩)
    case inl => exact ⟨[], rest, h, rfl⟩
    case inr => exact ⟨c :: lead, rest, rfl, rfl⟩

theorem mem_offsetsFrom_iff {k n : Nat} {t : Text} :
    n ∈ offsetsFrom l k t ↔ ∃ m, Occurs l t m ∧ n = k + m := by
  induction t generalizing k
  case nil =>
    by_cases h : l = []
    all_goals simp [offsetsFrom, Occurs, h]
  case cons c t hi =>
    have later : n ∈ offsetsFrom l (k + c.utf8Size) t ↔
        ∃ m, (∃ m', Occurs l t m' ∧ m = c.utf8Size + m') ∧ n = k + m := by
      simp [hi, Nat.add_assoc]
    simp only [occurs_cons_iff, or_and_right, exists_or, ← later, ← opensWith_iff]
    by_cases h : opensWith l (c :: t)
    all_goals simp [offsetsFrom, h]

theorem mem_offsets_iff {n : Nat} {t : Text} : n ∈ offsets l t ↔ Occurs l t n := by
  simp [offsets, mem_offsetsFrom_iff]

theorem pairwise_offsetsFrom (l : Text) (k : Nat) (t : Text) :
    (offsetsFrom l k t).Pairwise (· < ·) := by
  induction t generalizing k
  case nil =>
    by_cases h : l = []
    all_goals simp [offsetsFrom, h]
  case cons c t hi =>
    simp only [offsetsFrom]
    split
    case isFalse => exact hi _
    case isTrue =>
      refine List.pairwise_cons.mpr ⟨fun n hn => ?_, hi _⟩
      obtain ⟨m, -, rfl⟩ := mem_offsetsFrom_iff.mp hn
      have := c.utf8Size_pos
      omega

theorem pairwise_offsets (l t : Text) : (offsets l t).Pairwise (· < ·) :=
  pairwise_offsetsFrom l 0 t

theorem head?_offsetsFrom (l : Text) (k : Nat) (t : Text) :
    (offsetsFrom l k t).head? = (cut? l t).map fun (lead, _) => k + width lead := by
  induction t generalizing k
  case nil =>
    by_cases h : l = []
    all_goals simp [offsetsFrom, cut?, h]
  case cons c t hi =>
    cases h : dropLiteral? l (c :: t)
    case some => simp [offsetsFrom, cut?, opensWith, h]
    case none => simp [offsetsFrom, cut?, opensWith, h, hi, Nat.add_assoc, Function.comp_def]

-- A text is cut at the first occurrence.
theorem head?_offsets (l t : Text) : (offsets l t).head? = (cut? l t).map fun (lead, _) => width lead := by
  simp only [offsets, head?_offsetsFrom, Nat.zero_add]

theorem exists_cut?_of_occurs {t : Text} {n : Nat} (h : Occurs l t n) :
    ∃ lead rest, cut? l t = some (lead, rest) ∧ width lead ≤ n := by
  have first := head?_offsets l t
  have mem := mem_offsets_iff.mpr h
  have increasing := pairwise_offsets l t
  cases ho : offsets l t
  case nil => simp [ho] at mem
  case cons k later =>
    rw [ho] at first mem increasing
    obtain ⟨⟨lead, rest⟩, hc, hk⟩ := Option.map_eq_some_iff.mp first.symm
    refine ⟨lead, rest, hc, ?_⟩
    cases mem
    case head   => exact Nat.le_of_eq hk
    case tail h => exact hk.le.trans (List.pairwise_cons.mp increasing |>.left _ h).le

theorem occursIn_iff {t : Text} : occursIn l t ↔ l <:+: t := by
  constructor
  case mp =>
    intro h
    obtain ⟨⟨lead, rest⟩, hc⟩ := Option.isSome_iff_exists.mp h
    exact ⟨lead, rest, append_of_cut? hc⟩
  case mpr =>
    rintro ⟨lead, rest, h⟩
    obtain ⟨_, _, hc, -⟩ := exists_cut?_of_occurs ⟨lead, rest, h, rfl⟩
    simp [occursIn, hc]

theorem le_of_occurs {t lead rest : Text} {n : Nat} (hc : cut? l t = some (lead, rest)) (h : Occurs l t n) :
    width lead ≤ n := by
  obtain ⟨lead', rest', hc', hn⟩ := exists_cut?_of_occurs h
  cases hc.symm.trans hc'
  exact hn

theorem occurs_of_cut? {t lead rest : Text} (h : cut? l t = some (lead, rest)) :
    Occurs l t (width lead) :=
  ⟨lead, rest, append_of_cut? h, rfl⟩

theorem cut?_append {t lead rest : Text} (h : cut? l t = some (lead, rest)) (u : Text) :
    cut? l (t ++ u) = some (lead, rest ++ u) := by
  induction t generalizing lead
  case nil =>
    simp only [cut?] at h
    split at h
    case isFalse => contradiction
    case isTrue hl =>
      cases h
      subst hl
      cases u <;> simp [cut?, dropLiteral?]
  case cons c t hi =>
    simp only [List.cons_append, cut?] at h ⊢
    split at h
    case h_1 r hr =>
      cases h
      have := dropLiteral?_eq_some_iff.mp hr
      simp [← List.cons_append, this]
    case h_2 hn =>
      obtain ⟨⟨lead', rest'⟩, h', heq⟩ := Option.map_eq_some_iff.mp h
      cases heq
      -- The occurrence that is found later is in the text, which is therefore longer than the literal.
      have long : l.length ≤ (c :: t).length := by
        simp [← append_of_cut? h']
        omega
      have : dropLiteral? l (c :: (t ++ u)) = none := by
        rw [dropLiteral?_eq_none_iff] at hn ⊢
        exact fun hp => hn (List.prefix_of_prefix_length_le hp (List.prefix_append (c :: t) u) long)
      simp [this, hi h']

-- The literal does not stand before its first occurrence.
theorem not_infix_of_cut? {t lead rest : Text} (hl : l ≠ []) (h : cut? l t = some (lead, rest)) :
    ¬l <:+: lead := by
  rintro ⟨front, back, heq⟩
  obtain ⟨lead', rest', hc, -⟩ := exists_cut?_of_occurs ⟨front, back, heq, rfl⟩
  have first := cut?_append hc (l ++ rest)
  rw [← List.append_assoc, append_of_cut? h] at first
  obtain rfl : lead = lead' := congrArg Prod.fst (Option.some.inj (h.symm.trans first))
  have whole := congrArg List.length (append_of_cut? hc)
  have := List.length_pos_iff.mpr hl
  rw [List.length_append, List.length_append] at whole
  omega

theorem cut?_append_self (l t : Text) : cut? l (l ++ t) = some ([], t) := by
  have drop := dropLiteral?_append l t
  cases l
  case cons => simp [cut?, List.cons_append ▸ drop]
  case nil  => cases t <;> simp [cut?, dropLiteral?]

end Offsets

-- Of two front parts of a text the longer one begins with the other.
theorem exists_append_of_width_le {a b c d : Text} (h : a ++ b = c ++ d) (hw : width a ≤ width c) :
    ∃ w, c = a ++ w ∧ b = w ++ d := by
  rcases List.append_eq_append_iff.mp h with ⟨w, rfl, rfl⟩ | ⟨w, rfl, rfl⟩
  case inl => exact ⟨w, rfl, rfl⟩
  case inr =>
    rw [width_append] at hw
    obtain rfl : w = [] := width_eq_zero_iff.mp (by omega)
    exact ⟨[], by simp, rfl⟩

-- An occurrence stands before a border, behind it, or across it.
theorem append_eq_cases {l a b u v : Text} (h : u ++ l ++ v = a ++ b) :
    (∃ w, a = u ++ l ++ w ∧ v = w ++ b) ∨ (∃ w, u = a ++ w ∧ b = w ++ l ++ v) ∨
      ∃ x c y, x ≠ [] ∧ l = x ++ c :: y ∧ a = u ++ x ∧ b = c :: y ++ v := by
  rcases List.append_eq_append_iff.mp h with ⟨w, ha, hv⟩ | ⟨w, hu, rfl⟩
  case inl => exact .inl ⟨w, ha, hv⟩
  case inr =>
    rcases List.append_eq_append_iff.mp hu with ⟨x, rfl, rfl⟩ | ⟨x, rfl, rfl⟩
    case inr => exact .inr (.inl ⟨x, rfl, rfl⟩)
    case inl =>
      cases x
      case nil => exact .inr (.inl ⟨[], by simp, by simp⟩)
      case cons c x =>
        cases w
        case nil      => exact .inl ⟨[], by simp, by simp⟩
        case cons e w => exact .inr (.inr ⟨c :: x, e, w, List.cons_ne_nil _ _, rfl, rfl, rfl⟩)

-- A literal whose first and last characters show where it begins and ends.
structure Delimited (l : Text) : Prop where
  opening : '\\' ∉ l.tail
  closing : '\x7d' ∉ l.dropLast

-- What a border between two texts shows: one ends there as a delimited literal does, or one begins.
def Border (a b : Text) : Prop :=
  (∀ c ∈ a.getLast?, c = '\x7d') ∨ ∀ c ∈ b.head?, c = '\\'

namespace Delimited

variable {l : Text}

-- An occurrence stands before the border or behind it.
theorem append_eq (d : Delimited l) {a b u v : Text} (hb : Border a b) (h : u ++ l ++ v = a ++ b) :
    (∃ w, a = u ++ l ++ w ∧ v = w ++ b) ∨ ∃ w, u = a ++ w ∧ b = w ++ l ++ v := by
  refine or_assoc.mpr (append_eq_cases h) |>.resolve_right ?_
  rintro ⟨x, c, y, hx, rfl, rfl, rfl⟩
  rcases hb with hb | hb
  case inl =>
    refine d.closing (hb (x.getLast hx) ?_ ▸ ?_)
    case refine_1 =>
      rw [List.getLast?_append_of_ne_nil _ hx]
      exact List.getLast?_eq_some_getLast _
    case refine_2 =>
      rw [List.dropLast_append_of_ne_nil (List.cons_ne_nil _ _)]
      exact List.mem_append_left _ (List.getLast_mem _)
  case inr =>
    refine d.opening (hb c rfl ▸ ?_)
    rw [List.tail_append_of_ne_nil hx]
    exact List.mem_append_right _ (.head _)

theorem occurs_append_iff (d : Delimited l) {a b : Text} (hb : Border a b) {n : Nat} :
    Occurs l (a ++ b) n ↔ Occurs l a n ∨ ∃ m, Occurs l b m ∧ n = width a + m := by
  constructor
  case mp =>
    rintro ⟨lead, rest, h, rfl⟩
    rcases d.append_eq hb h with ⟨w, rfl, -⟩ | ⟨w, rfl, rfl⟩
    case inl => exact .inl ⟨lead, w, rfl, rfl⟩
    case inr => exact .inr ⟨_, ⟨w, rest, rfl, rfl⟩, width_append ..⟩
  case mpr =>
    rintro (⟨lead, rest, rfl, rfl⟩ | ⟨_, ⟨lead, rest, rfl, rfl⟩, rfl⟩)
    case inl => exact ⟨lead, rest ++ b, by simp, rfl⟩
    case inr => exact ⟨a ++ lead, rest, by simp, width_append ..⟩

-- A text that holds the last character of the literal is not a part of it.
theorem prefix_of_prefix_append (d : Delimited l) {t u : Text} (ht : '\x7d' ∈ t) (h : l <+: t ++ u) :
    l <+: t := by
  rcases List.prefix_or_prefix_of_prefix h (List.prefix_append t u) with h | ⟨w, rfl⟩
  case inl => exact h
  case inr =>
    cases w
    case nil       => simp
    case cons c w =>
      refine absurd ?_ d.closing
      rw [List.dropLast_append_of_ne_nil (List.cons_ne_nil c w)]
      exact List.mem_append_left _ ht

end Delimited
end TikzPress.Text
