import Mathlib.Data.List.TakeWhile
import TikzPress.OptionList
import TikzPress.Proofs.Text.Trim

/-!
The items of an option list. A comma separates two items where nothing is open, and something is open where more
braces and parentheses have been opened since some place than closed. Main statement: the pieces of a text are
what stands between the commas that separate (`pieces_eq_iff`).
-/

namespace TikzPress.OptionList

open TikzPress.Bracket

-- How many more braces and parentheses a text opens than it closes.
def balance (t : Text) : Int :=
  depth '\x7b' '\x7d' t + depth '(' ')' t

-- Nothing is open at the end of a text: from no place on more is opened than closed.
def Closed (t : Text) : Prop :=
  ∀ s, s <:+ t → balance s ≤ 0

-- No comma of a text separates.
def Whole (t : Text) : Prop :=
  ∀ p, p ++ [','] <+: t → ¬Closed p

-- What stands between the commas that separate.
inductive Pieces : Text → List Text → Prop
  | last : Whole t → Pieces t [t]
  | cons : Whole p → Closed p → Pieces t ps → Pieces (p ++ [','] ++ t) (p :: ps)

section Level

variable {s t : Text} {d n : Nat}

@[simp] theorem balance_append (s t : Text) : balance (s ++ t) = balance s + balance t := by
  simp only [balance, depth_append]
  omega

-- What a character does to the depth of what is open.
theorem depthAfter_cases (c : Char) :
    (balance [c] = 1 ∧ ∀ d, depthAfter d c = d + 1) ∨
    (balance [c] = -1 ∧ ∀ d, depthAfter d c = d - 1) ∨
    (balance [c] = 0 ∧ ∀ d, depthAfter d c = d) := by
  by_cases ho : c = '\x7b' ∨ c = '('
  case pos =>
    refine .inl ⟨?_, fun d => if_pos ho⟩
    obtain rfl | rfl := ho <;> decide
  case neg =>
    by_cases hc : c = '\x7d' ∨ c = ')'
    case pos =>
      refine .inr (.inl ⟨?_, fun d => (if_neg ho).trans (if_pos hc)⟩)
      obtain rfl | rfl := hc <;> decide
    case neg =>
      refine .inr (.inr ⟨?_, fun d => (if_neg ho).trans (if_neg hc)⟩)
      rw [not_or] at ho hc
      rw [balance, depth_other ho.left hc.left, depth_other ho.right hc.right]
      rfl

-- The depth behind a text.
abbrev level (d : Nat) (t : Text) : Nat :=
  t.foldl depthAfter d

-- As a closing bracket without an opening one counts for nothing, the depth is the greatest surplus of opening
-- ones that any end of the text has.
theorem level_le_iff : level 0 t ≤ n ↔ ∀ s, s <:+ t → balance s ≤ n := by
  induction t using List.reverseRecOn generalizing n
  case nil =>
    constructor
    case mp =>
      intro _ s hs
      rw [List.suffix_nil.mp hs]
      exact Int.natCast_nonneg n
    case mpr => exact fun _ => Nat.zero_le n
  case append_singleton t c hi =>
    have ends : (∀ s, s <:+ t ++ [c] → balance s ≤ n) ↔ ∀ s, s <:+ t → balance s + balance [c] ≤ n := by
      simp only [List.suffix_concat_iff]
      constructor
      case mp => exact fun h s hs => balance_append s [c] ▸ h _ (.inr ⟨s, rfl, hs⟩)
      case mpr =>
        rintro h _ (rfl | ⟨s, rfl, hs⟩)
        case inl => exact Int.natCast_nonneg n
        case inr => exact balance_append s [c] ▸ h s hs
    rw [ends, level, List.foldl_concat]
    obtain ⟨hb, hd⟩ | ⟨hb, hd⟩ | ⟨hb, hd⟩ := depthAfter_cases c <;> rw [hb, hd]
    case inl =>
      cases n
      case zero   => exact iff_of_false (Nat.not_succ_le_zero _) fun h => absurd (h [] List.nil_suffix) (by decide)
      case succ n => simpa [Int.add_le_add_iff_right] using hi (n := n)
    case inr.inl =>
      have := hi (n := n + 1)
      simp only [Nat.sub_le_iff_le_add, this]
      exact forall₂_congr fun s _ => by omega
    case inr.inr => simpa using hi

theorem closed_iff : Closed t ↔ level 0 t = 0 := by
  rw [← Nat.le_zero_eq, level_le_iff]
  rfl

-- What is in front of a text and leaves nothing open counts for nothing.
theorem Closed.append_iff (h : Closed s) : Closed (s ++ t) ↔ Closed t := by
  have none : s.foldl depthAfter 0 = 0 := closed_iff.mp h
  rw [closed_iff, closed_iff, level, List.foldl_append, none]

end Level

section Pieces

variable {p t u : Text} {ps : List Text} {d : Nat}

theorem pieces_of_no_cut (h : ∀ p, p ++ [','] <+: t → level d p ≠ 0) : pieces d t = [t] := by
  induction t generalizing d
  case nil => rfl
  case cons c t hi =>
    have hc : ¬(c = ',' ∧ d = 0) := by
      rintro ⟨rfl, rfl⟩
      exact h [] (List.prefix_append [','] t) rfl
    rw [pieces, if_neg hc, hi fun p hp => h (c :: p) (List.cons_prefix_cons.mpr ⟨rfl, hp⟩)]

theorem pieces_of_cut (h : ∀ q, q ++ [','] <+: p → level d q ≠ 0) (hp : level d p = 0) (t : Text) :
    pieces d (p ++ [','] ++ t) = p :: pieces 0 t := by
  induction p generalizing d
  case nil =>
    cases hp
    rfl
  case cons c p hi =>
    have hc : ¬(c = ',' ∧ d = 0) := by
      rintro ⟨rfl, rfl⟩
      exact h [] (List.prefix_append [','] p) rfl
    have rest := hi (fun q hq => h (c :: q) (List.cons_prefix_cons.mpr ⟨rfl, hq⟩)) hp
    simp only [List.cons_append, pieces, if_neg hc, rest]

theorem Pieces.eq (h : Pieces t ps) : pieces 0 t = ps := by
  induction h
  case last hw         => exact pieces_of_no_cut fun p hp => mt closed_iff.mpr (hw p hp)
  case cons hw hc _ hi =>
    rw [pieces_of_cut (fun q hq => mt closed_iff.mpr (hw q hq)) (closed_iff.mp hc), hi]

-- The first comma that separates.
theorem whole_or_exists_cut (t : Text) :
    Whole t ∨ ∃ p u, t = p ++ [','] ++ u ∧ Whole p ∧ Closed p := by
  induction t using List.reverseRecOn
  case nil => exact .inl fun p hp => absurd (List.prefix_nil.mp hp) (by simp)
  case append_singleton t c hi =>
    obtain hw | ⟨p, u, rfl, hw, hc⟩ := hi
    case inr => exact .inr ⟨p, u ++ [c], List.append_assoc .., hw, hc⟩
    case inl =>
      by_cases hc : c = ',' ∧ Closed t
      case pos => exact .inr ⟨t, [], by simp [hc.left], hw, hc.right⟩
      case neg =>
        refine .inl fun p hp hcl => ?_
        obtain he | hp := List.prefix_concat_iff.mp hp
        case inr => exact hw p hp hcl
        case inl =>
          obtain ⟨rfl, rfl⟩ : p = t ∧ ',' = c := by simpa using he
          exact hc ⟨rfl, hcl⟩

theorem exists_pieces (t : Text) : ∃ ps, Pieces t ps := by
  induction h : t.length using Nat.strongRecOn generalizing t
  case ind n hi =>
    obtain hw | ⟨p, u, rfl, hw, hc⟩ := whole_or_exists_cut t
    case inl => exact ⟨[t], .last hw⟩
    case inr =>
      have ⟨ps, hu⟩ := hi u.length (by simp [← h]; omega) u rfl
      exact ⟨p :: ps, .cons hw hc hu⟩

theorem pieces_eq_iff : pieces 0 t = ps ↔ Pieces t ps := by
  refine ⟨?_, Pieces.eq⟩
  rintro rfl
  have ⟨ps, h⟩ := exists_pieces t
  rwa [h.eq]

end Pieces

section Items

variable {ps : List Text}

theorem inner_mk (t : Text) : inner ⟨['['] ++ t ++ [']']⟩ = t := by
  have width : Text.width (['['] ++ t ++ [']']) - 1 = Text.width ['['] + Text.width t := by
    simp only [Text.width_append]
    rfl
  rw [inner, width]
  exact congrArg (Option.getD · []) (Text.slice?_append ['['] t [']'])

theorem items_eq {o : OptionList} (h : Pieces o.inner ps) :
    o.items = (ps.filter (¬Text.isBlankOnly ·)).map Text.trim := by
  rw [items, h.eq, List.filter_map]
  congr 2
  funext p
  simp [Text.trim_eq_nil_iff]

end Items
end TikzPress.OptionList
