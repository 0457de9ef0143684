import Mathlib.Data.List.TakeWhile
import TikzPress.Proofs.Token

/-!
Blanks at the ends of a text. Main statements: a text is what remains of it when it is trimmed, with blanks on both
sides (`exists_padded`), and trimming leaves alone exactly what neither opens nor closes with a blank
(`bare_iff`).
-/

namespace TikzPress.Text

-- Neither opens nor closes with a blank.
structure Bare (t : Text) : Prop where
  opens  : ∀ c ∈ t.head?, isBlank c = false
  closes : ∀ c ∈ t.getLast?, isBlank c = false

variable {t : Text}

theorem trim_eq_nil_iff : trim t = [] ↔ isBlankOnly t := by
  rw [trim, trimEnd, List.reverse_eq_nil_iff, List.dropWhile_eq_nil_iff, isBlankOnly, List.all_eq_true]
  simp only [List.mem_reverse]
  constructor
  case mpr => exact fun h c hc => h c ((List.dropWhile_suffix _).subset hc)
  case mp =>
    intro h
    rw [← takeWhile_append_trimStart t]
    exact List.forall_mem_append.mpr ⟨fun c hc => List.mem_takeWhile_imp hc, h⟩

theorem trim_padded (g₁ g₂ : Gap) (t : Text) : trim (g₁.text ++ t ++ g₂.text) = trim t := by
  have blank₂ : ∀ c ∈ g₂.text, isBlank c := List.all_eq_true.mp g₂.blank
  have blanks : trimStart g₂.text = [] := List.dropWhile_eq_nil_iff.mpr blank₂
  rw [trim, List.append_assoc, trimStart_gap, trimStart, List.dropWhile_append, ← trimStart, ← trimStart, blanks]
  split
  case isTrue h => rw [trim, List.isEmpty_iff.mp h]
  case isFalse =>
    rw [trimEnd, List.reverse_append, List.dropWhile_append_of_pos fun c hc => blank₂ c (List.mem_reverse.mp hc)]
    rfl

theorem exists_padded (t : Text) : ∃ g₁ g₂ : Gap, t = g₁.text ++ trim t ++ g₂.text := by
  have blank (u : Text) : ∀ c ∈ u.takeWhile isBlank, isBlank c := fun _ => List.mem_takeWhile_imp
  refine ⟨⟨t.takeWhile isBlank, List.all_eq_true.mpr (blank t)⟩,
    ⟨((trimStart t).reverse.takeWhile isBlank).reverse, ?_⟩, ?_⟩
  case refine_1 => exact List.all_eq_true.mpr fun c hc => blank _ c (List.mem_reverse.mp hc)
  case refine_2 =>
    rw [trim, trimEnd, List.append_assoc, ← List.reverse_append, List.takeWhile_append_dropWhile,
      List.reverse_reverse, takeWhile_append_trimStart]

theorem trim_trim (t : Text) : trim (trim t) = trim t := by
  have ⟨g₁, g₂, h⟩ := exists_padded t
  rw [← trim_padded g₁ g₂ (trim t), ← h]

theorem bare_trim (t : Text) : Bare (trim t) where
  opens  := by
    intro c hc
    obtain ⟨rest, hr⟩ := List.head?_eq_some_iff.mp hc
    obtain ⟨more, hm⟩ := trimEnd_prefix (trimStart t)
    rw [← trim, hr] at hm
    exact trimStart_cons_not_isBlank hm.symm
  closes := by
    intro c hc
    rw [trim, trimEnd, List.getLast?_reverse] at hc
    have shown := List.head?_dropWhile_not isBlank (trimStart t).reverse
    rw [Option.mem_def.mp hc] at shown
    simpa using shown

theorem Bare.trim_eq (h : Bare t) : trim t = t := by
  have closes : trimStart t.reverse = t.reverse := by
    refine trimStart_of_head? fun c hc => h.closes c ?_
    rwa [List.head?_reverse] at hc
  rw [trim, trimStart_of_head? h.opens, trimEnd, ← trimStart, closes, List.reverse_reverse]

theorem bare_iff : Bare t ↔ trim t = t :=
  ⟨Bare.trim_eq, fun h => h ▸ bare_trim t⟩

instance (t : Text) : Decidable (Bare t) :=
  decidable_of_iff _ bare_iff.symm

end TikzPress.Text
