import Mathlib.Tactic.Basic
import TikzPress.Text

/-!
Where a text can be cut. A cut is possible at the bytes where a character begins or the text ends. Main
statements: a text is cut into the part behind a byte exactly if that byte is such a boundary
(`dropBytes?_eq_some_iff`), and all other bytes are inside a character or behind the text (`not_boundary_iff`).
-/

namespace TikzPress.Text

variable {t u : Text} {n : Nat} {c : Char}

-- The first `n` bytes are whole characters.
def Boundary (t : Text) (n : Nat) : Prop :=
  ∃ lead rest, lead ++ rest = t ∧ width lead = n

-- The byte `n` is a part of a character, but not its first one.
def Inside (t : Text) (n : Nat) : Prop :=
  ∃ lead c rest, lead ++ c :: rest = t ∧ width lead < n ∧ n < width lead + c.utf8Size

theorem dropBytes?_eq_some_iff : dropBytes? n t = some u ↔ ∃ lead, lead ++ u = t ∧ width lead = n := by
  constructor
  case mpr =>
    rintro ⟨lead, rfl, rfl⟩
    exact dropBytes?_width_append lead u
  case mp =>
    intro h
    fun_induction dropBytes? n t
    case case1 => cases h; exact ⟨[], rfl, rfl⟩
    case case2 => contradiction
    case case3 n c t hc ih =>
      obtain ⟨lead, rfl, hw⟩ := ih h
      refine ⟨c :: lead, rfl, ?_⟩
      rw [width_cons, hw]
      omega
    case case4 => contradiction

theorem boundary_cons_iff : Boundary (c :: t) n ↔ n = 0 ∨ ∃ m, Boundary t m ∧ n = c.utf8Size + m := by
  constructor
  case mp =>
    rintro ⟨lead, rest, h, rfl⟩
    cases lead
    case nil       => exact .inl rfl
    case cons d ds =>
      cases h
      exact .inr ⟨_, ⟨ds, rest, rfl, rfl⟩, rfl⟩
  case mpr =>
    rintro (rfl | ⟨_, ⟨lead, rest, rfl, rfl⟩, rfl⟩)
    case inl => exact ⟨[], c :: t, rfl, rfl⟩
    case inr => exact ⟨c :: lead, rest, rfl, rfl⟩

theorem inside_cons_iff :
    Inside (c :: t) n ↔ (0 < n ∧ n < c.utf8Size) ∨ ∃ m, Inside t m ∧ n = c.utf8Size + m := by
  constructor
  case mp =>
    rintro ⟨lead, d, rest, h, hl, hr⟩
    cases lead
    case nil =>
      cases h
      exact .inl (by simpa using And.intro hl hr)
    case cons =>
      cases h
      rw [width_cons] at hl hr
      exact .inr ⟨n - c.utf8Size, ⟨_, d, rest, rfl, by omega, by omega⟩, by omega⟩
  case mpr =>
    rintro (⟨hl, hr⟩ | ⟨m, ⟨lead, d, rest, rfl, hl, hr⟩, rfl⟩)
    case inl => exact ⟨[], c, t, rfl, by simpa using hl, by simpa using hr⟩
    case inr => exact ⟨c :: lead, d, rest, rfl, by rw [width_cons]; omega, by rw [width_cons]; omega⟩

theorem not_boundary_iff : ¬Boundary t n ↔ width t < n ∨ Inside t n := by
  induction t generalizing n
  case nil =>
    simp [Boundary, Inside, Nat.pos_iff_ne_zero, eq_comm]
  case cons c t ih =>
    have hc := c.utf8Size_pos
    rw [boundary_cons_iff, inside_cons_iff, width_cons]
    rcases Nat.lt_or_ge n c.utf8Size with hn | hn
    case inl =>
      have behind : ∀ m, n ≠ c.utf8Size + m := fun m => by omega
      have within : ¬c.utf8Size + width t < n := by omega
      simp [behind, within, hn, Nat.pos_iff_ne_zero]
    case inr =>
      obtain ⟨m, rfl⟩ := Nat.exists_eq_add_of_le hn
      have behind : ¬c.utf8Size + m < c.utf8Size := by omega
      simp [Nat.ne_of_gt hc, behind, ih]

end TikzPress.Text
