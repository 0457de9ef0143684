import TikzPress.Reference
import TikzPress.Proofs.Text.Trim

/-!
What a text in parentheses refers to. Between the parentheses stands, apart from blanks at both ends, nothing, a
name, a name and an anchor with a point between them, or what has a comma. Main statements: exactly one place
belongs to such a text (`refers_iff`), and exactly one point of the plane or none (`locates_iff`).
-/

namespace TikzPress.Reference

open Text

-- The place that belongs to the text between the parentheses. What has a comma keeps its points.
inductive Refers : Text → Place → Prop
  | nothing {inner : Text} : isBlankOnly inner → Refers inner .anonymous
  | whole {t : Text} {g₁ g₂ : Gap} : t ≠ [] → Bare t → ',' ∈ t ∨ '.' ∉ t →
      Refers (g₁.text ++ t ++ g₂.text) (.named t none)
  | anchored {name anchor : Text} {g₁ g₂ : Gap} : Bare (name ++ ['.'] ++ anchor) → ',' ∉ name ++ ['.'] ++ anchor →
      '.' ∉ name → Refers (g₁.text ++ (name ++ ['.'] ++ anchor) ++ g₂.text) (.named name (some anchor))

-- A number with blanks around it.
inductive Number : Text → Binary64 → Prop
  | padded {t : Text} {x : Binary64} {g₁ g₂ : Gap} : Bare t → Binary64.read? t = some x →
      Number (g₁.text ++ t ++ g₂.text) x

-- The point that belongs to the text between the parentheses, if there is a number on each side of the first comma.
inductive Locates : Text → Option Coordinate → Prop
  | pair {s t : Text} {x y : Binary64} : ',' ∉ s → Number s x → Number t y →
      Locates (s ++ [','] ++ t) (some ⟨x, y⟩)
  | unread {s t : Text} : ',' ∉ s → (∀ x y, Number s x → ¬Number t y) → Locates (s ++ [','] ++ t) none
  | lone {inner : Text} : ',' ∉ inner → Locates inner none

def parenthesized (inner : Text) : Text :=
  ['('] ++ inner ++ [')']

-- A reference keeps its text as it is.
structure Shows (text : Text) (r : Reference) : Prop where
  raw   : r.raw = text
  place : ∃ inner, text = parenthesized inner ∧ Refers inner r.place

-- The name that a text in parentheses gives, if there is such a text.
inductive Names : Option Text → Option Text → Prop
  | missing : Names none none
  | nothing {inner : Text} : Refers inner .anonymous → Names (some (parenthesized inner)) none
  | name {inner name : Text} {anchor : Option Text} :
      Refers inner (.named name anchor) → Names (some (parenthesized inner)) (some name)

-- The point that a text in parentheses gives, if there is such a text.
inductive Points : Option Text → Option Coordinate → Prop
  | missing : Points none none
  | given {inner : Text} {p : Option Coordinate} : Locates inner p → Points (some (parenthesized inner)) p

variable {inner s t : Text} {p : Place} {x : Binary64} {q : Option Coordinate}

theorem place_ofRaw (inner : Text) : (ofRaw (parenthesized inner)).place = .ofInner inner :=
  congrArg Place.ofInner List.dropLast_concat

section Places

theorem refers_ofInner (inner : Text) : Refers inner (.ofInner inner) := by
  obtain ⟨g₁, g₂, h⟩ := exists_padded inner
  have bare := bare_trim inner
  simp only [Place.ofInner]
  split
  case isTrue hn => exact .nothing (trim_eq_nil_iff.mp hn)
  case isFalse hn =>
    generalize trim inner = t at h bare hn
    subst h
    split
    case isTrue hc => exact .whole hn bare (.inl hc)
    case isFalse hc =>
      split
      case h_1 name anchor cut =>
        obtain ⟨rfl, hp⟩ := cutAtChar?_eq_some_iff.mp cut
        exact .anchored bare hc hp
      case h_2 cut => exact .whole hn bare (.inr (cutAtChar?_eq_none_iff.mp cut))

theorem Refers.eq (h : Refers inner p) : p = .ofInner inner := by
  cases h
  case nothing hb => simp only [Place.ofInner, if_pos (trim_eq_nil_iff.mpr hb)]
  case whole t g₁ g₂ hn bare hc =>
    simp only [Place.ofInner, trim_padded, bare.trim_eq, if_neg hn]
    split
    case isTrue => rfl
    case isFalse hm => simp only [cutAtChar?_eq_none_iff.mpr (hc.resolve_left hm)]
  case anchored name anchor g₁ g₂ bare hc hp =>
    have cut : cutAtChar? '.' (name ++ ['.'] ++ anchor) = _ := cutAtChar?_eq_some_iff.mpr ⟨rfl, hp⟩
    have full : name ++ ['.'] ++ anchor ≠ [] := by simp
    simp only [Place.ofInner, trim_padded, bare.trim_eq, if_neg full, if_neg hc, cut]

theorem refers_iff : Refers inner p ↔ p = .ofInner inner :=
  ⟨Refers.eq, fun h => h ▸ refers_ofInner inner⟩

theorem shows_ofRaw (g : Bracket.Group '(' ')' t) : Shows t (.ofRaw t) := by
  obtain ⟨inner, rfl⟩ := g.exists_inner (by decide)
  exact ⟨rfl, inner, rfl, place_ofRaw inner ▸ refers_ofInner inner⟩

theorem names_ofRaw (g : Bracket.Group '(' ')' t) : Names (some t) (ofRaw t).name? := by
  obtain ⟨-, inner, rfl, h⟩ := shows_ofRaw g
  rw [name?]
  split
  case h_1 hp => exact .nothing (hp ▸ h)
  case h_2 hp => exact .name (hp ▸ h)

end Places

section Coordinates

theorem number_iff : Number t x ↔ Binary64.read? (trim t) = some x := by
  constructor
  case mp =>
    rintro ⟨bare, h⟩
    rwa [trim_padded, bare.trim_eq]
  case mpr =>
    intro h
    obtain ⟨g₁, g₂, ht⟩ := exists_padded t
    rw [ht]
    exact .padded (bare_trim t) h

theorem ofRaw?_parenthesized (inner : Text) : Coordinate.ofRaw? (parenthesized inner) = do
    let (x, y) ← cutAtChar? ',' inner
    return ⟨← Binary64.read? (trim x), ← Binary64.read? (trim y)⟩ := by
  have width : width (parenthesized inner) - 1 = width ['('] + width inner := by
    simp only [parenthesized, width_append]
    rfl
  have slice : slice? (parenthesized inner) 1 (Text.width (parenthesized inner) - 1) = some inner := by
    rw [width]
    exact slice?_append ['('] inner [')']
  have full : parenthesized inner ≠ [] := List.cons_ne_nil _ _
  simp [Coordinate.ofRaw?, slice, guard, full]

theorem ofRaw?_pair (hs : ',' ∉ s) (t : Text) : Coordinate.ofRaw? (parenthesized (s ++ [','] ++ t)) =
    (Binary64.read? (trim s)).bind fun x => (Binary64.read? (trim t)).map fun y => ⟨x, y⟩ := by
  rw [ofRaw?_parenthesized, cutAtChar?_eq_some_iff.mpr ⟨rfl, hs⟩]
  simp only [Option.map_eq_bind]
  rfl

theorem ofRaw?_lone (h : ',' ∉ inner) : Coordinate.ofRaw? (parenthesized inner) = none := by
  rw [ofRaw?_parenthesized, cutAtChar?_eq_none_iff.mpr h]
  rfl

theorem ofRaw?_unread (hs : ',' ∉ s) (h : ∀ x y, Number s x → ¬Number t y) :
    Coordinate.ofRaw? (parenthesized (s ++ [','] ++ t)) = none := by
  rw [ofRaw?_pair hs, Option.bind_eq_none_iff]
  intro x hx
  refine Option.map_eq_none_iff.mpr (Option.eq_none_iff_forall_ne_some.mpr fun y hy => ?_)
  exact h x y (number_iff.mpr hx) (number_iff.mpr hy)

theorem locates_ofRaw? (inner : Text) : Locates inner (Coordinate.ofRaw? (parenthesized inner)) := by
  cases cut : cutAtChar? ',' inner
  case none =>
    have lone := cutAtChar?_eq_none_iff.mp cut
    rw [ofRaw?_lone lone]
    exact .lone lone
  case some both =>
    obtain ⟨rfl, hs⟩ := cutAtChar?_eq_some_iff.mp cut
    by_cases h : ∃ x y, Number both.1 x ∧ Number both.2 y
    case pos =>
      obtain ⟨x, y, hx, hy⟩ := h
      rw [ofRaw?_pair hs, number_iff.mp hx, number_iff.mp hy]
      exact .pair hs hx hy
    case neg =>
      have unread : ∀ x y, Number both.1 x → ¬Number both.2 y := fun x y hx hy => h ⟨x, y, hx, hy⟩
      rw [ofRaw?_unread hs unread]
      exact .unread hs unread

theorem Locates.eq (h : Locates inner q) : q = Coordinate.ofRaw? (parenthesized inner) := by
  cases h
  case pair hs hx hy =>
    rw [ofRaw?_pair hs, number_iff.mp hx, number_iff.mp hy]
    rfl
  case unread hs h => exact (ofRaw?_unread hs h).symm
  case lone h      => exact (ofRaw?_lone h).symm

theorem locates_iff : Locates inner q ↔ q = Coordinate.ofRaw? (parenthesized inner) :=
  ⟨Locates.eq, fun h => h ▸ locates_ofRaw? inner⟩

theorem points_ofRaw (g : Bracket.Group '(' ')' t) : Points (some t) (ofRaw t).coordinate? := by
  obtain ⟨inner, rfl⟩ := g.exists_inner (by decide)
  exact .given (locates_ofRaw? inner)

end Coordinates
end TikzPress.Reference
