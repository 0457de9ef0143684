import Mathlib.Data.List.TakeWhile
import TikzPress.Proofs.Picture.Written

/-!
Where no layer opens. The search for the marker of a layer passes over a text if the marker stands nowhere in
it and cannot begin in it either. Main statement: no layer opens in a part in brackets, even if what follows
the part goes on like a marker (`Part.clear`).
-/

namespace TikzPress.Picture

open TikzPress.Bracket TikzPress.Statement

theorem eq_layerOpening_of_layerHere? {t name rest : Text} (h : layerHere? t = some (name, rest)) :
    t = layerOpening name ++ rest ∧ name ≠ [] ∧ '\x7d' ∉ name := by
  unfold layerHere? at h
  split at h
  case h_1 => contradiction
  case h_2 u hu =>
    split at h
    case h_1 => contradiction
    case h_2 c r hr =>
      have hc : c = '\x7d' := by
        have := List.head?_dropWhile_not (· ≠ '\x7d') u
        rw [hr] at this
        simpa using this
      have hu' := List.takeWhile_append_dropWhile (p := (· ≠ '\x7d')) (l := u)
      dsimp only at h
      split at h
      case isTrue     => contradiction
      case isFalse hn =>
        simp only [Option.some.injEq, Prod.mk.injEq] at h
        rw [hr, hc, h.left, h.right] at hu'
        refine ⟨?_, fun hn' => hn (h.left.trans hn'), fun hm => ?_⟩
        case refine_1 =>
          rw [Text.dropLiteral?_eq_some_iff.mp hu, ← hu']
          unfold layerOpening
          generalize "\\begin\x7bpgfonlayer\x7d\x7b".toList = front
          simp
        case refine_2 =>
          rw [← h.left] at hm
          simpa using List.mem_takeWhile_imp hm

theorem layersOf_of_nextLayer?_eq_none {t : Text} (h : nextLayer? t = none) (stop : Nat) :
    layersOf stop t = [] := by
  rw [layersOf]
  split
  case h_1       => rfl
  case h_2 found => rw [h] at found; contradiction

-- No layer opens in a text, whatever follows it.
def Clear (t : Text) : Prop :=
  ∀ rest, nextLayer? (t ++ rest) = nextLayer? rest

namespace Clear

theorem append {s t : Text} (hs : Clear s) (ht : Clear t) : Clear (s ++ t) := by
  intro rest
  rw [List.append_assoc, hs, ht]

theorem of_suffix {t : Text} (h : ∀ s, s <:+ t → s ≠ [] → ∀ rest, layerHere? (s ++ rest) = none) :
    Clear t := by
  intro rest
  induction t
  case nil => rfl
  case cons c t hi =>
    rw [List.cons_append, nextLayer?, ← List.cons_append, h _ List.suffix_rfl (List.cons_ne_nil _ _)]
    exact hi fun s hs => h s (hs.trans (List.suffix_cons c t))

theorem nextLayer?_eq_none {t : Text} (h : Clear t) : nextLayer? t = none := by
  have := h []
  rwa [List.append_nil] at this

end Clear

-- What opens with a character does not open with another one.
theorem layerHere?_cons_of_ne {c : Char} (h : c ≠ '\\') (t : Text) : layerHere? (c :: t) = none := by
  simp [layerHere?, Text.dropLiteral?, h.symm]

theorem layerHere?_command {c : Char} (h : c ≠ 'b') (t : Text) : layerHere? ('\\' :: c :: t) = none := by
  simp [layerHere?, Text.dropLiteral?, h.symm]

theorem clear_of_not_mem {t : Text} (h : '\\' ∉ t) : Clear t := by
  refine .of_suffix fun s hs hn rest => ?_
  obtain ⟨c, s, rfl⟩ := List.exists_cons_of_ne_nil hn
  exact layerHere?_cons_of_ne (fun hc => h (hs.subset (hc ▸ .head _))) _

-- Among the front parts of a marker that close as many braces as they open, only one ends in a bracket.
theorem front_layerOpening {name s : Text} (hs : s <+: layerOpening name) (hn : s ≠ layerOpening name)
    (hname : '\x7d' ∉ name) (hb : braces s ≤ 0) :
    s = "\\begin\x7bpgfonlayer\x7d".toList ∨ s.getLast? ∉ [']', ')', '\x7d'].map some := by
  have front : ∀ s ∈ "\\begin\x7bpgfonlayer\x7d\x7b".toList.inits, braces s ≤ 0 →
      s = "\\begin\x7bpgfonlayer\x7d".toList ∨ s.getLast? ∉ [']', ')', '\x7d'].map some := by
    decide
  have hs' := (List.prefix_concat_iff.mp hs).resolve_left hn
  rcases List.prefix_or_prefix_of_prefix hs' (List.prefix_append _ name) with h | ⟨u, rfl⟩
  case inl => exact front s ((List.mem_inits _ _).mpr h) hb
  case inr =>
    -- The brace before the name is open.
    have hu : '\x7d' ∉ u := fun hm => hname (((List.prefix_append_right_inj _).mp hs').subset hm)
    have hf : braces "\\begin\x7bpgfonlayer\x7d\x7b".toList = 1 := by decide
    rw [braces_append, hf, braces, depth, List.count_eq_zero_of_not_mem hu] at hb
    omega

namespace Written.Part

variable (p : Part k)

theorem braces_suffix_le {s : Text} (hs : s <:+ p.text) : braces s ≤ 0 := by
  obtain ⟨q, hq⟩ := hs
  have hp := p.braced.nonneg q ((List.mem_inits _ _).mpr ⟨s, hq⟩)
  have hc := p.braced.closed
  rw [← hq, braces_append] at hc
  omega

theorem clear : Clear p.text := by
  refine .of_suffix fun s hs hn rest => ?_
  cases h : layerHere? (s ++ rest)
  case none => rfl
  case some found =>
    exfalso
    obtain ⟨hm, hname, hbrace⟩ := eq_layerOpening_of_layerHere? h
    have whole : ¬layerOpening found.1 <+: s := fun hp =>
      p.unmarked _ hname hbrace (hp.isInfix.trans hs.isInfix)
    have hp := List.prefix_or_prefix_of_prefix ⟨rest, rfl⟩ (hm ▸ List.prefix_append _ found.2)
    have hp := hp.resolve_right whole
    have last : s.getLast? = some k.closing := by
      obtain ⟨q, hq⟩ := hs
      rw [← p.group.getLast?_eq k.opening_ne_closing, ← hq, List.getLast?_append_of_ne_nil _ hn]
    have hne : s ≠ layerOpening found.1 := fun he => whole (he ▸ List.prefix_rfl)
    rcases front_layerOpening hp hne hbrace (p.braces_suffix_le hs) with rfl | hl
    case inl =>
      cases k
      case label =>
        have ho : "\\begin\x7bpgfonlayer\x7d".toList ≠ p.text := fun he =>
          absurd (he ▸ p.group.opens) (by decide)
        exact absurd (p.group.depth_suffix_neg hs hn ho) (by decide)
      all_goals contradiction
    case inr =>
      rw [last] at hl
      cases k <;> exact absurd hl (by decide)

end Written.Part
end TikzPress.Picture
