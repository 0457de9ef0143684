import TikzPress.Bracket
import TikzPress.Range
import TikzPress.Text.Occurrence

/-!
Regions between `\begin{…}` and the `\end{…}` that balances it. Nested regions of the same
environment are counted, so an inner end never closes the outer region. Main statement: a region,
what precedes it and what follows it make up the text (`append_of_find?`).
-/

namespace TikzPress

structure Region where
  name : Text
  lead : Text
  inner : Text
  rest : Text
  deriving DecidableEq, Repr

namespace Environment

def opening (name : Text) : Text := "\\begin\x7b".toList ++ name ++ ['\x7d']

def closing (name : Text) : Text := "\\end\x7b".toList ++ name ++ ['\x7d']

theorem opening_ne_nil (name : Text) : opening name ≠ [] :=
  List.append_ne_nil_of_right_ne_nil _ (List.cons_ne_nil _ _)

theorem closing_ne_nil (name : Text) : closing name ≠ [] :=
  List.append_ne_nil_of_right_ne_nil _ (List.cons_ne_nil _ _)

theorem length_lt_of_dropLiteral? {l t r : Text} (hl : l ≠ [])
    (h : Text.dropLiteral? l t = some r) : r.length < t.length := by
  have := List.length_pos_iff.mpr hl
  rw [Text.dropLiteral?_eq_some_iff.mp h]
  simp
  omega

-- `depth` regions inside the current one are open.
def close? (name : Text) (depth : Nat) : Text → Option (Text × Text)
  | [] => none
  | c :: t =>
    match _h : Text.dropLiteral? (opening name) (c :: t) with
    | some rest => (close? name (depth + 1) rest).map fun (s, r) => (opening name ++ s, r)
    | none =>
      match _h : Text.dropLiteral? (closing name) (c :: t) with
      | some rest =>
        match depth with
        | 0 => some ([], rest)
        | d + 1 => (close? name d rest).map fun (s, r) => (closing name ++ s, r)
      | none => (close? name depth t).map fun (s, r) => (c :: s, r)
termination_by t => t.length
decreasing_by
  · exact length_lt_of_dropLiteral? (opening_ne_nil name) _h
  · exact length_lt_of_dropLiteral? (closing_ne_nil name) _h
  · simp

theorem append_of_close? {name : Text} {depth : Nat} {t s r : Text}
    (h : close? name depth t = some (s, r)) : s ++ closing name ++ r = t := by
  fun_induction close? name depth t generalizing s
  case case1 => simp at h
  case case2 depth c t rest hrest ih =>
    obtain ⟨⟨s', r'⟩, h', heq⟩ := Option.map_eq_some_iff.mp h
    cases heq
    simp [Text.dropLiteral?_eq_some_iff.mp hrest, ← ih h']
  case case3 c t _ rest hrest =>
    cases h
    simp [Text.dropLiteral?_eq_some_iff.mp hrest]
  case case4 c t _ rest hrest d ih =>
    obtain ⟨⟨s', r'⟩, h', heq⟩ := Option.map_eq_some_iff.mp h
    cases heq
    simp [Text.dropLiteral?_eq_some_iff.mp hrest, ← ih h']
  case case5 depth c t _ _ ih =>
    obtain ⟨⟨s', r'⟩, h', heq⟩ := Option.map_eq_some_iff.mp h
    cases heq
    simp [← ih h']

def find? (name : Text) (t : Text) : Option Region := do
  let (lead, rest) ← Text.cut? (opening name) t
  let (inner, rest) ← close? name 0 rest
  return ⟨name, lead, inner, rest⟩

def bounds? (source name : Text) (start : Nat) : Option Range := do
  let t ← Text.dropBytes? start source
  let region ← find? name t
  return ⟨start + Text.width region.lead, Text.width source - Text.width region.rest⟩

end Environment

namespace Region

open Environment

def text (r : Region) : Text := opening r.name ++ r.inner ++ closing r.name

def earlier : Option Region → Option Region → Option Region
  | some a, some b => if b.lead.length < a.lead.length then some b else some a
  | some a, none => some a
  | none, b => b

def supported : List Text := ["tikzpicture".toList, "circuitikz".toList]

def next? (t : Text) : Option Region := (supported.map (find? · t)).foldl earlier none

end Region

namespace Environment

theorem append_of_find? {name t : Text} {r : Region} (h : find? name t = some r) :
    r.lead ++ r.text ++ r.rest = t := by
  simp only [find?, Option.bind_eq_bind, Option.bind_eq_some_iff, Option.pure_def,
    Option.some.injEq] at h
  obtain ⟨⟨lead, rest⟩, h₁, ⟨inner, rest'⟩, h₂, rfl⟩ := h
  have h₂ := append_of_close? h₂
  simp only at h₂
  simp [Region.text, ← Text.append_of_cut? h₁, ← h₂]

end Environment

namespace Region

theorem earlier_eq_or (a b : Option Region) : earlier a b = a ∨ earlier a b = b := by
  cases a
  case none => exact .inr rfl
  case some a =>
    cases b
    case none => exact .inl rfl
    case some b =>
      simp only [earlier]
      split
      case isTrue  => exact .inr rfl
      case isFalse => exact .inl rfl

theorem exists_find?_of_next? {t : Text} {r : Region} (h : next? t = some r) :
    ∃ name ∈ supported, Environment.find? name t = some r := by
  simp only [next?, supported, List.map, List.foldl] at h ⊢
  rcases earlier_eq_or (earlier none (Environment.find? "tikzpicture".toList t))
      (Environment.find? "circuitikz".toList t) with e | e
  case inl =>
    rw [e] at h
    exact ⟨_, .head _, by simpa [earlier] using h⟩
  case inr =>
    rw [e] at h
    exact ⟨_, .tail _ (.head _), h⟩

theorem append_of_next? {t : Text} {r : Region} (h : next? t = some r) :
    r.lead ++ r.text ++ r.rest = t :=
  have ⟨_, _, h⟩ := exists_find?_of_next? h
  Environment.append_of_find? h

theorem length_rest_lt_of_next? {t : Text} {r : Region} (h : next? t = some r) :
    r.rest.length < t.length := by
  rw [← append_of_next? h]
  have := List.length_pos_iff.mpr (Environment.opening_ne_nil r.name)
  simp [text]
  omega

end Region
end TikzPress
