import TikzPress.Text

/-!
Occurrences of one text in another. Main statement: cutting a text at the first occurrence of a
literal gives parts that join up again around it (`append_of_cut?`).
-/

namespace TikzPress.Text

def cut? (literal : Text) : Text → Option (Text × Text)
  | [] => if literal = [] then some ([], []) else none
  | c :: t =>
    match dropLiteral? literal (c :: t) with
    | some rest => some ([], rest)
    | none => (cut? literal t).map fun (lead, rest) => (c :: lead, rest)

theorem append_of_cut? {literal t lead rest : Text} (h : cut? literal t = some (lead, rest)) :
    lead ++ literal ++ rest = t := by
  induction t generalizing lead
  case nil =>
    simp only [cut?] at h
    split at h <;> simp_all
  case cons c t ih =>
    simp only [cut?] at h
    split at h
    case h_1 r hr =>
      cases h
      simp [dropLiteral?_eq_some_iff.mp hr]
    case h_2 =>
      obtain ⟨⟨lead', rest'⟩, h', heq⟩ := Option.map_eq_some_iff.mp h
      cases heq
      simp [← ih h']

theorem length_lt_of_cut? {literal t lead rest : Text} (hl : literal ≠ [])
    (h : cut? literal t = some (lead, rest)) : rest.length < t.length := by
  have := List.length_pos_iff.mpr hl
  rw [← append_of_cut? h]
  simp
  omega

def occursIn (literal t : Text) : Bool := (cut? literal t).isSome

def offsetsFrom (literal : Text) (offset : Nat) : Text → List Nat
  | [] => if literal = [] then [offset] else []
  | c :: t =>
    let later := offsetsFrom literal (offset + c.utf8Size) t
    if opensWith literal (c :: t) then offset :: later else later

def offsets (literal t : Text) : List Nat := offsetsFrom literal 0 t

end TikzPress.Text
