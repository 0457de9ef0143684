import TikzPress.Range
import TikzPress.Text.Blank

/-!
Splitting a body into statements. A statement ends with a semicolon at brace depth zero; what follows
the last one is a statement of its own unless it is blank. Main statement: a statement and what
follows it make up the text (`append_of_take?`).
-/

namespace TikzPress

structure Slice where
  text : Text
  start : Nat
  deriving DecidableEq, Repr

namespace Statement

-- Up to the first semicolon at brace depth zero, `depth` braces being open. A closing brace without an opening one
-- counts for nothing.
def take? (depth : Nat) : Text → Option (Text × Text)
  | [] => none
  | c :: t =>
    if c = ';' ∧ depth = 0 then some ([c], t)
    else
      let depth := if c = '\x7b' then depth + 1 else if c = '\x7d' then depth - 1 else depth
      (take? depth t).map fun (s, r) => (c :: s, r)

theorem append_of_take? {depth : Nat} {t s r : Text} (h : take? depth t = some (s, r)) :
    s ++ r = t := by
  induction t generalizing depth s
  case nil => simp [take?] at h
  case cons c t ih =>
    simp only [take?] at h
    split at h
    case isTrue =>
      cases h
      rfl
    case isFalse =>
      obtain ⟨⟨s', r'⟩, h', heq⟩ := Option.map_eq_some_iff.mp h
      cases heq
      simp [ih h']

theorem ne_nil_of_take? {depth : Nat} {t s r : Text} (h : take? depth t = some (s, r)) :
    s ≠ [] := by
  cases t
  case nil => simp [take?] at h
  case cons c t =>
    simp only [take?] at h
    split at h
    case isTrue =>
      cases h
      exact List.cons_ne_nil _ _
    case isFalse =>
      obtain ⟨⟨s', r'⟩, h', heq⟩ := Option.map_eq_some_iff.mp h
      cases heq
      exact List.cons_ne_nil _ _

theorem length_lt_of_take? {depth : Nat} {t s r : Text} (h : take? depth t = some (s, r)) :
    r.length < t.length := by
  have := List.length_pos_iff.mpr (ne_nil_of_take? h)
  rw [← append_of_take? h]
  simp
  omega

def splitFrom (start : Nat) (body : Text) : List Slice :=
  match _h : take? 0 body with
  | some (s, rest) => ⟨s, start⟩ :: splitFrom (start + Text.width s) rest
  | none => if Text.isBlankOnly body then [] else [⟨body, start⟩]
termination_by body.length
decreasing_by exact length_lt_of_take? _h

def split (body : Text) : List Slice := splitFrom 0 body

end Statement

def Slice.range (s : Slice) : Range := ⟨s.start, s.start + Text.width s.text⟩

end TikzPress
