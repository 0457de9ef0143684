import TikzPress.Text

/-!
Bracketed groups: the shortest front part of a text that opens with one bracket and holds as many
closing brackets as opening ones. Main statements: a group and what follows it make up the text
(`append_of_take?`), and a group opens and closes with its brackets.
-/

namespace TikzPress.Bracket

-- `depth` groups inside the current one are open.
def close? (o c : Char) (depth : Nat) : Text → Option (Text × Text)
  | [] => none
  | x :: t =>
    if x = o then (close? o c (depth + 1) t).map fun (s, r) => (x :: s, r)
    else if x = c then
      match depth with
      | 0 => some ([x], t)
      | d + 1 => (close? o c d t).map fun (s, r) => (x :: s, r)
    else (close? o c depth t).map fun (s, r) => (x :: s, r)

def take? (o c : Char) : Text → Option (Text × Text)
  | [] => none
  | x :: t => if x = o then (close? o c 0 t).map fun (s, r) => (x :: s, r) else none

theorem append_of_close? {o c : Char} {depth : Nat} {t s r : Text}
    (h : close? o c depth t = some (s, r)) : s ++ r = t := by
  induction t generalizing depth s
  case nil => simp [close?] at h
  case cons x t ih =>
    simp only [close?] at h
    repeat' split at h
    case h_1 =>
      cases h
      rfl
    all_goals
      obtain ⟨⟨s', r'⟩, h', heq⟩ := Option.map_eq_some_iff.mp h
      cases heq
      simp [ih h']

theorem append_of_take? {o c : Char} {t s r : Text} (h : take? o c t = some (s, r)) :
    s ++ r = t := by
  cases t
  case nil => simp [take?] at h
  case cons x t =>
    simp only [take?] at h
    split at h
    case isTrue =>
      obtain ⟨⟨s', r'⟩, h', heq⟩ := Option.map_eq_some_iff.mp h
      cases heq
      simp [append_of_close? h']
    case isFalse => contradiction

theorem close?_eq_append {o c : Char} {depth : Nat} {t s r : Text}
    (h : close? o c depth t = some (s, r)) : ∃ inner, s = inner ++ [c] := by
  induction t generalizing depth s
  case nil => simp [close?] at h
  case cons x t ih =>
    simp only [close?] at h
    repeat' split at h
    case h_1 _ hx _ =>
      cases h
      exact ⟨[], by simp [hx]⟩
    all_goals
      obtain ⟨⟨s', r'⟩, h', heq⟩ := Option.map_eq_some_iff.mp h
      cases heq
      obtain ⟨inner, rfl⟩ := ih h'
      exact ⟨x :: inner, rfl⟩

theorem take?_eq_append {o c : Char} {t s r : Text} (h : take? o c t = some (s, r)) :
    ∃ inner, s = o :: inner ++ [c] := by
  cases t
  case nil => simp [take?] at h
  case cons x t =>
    simp only [take?] at h
    split at h
    case isTrue hx =>
      obtain ⟨⟨s', r'⟩, h', heq⟩ := Option.map_eq_some_iff.mp h
      cases heq
      obtain ⟨inner, rfl⟩ := close?_eq_append h'
      exact ⟨inner, by simp [hx]⟩
    case isFalse => contradiction

end TikzPress.Bracket
