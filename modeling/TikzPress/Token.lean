import TikzPress.Bracket
import TikzPress.Range
import TikzPress.Reader
import TikzPress.Text.Blank

/-!
Readers of the tokens of a statement. A reader takes a value off the front of a text or declines and
takes nothing; blanks before a token belong to it.
-/

namespace TikzPress.Token

def isWordChar (c : Char) : Bool := c.isAlphanum || c = '_'

theorem isWordChar_of_isBlank {c : Char} (h : Text.isBlank c) : isWordChar c = false := by
  have range (ha : c.isAlphanum) : 0x30 ≤ c.toNat ∧ c.toNat < 0x7b := by
    have classes : ((decide ('A'.val ≤ c.val ∧ c.val ≤ 'Z'.val) || ('a'.val ≤ c.val && c.val ≤ 'z'.val)) ||
        ('0'.val ≤ c.val && c.val ≤ '9'.val)) = true := ha
    simp [UInt32.le_iff_toNat_le] at classes
    omega
  have underscore : c ≠ '_' := by
    rintro rfl
    contradiction
  cases ha : c.isAlphanum
  case false => simp [isWordChar, ha, underscore]
  case true =>
    have := range ha
    simp [Text.isBlank] at h
    omega

def literal (l : Text) : Reader Unit := fun t => (Text.dropLiteral? l (Text.trimStart t)).map ((), ·)

def wordHere? (w t : Text) : Option Text :=
  match Text.dropLiteral? w t with
  | some (c :: rest) => if isWordChar c then none else some (c :: rest)
  | other => other

def keyword (w : Text) : Reader Unit := fun t => (wordHere? w (Text.trimStart t)).map ((), ·)

def command (name : Text) : Reader Unit := do
  literal ['\\']
  fun t => (wordHere? name t).map ((), ·)

def group (o c : Char) : Reader Text := fun t => Bracket.take? o c (Text.trimStart t)

-- The blanks before the first token are not part of the range.
def ranged (stop : Nat) (p : Reader α) : Reader (α × Range) := fun t =>
  let t := Text.trimStart t
  (p t).map fun (a, rest) => ((a, ⟨stop - Text.width t, stop - Text.width rest⟩), rest)

end TikzPress.Token
