import TikzPress.Token

/-!
Option lists `[…]` and their items.
-/

namespace TikzPress

structure OptionList where
  raw : Text
  deriving DecidableEq, Repr

namespace OptionList

def read : Reader OptionList := mk <$> Token.group '[' ']'

def inner (o : OptionList) : Text := (Text.slice? o.raw 1 (Text.width o.raw - 1)).getD []

-- Braces and parentheses count together, and a closing one without an opening one counts for nothing.
def depthAfter (depth : Nat) (c : Char) : Nat :=
  if c = '\x7b' ∨ c = '(' then depth + 1
  else if c = '\x7d' ∨ c = ')' then depth - 1
  else depth

def pieces (depth : Nat) : Text → List Text
  | [] => [[]]
  | c :: t =>
    if c = ',' ∧ depth = 0 then [] :: pieces depth t
    else match pieces (depthAfter depth c) t with
      | [] => [[c]]
      | p :: ps => (c :: p) :: ps

def items (o : OptionList) : List Text :=
  ((pieces 0 o.inner).map Text.trim).filter (· ≠ [])

end OptionList
end TikzPress
