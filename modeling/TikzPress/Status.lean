import TikzPress.Text

/-!
The state of the compilation of one key.
-/

namespace TikzPress

inductive Status where
  | absent
  | pending
  | resolved (artifact : Text)
  | failed (message : Text)
  deriving DecidableEq, Repr, Inhabited

def Status.isSettled : Status → Bool
  | resolved _ | failed _ => true
  | absent | pending => false

end TikzPress
