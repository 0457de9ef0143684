import TikzPress.Text

/-!
Readers: functions that take a value off the front of a text, or decline.
-/

namespace TikzPress

abbrev Reader := StateT Text Option

namespace Reader

def many (p : Reader α) (t : Text) : List α × Text :=
  match p t with
  | none => ([], t)
  | some (a, rest) =>
    if rest.length < t.length then
      let (as, rest) := many p rest
      (a :: as, rest)
    else ([], t)
termination_by t.length

end Reader
end TikzPress
