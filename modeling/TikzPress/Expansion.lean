import TikzPress.Text.Alphanumeric
import TikzPress.Text.Occurrence

/-!
References to environment variables in settings. A value without `${` stands for itself. In any other
value `${NAME}` and `${NAME:-default}` are replaced, and so is a bare `$NAME`; two dollar signs stand
for one. What is put in is not looked at again. The home directory is the one that `HOME` names; the one that
the system has on record for the account is not asked for.
-/

namespace TikzPress

abbrev Variables := List (Text × Text)

namespace Expansion

-- A name, and perhaps a default after the first `:-`, unless that comes first.
def splitReference (inner : Text) : Text × Option Text :=
  match Text.cut? ":-".toList inner with
  | some (c :: name, value) => (c :: name, some value)
  | _ => (inner, none)

-- The error is the name of a variable that is not set.
def resolve (env : Variables) (inner : Text) : Except Text Text :=
  let (name, value?) := splitReference inner
  match env.lookup name, value? with
  | some value, _ => .ok value
  | none, some value => .ok value
  | none, none => .error name

def isNameChar (c : Char) : Bool := Text.isAlphanumeric c || c = '_'

def expandAll (env : Variables) : Text → Except Text Text
  | [] => .ok []
  | '$' :: '\x7b' :: t =>
    match _h : Text.cutAtChar? '\x7d' t with
    | some (inner, rest) => do
      let value ← resolve env inner
      return value ++ (← expandAll env rest)
    | none => do return '$' :: '\x7b' :: (← expandAll env t)
  | '$' :: '$' :: t => do return '$' :: (← expandAll env t)
  | '$' :: t =>
    match t.takeWhile isNameChar with
    | [] => do return '$' :: (← expandAll env t)
    | c :: name => do
      match env.lookup (c :: name) with
      | some value => return value ++ (← expandAll env (t.drop (name.length + 1)))
      | none => .error (c :: name)
  | c :: t => do return c :: (← expandAll env t)
termination_by t => t.length
decreasing_by
  all_goals simp only [List.length_cons, List.length_drop]
  · have := Text.length_lt_of_cutAtChar? _h
    omega
  all_goals omega

def expand (env : Variables) (value : Text) : Except Text Text :=
  if Text.occursIn "$\x7b".toList value then expandAll env value else .ok value

def mentioned : Text → List Text
  | [] => []
  | '$' :: '\x7b' :: t =>
    match Text.cutAtChar? '\x7d' t with
    | some (inner, _) => (splitReference inner).1 :: mentioned t
    | none => mentioned t
  | '$' :: t => t.takeWhile isNameChar :: mentioned t
  | _ :: t => mentioned t

-- A tilde stands for itself if `HOME` is not set or empty.
def home? (env : Variables) : Option Text :=
  (env.lookup "HOME".toList).filter (· ≠ [])

def expandTilde (env : Variables) (path : Text) : Text :=
  match path, home? env with
  | ['~'], some home => home
  | '~' :: '/' :: rest, some home => home ++ '/' :: rest
  | _, _ => path

def dataDirectory (env : Variables) : Text :=
  match env.lookup "XDG_DATA_HOME".toList with
  | some (c :: directory) => c :: directory
  | _ => expandTilde env "~/.local/share".toList

end Expansion
end TikzPress
