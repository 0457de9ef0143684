import TikzPress.Decimal.Shortest

/-!
JSON values and their two written forms: compact, and indented by two spaces. The fields of an object
are written in the alphabetical order of their names.
-/

namespace TikzPress

inductive Json where
  | null
  | bool (b : Bool)
  | natural (n : Nat)
  | real (x : Binary64)
  | text (t : Text)
  | array (items : List Json)
  | object (fields : List (Text × Json))
  deriving Inhabited

namespace Json

def ofOption (f : α → Json) : Option α → Json
  | none => null
  | some a => f a

def ofFields (fields : List (String × Json)) : Json :=
  object ((fields.map fun (k, v) => (k.toList, v)).mergeSort fun a b => !Text.before b.1 a.1)

def ofEntries (fields : List (Text × Json)) : Json :=
  object (fields.mergeSort fun a b => !Text.before b.1 a.1)

def escapeChar (c : Char) : Text :=
  if c = '"' then ['\\', '"']
  else if c = '\\' then ['\\', '\\']
  else if c.toNat < 0x20 then
    match c.toNat with
    | 8 => ['\\', 'b']
    | 9 => ['\\', 't']
    | 10 => ['\\', 'n']
    | 12 => ['\\', 'f']
    | 13 => ['\\', 'r']
    | n => ['\\', 'u', '0', '0', Nat.digitChar (n / 16), Nat.digitChar (n % 16)]
  else [c]

def quote (t : Text) : Text := '"' :: t.flatMap escapeChar ++ ['"']

mutual

-- A number that is not finite is written as null.
def compact : Json → Text
  | null => "null".toList
  | bool b => (if b then "true" else "false").toList
  | natural n => Text.ofNat n
  | real x => x.text?.getD "null".toList
  | text t => quote t
  | array items => '[' :: compactItems items ++ [']']
  | object fields => '\x7b' :: compactFields fields ++ ['\x7d']

def compactItems : List Json → Text
  | [] => []
  | [x] => compact x
  | x :: y :: rest => compact x ++ ',' :: compactItems (y :: rest)

def compactFields : List (Text × Json) → Text
  | [] => []
  | [(k, x)] => quote k ++ ':' :: compact x
  | (k, x) :: y :: rest => quote k ++ ':' :: compact x ++ ',' :: compactFields (y :: rest)

end

def newline (depth : Nat) : Text := '\n' :: List.replicate (2 * depth) ' '

mutual

-- Empty containers stay on their line.
def pretty (depth : Nat) : Json → Text
  | null => "null".toList
  | bool b => (if b then "true" else "false").toList
  | natural n => Text.ofNat n
  | real x => x.text?.getD "null".toList
  | text t => quote t
  | array [] => "[]".toList
  | array (x :: items) => '[' :: prettyItems (depth + 1) (x :: items) ++ newline depth ++ [']']
  | object [] => "\x7b\x7d".toList
  | object (x :: fields) =>
    '\x7b' :: prettyFields (depth + 1) (x :: fields) ++ newline depth ++ ['\x7d']

def prettyItems (depth : Nat) : List Json → Text
  | [] => []
  | [x] => newline depth ++ pretty depth x
  | x :: y :: rest => newline depth ++ pretty depth x ++ ',' :: prettyItems depth (y :: rest)

def prettyFields (depth : Nat) : List (Text × Json) → Text
  | [] => []
  | [(k, x)] => newline depth ++ quote k ++ ": ".toList ++ pretty depth x
  | (k, x) :: y :: rest =>
    newline depth ++ quote k ++ ": ".toList ++ pretty depth x ++ ',' :: prettyFields depth (y :: rest)

end

end Json
end TikzPress
