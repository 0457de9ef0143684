import TikzPress.Markdown.Margin
import TikzPress.Text.Blank

/-!
The text after the sign of a code fence. Its first word names the language of the block. Escapes and
character references are resolved before words are looked for.
-/

namespace TikzPress.Markdown.Info

def isPunctuation (c : Char) : Bool :=
  let n := c.toNat
  (0x21 ≤ n && n ≤ 0x2F) || (0x3A ≤ n && n ≤ 0x40) || (0x5B ≤ n && n ≤ 0x60) ||
    (0x7B ≤ n && n ≤ 0x7E)

def ofCode (n : Nat) : Char := if n ≠ 0 ∧ n.isValidChar then Char.ofNat n else '\uFFFD'

def hexValue? (c : Char) : Option Nat :=
  if c.isDigit then some (c.toNat - '0'.toNat)
  else if 'a' ≤ c.toLower ∧ c.toLower ≤ 'f' then some (c.toLower.toNat - 'a'.toNat + 10)
  else none

-- References to other characters are left as they are, for a word with such a character is no name of a language.
def namedBlanks : List (Text × Text) :=
  [("Tab".toList, ['\t']), ("NewLine".toList, ['\n']), ("nbsp".toList, ['\u00A0']),
    ("NonBreakingSpace".toList, ['\u00A0']), ("ensp".toList, ['\u2002']),
    ("emsp".toList, ['\u2003']), ("emsp13".toList, ['\u2004']), ("emsp14".toList, ['\u2005']),
    ("numsp".toList, ['\u2007']), ("puncsp".toList, ['\u2008']), ("thinsp".toList, ['\u2009']),
    ("ThinSpace".toList, ['\u2009']), ("hairsp".toList, ['\u200A']),
    ("VeryThinSpace".toList, ['\u200A']), ("MediumSpace".toList, ['\u205F']),
    ("ThickSpace".toList, ['\u205F', '\u200A'])]

def numeric? (base limit : Nat) (value? : Char → Option Nat) (t : Text) : Option (Text × Text) :=
  let digits := (t.take limit).takeWhile fun c => (value? c).isSome
  match digits, t.drop digits.length with
  | _ :: _, ';' :: rest =>
    some ([ofCode (digits.foldl (fun n c => base * n + (value? c).getD 0) 0)], rest)
  | _, _ => none

def reference? : Text → Option (Text × Text)
  | '#' :: 'x' :: t | '#' :: 'X' :: t => numeric? 16 6 hexValue? t
  | '#' :: t => numeric? 10 7 (fun c => if c.isDigit then hexValue? c else none) t
  | t =>
    match t.dropWhile Char.isAlphanum with
    | ';' :: rest => (namedBlanks.lookup (t.takeWhile Char.isAlphanum)).map (·, rest)
    | _ => none

def resolve : Text → Text
  | [] => []
  | '\r' :: t => resolve t
  | '\\' :: c :: t =>
    if isPunctuation c then c :: resolve t else '\\' :: resolve (c :: t)
  | '&' :: t =>
    match reference? t with
    | some (stands, rest) =>
      if _h : rest.length ≤ t.length then stands ++ resolve rest else '&' :: resolve t
    | none => '&' :: resolve t
  | c :: t => c :: resolve t
termination_by t => t.length

def tikz : Text := "tikz".toList

def isTikz (t : Text) : Bool :=
  let inner := (t.dropWhile isLineBlank).reverse.dropWhile isAsciiBlank
  (Text.words (resolve inner.reverse)).head?.any fun w => w.map Char.toLower = tikz

end TikzPress.Markdown.Info
