import TikzPress.Decimal.Reading
import TikzPress.Toml

/-!
Scalars that are written without quotes: truth values, numbers, and dates and times.
-/

namespace TikzPress.Toml.Scalar

def isScalarChar (c : Char) : Bool :=
  c.isAlphanum || c = '+' || c = '-' || c = '_' || c = '.' || c = ':'

def digits? (isDigit : Char → Bool) : Text → Option Text
  | [] => none
  | [c] => if isDigit c then some [c] else none
  | c :: '_' :: rest => if isDigit c then (digits? isDigit rest).map (c :: ·) else none
  | c :: rest => if isDigit c then (digits? isDigit rest).map (c :: ·) else none

def digitValue (c : Char) : Nat :=
  if c.isDigit then c.toNat - '0'.toNat else c.toLower.toNat - 'a'.toNat + 10

def isDigitOf (base : Nat) (c : Char) : Bool := c.isAlphanum && digitValue c < base

def based? (base : Nat) (t : Text) : Option Int :=
  (digits? (isDigitOf base) t).map fun ds => ds.foldl (fun n c => base * n + digitValue c) 0

def decimal? (t : Text) : Option Text :=
  match digits? Char.isDigit t with
  | some ('0' :: _ :: _) => none
  | other => other

-- 128 bits, with or without a sign.
def inBounds (n : Int) : Bool :=
  if 0 ≤ n then n.toNat < Nat.pow 2 128 else (-n).toNat ≤ Nat.pow 2 127

def integer? (t : Text) : Option Int :=
  let number := match t with
    | '0' :: 'x' :: rest => based? 16 rest
    | '0' :: 'o' :: rest => based? 8 rest
    | '0' :: 'b' :: rest => based? 2 rest
    | _ =>
      let (negative, rest) := Decimal.sign t
      (decimal? rest).map fun ds =>
        let n : Int := Decimal.valueOf ds
        if negative then -n else n
  number.filter inBounds

def fraction? (t : Text) : Option Text :=
  let isE (c : Char) := c = 'e' || c = 'E'
  let exponent? (t : Text) : Option Text := match t with
    | [] => some []
    | e :: '-' :: rest => (digits? Char.isDigit rest).map fun ds => e :: '-' :: ds
    | e :: '+' :: rest => (digits? Char.isDigit rest).map fun ds => e :: ds
    | e :: rest => (digits? Char.isDigit rest).map (e :: ·)
  match t with
  | '.' :: rest => do
    let ds ← digits? Char.isDigit (rest.takeWhile fun c => !isE c)
    return '.' :: ds ++ (← exponent? (rest.dropWhile fun c => !isE c))
  | [] => none
  | t => exponent? t

-- A finite number does not exceed the range of binary64 numbers.
def float? (t : Text) : Option Text := do
  let (negative, rest) := Decimal.sign t
  let shown (t : Text) := if negative then '-' :: t else t
  if rest = "inf".toList ∨ rest = "nan".toList then return shown rest
  let isWhole (c : Char) := c ≠ '.' && c ≠ 'e' && c ≠ 'E'
  let whole ← decimal? (rest.takeWhile isWhole)
  let number := whole ++ (← fraction? (rest.dropWhile isWhole))
  match Binary64.read? number with
  | some (.finite ..) => return shown number
  | _ => none

def fixed? (n : Nat) (t : Text) : Option (Nat × Text) :=
  let ds := t.take n
  if ds.length = n ∧ ds.all Char.isDigit then some (Decimal.valueOf ds, t.drop n) else none

def daysIn (year month : Nat) : Nat :=
  let leap := year % 4 = 0 && (year % 100 ≠ 0 || year % 400 = 0)
  match month with
  | 2 => if leap then 29 else 28
  | 4 | 6 | 9 | 11 => 30
  | _ => 31

def date? (t : Text) : Option Text := do
  let (year, t) ← fixed? 4 t
  let (month, t) ← fixed? 2 (← Text.dropLiteral? ['-'] t)
  let (day, t) ← fixed? 2 (← Text.dropLiteral? ['-'] t)
  guard (1 ≤ month ∧ month ≤ 12 ∧ 1 ≤ day ∧ day ≤ daysIn year month)
  return t

def secondFraction? : Text → Option Text
  | '.' :: t =>
    match t.takeWhile Char.isDigit with
    | [] => none
    | _ => some (t.dropWhile Char.isDigit)
  | t => some t

-- The seconds may be missing.
def time? (t : Text) : Option Text := do
  let (hour, t) ← fixed? 2 t
  let (minute, t) ← fixed? 2 (← Text.dropLiteral? [':'] t)
  guard (hour ≤ 23 ∧ minute ≤ 59)
  match t with
  | ':' :: t =>
    let (second, t) ← fixed? 2 t
    guard (second ≤ 60)
    secondFraction? t
  | t => return t

def isOffset : Text → Bool
  | ['Z'] | ['z'] => true
  | sign :: t =>
    let zone := do
      let (hour, t) ← fixed? 2 t
      let (minute, t) ← fixed? 2 (← Text.dropLiteral? [':'] t)
      guard (hour ≤ 23 ∧ minute ≤ 59 ∧ t = [])
    (sign = '+' || sign = '-') && zone.isSome
  | [] => false

def isDateTime (t : Text) : Bool :=
  match date? t with
  | some [] => true
  | some (c :: rest) =>
    (c = 'T' || c = 't' || c = ' ') &&
      match time? rest with
      | some [] => true
      | some offset => isOffset offset
      | none => false
  | none => time? t = some []

def value? (t : Text) : Option Value :=
  if t = "true".toList then some (.boolean true)
  else if t = "false".toList then some (.boolean false)
  else if isDateTime t then some (.dateTime t)
  else match integer? t with
    | some n => some (.integer n)
    | none => (float? t).map .float

-- After a date one blank and a time may follow.
def read (t : Text) : Option (Value × Text) :=
  let front := t.takeWhile isScalarChar
  let rest := t.dropWhile isScalarChar
  let whole := match date? front, rest with
    | some [], ' ' :: c :: _ =>
      if c.isDigit then
        some (front ++ ' ' :: (rest.drop 1).takeWhile isScalarChar,
          (rest.drop 1).dropWhile isScalarChar)
      else none
    | _, _ => none
  let (front, rest) := whole.getD (front, rest)
  (value? front).map (·, rest)

end TikzPress.Toml.Scalar
