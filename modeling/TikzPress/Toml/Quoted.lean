import TikzPress.Reader

/-!
Quoted strings. Between double quotes a backslash opens an escape, between single quotes nothing
does. Three quotes on each side enclose text of several lines.
-/

namespace TikzPress.Toml.Quoted

def isPlain (c : Char) : Bool := c = '\t' || (0x20 ≤ c.toNat && c.toNat ≠ 0x7F)

def isHexDigit (c : Char) : Bool :=
  c.isDigit || ('a' ≤ c && c ≤ 'f') || ('A' ≤ c && c ≤ 'F')

def hexValue (c : Char) : Nat :=
  if c.isDigit then c.toNat - '0'.toNat else c.toLower.toNat - 'a'.toNat + 10

-- A surrogate is no character.
def code (n : Nat) : Reader Char := fun t =>
  let digits := t.take n
  let value := digits.foldl (fun n c => 16 * n + hexValue c) 0
  if digits.length = n ∧ digits.all isHexDigit ∧ value.isValidChar then
    some (Char.ofNat value, t.drop n)
  else none

def named? : Char → Option Char
  | 'b' => some '\x08'
  | 't' => some '\t'
  | 'n' => some '\n'
  | 'f' => some '\x0c'
  | 'r' => some '\r'
  | 'e' => some '\x1b'
  | '"' => some '"'
  | '\\' => some '\\'
  | _ => none

def escape : Reader Char
  | [] => none
  | 'x' :: t => code 2 t
  | 'u' :: t => code 4 t
  | 'U' :: t => code 8 t
  | c :: t => (named? c).map (·, t)

theorem length_le_of_code {n : Nat} {t rest : Text} {c : Char} (h : code n t = some (c, rest)) :
    rest.length ≤ t.length := by
  simp only [code] at h
  split at h
  case isTrue =>
    simp only [Option.some.injEq, Prod.mk.injEq] at h
    simp [← h.2]
  case isFalse => contradiction

theorem length_lt_of_escape {t rest : Text} {c : Char} (h : escape t = some (c, rest)) :
    rest.length < t.length := by
  unfold escape at h
  split at h
  case h_1 => simp at h
  case h_2 | h_3 | h_4 => exact Nat.lt_succ_of_le (length_le_of_code h)
  case h_5 =>
    simp only [Option.map_eq_some_iff, Prod.mk.injEq] at h
    obtain ⟨_, _, _, rfl⟩ := h
    simp

def basic : Reader Text
  | [] => none
  | '"' :: t => some ([], t)
  | '\\' :: t =>
    match _h : escape t with
    | none => none
    | some (c, rest) => (basic rest).map fun (s, rest) => (c :: s, rest)
  | c :: t => if isPlain c then (basic t).map fun (s, rest) => (c :: s, rest) else none
termination_by t => t.length
decreasing_by
  · have := length_lt_of_escape _h
    simp only [List.length_cons]
    omega
  · simp

def literal : Reader Text
  | [] => none
  | '\'' :: t => some ([], t)
  | c :: t => if isPlain c then (literal t).map fun (s, rest) => (c :: s, rest) else none

def dropBreak? : Text → Option Text
  | '\n' :: t => some t
  | '\r' :: '\n' :: t => some t
  | _ => none

def dropBreak (t : Text) : Text := (dropBreak? t).getD t

def isInlineBlank (c : Char) : Bool := c = ' ' || c = '\t'

-- A carriage return counts only before a line feed.
def dropBlanksAndBreaks : Text → Text
  | [] => []
  | '\r' :: '\n' :: t => dropBlanksAndBreaks t
  | c :: t => if c = '\n' ∨ isInlineBlank c then dropBlanksAndBreaks t else c :: t

theorem length_dropBlanksAndBreaks_le (t : Text) :
    (dropBlanksAndBreaks t).length ≤ t.length := by
  fun_induction dropBlanksAndBreaks t <;> simp_all <;> omega

theorem length_lt_of_dropBreak? {t rest : Text} (h : dropBreak? t = some rest) :
    rest.length < t.length := by
  unfold dropBreak? at h
  split at h
  case h_1 | h_2 =>
    cases h
    simp only [List.length_cons]
    omega
  case h_3 => simp at h

def dropContinuation? (t : Text) : Option Text :=
  (dropBreak? (t.dropWhile isInlineBlank)).map dropBlanksAndBreaks

theorem length_lt_of_dropContinuation? {t rest : Text} (h : dropContinuation? t = some rest) :
    rest.length < t.length := by
  obtain ⟨u, hu, rfl⟩ := Option.map_eq_some_iff.1 h
  have h₁ := length_lt_of_dropBreak? hu
  have h₂ := length_dropBlanksAndBreaks_le u
  have h₃ := (List.dropWhile_sublist (l := t) isInlineBlank).length_le
  omega

-- Up to two quotes still belong to the text before three closing ones.
def lastQuotes (q : Char) (t : Text) : Text × Text :=
  let quotes := (t.take 2).takeWhile (· = q)
  (quotes, t.drop quotes.length)

def multilineBasic : Reader Text
  | [] => none
  | '"' :: '"' :: '"' :: t => some (lastQuotes '"' t)
  | '\\' :: t =>
    match _hc : dropContinuation? t with
    | some rest => multilineBasic rest
    | none =>
      match _he : escape t with
      | none => none
      | some (c, rest) => (multilineBasic rest).map fun (s, rest) => (c :: s, rest)
  | '\r' :: '\n' :: t => (multilineBasic t).map fun (s, rest) => ('\r' :: '\n' :: s, rest)
  | c :: t =>
    if c = '\n' ∨ isPlain c then (multilineBasic t).map fun (s, rest) => (c :: s, rest) else none
termination_by t => t.length
decreasing_by
  · have := length_lt_of_dropContinuation? _hc
    simp only [List.length_cons]
    omega
  · have := length_lt_of_escape _he
    simp only [List.length_cons]
    omega
  all_goals
    simp only [List.length_cons]
    omega

def multilineLiteral : Reader Text
  | [] => none
  | '\'' :: '\'' :: '\'' :: t => some (lastQuotes '\'' t)
  | '\r' :: '\n' :: t => (multilineLiteral t).map fun (s, rest) => ('\r' :: '\n' :: s, rest)
  | c :: t =>
    if c = '\n' ∨ isPlain c then (multilineLiteral t).map fun (s, rest) => (c :: s, rest) else none

def oneLine : Reader Text
  | '"' :: t => basic t
  | '\'' :: t => literal t
  | _ => none

-- A line break right after three opening quotes is dropped.
def string : Reader Text
  | '"' :: '"' :: '"' :: t => multilineBasic (dropBreak t)
  | '\'' :: '\'' :: '\'' :: t => multilineLiteral (dropBreak t)
  | t => oneLine t

end TikzPress.Toml.Quoted
