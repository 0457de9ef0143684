import TikzPress.Text

/-!
The UTF-8 form of a text. Reading bytes back is strict (`decode?`) or replaces each maximal invalid
part by U+FFFD (`decodeLossy`). Main statement: the number of bytes is the width of the text.
-/

namespace TikzPress

abbrev Bytes := List UInt8

namespace Text

def encode (t : Text) : Bytes := t.flatMap String.utf8EncodeChar

@[simp] theorem length_encode (t : Text) : (encode t).length = width t := by
  induction t
  case nil => rfl
  case cons c t ih =>
    rw [encode] at ih
    simp [encode, List.flatMap_cons, ih]

@[simp] theorem encode_append (a b : Text) : encode (a ++ b) = encode a ++ encode b := by
  simp [encode]

theorem encode_injective {a b : Text} (h : encode a = encode b) : a = b := by
  have h : a.utf8Encode = b.utf8Encode := congrArg List.toByteArray h
  exact String.ofList_injective <| String.toByteArray_inj.mp h

-- How many bytes follow, the bounds of the next one, and the bits that the first byte contributes itself.
structure Lead where
  tails : Nat
  low : UInt8
  high : UInt8
  bits : Nat

-- The bounds of the second byte exclude overlong forms, surrogates and what lies above U+10FFFF.
def lead? (b : UInt8) : Option Lead :=
  let n := b.toNat
  if n < 0x80 then some ⟨0, 0, 0, n⟩
  else if n < 0xC2 then none
  else if n < 0xE0 then some ⟨1, 0x80, 0xBF, n - 0xC0⟩
  else if n = 0xE0 then some ⟨2, 0xA0, 0xBF, 0⟩
  else if n = 0xED then some ⟨2, 0x80, 0x9F, 0xD⟩
  else if n < 0xF0 then some ⟨2, 0x80, 0xBF, n - 0xE0⟩
  else if n = 0xF0 then some ⟨3, 0x90, 0xBF, 0⟩
  else if n < 0xF4 then some ⟨3, 0x80, 0xBF, n - 0xF0⟩
  else if n = 0xF4 then some ⟨3, 0x80, 0x8F, 4⟩
  else none

def readTails : Nat → UInt8 → UInt8 → Nat → Bytes → Option Nat × Bytes
  | 0, _, _, bits, rest => (some bits, rest)
  | _ + 1, _, _, _, [] => (none, [])
  | n + 1, low, high, bits, b :: rest =>
    if low ≤ b ∧ b ≤ high then readTails n 0x80 0xBF (bits * 64 + b.toNat % 64) rest
    else (none, b :: rest)

-- Nothing is read for a maximal invalid part.
def readChar (b : UInt8) (rest : Bytes) : Option Char × Bytes :=
  match lead? b with
  | none => (none, rest)
  | some l =>
    let (bits?, rest) := readTails l.tails l.low l.high l.bits rest
    (bits?.map Char.ofNat, rest)

theorem length_readTails_le (n : Nat) (low high : UInt8) (bits : Nat) (rest : Bytes) :
    (readTails n low high bits rest).2.length ≤ rest.length := by
  induction n generalizing low high bits rest
  case zero => simp [readTails]
  case succ n ih =>
    cases rest
    case nil => simp [readTails]
    case cons b rest =>
      simp only [readTails]
      split
      case isTrue  => exact Nat.le_succ_of_le (ih ..)
      case isFalse => simp

theorem length_readChar_le (b : UInt8) (rest : Bytes) :
    (readChar b rest).2.length ≤ rest.length := by
  unfold readChar
  split
  case h_1 => simp
  case h_2 => exact length_readTails_le ..

def readChars : Bytes → List (Option Char)
  | [] => []
  | b :: rest => (readChar b rest).1 :: readChars (readChar b rest).2
termination_by bytes => bytes.length
decreasing_by
  have := length_readChar_le b rest
  simp
  omega

def decode? (bytes : Bytes) : Option Text := (readChars bytes).mapM id

def decodeLossy (bytes : Bytes) : Text := (readChars bytes).map (·.getD '\uFFFD')

end Text
end TikzPress
