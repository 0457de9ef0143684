import TikzPress.Bracket
import TikzPress.Text.Utf8

/-!
Scanning by the byte. A scan by bytes can do what a reading of characters cannot: cut out of bounds or inside a
character, count below zero or above the greatest number, and go round without moving. Each of these is a
fault. Main statements: bytes of characters beyond ASCII are passed over (`skip_encode`), a scan for the end of
a group ends where the group does (`groupWidth_eq`), and a text is cut at the byte of a character as it is at
the character (`splitOnce_eq`).
-/

namespace TikzPress.Bytewise

open Text

inductive Fault
  | cut
  | negative
  | overflow
  | stuck
  deriving DecidableEq, Repr

abbrev Checked := Except Fault

-- The bytes from `start` up to `stop`.
def slice (t : Text) (start stop : Nat) : Checked Text :=
  (slice? t start stop).elim (.error .cut) .ok

-- The bytes from `start` on.
def restAt (t : Text) (start : Nat) : Checked Text :=
  (dropBytes? start t).elim (.error .cut) .ok

def difference (m n : Nat) : Checked Nat :=
  if n ≤ m then .ok (m - n) else .error .negative

-- A sum on a machine whose greatest number is `limit`.
def sum (limit m n : Nat) : Checked Nat :=
  if m + n ≤ limit then .ok (m + n) else .error .overflow

-- A loop goes on behind `pos`, inside of a text of `w` bytes.
structure Ahead (w pos next : Nat) : Type where
  lt : pos < next
  le : next ≤ w

def advance (w pos next : Nat) : Checked (Ahead w pos next) :=
  if h : pos < next ∧ next ≤ w then .ok ⟨h.left, h.right⟩ else .error .stuck

section Arithmetic

variable {limit m n w : Nat}

@[simp] theorem ok_bind {x : α} (f : α → Checked β) : (Except.ok x >>= f : Checked β) = f x :=
  rfl

@[simp] theorem pure_eq_ok (x : α) : (pure x : Checked α) = .ok x :=
  rfl

theorem slice_append (a b c : Text) : slice (a ++ b ++ c) (width a) (width a + width b) = .ok b := by
  rw [slice, slice?_append]
  rfl

-- A cut inside a character is none.
example : slice ['é'] 0 1 = .error .cut := by
  simp [slice, slice?, takeBytes?]
  rfl

theorem slice_zero_append (a b : Text) : slice (a ++ b) 0 (width a) = .ok a := by
  simpa using slice_append [] a b

@[simp] theorem restAt_append (a b : Text) : restAt (a ++ b) (width a) = .ok b := by
  rw [restAt, dropBytes?_width_append]
  rfl

-- What precedes the rest of a text, counted from the end.
theorem width_append_sub (a b : Text) : width (a ++ b) - width b = width a := by
  rw [width_append, Nat.add_sub_cancel]

theorem difference_of_le (h : n ≤ m) : difference m n = .ok (m - n) :=
  if_pos h

theorem sum_of_le (h : m + n ≤ limit) : sum limit m n = .ok (m + n) :=
  if_pos h

theorem advance_of_lt (h : m < n) (h' : n ≤ w) : advance w m n = .ok ⟨h, h'⟩ :=
  dif_pos ⟨h, h'⟩

end Arithmetic

section Encoding

variable {c d : Char}

def IsAscii (c : Char) : Prop :=
  c.toNat < 0x80

instance (c : Char) : Decidable (IsAscii c) :=
  inferInstanceAs (Decidable (_ < _))

-- The byte of an ASCII character.
abbrev byte (c : Char) : UInt8 :=
  UInt8.ofNat c.toNat

theorem byte_inj (hc : IsAscii c) (hd : IsAscii d) : byte c = byte d ↔ c = d := by
  constructor
  case mpr => exact fun h => h ▸ rfl
  case mp =>
    intro h
    have := congrArg UInt8.toNat h
    simp only [IsAscii, UInt8.toNat_ofNat'] at *
    rw [Nat.mod_eq_of_lt (by omega), Nat.mod_eq_of_lt (by omega)] at this
    exact Char.toNat_inj.mp this

theorem byte_ne {b : UInt8} (hc : IsAscii c) (hb : 0x80 ≤ b) : b ≠ byte c := by
  rintro rfl
  have := UInt8.le_iff_toNat_le.mp hb
  simp only [IsAscii, UInt8.toNat_ofNat', UInt8.reduceToNat] at *
  omega

theorem utf8Size_of_ascii (hc : IsAscii c) : c.utf8Size = 1 := by
  have : c.val ≤ 0x7f := UInt32.le_iff_toNat_le.mpr (Nat.le_of_lt_succ hc)
  exact if_pos this

theorem encode_cons_of_ascii (hc : IsAscii c) (t : Text) : encode (c :: t) = byte c :: encode t := by
  have single : String.utf8EncodeChar c = [byte c] := if_pos (Nat.le_of_lt_succ hc)
  rw [encode, List.flatMap_cons, single]
  rfl

-- No byte of another character is an ASCII character.
theorem le_of_mem_utf8EncodeChar (hc : ¬IsAscii c) {b : UInt8} (hb : b ∈ String.utf8EncodeChar c) :
    0x80 ≤ b := by
  simp only [IsAscii, Char.toNat] at hc
  simp only [String.utf8EncodeChar] at hb
  repeat' split at hb
  all_goals
    simp only [List.mem_cons, List.not_mem_nil, or_false, UInt8.le_iff_toNat_le] at hb ⊢
    rcases hb with rfl | rfl | rfl | rfl <;> simp <;> omega

theorem head?_encode_iff (hd : IsAscii d) {t : Text} :
    (encode t).head? = some (byte d) ↔ t.head? = some d := by
  cases t
  case nil => simp [encode]
  case cons c t =>
    by_cases hc : IsAscii c
    case pos => simp [encode_cons_of_ascii hc, byte_inj hc hd]
    case neg =>
      obtain ⟨b, bs, hb⟩ := List.exists_cons_of_ne_nil (String.utf8EncodeChar_ne_nil (c := c))
      have high : 0x80 ≤ b := le_of_mem_utf8EncodeChar hc (by simp [hb])
      have other : c ≠ d := fun h => hc (h ▸ hd)
      simp [encode, hb, byte_ne hd high, other]

-- What passes over each byte beyond ASCII passes over the bytes of each character beyond ASCII.
theorem skip_encode {f : Nat → Bytes → α} (h : ∀ i b bs, 0x80 ≤ b → f i (b :: bs) = f (i + 1) bs)
    (hc : ¬IsAscii c) (i : Nat) (t : Text) : f i (encode (c :: t)) = f (i + c.utf8Size) (encode t) := by
  have skip (skipped : Bytes) (hs : ∀ b ∈ skipped, 0x80 ≤ b) (i : Nat) :
      f i (skipped ++ encode t) = f (i + skipped.length) (encode t) := by
    induction skipped generalizing i
    case nil => rfl
    case cons b skipped hi =>
      rw [List.cons_append, h i b _ (hs b (.head _)), hi fun b hb => hs b (.tail _ hb), List.length_cons]
      congr 1
      omega
  have := skip (String.utf8EncodeChar c) (fun _ => le_of_mem_utf8EncodeChar hc) i
  rwa [String.length_utf8EncodeChar] at this

end Encoding

section Brackets

variable (limit : Nat) (o c : Char)

-- The byte at which the outermost of `depth` open groups is closed. The next byte has the index `i`.
def closeAt (depth i : Nat) : Bytes → Checked (Option Nat)
  | []      => .ok none
  | b :: bs =>
    if b = byte o then do
      closeAt (← sum limit depth 1) (i + 1) bs
    else if b = byte c then do
      let depth ← difference depth 1
      if depth = 0 then return some i else closeAt depth (i + 1) bs
    else closeAt depth (i + 1) bs

-- Without an open group a closing bracket would take the depth below zero.
example : closeAt 9 '[' ']' 0 0 (encode [']']) = .error .negative := by
  rfl

-- The width of the group at the start of a text.
def groupWidth (t : Text) : Checked (Option Nat) := do
  if (encode t).head? ≠ some (byte o) then return none
  match ← closeAt limit o c 0 0 (encode t) with
  | none   => return none
  | some i => return some (← sum limit i 1)

variable {limit o c}

theorem closeAt_encode (ho : IsAscii o) (hc : IsAscii c) {t : Text} {d i : Nat} (hd : d < i)
    (hi : i + width t ≤ limit) :
    closeAt limit o c (d + 1) i (encode t) =
      .ok ((Bracket.close? o c d t).map fun x => i + width t - width x.2 - 1) := by
  induction t generalizing d i
  case nil => rfl
  case cons x t ih =>
    have hx := x.utf8Size_pos
    rw [width_cons] at hi
    have onward {e : Nat} (he : e < i + x.utf8Size) :
        closeAt limit o c (e + 1) (i + x.utf8Size) (encode t) =
          .ok (((Bracket.close? o c e t).map fun y => (x :: y.1, y.2)).map
            fun y => i + width (x :: t) - width y.2 - 1) := by
      rw [ih he (by omega), Option.map_map, width_cons, Nat.add_assoc]
      rfl
    by_cases ha : IsAscii x
    case neg =>
      have hxo : x ≠ o := fun h => ha (h ▸ ho)
      have hxc : x ≠ c := fun h => ha (h ▸ hc)
      have passes (i : Nat) (b : UInt8) (bs : Bytes) (hb : 0x80 ≤ b) :
          closeAt limit o c (d + 1) i (b :: bs) = closeAt limit o c (d + 1) (i + 1) bs := by
        rw [closeAt, if_neg (byte_ne ho hb), if_neg (byte_ne hc hb)]
      simp only [skip_encode passes ha, Bracket.close?, if_neg hxo, if_neg hxc]
      exact onward (by omega)
    case pos =>
      rw [utf8Size_of_ascii ha] at onward
      simp only [encode_cons_of_ascii ha, closeAt, byte_inj ha ho, byte_inj ha hc, Bracket.close?]
      split
      case isTrue =>
        rw [sum_of_le (by omega), ok_bind]
        exact onward (by omega)
      case isFalse =>
        split
        case isFalse => exact onward (by omega)
        case isTrue =>
          rw [difference_of_le (by omega), ok_bind]
          cases d
          case succ d => exact onward (by omega)
          case zero   =>
            have : i = i + (1 + width t) - width t - 1 := by omega
            simpa [utf8Size_of_ascii ha]

theorem groupWidth_eq (ho : IsAscii o) (hc : IsAscii c) {t : Text} (hl : width t ≤ limit) :
    groupWidth limit o c t = .ok ((Bracket.take? o c t).map fun x => width x.1) := by
  rw [groupWidth]
  by_cases hh : t.head? = some o
  case neg =>
    have declines : Bracket.take? o c t = none := by
      cases t
      case nil      => rfl
      case cons x t => exact if_neg fun hx => hh (congrArg some hx)
    rw [if_pos (mt (head?_encode_iff ho).mp hh), declines]
    rfl
  case pos =>
    rw [if_neg fun hn => hn ((head?_encode_iff ho).mpr hh)]
    obtain ⟨t, rfl⟩ := List.head?_eq_some_iff.mp hh
    rw [width_cons, utf8Size_of_ascii ho] at hl
    have opened : sum limit 0 1 = .ok 1 := sum_of_le (by omega)
    rw [encode_cons_of_ascii ho, closeAt, if_pos rfl, opened, ok_bind,
      closeAt_encode ho hc Nat.one_pos hl, Bracket.take?, if_pos rfl]
    cases hg : Bracket.close? o c 0 t
    case none => rfl
    case some x =>
      obtain ⟨s, r⟩ := x
      obtain ⟨s, rfl⟩ := Bracket.close?_eq_append hg
      obtain rfl := Bracket.append_of_close? hg
      have last : width (s ++ [c]) = width s + 1 := by simp [utf8Size_of_ascii hc]
      have index : 1 + width (s ++ [c] ++ r) - width r - 1 = width s + 1 := by
        rw [width_append, last]
        omega
      have stop : sum limit (width s + 1) 1 = .ok (width s + 1 + 1) := by
        rw [width_append, last] at hl
        exact sum_of_le (by omega)
      have all : width (o :: (s ++ [c])) = width s + 1 + 1 := by
        rw [width_cons, last, utf8Size_of_ascii ho, Nat.add_comm]
      simp only [Option.map_some, ok_bind, index, stop, all]
      rfl

end Brackets

section Splitting

variable {c : Char}

def indexOf (c : Char) (i : Nat) : Bytes → Option Nat
  | []      => none
  | b :: bs => if b = byte c then some i else indexOf c (i + 1) bs

-- What stands before and behind the first `c`.
def splitOnce (c : Char) (t : Text) : Checked (Option (Text × Text)) := do
  match indexOf c 0 (encode t) with
  | none   => return none
  | some i => return some (← slice t 0 i, ← restAt t (i + 1))

theorem indexOf_encode (hc : IsAscii c) (i : Nat) (t : Text) :
    indexOf c i (encode t) = (cutAtChar? c t).map fun x => i + width x.1 := by
  induction t generalizing i
  case nil => rfl
  case cons x t ih =>
    rw [cutAtChar?_cons]
    by_cases ha : IsAscii x
    case neg =>
      have hx : x ≠ c := fun h => ha (h ▸ hc)
      have passes (i : Nat) (b : UInt8) (bs : Bytes) (hb : 0x80 ≤ b) :
          indexOf c i (b :: bs) = indexOf c (i + 1) bs := if_neg (byte_ne hc hb)
      simp [skip_encode passes ha, ih, if_neg hx, Nat.add_assoc, Function.comp_def]
    case pos =>
      simp only [encode_cons_of_ascii ha, indexOf, byte_inj ha hc, ih]
      split
      case isTrue  => rfl
      case isFalse => simp [utf8Size_of_ascii ha, Nat.add_assoc, Function.comp_def]

theorem splitOnce_eq (hc : IsAscii c) (t : Text) : splitOnce c t = .ok (cutAtChar? c t) := by
  rw [splitOnce, indexOf_encode hc]
  cases h : cutAtChar? c t
  case none => rfl
  case some x =>
    obtain rfl := append_of_cutAtChar? h
    have front := slice_zero_append x.1 ([c] ++ x.2)
    have back := restAt_append (x.1 ++ [c]) x.2
    have behind : width (x.1 ++ [c]) = width x.1 + 1 := by simp [utf8Size_of_ascii hc]
    rw [← List.append_assoc] at front
    rw [behind] at back
    simp only [Option.map_some, Nat.zero_add, front, back, ok_bind]
    rfl

end Splitting

end TikzPress.Bytewise
