import TikzPress.Proofs.Bytewise.Scanner

/-!
Scanners of the tokens of a statement. Main statement: each follows the reader of its token, and what is taken
between brackets opens and closes with them (`follows_group`).
-/

namespace TikzPress.Bytewise

open Text Scanner

section Definitions

variable (limit : Nat)

def skipBlanks : Scanner Unit := fun src pos => do
  let rest ← restAt src pos
  let blanks ← difference (width rest) (width (trimStart rest))
  return some ((), ← sum limit pos blanks)

def literalHere (l : Text) : Scanner Unit := fun src pos => do
  let rest ← restAt src pos
  if opensWith l rest then return some ((), ← sum limit pos (width l)) else return none

def literal (l : Text) : Scanner Unit := do
  skipBlanks limit
  literalHere limit l

def isWordByte (b : UInt8) : Bool :=
  (byte '0' ≤ b && b ≤ byte '9') || (byte 'A' ≤ b && b ≤ byte 'Z') || (byte 'a' ≤ b && b ≤ byte 'z') ||
    b = byte '_'

-- The byte behind the word is looked up before it is known whether the word is there.
def wordHere (w : Text) : Scanner Unit := fun src pos => do
  let rest ← restAt src pos
  let goesOn := (encode rest)[width w]?.any isWordByte
  if opensWith w rest && !goesOn then return some ((), ← sum limit pos (width w)) else return none

def keyword (w : Text) : Scanner Unit := do
  skipBlanks limit
  wordHere limit w

def command (name : Text) : Scanner Unit := do
  literal limit ['\\']
  wordHere limit name

def groupHere (o c : Char) : Scanner Text := fun src pos => do
  let rest ← restAt src pos
  match ← groupWidth limit o c rest with
  | none      => return none
  | some stop => return some (← slice rest 0 stop, ← sum limit pos stop)

def group (o c : Char) : Scanner Text := do
  skipBlanks limit
  groupHere limit o c

def options : Scanner OptionList := do
  return ⟨← group limit '[' ']'⟩

def reference : Scanner Reference := do
  let raw ← group limit '(' ')'
  let inner ← lift (inner raw)
  return ⟨← lift (place inner), raw⟩

-- A value with the range of its tokens, in a text that stands at the byte `base`.
def ranged (base : Nat) (q : Scanner α) : Scanner (α × Range) := do
  skipBlanks limit
  let start ← here limit base
  let a ← q
  return (a, ⟨start, ← here limit base⟩)

end Definitions

section Blanks

variable {w limit : Nat} {P : α → Prop} {q : Scanner α} {p : Reader α}

-- The blanks in front of a token.
def blanks : Reader Unit :=
  fun t => some ((), trimStart t)

theorem follows_blanks (hl : w ≤ limit) : Follows w (fun _ => True) (skipBlanks limit) blanks := by
  intro lead t hw
  have parts := takeWhile_append_trimStart t
  have widths := congrArg width parts
  rw [width_append] at widths hw
  have place : Matches (fun _ => True) lead t (some ((), trimStart t)) _ := .taken parts trivial
  rw [width_append] at place
  rw [skipBlanks, restAt_append, ok_bind, difference_of_le (by omega), ok_bind,
    show width t - width (trimStart t) = width (t.takeWhile isBlank) by omega, sum_of_le (by omega)]
  exact place

theorem follows_blanks_bind (hl : w ≤ limit) (hq : Follows w P q p) :
    Follows w P (do skipBlanks limit; q) (fun t => p (trimStart t)) :=
  (follows_blanks hl).bind fun _ _ => hq

end Blanks

section Words

variable {w limit : Nat}

theorem follows_literalHere (hl : w ≤ limit) (l : Text) :
    Follows w (fun _ => True) (literalHere limit l) (fun t => (dropLiteral? l t).map ((), ·)) := by
  intro lead t hw
  show Matches _ lead t ((dropLiteral? l t).map _) _
  rw [literalHere, restAt_append, ok_bind, opensWith]
  cases h : dropLiteral? l t
  case none   => exact .declined
  case some u =>
    have parts := dropLiteral?_eq_some_iff.mp h
    rw [parts, width_append, width_append] at hw
    rw [Option.isSome_some, if_pos rfl, sum_of_le (by omega), ← width_append]
    exact .taken parts.symm trivial

theorem follows_literal (hl : w ≤ limit) (l : Text) :
    Follows w (fun _ => True) (literal limit l) (Token.literal l) :=
  follows_blanks_bind hl (follows_literalHere hl l)

-- Digits, capital letters, small letters and the underscore.
def WordCode (n : Nat) : Prop :=
  (0x30 ≤ n ∧ n ≤ 0x39) ∨ (0x41 ≤ n ∧ n ≤ 0x5a) ∨ (0x61 ≤ n ∧ n ≤ 0x7a) ∨ n = 0x5f

theorem isWordChar_iff {c : Char} : Token.isWordChar c ↔ WordCode c.toNat := by
  have underscore : c = '_' ↔ c.toNat = 0x5f := Char.toNat_inj.symm
  have classes : Token.isWordChar c = (((decide ('A'.val ≤ c.val ∧ c.val ≤ 'Z'.val) ||
      ('a'.val ≤ c.val && c.val ≤ 'z'.val)) || ('0'.val ≤ c.val && c.val ≤ '9'.val)) || c = '_') := rfl
  simp [classes, underscore, UInt32.le_iff_toNat_le, WordCode]
  omega

theorem isWordByte_iff {b : UInt8} : isWordByte b ↔ WordCode b.toNat := by
  simp [isWordByte, UInt8.le_iff_toNat_le, ← UInt8.toNat_inj, WordCode, or_assoc]

theorem isWordByte_head (t : Text) : (encode t).head?.any isWordByte = t.head?.any Token.isWordChar := by
  cases t
  case nil => rfl
  case cons c t =>
    rw [Bool.eq_iff_iff]
    by_cases hc : IsAscii c
    case pos =>
      have code : (byte c).toNat = c.toNat := by
        simp only [IsAscii, UInt8.toNat_ofNat'] at *
        omega
      simp [encode_cons_of_ascii hc, isWordByte_iff, isWordChar_iff, code]
    case neg =>
      obtain ⟨b, bs, hb⟩ := List.exists_cons_of_ne_nil (String.utf8EncodeChar_ne_nil (c := c))
      have high : 0x80 ≤ b := le_of_mem_utf8EncodeChar hc (by simp [hb])
      have low := UInt8.le_iff_toNat_le.mp high
      have first : (encode (c :: t)).head? = some b := by simp [encode, hb]
      simp only [first, Option.any_some, List.head?_cons, isWordByte_iff, isWordChar_iff, IsAscii, WordCode,
        UInt8.reduceToNat] at *
      omega

theorem follows_wordHere (hl : w ≤ limit) (word : Text) :
    Follows w (fun _ => True) (wordHere limit word) (fun t => (Token.wordHere? word t).map ((), ·)) := by
  intro lead t hw
  show Matches _ lead t ((Token.wordHere? word t).map _) _
  rw [wordHere, restAt_append, ok_bind, opensWith, Token.wordHere?]
  cases h : dropLiteral? word t
  case none   => exact .declined
  case some u =>
    have parts := dropLiteral?_eq_some_iff.mp h
    have next : (encode t)[width word]?.any isWordByte = u.head?.any Token.isWordChar := by
      rw [← isWordByte_head, parts, encode_append, ← length_encode, List.getElem?_append_right (Nat.le_refl _),
        Nat.sub_self, List.head?_eq_getElem?]
    have moved : sum limit (width lead) (width word) = .ok (width (lead ++ word)) := by
      rw [parts, width_append, width_append] at hw
      rw [sum_of_le (by omega), width_append]
    have taken : Matches (fun _ => True) lead t (some ((), u)) _ := .taken parts.symm trivial
    cases u
    case nil => simpa [next, moved] using taken
    case cons c u =>
      cases hc : Token.isWordChar c
      case true  => simpa [next, hc] using Matches.declined
      case false => simpa [next, hc, moved] using taken

theorem follows_keyword (hl : w ≤ limit) (word : Text) :
    Follows w (fun _ => True) (keyword limit word) (Token.keyword word) :=
  follows_blanks_bind hl (follows_wordHere hl word)

theorem follows_command (hl : w ≤ limit) (name : Text) :
    Follows w (fun _ => True) (command limit name) (Token.command name) :=
  (follows_literal hl _).bind fun _ _ => follows_wordHere hl name

end Words

section Groups

variable {w limit : Nat} {o c : Char}

theorem follows_groupHere (hl : w ≤ limit) (ho : IsAscii o) (hc : IsAscii c) :
    Follows w (fun a => ∃ t, a = [o] ++ t ++ [c] ∧ width a ≤ w) (groupHere limit o c) (Bracket.take? o c) := by
  intro lead t hw
  rw [width_append] at hw
  rw [groupHere, restAt_append, ok_bind, groupWidth_eq ho hc (by omega)]
  cases hg : Bracket.take? o c t
  case none => exact .declined
  case some x =>
    obtain ⟨s, r⟩ := x
    obtain ⟨inner, hs⟩ := Bracket.take?_eq_append hg
    obtain rfl := Bracket.append_of_take? hg
    rw [width_append] at hw
    have moved : sum limit (width lead) (width s) = .ok (width (lead ++ s)) := by
      rw [sum_of_le (by omega), width_append]
    simp only [Option.map_some, ok_bind, slice_zero_append, moved]
    exact .taken rfl ⟨inner, hs, by omega⟩

theorem follows_group (hl : w ≤ limit) (ho : IsAscii o) (hc : IsAscii c) :
    Follows w (fun a => ∃ t, a = [o] ++ t ++ [c] ∧ width a ≤ w) (group limit o c) (Token.group o c) :=
  follows_blanks_bind hl (follows_groupHere hl ho hc)

theorem follows_options (hl : w ≤ limit) :
    Follows w (fun o => (Product.options o).Sound limit) (options limit) OptionList.read := by
  refine (follows_group hl (by decide) (by decide)).map ?_
  rintro _ ⟨t, rfl, hr⟩
  exact ⟨wrapped_append '[' ']' t, items_eq rfl (hr.trans hl)⟩

theorem follows_reference (hl : w ≤ limit) :
    Follows w (fun r => (Product.reference r).Sound limit) (reference limit) Reference.read := by
  rw [Reference.read, map_eq_pure_bind]
  refine (follows_group hl (by decide) (by decide)).bind ?_
  rintro _ ⟨t, rfl, hr⟩
  have read : Reference.ofRaw (['('] ++ t ++ [')']) = ⟨.ofInner t, ['('] ++ t ++ [')']⟩ := by
    simp [Reference.ofRaw]
  rw [read]
  refine .lift_bind (inner_append (by decide) (by decide) t) (.lift_bind (place_eq t) (.pure ?_))
  exact ⟨wrapped_append '(' ')' t, coordinate_eq _⟩

end Groups

section Ranges

variable {w limit base : Nat} {P : α → Prop} {q : Scanner α} {p : Reader α}

theorem here_eq {lead t : Text} (h : base + width lead ≤ limit) :
    here limit base (lead ++ t) (width lead) = .ok (some (base + width lead, width lead)) := by
  rw [here, sum_of_le h]
  rfl

-- What is read with its range when the blanks in front are gone.
def counted (stop : Nat) (p : Reader α) : Reader (α × Range) := fun t =>
  (p t).map fun x => ((x.1, ⟨stop - width t, stop - width x.2⟩), x.2)

-- The reader counts from the end of the text, the scanner from its start.
theorem follows_ranged (hl : base + w ≤ limit) (hq : Follows w P q p) :
    Follows w (fun x => P x.1 ∧ x.2.start ≤ x.2.stop) (ranged limit base q) (Token.ranged (base + w) p) := by
  refine follows_blanks_bind (p := counted (base + w) p) (show w ≤ limit by omega) fun lead t hw => ?_
  have := hq lead t hw
  rw [width_append] at hw
  show Matches _ lead t ((p t).map _) (here limit base (lead ++ t) (width lead) >>= _)
  rw [here_eq (by omega), ok_bind]
  show Matches _ lead t ((p t).map _) (q (lead ++ t) (width lead) >>= _)
  generalize p t = x, q (lead ++ t) (width lead) = y at this
  cases this
  case declined => exact .declined
  case taken s u a ht ha =>
    subst ht
    rw [width_append] at hw
    have fits : base + width (lead ++ s) ≤ limit := by
      rw [width_append]
      omega
    have place := here_eq (t := u) fits
    rw [List.append_assoc] at place
    show Matches _ lead _ _ (here limit base (lead ++ (s ++ u)) (width (lead ++ s)) >>= _)
    rw [place, ok_bind]
    have start : base + w - width (s ++ u) = base + width lead := by
      rw [width_append]
      omega
    have stop : base + w - width u = base + width (lead ++ s) := by
      rw [width_append]
      omega
    simp only [Option.map_some, start, stop]
    exact .taken rfl ⟨ha, by simp⟩

-- What declines the empty text may be left out at the end of a text.
theorem follows_unless_atEnd (hq : Follows w P q p) (hn : p [] = none) :
    Follows w P (do if ← atEnd then decline else q) p := by
  intro lead t hw
  show Matches _ lead t _ 
    ((if decide (width (lead ++ t) ≤ width lead) then decline else q) (lead ++ t) (width lead))
  split
  case isFalse => exact hq lead t hw
  case isTrue h =>
    have none : width t = 0 := by
      simp only [width_append, decide_eq_true_eq] at h
      omega
    rw [width_eq_zero_iff.mp none, hn]
    exact .declined

end Ranges

end TikzPress.Bytewise
