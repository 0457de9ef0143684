import TikzPress.Proofs.Bracket
import TikzPress.Proofs.Bytewise.Cursor
import TikzPress.Proofs.Text.Boundary

/-!
What a cursor does with each of the constructs that the parsers look for. Main statement: at each place that a
cursor can come to, it finds the construct behind the blanks that stand there and moves right behind it, or it
does not move and the construct is not there (`allOrNothing`).
-/

namespace TikzPress.Bytewise

open Text

inductive Construct
  | literal (l : Text)
  | keyword (w : Text)
  | command (name : Text)
  | options
  | reference
  | group

namespace Construct

-- What is told of a construct that is found.
abbrev Value : Construct → Type
  | literal _ | keyword _ | command _ => Unit
  | options   => OptionList
  | reference => Reference
  | group     => Text

def cursor (limit : Nat) : (k : Construct) → Cursor (Option k.Value)
  | literal l    => Cursor.literal limit l
  | keyword w    => Cursor.keyword limit w
  | command name => Cursor.command limit name
  | options      => Cursor.options limit
  | reference    => Cursor.reference limit
  | group        => Cursor.group limit

def scanner (limit : Nat) : (k : Construct) → Scanner k.Value
  | literal l    => Bytewise.literal limit l
  | keyword w    => Bytewise.keyword limit w
  | command name => Bytewise.command limit name
  | options      => Bytewise.options limit
  | reference    => Bytewise.reference limit
  | group        => Bytewise.group limit '\x7b' '\x7d'

def reader : (k : Construct) → Reader k.Value
  | literal l    => Token.literal l
  | keyword w    => Token.keyword w
  | command name => Token.command name
  | options      => OptionList.read
  | reference    => Reference.read
  | group        => Token.group '\x7b' '\x7d'

-- Words that are not empty, as are all that the parsers look for.
def Full : Construct → Prop
  | literal l => l ≠ []
  | keyword w => w ≠ []
  | _         => True

-- The text `s` is such a construct, where `u` comes next.
def Fits : Construct → (s u : Text) → Prop
  | literal l,    s, _ => s = l
  | keyword w,    s, u => s = w ∧ u.head?.any Token.isWordChar = false
  | command name, s, u => s = '\\' :: name ∧ u.head?.any Token.isWordChar = false
  | options,      s, _ => Bracket.Balanced '[' ']' s
  | reference,    s, _ => Bracket.Balanced '(' ')' s
  | group,        s, _ => Bracket.Balanced '\x7b' '\x7d' s

-- What is told is right for the text of the construct.
def Tells : (k : Construct) → (s : Text) → k.Value → Prop
  | literal _, _, _ | keyword _, _, _ | command _, _, _ => True
  | options,   s, o => o.raw = s
  | group,     s, t => t = s
  | reference, s, r => r.raw = s ∧ (∃ inner, s = '(' :: inner ++ [')'] ∧ r.place.text = trim inner) ∧
    r.name?.isSome = !r.isAnonymous

-- The text `t` opens with the construct `s`, and with no shorter one.
structure Opens (k : Construct) (t s u : Text) : Prop where
  parts    : s ++ u = t
  fits     : k.Fits s u
  shortest : ∀ s' u', s' ++ u' = t → k.Fits s' u' → s <+: s'

variable {k : Construct} {w limit : Nat} {t : Text}

theorem cursor_eq (k : Construct) : k.cursor limit = Cursor.restoring (k.scanner limit) := by
  cases k
  case literal   => exact Cursor.literal_eq _
  case keyword   => exact Cursor.keyword_eq _
  case command   => exact Cursor.command_eq _
  case options   => exact Cursor.options_eq
  case reference => exact Cursor.reference_eq
  case group     => exact Cursor.delimited_eq _ _

theorem follows (hl : w ≤ limit) (k : Construct) : Follows w (fun _ => True) (k.scanner limit) k.reader := by
  cases k
  case literal   => exact follows_literal hl _
  case keyword   => exact follows_keyword hl _
  case command   => exact follows_command hl _
  case options   => exact (follows_options hl).mono fun _ _ => trivial
  case reference => exact (follows_reference hl).mono fun _ _ => trivial
  case group     => exact (follows_group hl (by decide) (by decide)).mono fun _ _ => trivial

section Reading

variable {s u v : Text}

-- A group stands where it is read, and nothing shorter is balanced there.
theorem Opens.ofGroup {o c : Char} (hoc : o ≠ c) (fits : ∀ s u, k.Fits s u ↔ Bracket.Balanced o c s)
    (h : Token.group o c t = some (s, u)) : k.Opens (trimStart t) s u := by
  have parts := Bracket.append_of_take? h
  have whole := Bracket.group_of_take? hoc h
  exact {
    parts
    fits := (fits s u).mpr whole.balanced
    shortest s' u' parts' fits' := whole.prefix_of_balanced ((fits s' u').mp fits') (parts'.trans parts.symm)
  }

-- A word stands where it fits, and nowhere does a shorter one.
theorem Opens.ofWord (parts : s ++ u = t) (fits : k.Fits s u) (only : ∀ s' u', k.Fits s' u' → s' = s) :
    k.Opens t s u where
  parts := parts
  fits  := fits
  shortest s' u' _ fits' := only s' u' fits' ▸ List.prefix_refl s'

theorem tells_ofRaw (h : Token.group '(' ')' t = some (s, u)) : reference.Tells s (.ofRaw s) := by
  obtain ⟨inner, rfl⟩ := Bracket.take?_eq_append h
  have between : (Reference.ofRaw ('(' :: inner ++ [')'])).place = .ofInner inner := by simp [Reference.ofRaw]
  exact ⟨rfl, ⟨inner, rfl, by rw [between, Place.text_ofInner]⟩, Reference.isSome_name? _⟩

theorem opens_of_reader {a : k.Value} (h : k.reader t = some (a, u)) :
    ∃ s, k.Opens (trimStart t) s u ∧ k.Tells s a := by
  cases k
  case literal l =>
    exact ⟨l, .ofWord (Token.literal_eq_some_iff.mp h) rfl fun _ _ => id, trivial⟩
  case keyword w =>
    obtain ⟨parts, hu⟩ := Token.keyword_eq_some_iff.mp h
    exact ⟨w, .ofWord parts ⟨rfl, hu⟩ fun _ _ => And.left, trivial⟩
  case command name =>
    obtain ⟨parts, hu⟩ := Token.command_eq_some_iff.mp h
    exact ⟨'\\' :: name, .ofWord parts ⟨rfl, hu⟩ fun _ _ => And.left, trivial⟩
  case options =>
    obtain ⟨s, hg, rfl⟩ := Reader.of_map_eq_some h
    exact ⟨s, .ofGroup (by decide) (fun _ _ => .rfl) hg, rfl⟩
  case reference =>
    obtain ⟨s, hg, rfl⟩ := Reader.of_map_eq_some h
    exact ⟨s, .ofGroup (by decide) (fun _ _ => .rfl) hg, tells_ofRaw hg⟩
  case group => exact ⟨a, .ofGroup (by decide) (fun _ _ => .rfl) h, rfl⟩

theorem not_fits_of_reader (h : k.reader t = none) (parts : s ++ u = trimStart t) : ¬k.Fits s u := by
  intro fits
  cases k
  case literal =>
    cases fits
    exact Option.some_ne_none _ ((Token.literal_eq_some_iff.mpr parts).symm.trans h)
  case keyword =>
    obtain ⟨rfl, hu⟩ := fits
    exact Option.some_ne_none _ ((Token.keyword_eq_some_iff.mpr ⟨parts, hu⟩).symm.trans h)
  case command =>
    obtain ⟨rfl, hu⟩ := fits
    exact Option.some_ne_none _ ((Token.command_eq_some_iff.mpr ⟨parts, hu⟩).symm.trans h)
  case options =>
    exact Bracket.not_balanced_of_take? (by decide) (Reader.of_map_eq_none h) ⟨u, parts⟩ fits
  case reference =>
    exact Bracket.not_balanced_of_take? (by decide) (Reader.of_map_eq_none h) ⟨u, parts⟩ fits
  case group => exact Bracket.not_balanced_of_take? (by decide) h ⟨u, parts⟩ fits

theorem Fits.ne_nil (hf : k.Full) (h : k.Fits s u) : s ≠ [] := by
  rintro rfl
  cases k
  case literal   => exact hf h.symm
  case keyword   => exact hf h.left.symm
  case command   => exact nomatch h.left
  case options   => exact nomatch h.opens
  case reference => exact nomatch h.opens
  case group     => exact nomatch h.opens

end Reading

section Moving

-- A cursor has moved from the byte `pos`, where `t` follows, over blanks and the construct `s`.
structure Moves (k : Construct) (source t : Text) (pos : Nat) (s u : Text) (a : k.Value) (next : Nat) :
    Prop where
  read     : k.reader t = some (a, u)
  opens    : k.Opens (trimStart t) s u
  tells    : k.Tells s a
  consumed : slice? source pos next = some (t.takeWhile isBlank ++ s)
  boundary : Boundary source next
  forward  : k.Full → pos < next

-- What has become of a cursor at the byte `pos`, where `t` follows.
inductive Outcome (k : Construct) (source t : Text) (pos : Nat) : Option k.Value × Nat → Prop
  | stays : k.reader t = none → (∀ s u, s ++ u = trimStart t → ¬k.Fits s u) →
      Outcome k source t pos (none, pos)
  | moves : Moves k source t pos s u a next → Outcome k source t pos (some a, next)

-- The places to which a cursor comes that skips blanks and looks for constructs, in any order.
inductive Reachable (limit : Nat) (source : Text) : Nat → Prop
  | start : Reachable limit source 0
  | blanks : Reachable limit source pos → Cursor.skipBlanks limit source pos = .ok ((), next) →
      Reachable limit source next
  | construct (k : Construct) {x : Option k.Value} : Reachable limit source pos →
      k.cursor limit source pos = .ok (x, next) → Reachable limit source next

variable {source : Text} {pos next : Nat}

-- What has been read is the blanks and the construct.
theorem moves_of_reader {lead : Text} {a : k.Value} (h : k.reader t = some (a, u)) (parts : v ++ u = t) :
    ∃ s, Moves k (lead ++ t) t (width lead) s u a (width (lead ++ v)) := by
  obtain ⟨s, opens, tells⟩ := opens_of_reader h
  have same : v ++ u = t.takeWhile isBlank ++ s ++ u := by
    rw [parts, List.append_assoc, opens.parts, takeWhile_append_trimStart]
  have whole := List.append_cancel_right same
  refine ⟨s, h, opens, tells, ?_, ⟨lead ++ v, u, by rw [List.append_assoc, parts], rfl⟩, fun hf => ?_⟩
  case refine_1 => rw [← whole, ← parts, ← List.append_assoc, width_append, slice?_append]
  case refine_2 =>
    have := width_eq_zero_iff.not.mpr (opens.fits.ne_nil hf)
    rw [whole, width_append, width_append]
    omega

-- What a cursor does at the end of `lead`, in front of `t`.
theorem outcome_append (k : Construct) (lead t : Text) (hl : width (lead ++ t) ≤ limit) :
    ∃ x, k.cursor limit (lead ++ t) (width lead) = .ok x ∧ Outcome k (lead ++ t) t (width lead) x := by
  have := k.follows hl lead t rfl
  rw [cursor_eq, Cursor.restoring_apply]
  cases hr : k.reader t
  case none =>
    rw [hr] at this
    generalize k.scanner limit (lead ++ t) (width lead) = y at this
    cases this
    exact ⟨_, rfl, .stays hr fun _ _ => not_fits_of_reader hr⟩
  case some r =>
    rw [hr] at this
    generalize k.scanner limit (lead ++ t) (width lead) = y at this
    cases this
    case taken v u a parts _ =>
      obtain ⟨s, moves⟩ := moves_of_reader hr parts
      exact ⟨_, rfl, .moves moves⟩

theorem boundary_of_cursor (hl : width source ≤ limit) (b : Boundary source pos) {x : Option k.Value}
    (h : k.cursor limit source pos = .ok (x, next)) : Boundary source next := by
  have place := b
  obtain ⟨lead, t, rfl, rfl⟩ := b
  obtain ⟨y, hy, outcome⟩ := k.outcome_append lead t hl
  obtain rfl := Except.ok.inj (hy.symm.trans h)
  cases outcome
  case stays       => exact place
  case moves moves => exact moves.boundary

theorem boundary_of_skipBlanks (hl : width source ≤ limit) (b : Boundary source pos)
    (h : Cursor.skipBlanks limit source pos = .ok ((), next)) : Boundary source next := by
  obtain ⟨lead, t, rfl, rfl⟩ := b
  have := follows_blanks hl lead t rfl
  rw [Cursor.skipBlanks_eq, h] at this
  cases this
  case taken s _ parts => exact ⟨lead ++ s, _, by rw [List.append_assoc, parts], rfl⟩

theorem Reachable.boundary (hl : width source ≤ limit) (h : Reachable limit source pos) :
    Boundary source pos := by
  induction h
  case start           => exact ⟨[], source, rfl, rfl⟩
  case blanks hs ih    => exact boundary_of_skipBlanks hl ih hs
  case construct hc ih => exact boundary_of_cursor hl ih hc

theorem allOrNothing (k : Construct) (source : Text) (spare : Nat)
    (h : Reachable (width source + spare) source pos) :
    ∃ t x, dropBytes? pos source = some t ∧ k.cursor (width source + spare) source pos = .ok x ∧
      Outcome k source t pos x := by
  obtain ⟨lead, t, rfl, rfl⟩ := h.boundary (Nat.le_add_right ..)
  obtain ⟨x, hx, outcome⟩ := k.outcome_append lead t (Nat.le_add_right _ spare)
  exact ⟨t, x, dropBytes?_width_append lead t, hx, outcome⟩

-- Behind a letter of two bytes, with an anchor of two bytes.
theorem allOrNothing_sample :
    let source := "é (a.β) to".toList
    Reachable (width source) source 2 ∧
    reference.cursor (width source) source 2 = .ok (some ⟨.named "a".toList "β".toList, "(a.β)".toList⟩, 9) ∧
    ∃ t x, dropBytes? 2 source = some t ∧ reference.cursor (width source) source 2 = .ok x ∧
      Outcome reference source t 2 x := by
  have reached : Reachable (width "é (a.β) to".toList) "é (a.β) to".toList 2 :=
    .construct (.literal "é".toList) (x := some ()) .start (by decide +kernel)
  exact ⟨reached, by decide +kernel, allOrNothing reference _ 0 reached⟩

end Moving

end Construct
end TikzPress.Bytewise
