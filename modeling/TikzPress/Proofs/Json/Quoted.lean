import Mathlib.Data.List.Chain
import Mathlib.Tactic.IntervalCases
import TikzPress.Json

/-!
Quoted strings inside a longer JSON text. Main statements: a string, and a list of strings with its closing
bracket, can be told apart from what follows (`quote_append_inj`, `compactItems_append_inj`), and in a text
made of strings and marks a brace in front of a quote has a mark behind the quote (`Strung.mem_marks`).
-/

namespace TikzPress.Json

-- The first character that an escaped text stands for, and the rest of that text.
def unescape? : Text → Option (Char × Text)
  | '\\' :: 'u' :: _ :: _ :: a :: b :: rest => some (Char.ofNat (16 * digit a + digit b), rest)
  | '\\' :: c :: rest => some (control c, rest)
  | '"' :: _ => none
  | c :: rest => some (c, rest)
  | [] => none
where
  digit (c : Char) : Nat := if c.isDigit then c.toNat - 48 else c.toNat - 87
  control : Char → Char
    | 'b' => '\x08'
    | 't' => '\t'
    | 'n' => '\n'
    | 'f' => '\x0c'
    | 'r' => '\r'
    | c   => c

section Escape

variable {c d : Char} {r u : Text}

theorem unescape?_escapeChar (c : Char) (rest : Text) :
    unescape? (escapeChar c ++ rest) = some (c, rest) := by
  by_cases hq : c = '"'
  case pos => subst hq; rfl
  by_cases hb : c = '\\'
  case pos => subst hb; rfl
  by_cases hc : c.toNat < 0x20
  case neg => simp [escapeChar, hq, hb, hc, unescape?]
  case pos =>
    rw [← Char.ofNat_toNat c]
    generalize c.toNat = n at hc
    interval_cases n <;> rfl

theorem escapeChar_append_inj (h : escapeChar c ++ r = escapeChar d ++ u) : c = d ∧ r = u := by
  have hc := unescape?_escapeChar c r
  rw [h, unescape?_escapeChar] at hc
  cases hc
  exact ⟨rfl, rfl⟩

theorem escapeChar_append_ne_quote : escapeChar c ++ r ≠ '"' :: u := by
  intro h
  have hc := unescape?_escapeChar c r
  rw [h] at hc
  contradiction

theorem escaped_append_inj {s t : Text}
    (h : s.flatMap escapeChar ++ '"' :: r = t.flatMap escapeChar ++ '"' :: u) : s = t ∧ r = u := by
  induction s generalizing t
  case nil =>
    cases t
    case nil => exact ⟨rfl, (List.cons.inj h).right⟩
    case cons =>
      rw [List.flatMap_cons, List.append_assoc] at h
      exact absurd h.symm escapeChar_append_ne_quote
  case cons hi =>
    cases t
    case nil =>
      rw [List.flatMap_cons, List.append_assoc] at h
      exact absurd h escapeChar_append_ne_quote
    case cons =>
      simp only [List.flatMap_cons, List.append_assoc] at h
      have ⟨hc, h⟩ := escapeChar_append_inj h
      have ⟨hs, hr⟩ := hi h
      exact ⟨by rw [hc, hs], hr⟩

end Escape

theorem quote_append (t rest : Text) :
    quote t ++ rest = '"' :: (t.flatMap escapeChar ++ '"' :: rest) := by
  simp [quote]

-- A string can be told apart from what follows it.
theorem quote_append_inj {s t r u : Text} (h : quote s ++ r = quote t ++ u) : s = t ∧ r = u := by
  rw [quote_append, quote_append] at h
  exact escaped_append_inj (List.cons.inj h).right

-- What follows the first string of a list: the others, the bracket that closes the list, and the rest.
def afterFirst (rest : Text) : List Text → Text
  | []      => ']' :: rest
  | s :: ss => ',' :: (quote s ++ afterFirst rest ss)

theorem compactItems_append (s : Text) (ss : List Text) (rest : Text) :
    compactItems ((s :: ss).map .text) ++ ']' :: rest = quote s ++ afterFirst rest ss := by
  induction ss generalizing s
  case nil => simp [compactItems, compact, afterFirst]
  case cons t ss hi => simpa [compactItems, compact, afterFirst] using hi t

theorem afterFirst_inj {ss ts : List Text} {r u : Text} (h : afterFirst r ss = afterFirst u ts) :
    ss = ts ∧ r = u := by
  induction ss generalizing ts
  case nil =>
    cases ts
    case nil  => exact ⟨rfl, (List.cons.inj h).right⟩
    case cons => simp [afterFirst] at h
  case cons hi =>
    cases ts
    case nil => simp [afterFirst] at h
    case cons =>
      have ⟨hs, h⟩ := quote_append_inj (List.cons.inj h).right
      have ⟨hss, hr⟩ := hi h
      exact ⟨by rw [hs, hss], hr⟩

-- So can a list of strings with the bracket that closes it.
theorem compactItems_append_inj {ss ts : List Text} {r u : Text}
    (h : compactItems (ss.map .text) ++ ']' :: r = compactItems (ts.map .text) ++ ']' :: u) :
    ss = ts ∧ r = u := by
  cases ss <;> cases ts
  case nil.nil  => exact ⟨rfl, (List.cons.inj h).right⟩
  case nil.cons => rw [compactItems_append, quote_append] at h; simp [compactItems] at h
  case cons.nil => rw [compactItems_append, quote_append] at h; simp [compactItems] at h
  case cons.cons =>
    rw [compactItems_append, compactItems_append] at h
    have ⟨hs, h⟩ := quote_append_inj h
    have ⟨hss, hr⟩ := afterFirst_inj h
    exact ⟨by rw [hs, hss], hr⟩

def marks : List Char := [',', ':', '[', ']', '\x7d']

-- Strings and marks, where each string is followed by a mark.
inductive Strung : Text → Prop
  | nil    : Strung []
  | mark   : c ∈ marks → Strung t → Strung (c :: t)
  | string : c ∈ marks → Strung (c :: t) → Strung (quote s ++ c :: t)

theorem Strung.afterFirst {rest : Text} (h : Strung (']' :: rest)) (s : Text) (ss : List Text) :
    Strung (quote s ++ afterFirst rest ss) := by
  induction ss generalizing s
  case nil          => exact .string (by decide) h
  case cons t ss hi => exact .string (by decide) <| .mark (by decide) (hi t)

theorem Strung.items {rest : Text} (h : Strung (']' :: rest)) (ss : List Text) :
    Strung (compactItems (ss.map .text) ++ ']' :: rest) := by
  cases ss
  case nil       => exact h
  case cons s ss => exact compactItems_append s ss rest ▸ h.afterFirst s ss

-- Among the characters that a string stands for, each quote is behind a backslash.
theorem isChain_escapeChar (c : Char) :
    (escapeChar c).IsChain fun x y => y = '"' → x = '\\' := by
  by_cases hq : c = '"'
  case pos => subst hq; decide
  by_cases hb : c = '\\'
  case pos => subst hb; decide
  by_cases hc : c.toNat < 0x20
  case neg => simp [escapeChar, hq, hb, hc]
  case pos =>
    rw [← Char.ofNat_toNat c]
    generalize c.toNat = n at hc
    interval_cases n <;> decide

theorem isChain_escaped (t : Text) :
    (t.flatMap escapeChar).IsChain fun x y => y = '"' → x = '\\' := by
  induction t
  case nil => exact .nil
  case cons c t hi =>
    refine List.isChain_append.mpr ⟨isChain_escapeChar c, hi, fun x _ y hy h => ?_⟩
    subst h
    cases t
    case nil => contradiction
    case cons =>
      obtain ⟨u, hu⟩ := List.head?_eq_some_iff.mp hy
      exact absurd hu escapeChar_append_ne_quote

-- A brace in front of a quote is the last character of a string, so that a mark comes next.
theorem Strung.mem_marks {t : Text} (h : Strung t) {x : Char} (hx : ['\x7b', '"', x] <:+: t) :
    x ∈ marks := by
  induction h
  case nil => simp at hx
  case mark hc _ hi =>
    rcases List.infix_cons_iff.mp hx with hp | hi'
    case inl => exact absurd ((List.cons_prefix_cons.mp hp).left ▸ hc) (by decide)
    case inr => exact hi hi'
  case string s hc _ hi =>
    rw [quote_append] at hx
    have hx := (List.infix_cons_iff.mp hx).resolve_left (by simp)
    -- The characters of the string are passed one by one.
    have hs := isChain_escaped s
    generalize s.flatMap escapeChar = es at hs hx
    induction es
    case nil => exact hi <| (List.infix_cons_iff.mp hx).resolve_left (by simp)
    case cons e es hes =>
      rcases List.infix_cons_iff.mp hx with hp | hi'
      case inr => exact hes hs.of_cons hi'
      case inl =>
        have ⟨he, hp⟩ := List.cons_prefix_cons.mp hp
        rcases es with _ | ⟨f, es⟩
        case nil => simp at hp; exact hp ▸ hc
        case cons =>
          have hf : '"' = f := (List.cons_prefix_cons.mp hp).left
          have hb : e = '\\' := (List.isChain_cons_cons.mp hs).left hf.symm
          exact absurd (he.trans hb) (by decide)

end TikzPress.Json
