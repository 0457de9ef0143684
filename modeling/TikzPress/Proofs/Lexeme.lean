import TikzPress.Proofs.Bracket
import TikzPress.Token

/-!
Texts that are written as a sequence of lexemes with blanks between them. What a reader does to such a text
is told by lexemes: it takes the first ones and gives a value (`Takes`), or it declines (`Declines`). Main
statements: readers in sequence take their lexemes in sequence (`Takes.bind`, `takes_many`), and each reader
of a token takes its lexeme (`takes_keyword`, `takes_command`, `takes_group`).
-/

namespace TikzPress

-- A part of a text that opens with no blank, no digit and no underscore.
structure Lexeme where
  text   : Text
  full   : text ≠ []
  shown  : Text.isBlank (text.head full) = false
  letter : Token.isWordChar (text.head full) → (text.head full).isAlpha

namespace Lexeme

def first (l : Lexeme) : Char :=
  l.text.head l.full

theorem head?_append (l : Lexeme) (t : Text) : (l.text ++ t).head? = some l.first := by
  rw [List.head?_append_of_ne_nil _ l.full, List.head?_eq_some_head l.full]
  rfl

def Letters (w : Text) : Prop :=
  w ≠ [] ∧ w.all Char.isAlpha

instance (w : Text) : Decidable (Letters w) :=
  inferInstanceAs (Decidable (_ ∧ _))

theorem Letters.isAlpha {w : Text} (h : Letters w) : ∀ c ∈ w, c.isAlpha :=
  List.all_eq_true.mp h.right

theorem Letters.getLast? {w : Text} (h : Letters w) : ∃ c ∈ w.getLast?, c.isAlpha :=
  ⟨_, List.getLast?_eq_some_getLast h.left, h.isAlpha _ (List.getLast_mem _)⟩

def word (w : Text) (h : Letters w) : Lexeme where
  text   := w
  full   := h.left
  shown  := by
    refine Bool.eq_false_iff.mpr fun hb => ?_
    have := Token.isWordChar_of_isBlank hb
    simp [Token.isWordChar, Char.isAlphanum, h.isAlpha _ (List.head_mem _)] at this
  letter := fun _ => h.isAlpha _ (List.head_mem _)

def command (name : Text) : Lexeme where
  text   := '\\' :: name
  full   := List.cons_ne_nil _ _
  shown  := rfl
  letter := fun h => absurd h (show ¬Token.isWordChar '\\' by decide)

-- Two letters do not meet.
def Apart (s t : Text) : Prop :=
  ∀ x ∈ s.getLast?, ∀ y ∈ t.head?, x.isAlpha → ¬y.isAlpha

-- Lexemes with blanks before each of them. Blanks may be left out except where two letters would meet.
inductive Spaced : List Lexeme → Text → Prop
  | nil  : Spaced [] []
  | cons : Text.isBlankOnly gap → Apart l.text t → Spaced ls t → Spaced (l :: ls) (gap ++ l.text ++ t)

-- The first lexeme, if there is one, opens with one of these characters.
def Opens (cs : List Char) (ls : List Lexeme) : Prop :=
  ∀ l ∈ ls.head?, l.first ∈ cs

theorem Opens.assoc {cs : List Char} {ls ms rest : List Lexeme} (h : Opens cs (ls ++ (ms ++ rest))) :
    Opens cs (ls ++ ms ++ rest) := by
  rwa [List.append_assoc]

end Lexeme

open Lexeme

namespace Lexeme.Spaced

variable {l : Lexeme} {ls : List Lexeme} {t : Text}

theorem trimStart (s : Spaced (l :: ls) t) :
    ∃ u, Text.trimStart t = l.text ++ u ∧ Apart l.text u ∧ Spaced ls u ∧ u.length < t.length := by
  cases s
  case cons gap u hg ha hs =>
    refine ⟨u, ?_, ha, hs, ?_⟩
    case refine_1 =>
      rw [List.append_assoc]
      refine Text.trimStart_append hg fun c hc => ?_
      rw [l.head?_append] at hc
      cases hc
      exact l.shown
    case refine_2 =>
      have := List.length_pos_iff.mpr l.full
      simp
      omega

-- A letter is followed by no character of a word.
theorem not_isWordChar (s : Spaced ls t) {w : Text} (ha : Apart w t) (hw : ∃ x ∈ w.getLast?, x.isAlpha)
    {c : Char} (hc : c ∈ t.head?) : Token.isWordChar c = false := by
  obtain ⟨x, hx, hl⟩ := hw
  cases s
  case nil => contradiction
  case cons gap u ls l hg _ _ =>
    cases gap
    case cons y gap =>
      cases hc
      exact Token.isWordChar_of_isBlank (List.all_eq_true.mp hg _ (.head _))
    case nil =>
      have hn := ha _ hx _ hc hl
      rw [List.nil_append, l.head?_append] at hc
      cases hc
      exact Bool.eq_false_iff.mpr fun hw => hn (l.letter hw)

theorem of_blanks (ls : List Lexeme) : Spaced ls (ls.flatMap fun l => [' '] ++ l.text) := by
  induction ls
  case nil => exact .nil
  case cons l ls hi =>
    refine .cons rfl (fun _ _ c hc _ => ?_) hi
    cases ls
    case nil  => contradiction
    case cons =>
      cases hc
      decide

-- What blanks and lexemes have, and texts in sequence if each has it, has all that stands before the last
-- lexeme.
theorem eq_append {P : Text → Prop} (hb : ∀ gap, Text.isBlankOnly gap → P gap)
    (hp : ∀ s t, P s → P t → P (s ++ t)) (hl : ∀ l ∈ ls, P l.text) {last : Lexeme}
    (s : Spaced (ls ++ [last]) t) : ∃ u, t = u ++ last.text ∧ P u := by
  induction ls generalizing t
  case nil =>
    cases s
    case cons gap _ hg _ s =>
      cases s
      exact ⟨gap, List.append_nil _, hb gap hg⟩
  case cons l ls hi =>
    cases s
    case cons gap _ hg _ s =>
      obtain ⟨u, rfl, hu⟩ := hi (fun m hm => hl m (.tail _ hm)) s
      exact ⟨gap ++ l.text ++ u, by simp, hp _ _ (hp _ _ (hb gap hg) (hl l (.head _))) hu⟩

end Lexeme.Spaced

-- The reader takes the lexemes off the front of a text, whatever the blanks, and gives the value. Each
-- lexeme makes the text shorter.
def Takes (p : Reader α) (ls : List Lexeme) (a : α) (rest : List Lexeme) : Prop :=
  ∀ t, Spaced (ls ++ rest) t → ∃ u, p t = some (a, u) ∧ Spaced rest u ∧ u.length + ls.length ≤ t.length

-- The reader takes nothing of a text with these lexemes.
def Declines (p : Reader α) (ls : List Lexeme) : Prop :=
  ∀ t, Spaced ls t → p t = none

-- What declines each text that opens with one of these characters.
theorem Lexeme.Opens.declines {p : Reader α} {cs : List Char} {rest : List Lexeme} (ho : Opens cs rest)
    (hn : p [] = none) (hp : ∀ c ∈ cs, ∀ t, p (c :: t) = none) :
    Declines (fun t => p (Text.trimStart t)) rest := by
  intro t h
  cases rest
  case nil =>
    cases h
    exact hn
  case cons l rest =>
    obtain ⟨u, hu, -⟩ := h.trimStart
    have hl : l.text = l.first :: l.text.tail := (List.cons_head_tail l.full).symm
    simp only [hu]
    rw [hl]
    exact hp _ (ho l rfl) _

section Combinators

variable {p : Reader α} {q : Reader β} {f : α → Reader β} {a : α} {b : β} {ls ms rest : List Lexeme}

theorem Reader.orElse_apply (p q : Reader α) (t : Text) : (p <|> q) t = (p t <|> q t) :=
  rfl

theorem takes_pure (a : α) (rest : List Lexeme) : Takes (pure a) [] a rest :=
  fun t h => ⟨t, rfl, h, Nat.le_refl _⟩

theorem Takes.bind (hp : Takes p ls a (ms ++ rest)) (hf : Takes (f a) ms b rest) :
    Takes (p >>= f) (ls ++ ms) b rest := by
  intro t h
  obtain ⟨u, ht, hu, hl⟩ := hp t (List.append_assoc .. ▸ h)
  obtain ⟨v, hu', hv, hl'⟩ := hf u hu
  refine ⟨v, ?_, hv, by rw [List.length_append]; omega⟩
  simp [Bind.bind, StateT.bind, ht, hu']

theorem Takes.bind_pure (hp : Takes p ls a rest) (g : α → β) :
    Takes (p >>= fun a => pure (g a)) ls (g a) rest := by
  rw [← List.append_nil ls]
  exact Takes.bind hp (takes_pure (g a) rest)

theorem Takes.map (g : α → β) (hp : Takes p ls a rest) : Takes (g <$> p) ls (g a) rest := by
  intro t h
  obtain ⟨u, ht, hu, hl⟩ := hp t h
  exact ⟨u, by simp [Functor.map, StateT.map, ht], hu, hl⟩

theorem Takes.orElse {p q : Reader α} (hp : Takes p ls a rest) : Takes (p <|> q) ls a rest := by
  intro t h
  obtain ⟨u, ht, hu, hl⟩ := hp t h
  exact ⟨u, by simp [Reader.orElse_apply, ht], hu, hl⟩

theorem Declines.orElse {p q : Reader α} (hp : Declines p (ls ++ rest)) (hq : Takes q ls a rest) :
    Takes (p <|> q) ls a rest := by
  intro t h
  obtain ⟨u, ht, hu, hl⟩ := hq t h
  exact ⟨u, by simp [Reader.orElse_apply, hp t h, ht], hu, hl⟩

theorem Declines.orElse_declines {p q : Reader α} (hp : Declines p rest) (hq : Declines q rest) :
    Declines (p <|> q) rest := by
  intro t h
  simp [Reader.orElse_apply, hp t h, hq t h]

theorem Declines.bind (hp : Declines p rest) : Declines (p >>= f) rest := by
  intro t h
  simp [Bind.bind, StateT.bind, hp t h]

theorem Declines.map (g : α → β) (hp : Declines p rest) : Declines (g <$> p) rest := by
  intro t h
  simp [Functor.map, StateT.map, hp t h]

theorem Takes.optional (hp : Takes p ls a rest) : Takes (optional p) ls (some a) rest :=
  (hp.map some).orElse

theorem Declines.optional (hp : Declines p rest) : Takes (optional p) [] none rest :=
  (hp.map some).orElse (takes_pure none rest)

-- What may be left out is taken if it is there.
theorem takes_optional {f : β → List Lexeme} {g : β → α} (o : Option β)
    (ht : ∀ b ∈ o, Takes p (f b) (g b) rest) (hd : Declines p rest) :
    Takes (optional p) (o.elim [] f) (o.map g) rest := by
  cases o
  case none   => exact hd.optional
  case some b => exact (ht b rfl).optional

-- A reader that takes the lexemes of each member of a list takes all of them and stops where it declines.
theorem takes_many {f : β → List Lexeme} {g : β → α} (hf : ∀ b, f b ≠ [])
    (ht : ∀ b rest, Takes p (f b) (g b) rest) (hd : Declines p rest) (bs : List β) :
    Takes (fun t => some (p.many t)) (bs.flatMap f) (bs.map g) rest := by
  induction bs
  case nil =>
    intro t h
    refine ⟨t, ?_, h, Nat.le_refl _⟩
    show some (p.many t) = _
    rw [Reader.many, hd t h]
    rfl
  case cons b bs hi =>
    intro t h
    rw [List.flatMap_cons, List.append_assoc] at h
    obtain ⟨u, hp, hu, hl⟩ := ht b _ t h
    obtain ⟨v, hm, hv, hl'⟩ := hi u hu
    have := List.length_pos_iff.mpr (hf b)
    refine ⟨v, ?_, hv, by rw [List.flatMap_cons, List.length_append]; omega⟩
    show some (p.many t) = _
    rw [Reader.many, hp]
    simp [Option.some.inj hm, show u.length < t.length by omega]

end Combinators

namespace Token

variable {l : Lexeme} {rest : List Lexeme}

theorem wordHere?_append (w : Text) {u : Text} (h : ∀ c ∈ u.head?, isWordChar c = false) :
    wordHere? w (w ++ u) = some u := by
  rw [wordHere?, Text.dropLiteral?_append]
  cases u
  case nil => rfl
  case cons => simp [h _ rfl]

theorem takes_literal (l : Lexeme) (rest : List Lexeme) : Takes (literal l.text) [l] () rest := by
  intro t h
  obtain ⟨u, ht, _, hs, hl⟩ := h.trimStart
  exact ⟨u, by simp [literal, ht], hs, hl⟩

theorem takes_keyword {w : Text} (hw : Letters w) (rest : List Lexeme) :
    Takes (keyword w) [word w hw] () rest := by
  intro t h
  obtain ⟨u, ht, ha, hs, hu⟩ := h.trimStart
  refine ⟨u, ?_, hs, hu⟩
  rw [keyword, ht, word, wordHere?_append w fun c hc => hs.not_isWordChar ha hw.getLast? hc]
  rfl

theorem takes_group {o c : Char} (g : Bracket.Group o c l.text) (hoc : o ≠ c) (rest : List Lexeme) :
    Takes (group o c) [l] l.text rest := by
  intro t h
  obtain ⟨u, ht, _, hs, hl⟩ := h.trimStart
  exact ⟨u, by rw [group, ht, g.take?_append hoc], hs, hl⟩

theorem takes_command {name : Text} (hn : Letters name) (rest : List Lexeme) :
    Takes (command name) [.command name] () rest := by
  intro t h
  obtain ⟨u, ht, ha, hs, hu⟩ := h.trimStart
  refine ⟨u, ?_, hs, hu⟩
  have hl : ∃ x ∈ ('\\' :: name).getLast?, x.isAlpha := by
    rw [List.getLast?_cons_of_ne_nil hn.left]
    exact hn.getLast?
  have := wordHere?_append name fun c hc => hs.not_isWordChar ha hl hc
  simp [command, literal, Lexeme.command, Bind.bind, StateT.bind, ht, Text.dropLiteral?, this]

theorem declines_command {c d : Char} (h : c ≠ d) (name other : Text) (rest : List Lexeme) :
    Declines (command (c :: name)) (.command (d :: other) :: rest) := by
  intro t ht
  obtain ⟨u, hu, -⟩ := ht.trimStart
  simp [command, literal, Lexeme.command, Bind.bind, StateT.bind, hu, Text.dropLiteral?, wordHere?, h]

-- A reader of a token declines what opens with another character.
section Declines

variable {cs : List Char} {c : Char} {w : Text}

theorem declines_literal (ho : Opens cs rest) (hc : c ∉ cs) : Declines (literal (c :: w)) rest :=
  ho.declines (p := fun t => (Text.dropLiteral? (c :: w) t).map ((), ·)) rfl fun x hx _ => by
    simp [Text.dropLiteral?, ne_of_mem_of_not_mem hx hc |>.symm]

theorem declines_keyword (ho : Opens cs rest) (hc : c ∉ cs) : Declines (keyword (c :: w)) rest :=
  ho.declines (p := fun t => (wordHere? (c :: w) t).map ((), ·)) rfl fun x hx _ => by
    simp [wordHere?, Text.dropLiteral?, ne_of_mem_of_not_mem hx hc |>.symm]

theorem declines_group {d : Char} (ho : Opens cs rest) (hc : c ∉ cs) : Declines (group c d) rest :=
  ho.declines (p := Bracket.take? c d) rfl fun x hx _ => by
    simp [Bracket.take?, ne_of_mem_of_not_mem hx hc]

end Declines
end Token
end TikzPress
