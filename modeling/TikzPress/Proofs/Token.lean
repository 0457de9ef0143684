import TikzPress.Proofs.Lexeme

/-!
Readers on texts whose blanks are known. A reader takes a first part of a text exactly and leaves the rest
(`Reads`). Which reader declines is told by the first character that is not blank. Main statements: readers in
sequence read parts in sequence (`Reads.bind`), and a range is that of the part without the blanks in front
(`Reads.ranged`).
-/

namespace TikzPress

-- Blanks between two tokens, or none.
structure Gap where
  text  : Text
  blank : Text.isBlankOnly text

def Gap.none : Gap :=
  ⟨[], rfl⟩

-- The first character that is not blank is one of these.
def Starts (cs : List Char) (t : Text) : Prop :=
  ∃ c ∈ cs, (Text.trimStart t).head? = some c

-- The reader takes the first part of a text and leaves the rest.
def Reads (p : Reader α) (s : Text) (a : α) (rest : Text) : Prop :=
  p (s ++ rest) = some (a, rest)

section Starts

variable {c : Char} {cs : List Char} {t : Text}

theorem trimStart_gap (g : Gap) (t : Text) : Text.trimStart (g.text ++ t) = Text.trimStart t := by
  rw [Text.trimStart, List.dropWhile_append_of_pos (List.all_eq_true.mp g.blank)]
  rfl

theorem trimStart_of_head? (h : ∀ c ∈ t.head?, Text.isBlank c = false) : Text.trimStart t = t := by
  have none : Text.isBlankOnly [] := rfl
  exact Text.trimStart_append none h

theorem Starts.gap (g : Gap) (h : Starts cs t) : Starts cs (g.text ++ t) := by
  rwa [Starts, trimStart_gap]

theorem Starts.mono {cs' : List Char} (h : Starts cs t) (hs : cs ⊆ cs') : Starts cs' t :=
  have ⟨d, hd, ht⟩ := h
  ⟨d, hs hd, ht⟩

theorem starts_append (ht : t.head? = some c) (h : Text.isBlank c = false) (rest : Text) :
    Starts [c] (t ++ rest) := by
  have head : (t ++ rest).head? = some c := by rw [List.head?_append, ht]; rfl
  refine ⟨c, .head _, ?_⟩
  rw [trimStart_of_head? (by simpa [head] using h), head]

theorem Starts.trimStart (h : Starts cs t) : Starts cs (Text.trimStart t) := by
  have shown : ∀ c ∈ (Text.trimStart t).head?, Text.isBlank c = false := by
    intro c hc
    obtain ⟨u, hu⟩ := List.head?_eq_some_iff.mp hc
    exact Text.trimStart_cons_not_isBlank hu
  rwa [Starts, trimStart_of_head? shown]

theorem Starts.head?_ne (h : Starts cs t) (hc : c ∉ cs) : (Text.trimStart t).head? ≠ some c := by
  obtain ⟨d, hd, ht⟩ := h
  rw [ht]
  rintro ⟨⟩
  exact hc hd

-- Blanks are no characters of a word, so it is enough to look at what comes first after them.
theorem Starts.not_isWordChar (h : Starts cs t) (hn : cs.any Token.isWordChar = false) :
    ∀ x ∈ t.head?, Token.isWordChar x = false := by
  cases t
  case nil => nofun
  case cons x t =>
    rintro _ ⟨⟩
    cases hb : Text.isBlank x
    case true  => exact Token.isWordChar_of_isBlank hb
    case false =>
      obtain ⟨d, hd, ht⟩ := h
      rw [trimStart_of_head? (by simpa using hb)] at ht
      cases ht
      exact Bool.eq_false_iff.mpr (List.any_eq_false.mp hn _ hd)

end Starts

namespace Reader

variable {p : Reader α} {t : Text}

theorem bind_of_none (hp : p t = none) (f : α → Reader β) : (p >>= f) t = none := by
  simp [Bind.bind, StateT.bind, hp]

theorem map_of_none (hp : p t = none) (g : α → β) : (g <$> p) t = none := by
  simp [Functor.map, StateT.map, hp]

theorem bind_of_some {u : Text} {a : α} (hp : p t = some (a, u)) (f : α → Reader β) : (p >>= f) t = f a u := by
  simp [Bind.bind, StateT.bind, hp]

theorem map_apply (g : α → β) (p : Reader α) (t : Text) : (g <$> p) t = (p t).map fun x => (g x.1, x.2) := by
  rw [map_eq_pure_bind]
  show (p t).bind _ = _
  cases p t <;> rfl

theorem of_map_eq_some {u : Text} {g : α → β} {b : β} (h : (g <$> p) t = some (b, u)) :
    ∃ a, p t = some (a, u) ∧ g a = b := by
  rw [map_apply, Option.map_eq_some_iff] at h
  obtain ⟨⟨a, _⟩, ha, heq⟩ := h
  cases heq
  exact ⟨a, ha, rfl⟩

theorem of_map_eq_none {g : α → β} (h : (g <$> p) t = none) : p t = none := by
  rwa [map_apply, Option.map_eq_none_iff] at h

theorem bind_congr_at {q : Reader α} (h : p t = q t) (f : α → Reader β) : (p >>= f) t = (q >>= f) t := by
  simp [Bind.bind, StateT.bind, h]

theorem optional_of_none (hp : p t = none) : optional p t = some (none, t) := by
  show ((some <$> p) t <|> _) = _
  rw [map_of_none hp]
  rfl

theorem optional_of_some {u : Text} {a : α} (hp : p t = some (a, u)) : optional p t = some (some a, u) := by
  show ((some <$> p) t <|> _) = _
  rw [map_eq_pure_bind, bind_of_some hp]
  rfl

section Decision

variable {f : α → Reader β} {q : Reader β} {g : Option β → Reader γ}

-- If the other reader declines wherever the first token is taken, this token decides which of both reads.
theorem orElse_eq_of_decides (h : ∀ t, p t ≠ none → q t = none) :
    ((p >>= f) <|> q) = (optional p >>= fun o => o.elim q f) := by
  funext t
  rw [orElse_apply]
  cases hp : p t
  case none =>
    rw [bind_of_none hp, bind_of_some (optional_of_none hp)]
    rfl
  case some x =>
    have hq := h t (by simp [hp])
    rw [bind_of_some hp, bind_of_some (optional_of_some hp), hq]
    show (f x.1 x.2 <|> none) = f x.1 x.2
    cases f x.1 x.2 <;> rfl

-- If nothing else can be read where the token of a part is taken, the part may not be left out there.
theorem optional_bind_eq_of_decides (h : ∀ t, p t ≠ none → g none t = none) :
    (optional (p >>= f) >>= g) = (optional p >>= fun o => o.elim (g none) fun a => f a >>= fun b => g (some b)) := by
  funext t
  cases hp : p t
  case none =>
    rw [bind_of_some (optional_of_none (bind_of_none hp _)), bind_of_some (optional_of_none hp)]
    rfl
  case some x =>
    have hg := h t (by simp [hp])
    rw [bind_of_some (optional_of_some hp)]
    show _ = (f x.1 >>= fun b => g (some b)) x.2
    cases hf : f x.1 x.2
    case none => rw [bind_of_some (optional_of_none ((bind_of_some hp f).trans hf)), bind_of_none hf, hg]
    case some => rw [bind_of_some (optional_of_some ((bind_of_some hp f).trans hf)), bind_of_some hf]

end Decision

end Reader

namespace Reads

variable {p : Reader α} {q : Reader β} {f : α → Reader β} {a : α} {b : β} {s u rest : Text}

theorem pure (a : α) (rest : Text) : Reads (pure a) [] a rest :=
  rfl

theorem bind (hp : Reads p s a (u ++ rest)) (hf : Reads (f a) u b rest) :
    Reads (p >>= f) (s ++ u) b rest := by
  have ht : p (s ++ u ++ rest) = some (a, u ++ rest) := List.append_assoc .. ▸ hp
  simp only [Reads, Bind.bind, StateT.bind, ht]
  exact hf

theorem bind_pure (hp : Reads p s a rest) (g : α → β) : Reads (p >>= fun a => Pure.pure (g a)) s (g a) rest := by
  have ht : p (s ++ rest) = some (a, rest) := hp
  simp only [Reads, Bind.bind, StateT.bind, ht]
  rfl

theorem map (hp : Reads p s a rest) (g : α → β) : Reads (g <$> p) s (g a) rest := by
  rw [map_eq_pure_bind]
  exact hp.bind_pure g

theorem orElse {p q : Reader α} (hp : Reads p s a rest) : Reads (p <|> q) s a rest := by
  rw [Reads, Reader.orElse_apply, hp]
  rfl

theorem orElse_of_none {p q : Reader α} (hp : p (s ++ rest) = none) (hq : Reads q s a rest) :
    Reads (p <|> q) s a rest := by
  rw [Reads, Reader.orElse_apply, hp, hq]
  rfl

-- What may be left out is taken if it is there.
theorem optional {f : β → Text} {g : β → α} (o : Option β) (ht : ∀ b, Reads p (f b) (g b) rest)
    (hn : p rest = none) : Reads (optional p) (o.elim [] f) (o.map g) rest := by
  cases o
  case some b => exact ((ht b).map some).orElse
  case none   => exact .orElse_of_none (Reader.map_of_none hn some) (.pure none rest)

-- The bytes from the first token on, in a text that ends at `stop`.
theorem ranged (g : Gap) (hs : ∀ c ∈ (s ++ rest).head?, Text.isBlank c = false) (hp : Reads p s a rest)
    (stop : Nat) :
    Reads (Token.ranged stop p) (g.text ++ s)
      (a, ⟨stop - (Text.width s + Text.width rest), stop - Text.width rest⟩) rest := by
  have trimmed : Text.trimStart (g.text ++ s ++ rest) = s ++ rest := by
    rw [List.append_assoc, Text.trimStart_append g.blank hs]
  simp only [Reads, Token.ranged, trimmed, Text.width_append]
  rw [hp]
  rfl

end Reads

namespace Token

variable {c : Char} {cs : List Char} {t w rest : Text}

-- A text that opens with a character which is not blank, behind blanks.
theorem trimStart_gap_append (g : Gap) (ht : t.head? = some c) (hc : Text.isBlank c = false) (rest : Text) :
    Text.trimStart (g.text ++ t ++ rest) = t ++ rest := by
  rw [List.append_assoc, Text.trimStart_append g.blank]
  rw [List.head?_append, ht]
  simpa using hc

theorem reads_literal (g : Gap) (hw : w.head? = some c) (hc : Text.isBlank c = false) (rest : Text) :
    Reads (literal w) (g.text ++ w) () rest := by
  rw [Reads, literal, trimStart_gap_append g hw hc, Text.dropLiteral?_append]
  rfl

theorem reads_group {o c : Char} (g : Gap) (h : Bracket.Group o c t) (hoc : o ≠ c)
    (ho : Text.isBlank o = false) (rest : Text) : Reads (group o c) (g.text ++ t) t rest := by
  rw [Reads, group, trimStart_gap_append g h.opens ho, h.take?_append hoc]

theorem reads_keyword (g : Gap) (hw : w.head? = some c) (hc : Text.isBlank c = false)
    (h : Starts cs rest) (hn : cs.any isWordChar = false) :
    Reads (keyword w) (g.text ++ w) () rest := by
  rw [Reads, keyword, trimStart_gap_append g hw hc, wordHere?_append _ (h.not_isWordChar hn)]
  rfl

theorem reads_command (g : Gap) (h : Starts cs rest) (hn : cs.any isWordChar = false) (name : Text) :
    Reads (command name) (g.text ++ ['\\'] ++ name) () rest := by
  refine (reads_literal g (c := '\\') rfl (by decide) _).bind ?_
  rw [Reads, wordHere?_append _ (h.not_isWordChar hn)]
  rfl

theorem dropLiteral?_eq_none (hw : w.head? = some c) (h : t.head? ≠ some c) :
    Text.dropLiteral? w t = none := by
  obtain ⟨w, rfl⟩ := List.head?_eq_some_iff.mp hw
  cases t
  case nil => rfl
  case cons x t =>
    have hx : c ≠ x := fun he => h (he ▸ rfl)
    exact if_neg hx

theorem literal_eq_none (h : Starts cs t) (hw : w.head? = some c) (hc : c ∉ cs) : literal w t = none := by
  rw [literal, dropLiteral?_eq_none hw (h.head?_ne hc)]
  rfl

theorem keyword_eq_none (h : Starts cs t) (hw : w.head? = some c) (hc : c ∉ cs) : keyword w t = none := by
  rw [keyword, wordHere?, dropLiteral?_eq_none hw (h.head?_ne hc)]
  rfl

theorem starts_of_keyword (hw : w.head? = some c) (h : keyword w t ≠ none) : Starts [c] t := by
  refine ⟨c, .head _, ?_⟩
  by_contra hc
  exact h (by rw [keyword, wordHere?, dropLiteral?_eq_none hw hc]; rfl)

theorem group_eq_none (h : Starts cs t) (hc : c ∉ cs) (d : Char) : group c d t = none := by
  have hn := h.head?_ne hc
  rw [group]
  cases ht : Text.trimStart t
  case nil => rfl
  case cons x u =>
    have hx : x ≠ c := fun he => hn (by rw [ht, he]; rfl)
    exact if_neg hx

section Found

variable {u v : Text}

theorem literal_eq_some_iff : literal v t = some ((), u) ↔ v ++ u = Text.trimStart t := by
  rw [literal, eq_comm (b := Text.trimStart t)]
  simp [Text.dropLiteral?_eq_some_iff]

theorem wordHere?_eq_some_iff : wordHere? v t = some u ↔ v ++ u = t ∧ u.head?.any isWordChar = false := by
  constructor
  case mpr =>
    rintro ⟨rfl, hu⟩
    exact wordHere?_append v fun c hc => by simpa [Option.mem_def.mp hc] using hu
  case mp =>
    intro h
    rw [wordHere?] at h
    split at h
    case h_1 c r hd =>
      split at h
      case isTrue     => contradiction
      case isFalse hc =>
        cases h
        exact ⟨(Text.dropLiteral?_eq_some_iff.mp hd).symm, by simpa using hc⟩
    case h_2 hn =>
      refine ⟨(Text.dropLiteral?_eq_some_iff.mp h).symm, ?_⟩
      cases u
      case nil      => rfl
      case cons c u => exact absurd h (hn c u)

theorem keyword_eq_some_iff :
    keyword v t = some ((), u) ↔ v ++ u = Text.trimStart t ∧ u.head?.any isWordChar = false := by
  simp [keyword, wordHere?_eq_some_iff]

theorem command_eq_some_iff :
    command v t = some ((), u) ↔ '\\' :: v ++ u = Text.trimStart t ∧ u.head?.any isWordChar = false := by
  have steps : command v t = (literal ['\\'] t).bind fun x => (wordHere? v x.2).map ((), ·) := rfl
  rw [steps, Option.bind_eq_some_iff]
  constructor
  case mpr =>
    rintro ⟨parts, hu⟩
    refine ⟨((), v ++ u), literal_eq_some_iff.mpr parts, ?_⟩
    rw [wordHere?_eq_some_iff.mpr ⟨rfl, hu⟩]
    rfl
  case mp =>
    rintro ⟨⟨⟨⟩, r⟩, backslash, word⟩
    have parts := literal_eq_some_iff.mp backslash
    obtain ⟨rfl, hu⟩ : v ++ u = r ∧ _ := by simpa [wordHere?_eq_some_iff] using word
    exact ⟨parts, hu⟩

end Found

end Token
end TikzPress
