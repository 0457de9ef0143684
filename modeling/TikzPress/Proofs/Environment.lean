import TikzPress.Environment
import TikzPress.Proofs.Text.Occurrence

/-!
Which region of a text is found first, and what text behind it changes. Main statements: a region begins at
the first marker of its environment (`cut?_of_find?`), no region begins at a marker before the next region
(`find?_eq_none_of_lead`), and a text behind the next region does not change it unless a marker before it is
still open (`next?_append`).
-/

namespace TikzPress

open Text

namespace Environment

variable {name : Text}

theorem delimited_opening (h : name ∈ Region.supported) : Delimited (opening name) := by
  have ends : ∀ name ∈ Region.supported, '\\' ∉ (opening name).tail ∧ '\x7d' ∉ (opening name).dropLast := by
    decide
  exact ⟨(ends name h).left, (ends name h).right⟩

theorem delimited_closing (h : name ∈ Region.supported) : Delimited (closing name) := by
  have ends : ∀ name ∈ Region.supported, '\\' ∉ (closing name).tail ∧ '\x7d' ∉ (closing name).dropLast := by
    decide
  exact ⟨(ends name h).left, (ends name h).right⟩

-- What opens with a marker opens with no other one.
theorem eq_of_openings {other t : Text} (h : name ∈ Region.supported) (ho : other ∈ Region.supported)
    (hn : opening name <+: t) (hp : opening other <+: t) : name = other := by
  have apart : ∀ n ∈ Region.supported, ∀ m ∈ Region.supported, opening n <+: opening m → n = m := by
    decide
  rcases List.prefix_or_prefix_of_prefix hn hp with h' | h'
  case inl => exact apart _ h _ ho h'
  case inr => exact (apart _ ho _ h h').symm

theorem opening_eq (name : Text) : opening name = '\\' :: ("begin\x7b".toList ++ name ++ ['\x7d']) :=
  rfl

theorem closing_eq (name : Text) : closing name = '\\' :: ("end\x7b".toList ++ name ++ ['\x7d']) :=
  rfl

-- The two markers of an environment differ in the letter behind the backslash.
theorem not_opening_before_closing (name t : Text) : ¬opening name <+: closing name ++ t := by
  rw [opening_eq, closing_eq]
  exact fun h => absurd (List.cons_prefix_cons.mp (List.cons_prefix_cons.mp h).right).left (by decide)

theorem not_closing_before_opening (name t : Text) : ¬closing name <+: opening name ++ t := by
  rw [opening_eq, closing_eq]
  exact fun h => absurd (List.cons_prefix_cons.mp (List.cons_prefix_cons.mp h).right).left (by decide)

theorem getLast?_closing (name : Text) : (closing name).getLast? = some '\x7d' :=
  List.getLast?_concat

theorem mem_closing (name : Text) : '\x7d' ∈ closing name :=
  List.mem_of_getLast? (getLast?_closing name)

-- What a region begins at, and what closes it.
theorem find?_eq_some_iff {t : Text} {r : Region} :
    find? name t = some r ↔ ∃ rest, cut? (opening name) t = some (r.lead, rest) ∧
      close? name 0 rest = some (r.inner, r.rest) ∧ r.name = name := by
  simp only [find?, Option.bind_eq_bind, Option.bind_eq_some_iff, Option.pure_def, Option.some.injEq]
  constructor
  case mp =>
    rintro ⟨⟨lead, rest⟩, hc, ⟨inner, rest'⟩, hi, rfl⟩
    exact ⟨rest, hc, hi, rfl⟩
  case mpr =>
    rintro ⟨rest, hc, hi, rfl⟩
    exact ⟨_, hc, _, hi, rfl⟩

theorem find?_of_cut? {t lead rest : Text} (h : cut? (opening name) t = some (lead, rest)) :
    find? name t = (close? name 0 rest).map fun (inner, rest) => ⟨name, lead, inner, rest⟩ := by
  simp only [find?, h, Option.bind_eq_bind, Option.bind_some]
  cases close? name 0 rest <;> rfl

section Close

variable {depth : Nat}

theorem close?_opening (name : Text) (depth : Nat) (t : Text) :
    close? name depth (opening name ++ t) =
      (close? name (depth + 1) t).map fun (s, r) => (opening name ++ s, r) := by
  have drop := dropLiteral?_append (opening name) t
  obtain ⟨c, u, hu⟩ : ∃ c u, opening name ++ t = c :: u := ⟨'\\', _, rfl⟩
  rw [hu] at drop ⊢
  rw [close?]
  split
  case h_1 hr => rw [drop] at hr; cases hr; rfl
  case h_2 hr => rw [drop] at hr; contradiction

theorem close?_closing (name : Text) (depth : Nat) (t : Text) :
    close? name depth (closing name ++ t) =
      match depth with
      | 0     => some ([], t)
      | d + 1 => (close? name d t).map fun (s, r) => (closing name ++ s, r) := by
  have drop := dropLiteral?_append (closing name) t
  have none := dropLiteral?_eq_none_iff.mpr (not_opening_before_closing name t)
  obtain ⟨c, u, hu⟩ : ∃ c u, closing name ++ t = c :: u := ⟨'\\', _, rfl⟩
  rw [hu] at drop none ⊢
  rw [close?]
  split
  case h_1 hr => rw [none] at hr; contradiction
  case h_2 =>
    split
    case h_1 hr => rw [drop] at hr; cases hr; rfl
    case h_2 hr => rw [drop] at hr; contradiction

theorem close?_other {c : Char} {t : Text} (ho : ¬opening name <+: c :: t) (hc : ¬closing name <+: c :: t) :
    close? name depth (c :: t) = (close? name depth t).map fun (s, r) => (c :: s, r) := by
  rw [close?]
  split
  case h_1 hr => exact absurd ⟨_, (dropLiteral?_eq_some_iff.mp hr).symm⟩ ho
  case h_2 =>
    split
    case h_1 hr => exact absurd ⟨_, (dropLiteral?_eq_some_iff.mp hr).symm⟩ hc
    case h_2    => rfl

-- What is in front of the first marker is passed over.
theorem close?_append_of_not_occurs (name : Text) (depth : Nat) {a t : Text}
    (h : ∀ n < width a, ¬Occurs (opening name) (a ++ t) n ∧ ¬Occurs (closing name) (a ++ t) n) :
    close? name depth (a ++ t) = (close? name depth t).map fun (s, r) => (a ++ s, r) := by
  induction a
  case nil => simp
  case cons c a hi =>
    have here := h 0 (by have := c.utf8Size_pos; rw [width_cons]; omega)
    rw [List.cons_append, occurs_cons_iff, occurs_cons_iff] at here
    have later := hi fun n hn => by
      have there := h (c.utf8Size + n) (by rw [width_cons]; omega)
      rw [List.cons_append, occurs_cons_iff, occurs_cons_iff] at there
      exact there.imp (fun h ho => h (.inr ⟨n, ho, rfl⟩)) fun h ho => h (.inr ⟨n, ho, rfl⟩)
    have ho : ¬opening name <+: c :: (a ++ t) := fun hp => here.left (.inl ⟨hp, rfl⟩)
    have hc : ¬closing name <+: c :: (a ++ t) := fun hp => here.right (.inl ⟨hp, rfl⟩)
    rw [List.cons_append, close?_other ho hc, later, Option.map_map]
    rfl

theorem close?_of_not_occurs {t : Text} (h : cut? (closing name) t = none) : close? name depth t = none := by
  refine Option.eq_none_iff_forall_ne_some.mpr fun x hx => ?_
  obtain ⟨_, _, hc, -⟩ := exists_cut?_of_occurs ⟨x.1, x.2, append_of_close? hx, rfl⟩
  rw [h] at hc
  contradiction

-- A region that begins at the first marker of a text also begins there when the text before it is left out.
theorem find?_opening {t lead rest : Text} (h : cut? (opening name) t = some (lead, rest))
    (hf : find? name t = none) : find? name (opening name ++ rest) = none := by
  rw [find?_of_cut? h, Option.map_eq_none_iff] at hf
  rw [find?_of_cut? (cut?_append_self ..), hf]
  rfl

theorem close?_append (h : name ∈ Region.supported) {t s r : Text}
    (hc : close? name depth t = some (s, r)) (u : Text) :
    close? name depth (t ++ u) = some (s, r ++ u) := by
  fun_induction close? name depth t generalizing s
  case case1 => contradiction
  case case2 depth c t rest hrest ih =>
    obtain ⟨⟨s', r'⟩, h', heq⟩ := Option.map_eq_some_iff.mp hc
    cases heq
    rw [Text.dropLiteral?_eq_some_iff.mp hrest, List.append_assoc, close?_opening, ih h']
    rfl
  case case3 c t ho rest hrest =>
    cases hc
    rw [Text.dropLiteral?_eq_some_iff.mp hrest, List.append_assoc, close?_closing]
  case case4 c t ho rest hrest d ih =>
    obtain ⟨⟨s', r'⟩, h', heq⟩ := Option.map_eq_some_iff.mp hc
    cases heq
    rw [Text.dropLiteral?_eq_some_iff.mp hrest, List.append_assoc, close?_closing]
    exact congrArg (Option.map _) (ih h')
  case case5 depth c t ho hcl ih =>
    obtain ⟨⟨s', r'⟩, h', heq⟩ := Option.map_eq_some_iff.mp hc
    cases heq
    have mem : '\x7d' ∈ c :: t := by
      rw [← append_of_close? h']
      simp [mem_closing]
    rw [dropLiteral?_eq_none_iff] at ho hcl
    have unopened : ¬opening name <+: c :: (t ++ u) :=
      fun hp => ho ((delimited_opening h).prefix_of_prefix_append mem hp)
    have unclosed : ¬closing name <+: c :: (t ++ u) :=
      fun hp => hcl ((delimited_closing h).prefix_of_prefix_append mem hp)
    rw [List.cons_append, close?_other unopened unclosed, ih h']
    rfl

end Close

theorem find?_append (h : name ∈ Region.supported) {t : Text} {r : Region} (hr : find? name t = some r)
    (u : Text) : find? name (t ++ u) = some { r with rest := r.rest ++ u } := by
  obtain ⟨rest, hc, hi, hn⟩ := find?_eq_some_iff.mp hr
  exact find?_eq_some_iff.mpr ⟨rest ++ u, cut?_append hc u, close?_append h hi u, hn⟩

end Environment

namespace Region

open Environment

variable {t : Text} {r : Region} {name : Text}

theorem find?_of_next? (h : next? t = some r) : r.name ∈ supported ∧ find? r.name t = some r := by
  obtain ⟨name, hn, hr⟩ := exists_find?_of_next? h
  obtain ⟨-, -, -, rfl⟩ := find?_eq_some_iff.mp hr
  exact ⟨hn, hr⟩

theorem exists_earlier {a b : Option Region} (h : a = some r ∨ b = some r) :
    ∃ x, earlier a b = some x ∧ x.lead.length ≤ r.lead.length := by
  rcases h with rfl | rfl
  case inl =>
    cases b
    case none   => exact ⟨r, rfl, le_rfl⟩
    case some b =>
      rw [earlier]
      split
      case isTrue hl => exact ⟨b, rfl, hl.le⟩
      case isFalse   => exact ⟨r, rfl, le_rfl⟩
  case inr =>
    cases a
    case none   => exact ⟨r, rfl, le_rfl⟩
    case some a =>
      rw [earlier]
      split
      case isTrue     => exact ⟨r, rfl, le_rfl⟩
      case isFalse hl => exact ⟨a, rfl, Nat.le_of_not_lt hl⟩

theorem exists_foldl_earlier {a : Option Region} {l : List (Option Region)} (h : a = some r ∨ some r ∈ l) :
    ∃ x, l.foldl earlier a = some x ∧ x.lead.length ≤ r.lead.length := by
  induction l generalizing a r
  case nil => exact ⟨r, h.resolve_right (List.not_mem_nil), le_rfl⟩
  case cons b l hi =>
    rw [List.mem_cons, ← or_assoc] at h
    rcases h with h | h
    case inr => exact hi (.inr h)
    case inl =>
      obtain ⟨x, hx, hl⟩ := exists_earlier (h.imp_right Eq.symm)
      obtain ⟨y, hy, hl'⟩ := hi (.inl hx)
      exact ⟨y, hy, hl'.trans hl⟩

-- The next region is the one that begins first.
theorem exists_next? (hn : name ∈ supported) (h : find? name t = some r) :
    ∃ x, next? t = some x ∧ x.lead.length ≤ r.lead.length :=
  exists_foldl_earlier (.inr (h ▸ List.mem_map_of_mem hn))

theorem find?_eq_none_of_next? (h : next? t = none) (hn : name ∈ supported) : find? name t = none :=
  Option.eq_none_iff_forall_ne_some.mpr fun r' hr => by
    obtain ⟨x, hx, -⟩ := exists_next? hn hr
    simp [h] at hx

theorem next?_of_first (hn : r.name ∈ supported) (hr : find? r.name t = some r)
    (h : ∀ name ∈ supported, name ≠ r.name → ∀ r', find? name t = some r' →
      r.lead.length < r'.lead.length) : next? t = some r := by
  obtain ⟨x, hx, hl⟩ := exists_next? hn hr
  obtain ⟨hn', hx'⟩ := find?_of_next? hx
  by_cases he : x.name = r.name
  case pos =>
    rw [he, hr] at hx'
    rw [hx, hx']
  case neg => exact absurd hl (Nat.not_le_of_lt (h _ hn' he x hx'))

theorem border_lead (r : Region) (t : Text) : Border r.lead (r.text ++ t) :=
  .inr fun c hc => by
    rw [text, List.append_assoc, List.append_assoc] at hc
    cases hc
    rfl

-- No region begins at a marker that stands before the next region.
theorem find?_eq_none_of_lead (h : next? t = some r) (hn : name ∈ supported) {lead rest : Text}
    (hc : cut? (opening name) r.lead = some (lead, rest)) : find? name t = none := by
  refine Option.eq_none_iff_forall_ne_some.mpr fun r' hr => ?_
  obtain ⟨x, hx, hl⟩ := exists_next? hn hr
  cases h.symm.trans hx
  have first := cut?_append hc (r.text ++ r.rest)
  rw [← List.append_assoc, append_of_next? h] at first
  obtain ⟨_, hc', -⟩ := find?_eq_some_iff.mp hr
  cases first.symm.trans hc'
  have := congrArg List.length (append_of_cut? hc)
  have := List.length_pos_iff.mpr (opening_ne_nil name)
  simp at *
  omega

-- Another region begins behind a part without its marker that a marker follows.
theorem length_lt_of_find? {other lead rest : Text} (hn : name ∈ supported) (ho : other ∈ supported)
    (hne : name ≠ other) (hl : ¬opening name <:+: lead) (hr : opening other <+: rest)
    (h : find? name (lead ++ rest) = some r) : lead.length < r.lead.length := by
  have whole := append_of_find? h
  obtain ⟨-, -, -, rfl⟩ := find?_eq_some_iff.mp h
  have here : r.lead ++ opening r.name ++ (r.inner ++ closing r.name ++ r.rest) = lead ++ rest := by
    simpa [text] using whole
  have border : Border lead rest := by
    obtain ⟨u, rfl⟩ := hr
    refine .inr fun c hc => ?_
    cases hc
    rfl
  rcases (delimited_opening hn).append_eq border here with ⟨w, hw, -⟩ | ⟨w, hw, hw'⟩
  case inl => exact absurd ⟨_, _, hw.symm⟩ hl
  case inr =>
    cases w
    case cons => simp [hw]
    case nil  => exact absurd (eq_of_openings hn ho ⟨_, hw'.symm⟩ hr) hne

theorem next?_append (h : next? t = some r) (ho : ∀ name ∈ supported, ∀ n, ¬Occurs (opening name) r.lead n)
    (u : Text) : next? (t ++ u) = some { r with rest := r.rest ++ u } := by
  obtain ⟨hn, hr⟩ := find?_of_next? h
  refine next?_of_first hn (find?_append hn hr u) fun name hn' hne r' hr' => ?_
  have front : ¬opening name <:+: r.lead := fun ⟨lead, rest, hi⟩ => ho _ hn' _ ⟨lead, rest, hi, rfl⟩
  have here : t ++ u = r.lead ++ (r.text ++ (r.rest ++ u)) := by
    rw [← append_of_next? h]
    simp
  exact length_lt_of_find? hn' hn hne front (by simp [text]) (here ▸ hr')

end Region
end TikzPress
