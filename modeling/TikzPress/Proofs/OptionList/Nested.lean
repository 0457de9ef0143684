import Mathlib.Data.List.Infix
import TikzPress.Proofs.OptionList

/-!
Items that are properly nested. In a text whose braces and parentheses are closed in the opposite order of their
opening, a comma separates exactly if the text in front of it is such a text too. Main statement: items are read
back from an option list whatever blanks stand around and between them, and what is read from a nested list is an
item (`recovered_items`).
-/

namespace TikzPress.OptionList

open Text

inductive Pair : Char → Char → Prop
  | braces      : Pair '\x7b' '\x7d'
  | parentheses : Pair '(' ')'

abbrev brackets : List Char :=
  ['\x7b', '\x7d', '(', ')']

inductive Nested : Text → Prop
  | nil   : Nested []
  | plain : c ∉ brackets → Nested t → Nested (c :: t)
  | pair  : Pair o c → Nested s → Nested t → Nested (o :: s ++ c :: t)

-- What an option list may have as an item: no comma of it stands outside of all brackets.
structure Item (i : Text) : Prop where
  nonempty : i ≠ []
  trimmed  : trim i = i
  nested   : Nested i
  inside   : ∀ p, p ++ [','] <+: i → ¬Nested p

-- The texts between the commas where items are joined: an item with blanks around it, or only blanks.
inductive Slots : List Text → List Text → Prop
  | nil   : Slots [] []
  | blank : (g : Gap) → Slots is slots → Slots is (g.text :: slots)
  | item  : (g₁ g₂ : Gap) → Slots is slots → Slots (i :: is) ((g₁.text ++ i ++ g₂.text) :: slots)

def joined (slots : List Text) : OptionList :=
  ⟨['['] ++ joinWith [','] slots ++ [']']⟩

structure Recovered : Prop where
  joined : ∀ is slots, (∀ i ∈ is, Item i) → Slots is slots → (joined slots).items = is
  split  : ∀ o : OptionList, Nested o.inner → ∀ i ∈ o.items, Item i

section Stack

-- The brackets that are to be closed behind a character, the innermost first, if `ds` are those in front of it.
-- A bracket that closes has to be the innermost of them.
def closing? (ds : List Char) (c : Char) : Option (List Char) :=
  if c = '\x7b' then some ('\x7d' :: ds)
  else if c = '(' then some (')' :: ds)
  else if c = '\x7d' ∨ c = ')' then dropLiteral? [c] ds
  else some ds

abbrev awaited? (ds : List Char) (t : Text) : Option (List Char) :=
  t.foldlM closing? ds

-- The brackets are closed one by one, with nested texts before, between and behind.
inductive Closes : List Char → Text → Prop
  | nil  : Nested t → Closes [] t
  | cons : Nested s → Closes ds t → Closes (d :: ds) (s ++ d :: t)

variable {o c : Char} {ds es : List Char} {s t p u : Text}

theorem closing?_cases (h : closing? ds c = some es) :
    (∃ d, Pair c d ∧ es = d :: ds) ∨ (∃ o, Pair o c ∧ ds = c :: es) ∨ c ∉ brackets ∧ es = ds := by
  unfold closing? at h
  split_ifs at h with hb hp hc
  case pos =>
    cases h
    exact .inl ⟨_, hb ▸ .braces, rfl⟩
  case pos =>
    cases h
    exact .inl ⟨_, hp ▸ .parentheses, rfl⟩
  case pos =>
    have h := dropLiteral?_eq_some_iff.mp h
    obtain rfl | rfl := hc
    case inl => exact .inr (.inl ⟨_, .braces, h⟩)
    case inr => exact .inr (.inl ⟨_, .parentheses, h⟩)
  case neg =>
    cases h
    exact .inr (.inr ⟨by simp_all, rfl⟩)

theorem Pair.closing?_left (h : Pair o c) (ds : List Char) : closing? ds o = some (c :: ds) := by
  cases h <;> rfl

theorem Pair.closing?_right (h : Pair o c) (ds : List Char) : closing? (c :: ds) c = some ds := by
  cases h <;> rfl

theorem closing?_plain (h : c ∉ brackets) (ds : List Char) : closing? ds c = some ds := by
  simp_all [closing?]

theorem depthAfter_of_closing? (h : closing? ds c = some es) : depthAfter ds.length c = es.length := by
  obtain ⟨d, hp, rfl⟩ | ⟨o, hp, rfl⟩ | ⟨hc, rfl⟩ := closing?_cases h
  case inl     => cases hp <;> rfl
  case inr.inl => cases hp <;> rfl
  case inr.inr => simp_all [depthAfter]

theorem awaited?_append_iff :
    awaited? ds (s ++ t) = some es ↔ ∃ fs, awaited? ds s = some fs ∧ awaited? fs t = some es := by
  rw [awaited?, List.foldlM_append]
  exact Option.bind_eq_some_iff

theorem awaited?_cons_iff :
    awaited? ds (c :: t) = some es ↔ ∃ fs, closing? ds c = some fs ∧ awaited? fs t = some es :=
  Option.bind_eq_some_iff

-- As long as each closing bracket is the awaited one, the depth is the number of those that are awaited.
theorem level_of_awaited? (h : awaited? ds t = some es) : level ds.length t = es.length := by
  induction t generalizing ds
  case nil =>
    cases h
    rfl
  case cons hi =>
    have ⟨fs, hc, ht⟩ := awaited?_cons_iff.mp h
    rw [level, List.foldl_cons, depthAfter_of_closing? hc]
    exact hi ht

theorem Nested.append (hs : Nested s) (ht : Nested t) : Nested (s ++ t) := by
  induction hs
  case nil               => exact ht
  case plain hc _ hi     => exact .plain hc hi
  case pair hp hs _ _ hi => simpa using Nested.pair hp hs hi

theorem Nested.awaited?_eq (h : Nested t) (ds : List Char) : awaited? ds t = some ds := by
  induction h generalizing ds
  case nil           => rfl
  case plain hc _ hi => exact awaited?_cons_iff.mpr ⟨ds, closing?_plain hc ds, hi ds⟩
  case pair hp _ _ hs ht =>
    have behind := awaited?_cons_iff.mpr ⟨ds, hp.closing?_right ds, ht ds⟩
    exact awaited?_cons_iff.mpr ⟨_, hp.closing?_left ds, awaited?_append_iff.mpr ⟨_, hs _, behind⟩⟩

theorem Nested.append_closes (hs : Nested s) (ht : Closes ds t) : Closes ds (s ++ t) := by
  cases ht
  case nil ht     => exact .nil (hs.append ht)
  case cons hu ht => exact List.append_assoc s _ _ ▸ .cons (hs.append hu) ht

theorem closes_of_awaited? (h : awaited? ds t = some []) : Closes ds t := by
  induction t generalizing ds
  case nil =>
    cases h
    exact .nil .nil
  case cons c t hi =>
    have ⟨es, hc, ht⟩ := awaited?_cons_iff.mp h
    have closes := hi ht
    obtain ⟨d, hp, rfl⟩ | ⟨o, -, rfl⟩ | ⟨hn, rfl⟩ := closing?_cases hc
    case inl =>
      cases closes
      case cons hs closes => simpa using (Nested.pair hp hs .nil).append_closes closes
    case inr.inl => exact .cons .nil closes
    case inr.inr => exact (Nested.plain hn .nil).append_closes closes

theorem nested_iff : Nested t ↔ awaited? [] t = some [] := by
  constructor
  case mp => exact fun h => h.awaited?_eq []
  case mpr =>
    intro h
    cases closes_of_awaited? h
    case nil ht => exact ht

instance (t : Text) : Decidable (Nested t) :=
  decidable_of_iff _ nested_iff.symm

theorem Nested.closed (h : Nested t) : Closed t :=
  closed_iff.mpr (level_of_awaited? (nested_iff.mp h))

-- Where nothing is open, a nested text falls into two.
theorem Nested.of_append (h : Nested (s ++ t)) (hs : Closed s) : Nested s ∧ Nested t := by
  have ⟨ds, hd, ht⟩ := awaited?_append_iff.mp (nested_iff.mp h)
  have none : ds.length = 0 := level_of_awaited? hd ▸ closed_iff.mp hs
  obtain rfl := List.eq_nil_of_length_eq_zero none
  exact ⟨nested_iff.mpr hd, nested_iff.mpr ht⟩

theorem Nested.of_append_right (h : Nested (s ++ t)) (ht : Nested t) : Nested s := by
  have ⟨ds, hd, hn⟩ := awaited?_append_iff.mp (nested_iff.mp h)
  rw [ht.awaited?_eq] at hn
  cases hn
  exact nested_iff.mpr hd

end Stack

section Padded

variable {t : Text}

theorem nested_gap (g : Gap) : Nested g.text := by
  have plain : brackets.all (!isBlank ·) := by decide
  have blank : ∀ c ∈ g.text, isBlank c := List.all_eq_true.mp g.blank
  generalize g.text = t at blank
  induction t
  case nil       => exact .nil
  case cons c t hi =>
    have ⟨hc, ht⟩ := List.forall_mem_cons.mp blank
    exact .plain (fun hm => by simpa [hc] using List.all_eq_true.mp plain c hm) (hi ht)

-- Blanks make no difference.
theorem nested_padded_iff (g₁ g₂ : Gap) : Nested (g₁.text ++ t ++ g₂.text) ↔ Nested t := by
  constructor
  case mpr => exact fun h => ((nested_gap g₁).append h).append (nested_gap g₂)
  case mp  => exact fun h => ((h.of_append_right (nested_gap g₂)).of_append (nested_gap g₁).closed).right

theorem comma_not_mem_gap (g : Gap) : ',' ∉ g.text :=
  fun hm => absurd (List.all_eq_true.mp g.blank _ hm) (by decide)

theorem whole_of_not_mem (h : ',' ∉ t) : Whole t := by
  rintro p ⟨r, rfl⟩
  simp at h

-- A comma of one of two texts is a comma of the first or of the second.
theorem comma_append_cases {p r s t : Text} (h : p ++ [','] ++ r = s ++ t) :
    (∃ u, s = p ++ [','] ++ u) ∨ ∃ u, p = s ++ u ∧ t = u ++ [','] ++ r := by
  rw [List.append_assoc] at h
  rcases List.append_eq_append_iff.mp h with ⟨u, rfl, hu⟩ | ⟨u, rfl, rfl⟩
  case inr => exact .inr ⟨u, rfl, by simp⟩
  case inl =>
    cases u
    case nil => exact .inr ⟨[], by simp, by simpa using hu.symm⟩
    case cons =>
      obtain ⟨rfl, -⟩ := List.cons.inj hu
      exact .inl ⟨_, List.append_cons ..⟩

theorem whole_padded_iff (g₁ g₂ : Gap) : Whole (g₁.text ++ t ++ g₂.text) ↔ Whole t := by
  constructor
  case mp =>
    rintro h p ⟨r, rfl⟩ hc
    exact h (g₁.text ++ p) ⟨r ++ g₂.text, by simp⟩ ((nested_gap g₁).closed.append_iff.mpr hc)
  case mpr =>
    rintro h p ⟨r, hr⟩ hc
    rcases comma_append_cases hr with ⟨u, hu⟩ | ⟨u, -, hu⟩
    case inr => exact comma_not_mem_gap g₂ (by simp [hu])
    case inl =>
      rcases comma_append_cases hu.symm with ⟨v, hv⟩ | ⟨v, rfl, rfl⟩
      case inl => exact comma_not_mem_gap g₁ (by simp [hv])
      case inr => exact h v ⟨u, rfl⟩ ((nested_gap g₁).closed.append_iff.mp hc)

end Padded

section Items

variable {i : Text} {is slots ps : List Text}

theorem Item.whole (h : Item i) : Whole i := by
  rintro p ⟨r, rfl⟩ hc
  have nested := h.nested
  rw [List.append_assoc] at nested
  exact h.inside p ⟨r, rfl⟩ (nested.of_append hc).left

theorem pieces_joinWith (hn : slots ≠ []) (h : ∀ s ∈ slots, Closed s ∧ Whole s) :
    Pieces (joinWith [','] slots) slots := by
  induction slots
  case nil => contradiction
  case cons s slots hi =>
    have ⟨⟨hc, hw⟩, hs⟩ := List.forall_mem_cons.mp h
    cases slots
    case nil  => exact .last hw
    case cons => exact .cons hw hc (hi (List.cons_ne_nil _ _) hs)

theorem Slots.separate (h : Slots is slots) (hi : ∀ i ∈ is, Item i) : ∀ s ∈ slots, Closed s ∧ Whole s := by
  induction h
  case nil => exact fun _ hs => absurd hs List.not_mem_nil
  case blank g _ ih =>
    exact List.forall_mem_cons.mpr ⟨⟨(nested_gap g).closed, whole_of_not_mem (comma_not_mem_gap g)⟩, ih hi⟩
  case item g₁ g₂ _ ih =>
    have ⟨first, rest⟩ := List.forall_mem_cons.mp hi
    have nested := (nested_padded_iff g₁ g₂).mpr first.nested
    exact List.forall_mem_cons.mpr ⟨⟨nested.closed, (whole_padded_iff g₁ g₂).mpr first.whole⟩, ih rest⟩

theorem Slots.trimmed (h : Slots is slots) (hi : ∀ i ∈ is, Item i) :
    (slots.filter (¬isBlankOnly ·)).map trim = is := by
  induction h
  case nil => rfl
  case blank g _ ih => rw [List.filter_cons_of_neg (by simp [g.blank]), ih hi]
  case item g₁ g₂ _ ih =>
    have ⟨first, rest⟩ := List.forall_mem_cons.mp hi
    have trimmed := (trim_padded g₁ g₂ _).trans first.trimmed
    have shown := mt trim_eq_nil_iff.mpr (trimmed ▸ first.nonempty)
    rw [List.filter_cons_of_pos (by simpa using shown), List.map_cons, trimmed, ih rest]

theorem Pieces.nested (h : Pieces t ps) (ht : Nested t) : ∀ p ∈ ps, Nested p ∧ Whole p := by
  induction h
  case last hw => exact List.forall_mem_singleton.mpr ⟨ht, hw⟩
  case cons hw hc _ ih =>
    have comma : Closed [','] := closed_iff.mpr rfl
    rw [List.append_assoc] at ht
    have ⟨hp, rest⟩ := ht.of_append hc
    exact List.forall_mem_cons.mpr ⟨⟨hp, hw⟩, ih (rest.of_append comma).right⟩

theorem item_trim {p : Text} (hb : ¬isBlankOnly p) (hn : Nested p) (hw : Whole p) : Item (trim p) := by
  have ⟨g₁, g₂, h⟩ := exists_padded p
  exact {
    nonempty := mt trim_eq_nil_iff.mp hb
    trimmed  := trim_trim p
    nested   := (nested_padded_iff g₁ g₂).mp (h ▸ hn)
    inside   := fun q hq hnq => (whole_padded_iff g₁ g₂).mp (h ▸ hw) q hq hnq.closed }

theorem items_joined (h : Slots is slots) (hn : slots ≠ []) (hi : ∀ i ∈ is, Item i) :
    (joined slots).items = is := by
  have inner : (joined slots).inner = joinWith [','] slots := inner_mk _
  have pieces := pieces_joinWith hn (h.separate hi)
  rw [items_eq (inner ▸ pieces), h.trimmed hi]

theorem recovered_items : Recovered where
  joined is slots hi h := by
    cases slots
    case cons => exact items_joined h (List.cons_ne_nil _ _) hi
    case nil =>
      -- Without any text between commas there is an empty one.
      cases h
      change (OptionList.joined [[]]).items = []
      exact items_joined (.blank .none .nil) (List.cons_ne_nil _ _) hi
  split o hn i hi := by
    have ⟨ps, hps⟩ := exists_pieces o.inner
    rw [items_eq hps] at hi
    obtain ⟨p, hp, rfl⟩ := List.mem_map.mp hi
    have ⟨hp, hb⟩ := List.mem_filter.mp hp
    have ⟨nested, whole⟩ := hps.nested hn p hp
    exact item_trim (by simpa using hb) nested whole

end Items

instance (i : Text) : Decidable (Item i) :=
  decidable_of_iff (i ≠ [] ∧ trim i = i ∧ Nested i ∧ ∀ p ∈ i.inits, p ++ [','] <+: i → ¬Nested p)
    ⟨fun ⟨nonempty, trimmed, nested, inside⟩ =>
      { nonempty, trimmed, nested,
        inside := fun p hp => inside p ((List.mem_inits p i).mpr ((List.prefix_append p _).trans hp)) hp },
     fun h => ⟨h.nonempty, h.trimmed, h.nested, fun p _ => h.inside p⟩⟩

def sampleItems : List Text :=
  ["circuit ee IEC".toList, "label=\x7b(a), b\x7d".toList, "at=(1,\x7b2\x7d)".toList]

def sampleSlots : List Text :=
  [[], "\tcircuit ee IEC".toList, " ".toList, "label=\x7b(a), b\x7d \u2003".toList, "at=(1,\x7b2\x7d)".toList, []]

theorem recovered_sampleItems :
    (∀ i ∈ sampleItems, Item i) ∧ Slots sampleItems sampleSlots ∧ (joined sampleSlots).items = sampleItems ∧
      Nested (joined sampleSlots).inner ∧ ∀ i ∈ (joined sampleSlots).items, Item i := by
  have items : ∀ i ∈ sampleItems, Item i := by decide +kernel
  have slots : Slots sampleItems sampleSlots :=
    .blank .none <| .item ⟨['\t'], rfl⟩ .none <| .blank ⟨[' '], rfl⟩ <| .item .none ⟨[' ', '\u2003'], rfl⟩ <|
      .item .none .none <| .blank .none .nil
  have nested : Nested (joined sampleSlots).inner := by
    have : Nested (joinWith [','] sampleSlots) := by decide +kernel
    rwa [joined, inner_mk]
  exact ⟨items, slots, recovered_items.joined _ _ items slots, nested, recovered_items.split _ nested⟩

end TikzPress.OptionList
