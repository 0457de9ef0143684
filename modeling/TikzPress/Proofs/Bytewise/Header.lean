import TikzPress.Proofs.Bytewise.Cursor
import TikzPress.Proofs.Bytewise.Document

/-!
The option list in the header of a block. The document looks for it right behind the begin marker, by a scan of
its own (`listWidth`); in a statement it is a cursor that looks for option lists. Main statement: in the text
between the markers of a block both find the same list (`headed`).
-/

namespace TikzPress.Bytewise

open Text Document Environment

section Scan

variable (limit : Nat)

-- The width of the list of which `depth` brackets are open. The next byte has the index `i`.
def listFrom (depth i : Nat) : Bytes → Checked (Option Nat)
  | []      => .ok none
  | b :: bs =>
    if b = byte '[' then do
      listFrom (← sum limit depth 1) (i + 1) bs
    else if b = byte ']' then do
      let depth ← difference depth 1
      if depth = 0 then return some (← sum limit i 1) else listFrom depth (i + 1) bs
    else listFrom depth (i + 1) bs

-- The width of the option list at the start of a text.
def listWidth (t : Text) : Checked (Option Nat) :=
  if opensWith ['['] t then listFrom limit 0 0 (encode t) else .ok none

variable {limit}

theorem listFrom_eq (depth i : Nat) (bs : Bytes) :
    listFrom limit depth i bs = closeAt limit '[' ']' depth i bs >>= fun found =>
      match found with
      | none   => return none
      | some i => return some (← sum limit i 1) := by
  induction bs generalizing depth i
  case nil => rfl
  case cons b bs ih =>
    rw [listFrom, closeAt]
    split
    case isTrue => simp only [bind_assoc, ih]
    case isFalse =>
      split
      case isFalse => exact ih ..
      case isTrue  =>
        rw [bind_assoc]
        refine bind_congr fun d => ?_
        split
        case isTrue  => rfl
        case isFalse => exact ih ..

theorem opensWith_singleton_iff {c : Char} {t : Text} : opensWith [c] t ↔ t.head? = some c := by
  rw [opensWith_iff]
  cases t <;> simp [List.cons_prefix_cons, eq_comm]

-- Both scans for an option list take the same bytes.
theorem listWidth_eq (t : Text) : listWidth limit t = groupWidth limit '[' ']' t := by
  rw [listWidth, groupWidth]
  by_cases ht : t.head? = some '['
  case pos =>
    have first : (encode t).head? = some (byte '[') := (head?_encode_iff (by decide)).mpr ht
    rw [if_pos (opensWith_singleton_iff.mpr ht), if_neg (not_not.mpr first)]
    exact listFrom_eq 0 0 (encode t)
  case neg =>
    rw [if_neg (mt opensWith_singleton_iff.mp ht), if_pos (mt (head?_encode_iff (by decide)).mp ht)]
    rfl

end Scan

-- The text `t` between the markers of a block, and what the block and a cursor make of it.
structure Headed (limit : Nat) (b : Block) (t : Text) : Prop where
  text   : b.text = opening b.name ++ t ++ closing b.name
  footer : b.footer = closing b.name
  header : b.header = opening b.name ++ b.options?.getD []
  body   : b.options?.getD [] ++ b.body = t
  list   : ∀ o ∈ b.options?, Bracket.Group '[' ']' o
  found  : listWidth limit t = .ok (b.options?.map width)
  read   : t.head? = some '[' → OptionList.read t = b.options?.map fun o => (⟨o⟩, b.body)
  cursor : t.head? = some '[' → Cursor.options limit (opening b.name ++ t) (width (opening b.name)) =
    .ok (b.options?.map .mk, width b.header)
  bare   : t.head? ≠ some '[' ∨ (∀ s, s <+: t → ¬Bracket.Balanced '[' ']' s) →
    b.options? = none ∧ b.header = opening b.name ∧ b.body = t

section Blocks

variable {limit start : Nat} {r : Region} {t o u : Text}

-- Where the list stands right there, no blanks are skipped.
theorem read_of_head? (h : t.head? = some '[') :
    OptionList.read t = (Bracket.take? '[' ']' t).map fun x => (⟨x.1⟩, x.2) := by
  have there : trimStart t = t := trimStart_of_head? fun c hc => by
    obtain rfl : '[' = c := Option.some.inj (h.symm.trans hc)
    decide
  rw [OptionList.read, Reader.map_apply, Token.group, there]

-- The cursor stops behind the list that is read, or where it has started.
theorem options_append (lead : Text) (hl : width (lead ++ t) ≤ limit) {x : Option Text}
    (h : OptionList.read t = x.map fun o => (⟨o⟩, u)) (parts : x.getD [] ++ u = t) :
    Cursor.options limit (lead ++ t) (width lead) = .ok (x.map .mk, width (lead ++ x.getD [])) := by
  have := follows_options hl lead t rfl
  rw [h] at this
  rw [Cursor.options_eq, Cursor.restoring_apply]
  generalize options limit (lead ++ t) (width lead) = y at this
  cases x
  case none =>
    cases this
    simp [Cursor.settle]
  case some o =>
    cases this
    case taken s _ parts' =>
      obtain rfl : s = o := List.append_cancel_right (parts'.trans parts.symm)
      rfl

theorem header_ofRegion : (Block.ofRegion start r).header =
    opening r.name ++ ((Bracket.take? '[' ']' r.inner).map Prod.fst).getD [] := by
  cases h : Bracket.take? '[' ']' r.inner <;> simp [Block.ofRegion, h]

theorem body_ofRegion : (Block.ofRegion start r).body =
    ((Bracket.take? '[' ']' r.inner).map Prod.snd).getD r.inner := by
  cases h : Bracket.take? '[' ']' r.inner <;> simp [Block.ofRegion, h]

-- What stands in the header behind the begin marker is a list, which is not empty.
theorem options?_ofRegion : (Block.ofRegion start r).options? =
    (Bracket.take? '[' ']' r.inner).map Prod.fst := by
  rw [Block.options?, header_ofRegion, show (Block.ofRegion start r).name = r.name from rfl,
    dropBytes?_width_append]
  cases h : Bracket.take? '[' ']' r.inner
  case none   => rfl
  case some x =>
    obtain ⟨inner, hx⟩ := Bracket.take?_eq_append h
    simp [hx]

-- No list is taken where the text opens with another character, or where its first bracket is not closed.
theorem take?_eq_none (h : t.head? ≠ some '[' ∨ ∀ s, s <+: t → ¬Bracket.Balanced '[' ']' s) :
    Bracket.take? '[' ']' t = none := by
  cases ht : Bracket.take? '[' ']' t
  case none   => rfl
  case some x =>
    have parts := Bracket.append_of_take? ht
    have whole := Bracket.group_of_take? (by decide) ht
    cases h
    case inl h => exact absurd (by rw [← parts, List.head?_append, whole.opens]; rfl) h
    case inr h => exact absurd whole.balanced (h _ ⟨_, parts⟩)

theorem header_eq_append : (Block.ofRegion start r).header =
    opening r.name ++ (Block.ofRegion start r).options?.getD [] := by
  rw [header_ofRegion, options?_ofRegion]

theorem options?_append_body :
    (Block.ofRegion start r).options?.getD [] ++ (Block.ofRegion start r).body = r.inner := by
  rw [options?_ofRegion, body_ofRegion]
  cases h : Bracket.take? '[' ']' r.inner
  case none   => rfl
  case some x => exact Bracket.append_of_take? h

theorem read_inner (h : r.inner.head? = some '[') : OptionList.read r.inner =
    (Block.ofRegion start r).options?.map fun o => (⟨o⟩, (Block.ofRegion start r).body) := by
  rw [read_of_head? h, options?_ofRegion, body_ofRegion]
  cases Bracket.take? '[' ']' r.inner <;> rfl

theorem headed_ofRegion (hl : width (opening r.name ++ r.inner) ≤ limit) :
    Headed limit (.ofRegion start r) r.inner where
  text   := Block.text_ofRegion start r
  footer := rfl
  header := header_eq_append
  body   := options?_append_body
  list o ho := by
    rw [options?_ofRegion] at ho
    obtain ⟨_, h, rfl⟩ := Option.map_eq_some_iff.mp ho
    exact Bracket.group_of_take? (by decide) h
  found := by
    rw [width_append] at hl
    rw [listWidth_eq, groupWidth_eq (by decide) (by decide) (by omega), options?_ofRegion, Option.map_map]
    rfl
  read     := read_inner
  cursor h := by
    rw [header_eq_append]
    exact options_append _ hl (read_inner h) options?_append_body
  bare h := by
    rw [options?_ofRegion, header_ofRegion, body_ofRegion, take?_eq_none h]
    exact ⟨rfl, List.append_nil _, rfl⟩

theorem headed {source : Text} {b : Block} (h : b ∈ (parse source).blocks) (spare : Nat) :
    ∃ t, Headed (width source + spare) b t := by
  obtain ⟨lead, rest, parts, -⟩ := (laid_segmentsFrom 0 source).exists_append (mem_blocks_iff.mp h)
  obtain ⟨start, _, r, -, rfl⟩ := exists_region_of_mem_segmentsFrom (mem_blocks_iff.mp h)
  refine ⟨r.inner, headed_ofRegion ?_⟩
  have fits := congrArg width parts
  simp only [Segment.text, Block.text_ofRegion, Region.text, width_append] at fits ⊢
  omega

-- A list with another list in it, around a letter of two bytes.
def nestedBlock : Block where
  name   := "tikzpicture".toList
  header := "\\begin\x7btikzpicture\x7d[a=[β]]".toList
  body   := "] y".toList
  footer := "\\end\x7btikzpicture\x7d".toList
  range  := ⟨1, 48⟩

theorem headed_nestedBlock :
    nestedBlock ∈ (parse ('x' :: nestedBlock.text)).blocks ∧
    nestedBlock.options? = some "[a=[β]]".toList ∧
    ∃ t, Headed (width ('x' :: nestedBlock.text)) nestedBlock t := by
  have mem : nestedBlock ∈ (parse ('x' :: nestedBlock.text)).blocks := by decide +kernel
  exact ⟨mem, by decide +kernel, headed mem 0⟩

end Blocks

end TikzPress.Bytewise
