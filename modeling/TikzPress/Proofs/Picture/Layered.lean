import TikzPress.Proofs.Picture.Layers
import TikzPress.Proofs.Text.Occurrence

/-!
Texts with layers. The search for layers begins at the first marker of a layer, and since no later marker ends
before it, nothing is missed there. Main statement: a text has layers exactly if a layer opens in it and is
closed behind that (`layersOf_eq_nil_iff`), so a part of a text without layers has none.
-/

namespace TikzPress.Picture

open Text

variable {t u name rest : Text}

-- A layer opens in a text, and behind that a layer is closed.
def Layered (t : Text) : Prop :=
  ∃ lead name rest, lead ++ layerOpening name ++ rest = t ∧ name ≠ [] ∧ '\x7d' ∉ name ∧
    layerClosing <:+: rest

theorem Layered.of_infix (h : Layered t) (hi : t <:+: u) : Layered u := by
  obtain ⟨front, back, rfl⟩ := hi
  obtain ⟨lead, name, rest, rfl, hn, hb, hc⟩ := h
  exact ⟨front ++ lead, name, rest ++ back, by simp, hn, hb, hc.trans (List.prefix_append ..).isInfix⟩

theorem Layered.closes (h : Layered t) : layerClosing <:+: t := by
  obtain ⟨lead, name, rest, rfl, -, -, hc⟩ := h
  exact hc.trans (List.suffix_append ..).isInfix

theorem exists_append_of_nextLayer? (h : nextLayer? t = some (name, rest)) :
    ∃ lead, lead ++ layerOpening name ++ rest = t ∧ name ≠ [] ∧ '\x7d' ∉ name := by
  induction t
  case nil => contradiction
  case cons c t hi =>
    simp only [nextLayer?] at h
    split at h
    case h_1 hf =>
      cases h
      obtain ⟨ht, hn, hb⟩ := eq_layerOpening_of_layerHere? hf
      exact ⟨[], ht.symm, hn, hb⟩
    case h_2 =>
      obtain ⟨lead, rfl, hn, hb⟩ := hi h
      exact ⟨c :: lead, rfl, hn, hb⟩

theorem layerHere?_layerOpening (hn : name ≠ []) (hb : '\x7d' ∉ name) (rest : Text) :
    layerHere? (layerOpening name ++ rest) = some (name, rest) := by
  have inside : ∀ c ∈ name, decide (c ≠ '\x7d') = true := fun c hc =>
    decide_eq_true (ne_of_mem_of_not_mem hc hb)
  have before : (name ++ '\x7d' :: rest).takeWhile (· ≠ '\x7d') = name := by
    rw [List.takeWhile_append_of_pos inside]
    simp
  have behind : (name ++ '\x7d' :: rest).dropWhile (· ≠ '\x7d') = '\x7d' :: rest := by
    rw [List.dropWhile_append_of_pos inside]
    rfl
  have drop : dropLiteral? "\\begin\x7bpgfonlayer\x7d\x7b".toList (layerOpening name ++ rest) =
      some (name ++ '\x7d' :: rest) := by
    unfold layerOpening
    generalize "\\begin\x7bpgfonlayer\x7d\x7b".toList = front
    simp
  rw [layerHere?, drop]
  simp only [before, behind, if_neg hn]

theorem nextLayer?_layerOpening (hn : name ≠ []) (hb : '\x7d' ∉ name) (rest : Text) :
    nextLayer? (layerOpening name ++ rest) = some (name, rest) := by
  have here := layerHere?_layerOpening hn hb rest
  obtain ⟨c, t, ht⟩ : ∃ c t, layerOpening name ++ rest = c :: t := ⟨'\\', _, rfl⟩
  rw [ht] at here
  rw [ht, nextLayer?, here]

-- The front part of a marker that is the same for all layers.
def layerWord : Text :=
  "\\begin\x7bpgfonlayer\x7d".toList

theorem layerOpening_eq (name : Text) : layerOpening name = layerWord ++ ('\x7b' :: name ++ ['\x7d']) :=
  rfl

theorem delimited_layerWord : Delimited layerWord :=
  ⟨by decide, by decide⟩

-- Of two markers the one that begins later does not end earlier.
theorem suffix_of_layerOpening {c : Char} {lead name' rest' : Text} (hb : '\x7d' ∉ name')
    (h : c :: lead ++ layerOpening name ++ rest = layerOpening name' ++ rest') : rest <:+ rest' := by
  have last : layerWord.getLast? = some '\x7d' := by decide
  have border : Border layerWord ('\x7b' :: name' ++ '\x7d' :: rest') := .inl fun c hc =>
    Option.some.inj (hc.symm.trans last)
  have whole : c :: lead ++ layerWord ++ ('\x7b' :: name ++ '\x7d' :: rest) =
      layerWord ++ ('\x7b' :: name' ++ '\x7d' :: rest') := by
    simpa [layerOpening_eq] using h
  rcases delimited_layerWord.append_eq border whole with ⟨w, hw, -⟩ | ⟨w, -, hw⟩
  case inl =>
    have := congrArg List.length hw
    simp at this
    omega
  case inr =>
    rcases List.append_eq_append_iff.mp hw with ⟨x, -, hx⟩ | ⟨x, hx, -⟩
    case inr =>
      -- The name would hold the brace at the end of the word.
      have word : '\x7d' ∈ layerWord := by decide
      have mem : '\x7d' ∈ '\x7b' :: name' := by
        rw [hx]
        simp [word]
      exact absurd ((List.mem_cons.mp mem).resolve_left (by decide)) hb
    case inl =>
      cases x
      case nil       => exact absurd (List.cons.inj hx).left (by decide)
      case cons _ x  => exact ⟨x ++ '\x7b' :: name ++ ['\x7d'], by simp [(List.cons.inj hx).right]⟩

theorem exists_nextLayer? (hn : name ≠ []) (hb : '\x7d' ∉ name) (lead rest : Text) :
    ∃ name' rest', nextLayer? (lead ++ layerOpening name ++ rest) = some (name', rest') ∧ rest <:+ rest' := by
  induction lead
  case nil => exact ⟨name, rest, nextLayer?_layerOpening hn hb rest, List.suffix_rfl⟩
  case cons c lead hi =>
    simp only [List.cons_append, nextLayer?]
    cases h : layerHere? (c :: (lead ++ layerOpening name ++ rest))
    case none => exact hi
    case some found =>
      obtain ⟨ht, -, hb'⟩ := eq_layerOpening_of_layerHere? h
      exact ⟨found.1, found.2, rfl, suffix_of_layerOpening hb' ht⟩

theorem layersOf_of_cut?_eq_none (hl : nextLayer? t = some (name, u)) (hc : cut? layerClosing u = none)
    (stop : Nat) : layersOf stop t = [] := by
  rw [layersOf]
  split
  case h_1 => rfl
  case h_2 hl' =>
    cases hl.symm.trans hl'
    split
    case h_1     => rfl
    case h_2 hc' => exact nomatch hc.symm.trans hc'

theorem layersOf_of_cut? {inner : Text} (hl : nextLayer? t = some (name, u))
    (hc : cut? layerClosing u = some (inner, rest)) (stop : Nat) : layersOf stop t =
      ⟨name, statementsOf (stop - width u) (trimEnd inner), trimEnd inner⟩ :: layersOf stop rest := by
  rw [layersOf]
  split
  case h_1 hn => exact nomatch hl.symm.trans hn
  case h_2 hl' =>
    cases hl.symm.trans hl'
    split
    case h_1 hn => exact nomatch hc.symm.trans hn
    case h_2 hc' =>
      cases hc.symm.trans hc'
      rfl

theorem layersOf_eq_nil_iff {stop : Nat} : layersOf stop t = [] ↔ ¬Layered t := by
  constructor
  case mp =>
    rintro h ⟨lead, name, rest, rfl, hn, hb, hc⟩
    obtain ⟨name', rest', hl, hs⟩ := exists_nextLayer? hn hb lead rest
    obtain ⟨front, back, heq⟩ := hc.trans hs.isInfix
    obtain ⟨inner, rest, hc, -⟩ := exists_cut?_of_occurs ⟨front, back, heq, rfl⟩
    rw [layersOf_of_cut? hl hc] at h
    contradiction
  case mpr =>
    intro h
    cases hl : nextLayer? t
    case none => exact layersOf_of_nextLayer?_eq_none hl stop
    case some found =>
      cases hc : cut? layerClosing found.2
      case none => exact layersOf_of_cut?_eq_none hl hc stop
      case some parts =>
        obtain ⟨lead, rfl, hn, hb⟩ := exists_append_of_nextLayer? hl
        exact absurd ⟨lead, found.1, found.2, rfl, hn, hb, parts.1, parts.2, append_of_cut? hc⟩ h

theorem parse_of_not_layered (h : ¬Layered t) (options : Option Text) :
    parse t options = ⟨options, [], statementsOf 0 t⟩ := by
  rw [parse, layersOf_eq_nil_iff.mpr h]

end TikzPress.Picture
