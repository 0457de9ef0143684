import Mathlib.Data.List.Infix
import TikzPress.Markup

/-!
What is filled into the markup of a fence. A text is written with an entity for each character that has a meaning
in HTML, and resolving the entities gives it back. Main statement: the markup is one of three fixed frames around
a written key and a written path or message, and tells the key and the status (`sealed_render`).
-/

namespace TikzPress.Markup

open Text

-- The entities, each with the character that it stands for.
def entities : List (Text × Char) :=
  [("&amp;".toList, '&'), ("&lt;".toList, '<'), ("&gt;".toList, '>'), ("&quot;".toList, '"'),
   ("&#39;".toList, '\'')]

-- The character of the entity that a text opens with, and what follows the entity.
def entity? (t : Text) : Option (Char × Text) :=
  entities.findSome? fun (e, c) => (dropLiteral? e t).map (c, ·)

theorem length_lt_of_entity? {t rest : Text} {c : Char} (h : entity? t = some (c, rest)) :
    rest.length < t.length := by
  obtain ⟨⟨e, _⟩, he, h⟩ := List.exists_of_findSome?_eq_some h
  obtain ⟨rest, hr, ⟨⟩⟩ := Option.map_eq_some_iff.mp h
  have nonempty : ∀ e ∈ entities, 0 < e.1.length := by decide
  rw [dropLiteral?_eq_some_iff.mp hr, List.length_append]
  exact Nat.lt_add_of_pos_left (nonempty _ he)

-- A text with its entities resolved.
def unescape : Text → Text
  | [] => []
  | c :: t =>
    match _h : entity? (c :: t) with
    | some (d, rest) => d :: unescape rest
    | none => c :: unescape t
termination_by t => t.length
decreasing_by
  · exact length_lt_of_entity? _h
  · exact Nat.lt_succ_self _

-- A text as it is written into markup: no bracket of a tag, no quote, and no ampersand but in front of an entity.
structure Written (t w : Text) : Prop where
  plain    : ∀ c ∈ w, c ∉ ['<', '>', '"', '\'']
  entity   : ∀ s, '&' :: s <:+ w → ∃ e ∈ entities, e.1 <+: '&' :: s
  resolved : unescape w = t

-- The text around the key and the content.
structure Frame where
  front  : Text
  middle : Text
  back   : Text

def image : Frame where
  front  := "<div class=\"tikzmd-block\" data-tikz-key=\"".toList
  middle := "\"><img src=\"".toList
  back   := "\" alt=\"TikZ diagram\" /></div>".toList

def failure : Frame where
  front  := "<div class=\"tikzmd-block tikzmd-error\" data-tikz-key=\"".toList
  middle := "\">".toList
  back   := "</div>".toList

def placeholder : Frame where
  front  := "<div class=\"tikzmd-block tikzmd-pending\" data-tikz-key=\"".toList
  middle := "\">".toList
  back   := "Compiling TikZ…</div>".toList

def frame : Status → Frame
  | .resolved _ => image
  | .failed _ => failure
  | .absent | .pending => placeholder

-- What a status says: the path of the artifact, or what went wrong.
def content : Status → Text
  | .resolved path => path
  | .failed message => message
  | .absent | .pending => []

-- As long as there is no artifact and no failure, it makes no difference whether anything runs.
def Alike (s₁ s₂ : Status) : Prop :=
  s₁ = s₂ ∨ ¬s₁.isSettled ∧ ¬s₂.isSettled

structure Sealed : Prop where
  framed : ∀ key s, ∃ k c, Written key k ∧ Written (content s) c ∧
    render key s = (frame s).front ++ k ++ (frame s).middle ++ c ++ (frame s).back
  told   : ∀ key₁ key₂ s₁ s₂, render key₁ s₁ = render key₂ s₂ ↔ key₁ = key₂ ∧ Alike s₁ s₂

section Escape

variable {c : Char} {t r u : Text}

theorem escapeChar_cases (c : Char) :
    (escapeChar c, c) ∈ entities ∨ escapeChar c = [c] ∧ c ∉ entities.map Prod.snd := by
  unfold escapeChar
  split
  case h_6 => exact .inr ⟨rfl, by simp_all [entities]⟩
  all_goals exact .inl (by decide)

theorem entity?_append (h : (t, c) ∈ entities) (rest : Text) : entity? (t ++ rest) = some (c, rest) := by
  simp only [entities, List.mem_cons, Prod.mk.injEq, List.not_mem_nil, or_false] at h
  obtain ⟨rfl, rfl⟩ | ⟨rfl, rfl⟩ | ⟨rfl, rfl⟩ | ⟨rfl, rfl⟩ | ⟨rfl, rfl⟩ := h <;> rfl

theorem entity?_cons_of_ne (h : c ≠ '&') (t : Text) : entity? (c :: t) = none := by
  have other (e : Text) : dropLiteral? ('&' :: e) (c :: t) = none := if_neg h.symm
  exact List.findSome?_eq_none_iff.mpr <| by simp [entities, other]

theorem unescape_of_entity? (h : entity? t = some (c, r)) : unescape t = c :: unescape r := by
  cases t
  case nil => contradiction
  case cons =>
    rw [unescape]
    split <;> simp_all

theorem unescape_cons_of_ne (h : c ≠ '&') (t : Text) : unescape (c :: t) = c :: unescape t := by
  rw [unescape]
  split <;> simp_all [entity?_cons_of_ne]

theorem unescape_escape (t : Text) : unescape (escape t) = t := by
  induction t
  case nil => rw [escape, List.flatMap_nil, unescape]
  case cons c t hi =>
    rw [escape, List.flatMap_cons]
    rcases escapeChar_cases c with h | ⟨h, hc⟩
    case inl => rw [unescape_of_entity? (entity?_append h _), ← escape, hi]
    case inr =>
      have hc : c ≠ '&' := fun e => hc (e ▸ .head _)
      rw [h, List.singleton_append, unescape_cons_of_ne hc, ← escape, hi]

theorem not_mem_escape (h : c ∈ ['<', '>', '"', '\'']) : c ∉ escape t := by
  rw [escape, List.mem_flatMap]
  rintro ⟨d, -, hd⟩
  rcases escapeChar_cases d with hm | ⟨hd', hm⟩
  case inl =>
    have plain : ∀ e ∈ entities, e.1.all (· ∉ ['<', '>', '"', '\'']) := by decide
    exact of_decide_eq_true (List.all_eq_true.mp (plain _ hm) c hd) h
  case inr =>
    have marks : ['<', '>', '"', '\''] ⊆ entities.map Prod.snd := by simp [entities]
    rw [hd', List.mem_singleton] at hd
    exact hm (hd ▸ marks h)

-- In an entity the ampersand comes first.
theorem not_mem_tail_escapeChar (c : Char) : '&' ∉ (escapeChar c).tail := by
  rcases escapeChar_cases c with h | ⟨h, -⟩
  case inl =>
    have tails : ∀ e ∈ entities, '&' ∉ e.1.tail := by decide
    exact tails _ h
  case inr => simp [h]

theorem entity_of_ampersand {s : Text} (h : '&' :: s <:+ escape t) : ∃ e ∈ entities, e.1 <+: '&' :: s := by
  induction t
  case nil => simp [escape] at h
  case cons c t hi =>
    rw [escape, List.flatMap_cons, ← escape] at h
    obtain ⟨p, h⟩ := h
    rcases List.append_eq_append_iff.mp h with ⟨q, hc, hs⟩ | ⟨q, -, ht⟩
    case inr => exact hi ⟨q, ht.symm⟩
    case inl =>
      cases q
      case nil => exact hi ⟨[], hs⟩
      case cons d q =>
        obtain rfl : '&' = d := (List.cons.inj hs).left
        cases p
        case cons => exact absurd (by simp [hc]) (not_mem_tail_escapeChar c)
        case nil =>
          rcases escapeChar_cases c with he | ⟨he, hm⟩
          case inl => exact ⟨_, he, by rw [hc, hs]; exact List.prefix_append ..⟩
          case inr =>
            obtain rfl : c = '&' := by simpa [he] using congrArg List.head? hc
            exact absurd (by decide) hm

theorem written_escape (t : Text) : Written t (escape t) where
  plain    := fun _ hc h => not_mem_escape h hc
  entity   := fun _ => entity_of_ampersand
  resolved := unescape_escape t

theorem escape_injective : Function.Injective escape :=
  Function.LeftInverse.injective unescape_escape

end Escape

section Block

variable {c : Char} {kind₁ kind₂ : Text}

-- What stands in front of the first `c` can be told from the rest.
theorem append_inj_of_not_mem {a b d r u : Text} (hd : d.head? = some c) (ha : c ∉ a) (hb : c ∉ b)
    (h : a ++ (d ++ r) = b ++ (d ++ u)) : a = b ∧ r = u := by
  have ⟨d', hd⟩ := List.head?_eq_some_iff.mp hd
  have front {a : Text} (ha : c ∉ a) (r : Text) : (a ++ (d ++ r)).takeWhile (· ≠ c) = a := by
    have : ∀ x ∈ a, decide (x ≠ c) := fun x hx => decide_eq_true (ne_of_mem_of_not_mem hx ha)
    rw [List.takeWhile_append_of_pos this, hd]
    simp
  have hab : a = b := by rw [← front ha r, h, front hb u]
  rw [hab] at h
  exact ⟨hab, List.append_cancel_left (List.append_cancel_left h)⟩

theorem block_eq (kind key inner : Text) : block kind key inner =
    "<div class=\"tikzmd-block".toList ++ (kind ++ ("\" data-tikz-key=\"".toList ++
      (escape key ++ ("\">".toList ++ (inner ++ "</div>".toList))))) := by
  unfold block
  simp only [List.append_assoc]

theorem block_inj {key₁ key₂ inner₁ inner₂ : Text} (h₁ : '"' ∉ kind₁) (h₂ : '"' ∉ kind₂) :
    block kind₁ key₁ inner₁ = block kind₂ key₂ inner₂ ↔ kind₁ = kind₂ ∧ key₁ = key₂ ∧ inner₁ = inner₂ := by
  constructor
  case mpr => rintro ⟨rfl, rfl, rfl⟩; rfl
  case mp =>
    have marked : "\" data-tikz-key=\"".toList.head? = some '"' := by decide
    have closed : "\">".toList.head? = some '"' := by decide
    have bare (key : Text) : '"' ∉ escape key := not_mem_escape (by decide)
    rw [block_eq, block_eq, List.append_cancel_left_eq]
    intro h
    have ⟨hkind, h⟩ := append_inj_of_not_mem marked h₁ h₂ h
    have ⟨hkey, h⟩ := append_inj_of_not_mem closed (bare key₁) (bare key₂) h
    exact ⟨hkind, escape_injective hkey, List.append_cancel_right h⟩

end Block

theorem render_eq_iff {key₁ key₂ : Text} {s₁ s₂ : Status} :
    render key₁ s₁ = render key₂ s₂ ↔ key₁ = key₂ ∧ Alike s₁ s₂ := by
  cases s₁ <;> cases s₂
  all_goals
    rw [render, render, block_inj (by decide) (by decide)]
    simp [Alike, Status.isSettled, escape_injective.eq_iff]

theorem framed_block {k a b : Text} {f : Frame}
    (hf : "<div class=\"tikzmd-block".toList ++ k ++ "\" data-tikz-key=\"".toList = f.front)
    (hm : "\">".toList ++ a = f.middle) (hb : b ++ "</div>".toList = f.back) (key w : Text) :
    block k key (a ++ w ++ b) = f.front ++ escape key ++ f.middle ++ w ++ f.back := by
  rw [block_eq, ← hf, ← hm, ← hb]
  simp only [List.append_assoc]

theorem framed_render (key : Text) (s : Status) : render key s =
    (frame s).front ++ escape key ++ (frame s).middle ++ escape (content s) ++ (frame s).back := by
  cases s
  case resolved path =>
    exact framed_block (f := image) (by decide +kernel) (by decide +kernel) (by decide +kernel) key (escape path)
  case failed message =>
    have framed := framed_block (k := " tikzmd-error".toList) (a := []) (b := []) (f := failure)
      (by decide +kernel) (by decide +kernel) (by decide +kernel) key (escape message)
    rwa [List.nil_append, List.append_nil] at framed
  all_goals
    exact framed_block (a := []) (f := placeholder) (by decide +kernel) (by decide +kernel) (by decide +kernel) key []

theorem sealed_render : Sealed where
  framed key s := ⟨escape key, escape (content s), written_escape key, written_escape _, framed_render key s⟩
  told _ _ _ _ := render_eq_iff

-- A message cannot close the element and show an image.
example : render "k".toList (.failed "</div><img src=\"a".toList) =
    "<div class=\"tikzmd-block tikzmd-error\" data-tikz-key=\"k\">".toList ++
      "&lt;/div&gt;&lt;img src=&quot;a</div>".toList := by
  decide +kernel

end TikzPress.Markup
