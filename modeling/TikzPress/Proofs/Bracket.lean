import Mathlib.Data.List.Infix
import TikzPress.Bracket

/-!
Bracketed groups by their depth. The depth behind a front part of a text is the number of brackets opened
there less the number of those closed. Main statements: a text whose depth first returns to zero at its end
is what is taken as a group, whatever follows it (`take?_append`), nothing else is taken (`group_of_take?`), and
nothing is taken only where no front part of the text is balanced (`not_balanced_of_take?`).
-/

namespace TikzPress.Bracket

-- How many more brackets a text opens than it closes.
def depth (o c : Char) (t : Text) : Int :=
  t.count o - t.count c

section Depth

variable {o c : Char}

@[simp] theorem depth_nil : depth o c [] = 0 :=
  rfl

@[simp] theorem depth_append (s t : Text) : depth o c (s ++ t) = depth o c s + depth o c t := by
  simp [depth]
  omega

theorem depth_cons (x : Char) (t : Text) : depth o c (x :: t) = depth o c [x] + depth o c t :=
  depth_append [x] t

theorem depth_opening (h : o ≠ c) : depth o c [o] = 1 := by
  simp [depth, h]

theorem depth_closing (h : o ≠ c) : depth o c [c] = -1 := by
  simp [depth, h.symm]

theorem depth_other {x : Char} (ho : x ≠ o) (hc : x ≠ c) : depth o c [x] = 0 := by
  simp [depth, ho, hc]

end Depth

-- Opens with its bracket, and its depth is first zero again at its end.
structure Group (o c : Char) (t : Text) : Prop where
  opens  : t.head? = some o
  inside : ∀ p ∈ t.inits, p ≠ [] → p ≠ t → 0 < depth o c p
  closed : depth o c t = 0

instance (o c : Char) (t : Text) : Decidable (Group o c t) :=
  decidable_of_iff
    (t.head? = some o ∧ (∀ p ∈ t.inits, p ≠ [] → p ≠ t → 0 < depth o c p) ∧ depth o c t = 0)
    ⟨fun ⟨opens, inside, closed⟩ => ⟨opens, inside, closed⟩, fun g => ⟨g.opens, g.inside, g.closed⟩⟩

variable {o c : Char}

-- What is left of a group when `d` brackets inside it are open.
structure Remainder (o c : Char) (d : Nat) (t : Text) : Prop where
  inside : ∀ p, p <+: t → p ≠ t → 0 ≤ d + depth o c p
  closed : d + depth o c t = -1

namespace Remainder

variable {d e : Nat} {x : Char}

theorem cons (h : Remainder o c e t) (he : (e : Int) = d + depth o c [x]) : Remainder o c d (x :: t) where
  inside p hp hn := by
    cases p
    case nil => simp
    case cons y p =>
      obtain ⟨rfl, below⟩ := List.cons_prefix_cons.mp hp
      rw [depth_cons, ← Int.add_assoc, ← he]
      exact h.inside p below fun hs => hn (hs ▸ rfl)
  closed := by rw [depth_cons, ← Int.add_assoc, ← he, h.closed]

theorem tail (h : Remainder o c d (x :: t)) (he : (e : Int) = d + depth o c [x]) : Remainder o c e t where
  inside p hp hn := by
    have := h.inside (x :: p) (List.cons_prefix_cons.mpr ⟨rfl, hp⟩) fun hs => hn (List.cons.inj hs).right
    rwa [depth_cons, ← Int.add_assoc, ← he] at this
  closed := by rw [he, Int.add_assoc, ← depth_cons, h.closed]

theorem last (hoc : o ≠ c) : Remainder o c 0 [c] where
  inside p hp hn := by
    cases p
    case nil => simp
    case cons y p =>
      obtain ⟨rfl, below⟩ := List.cons_prefix_cons.mp hp
      exact absurd (by rw [List.prefix_nil.mp below]) hn
  closed := by rw [depth_closing hoc]; rfl

theorem close?_append (h : Remainder o c d t) (hoc : o ≠ c) (rest : Text) :
    close? o c d (t ++ rest) = some (t, rest) := by
  induction t generalizing d
  case nil => simpa using h.closed
  case cons x t ih =>
    simp only [List.cons_append, close?]
    split
    case isTrue hx =>
      rw [ih (h.tail (by rw [hx, depth_opening hoc]; rfl))]
      rfl
    case isFalse hxo =>
      split
      case isFalse hxc =>
        rw [ih (h.tail (by rw [depth_other hxo hxc]; simp))]
        rfl
      case isTrue hx =>
        subst hx
        cases d
        case succ d =>
          have := ih (h.tail (e := d) (by rw [depth_closing hoc]; omega))
          simp only [this, Option.map_some]
        case zero =>
          -- Nothing else is open, so that this is the last bracket.
          cases t
          case nil => rfl
          case cons =>
            have := h.inside [x] (List.prefix_append [x] _) (by simp)
            simp [depth_closing hoc] at this

end Remainder

theorem group_cons_iff (hoc : o ≠ c) : Group o c (o :: t) ↔ Remainder o c 0 t := by
  have behind (p : Text) : depth o c (o :: p) = 1 + depth o c p := by rw [depth_cons, depth_opening hoc]
  constructor
  case mp =>
    intro g
    have closed := g.closed
    rw [behind] at closed
    refine ⟨fun p hp hn => ?_, by omega⟩
    have := g.inside (o :: p) ((List.mem_inits _ _).mpr (List.cons_prefix_cons.mpr ⟨rfl, hp⟩))
      (List.cons_ne_nil _ _) (fun h => hn (List.cons.inj h).right)
    rw [behind] at this
    omega
  case mpr =>
    intro h
    have closed := h.closed
    refine ⟨rfl, fun p hp hn hs => ?_, by rw [behind]; omega⟩
    obtain ⟨x, p, rfl⟩ := List.exists_cons_of_ne_nil hn
    obtain ⟨rfl, below⟩ := List.cons_prefix_cons.mp ((List.mem_inits _ _).mp hp)
    have := h.inside p below fun he => hs (he ▸ rfl)
    rw [behind]
    omega

-- A group is taken as it is, whatever follows it.
theorem Group.take?_append (g : Group o c t) (hoc : o ≠ c) (rest : Text) :
    take? o c (t ++ rest) = some (t, rest) := by
  obtain ⟨t, rfl⟩ := List.head?_eq_some_iff.mp g.opens
  rw [List.cons_append, take?, if_pos rfl, ((group_cons_iff hoc).mp g).close?_append hoc]
  rfl

-- What closes a group closes more than it opens.
theorem Group.depth_suffix_neg (g : Group o c t) {s : Text} (h : s <:+ t) (hn : s ≠ []) (ht : s ≠ t) :
    depth o c s < 0 := by
  obtain ⟨p, rfl⟩ := h
  have hp : p ∈ (p ++ s).inits := (List.mem_inits _ _).mpr (List.prefix_append p s)
  have := g.inside p hp (by simpa using ht) (by simpa using hn)
  have := g.closed
  rw [depth_append] at this
  omega

theorem Group.exists_inner (g : Group o c t) (hoc : o ≠ c) : ∃ inner, t = [o] ++ inner ++ [c] := by
  have taken := g.take?_append hoc []
  rw [List.append_nil] at taken
  exact take?_eq_append taken

theorem Group.getLast?_eq (g : Group o c t) (hoc : o ≠ c) : t.getLast? = some c := by
  obtain ⟨inner, rfl⟩ := g.exists_inner hoc
  exact List.getLast?_concat

-- Opens with its bracket, closes all that it opens, and closes nothing before it is opened.
structure Balanced (o c : Char) (t : Text) : Prop where
  opens  : t.head? = some o
  inside : ∀ p, p <+: t → 0 ≤ depth o c p
  closed : depth o c t = 0

theorem Group.balanced (g : Group o c t) : Balanced o c t where
  opens  := g.opens
  inside p hp := by
    by_cases hn : p = []
    case pos => simp [hn]
    case neg =>
      by_cases ht : p = t
      case pos => exact Int.le_of_eq (ht ▸ g.closed).symm
      case neg => exact Int.le_of_lt (g.inside p ((List.mem_inits _ _).mpr hp) hn ht)
  closed := g.closed

-- No shorter text is balanced.
theorem Group.prefix_of_balanced (g : Group o c t) {s u v : Text} (b : Balanced o c s) (h : s ++ v = t ++ u) :
    t <+: s := by
  obtain hp | hp := List.prefix_or_prefix_of_prefix (List.prefix_append t u) (h ▸ List.prefix_append s v)
  case inl => exact hp
  case inr =>
    by_cases ht : s = t
    case pos => rw [ht]
    case neg =>
      have hn : s ≠ [] := by
        rintro rfl
        exact nomatch b.opens
      have := g.inside s ((List.mem_inits _ _).mpr hp) hn ht
      have := b.closed
      omega

section Taking

variable {d : Nat} {s r : Text}

theorem remainder_of_close? (hoc : o ≠ c) (h : close? o c d t = some (s, r)) : Remainder o c d s := by
  induction t generalizing d s
  case nil => contradiction
  case cons x t ih =>
    have onward {e : Nat} (he : (e : Int) = d + depth o c [x])
        (h : (close? o c e t).map (fun y => (x :: y.1, y.2)) = some (s, r)) : Remainder o c d s := by
      obtain ⟨⟨s', r'⟩, h', heq⟩ := Option.map_eq_some_iff.mp h
      cases heq
      exact (ih h').cons he
    simp only [close?] at h
    split at h
    case isTrue hx => exact onward (by rw [hx, depth_opening hoc]; rfl) h
    case isFalse hxo =>
      split at h
      case isFalse hxc => exact onward (by rw [depth_other hxo hxc]; simp) h
      case isTrue hx =>
        cases d
        case succ d => exact onward (by rw [hx, depth_closing hoc]; omega) h
        case zero   =>
          cases h
          rw [hx]
          exact .last hoc

theorem depth_of_close?_eq_none (hoc : o ≠ c) (h : close? o c d t = none) {p : Text} (hp : p <+: t) :
    0 ≤ d + depth o c p := by
  induction t generalizing d p
  case nil => simp [List.prefix_nil.mp hp]
  case cons x t hi =>
    cases p
    case nil => simp
    case cons y p =>
      obtain ⟨rfl, below⟩ := List.cons_prefix_cons.mp hp
      have onward {e : Nat} (he : (e : Int) = d + depth o c [y]) (h' : close? o c e t = none) :
          0 ≤ d + depth o c (y :: p) := by
        have := hi h' below
        rwa [he, Int.add_assoc, ← depth_cons] at this
      simp only [close?] at h
      split at h
      case isTrue hx => exact onward (by rw [hx, depth_opening hoc]; rfl) (Option.map_eq_none_iff.mp h)
      case isFalse hxo =>
        split at h
        case isFalse hxc =>
          exact onward (by rw [depth_other hxo hxc]; simp) (Option.map_eq_none_iff.mp h)
        case isTrue hx =>
          cases d
          case zero   => contradiction
          case succ d => exact onward (by rw [hx, depth_closing hoc]; omega) (Option.map_eq_none_iff.mp h)

theorem group_of_take? (hoc : o ≠ c) (h : take? o c t = some (s, r)) : Group o c s := by
  cases t
  case nil => contradiction
  case cons x t =>
    rw [take?] at h
    split at h
    case isFalse => contradiction
    case isTrue hx =>
      obtain ⟨⟨s', r'⟩, h', heq⟩ := Option.map_eq_some_iff.mp h
      cases heq
      rw [hx]
      exact (group_cons_iff hoc).mpr (remainder_of_close? hoc h')

-- Where nothing is taken no front part of the text is balanced.
theorem not_balanced_of_take? (hoc : o ≠ c) (h : take? o c t = none) (hs : s <+: t) : ¬Balanced o c s := by
  intro b
  obtain ⟨s, rfl⟩ := List.head?_eq_some_iff.mp b.opens
  obtain ⟨t, rfl⟩ := hs
  rw [List.cons_append, take?, if_pos rfl, Option.map_eq_none_iff] at h
  have := depth_of_close?_eq_none hoc h (List.prefix_append s t)
  have := b.closed
  rw [depth_cons, depth_opening hoc] at this
  omega

end Taking

end TikzPress.Bracket
