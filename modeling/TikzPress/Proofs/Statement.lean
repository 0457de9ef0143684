import TikzPress.Proofs.Bracket
import TikzPress.Statement

/-!
Where a body is split into statements. A text whose braces are balanced and hide every semicolon is passed
over as a whole. Main statements: with a semicolon behind it, such a text is a statement of its own
(`splitFrom_append`), and blanks behind the last statement are none (`splitFrom_blank`).
-/

namespace TikzPress.Statement

open TikzPress.Bracket

abbrev braces (t : Text) : Int :=
  depth '\x7b' '\x7d' t

theorem braces_append (s t : Text) : braces (s ++ t) = braces s + braces t :=
  depth_append s t

-- What a character does to the depth of open braces. A closing brace without an opening one counts for nothing.
def braceAfter (d : Nat) (c : Char) : Nat :=
  if c = '\x7b' then d + 1 else if c = '\x7d' then d - 1 else d

theorem take?_cons {c : Char} {d : Nat} (hc : ¬(c = ';' ∧ d = 0)) (t : Text) :
    take? d (c :: t) = (take? (braceAfter d c) t).map fun (s, r) => (c :: s, r) := by
  rw [take?, if_neg hc]
  rfl

-- The braces are balanced, and each semicolon is inside some.
structure Braced (t : Text) : Prop where
  nonneg : ∀ p ∈ t.inits, 0 ≤ braces p
  closed : braces t = 0
  inside : ∀ p ∈ t.inits, p.getLast? = some ';' → 0 < braces p

instance (t : Text) : Decidable (Braced t) :=
  decidable_of_iff
    ((∀ p ∈ t.inits, 0 ≤ braces p) ∧ braces t = 0 ∧ ∀ p ∈ t.inits, p.getLast? = some ';' → 0 < braces p)
    ⟨fun ⟨nonneg, closed, inside⟩ => ⟨nonneg, closed, inside⟩, fun b => ⟨b.nonneg, b.closed, b.inside⟩⟩

-- No statement ends in a text, whatever follows it.
def Passed (t : Text) : Prop :=
  ∀ rest, take? 0 (t ++ rest) = (take? 0 rest).map fun (s, r) => (t ++ s, r)

theorem Passed.append {s t : Text} (hs : Passed s) (ht : Passed t) : Passed (s ++ t) := by
  intro rest
  rw [List.append_assoc, hs, ht, Option.map_map]
  simp [Function.comp_def]

-- Inside `d` open braces.
theorem take?_append {d : Nat} {t : Text} (hn : ∀ p, p <+: t → 0 ≤ d + braces p)
    (hi : ∀ p, p ++ [';'] <+: t → 0 < d + braces p) {e : Nat} (he : (e : Int) = d + braces t)
    (rest : Text) : take? d (t ++ rest) = (take? e rest).map fun (s, r) => (t ++ s, r) := by
  induction t generalizing d
  case nil =>
    have : e = d := Int.ofNat_inj.mp (by simpa using he)
    simp [this]
  case cons c t ih =>
    have opened {f : Nat} (hf : (f : Int) = d + braces [c]) :
        take? f (t ++ rest) = (take? e rest).map fun (s, r) => (t ++ s, r) := by
      refine ih (fun p hp => ?_) (fun p hp => ?_) (by rw [he, braces, depth_cons, hf, Int.add_assoc])
      case refine_1 =>
        have := hn (c :: p) (List.cons_prefix_cons.mpr ⟨rfl, hp⟩)
        rwa [braces, depth_cons, ← Int.add_assoc, ← hf] at this
      case refine_2 =>
        have := hi (c :: p) (List.cons_prefix_cons.mpr ⟨rfl, hp⟩)
        rwa [braces, depth_cons, ← Int.add_assoc, ← hf] at this
    have hd : ¬(c = ';' ∧ d = 0) := by
      rintro ⟨rfl, rfl⟩
      have := hi [] (List.prefix_append [';'] t)
      simp at this
    have hc := hn [c] (List.prefix_append [c] t)
    simp only [List.cons_append, take?, if_neg hd]
    split
    case isTrue ho =>
      rw [opened (by rw [ho, braces, depth_opening (by decide)]; rfl), Option.map_map]
      rfl
    case isFalse ho =>
      split
      case isTrue hcl =>
        rw [hcl, braces, depth_closing (by decide)] at hc
        rw [opened (by rw [hcl, braces, depth_closing (by decide)]; omega), Option.map_map]
        rfl
      case isFalse hcl =>
        rw [opened (by rw [braces, depth_other ho hcl]; rfl), Option.map_map]
        rfl

theorem Braced.passed {t : Text} (b : Braced t) : Passed t := by
  refine take?_append (fun p hp => ?_) (fun p hp => ?_) (by simp [b.closed])
  case refine_1 => simpa using b.nonneg p ((List.mem_inits _ _).mpr hp)
  case refine_2 =>
    have := b.inside _ ((List.mem_inits _ _).mpr hp) (by simp)
    simpa [depth_other] using this

-- Free of braces and semicolons.
def Plain (t : Text) : Prop :=
  ∀ c ∈ t, c ∉ ['\x7b', '\x7d', ';']

theorem Plain.braces {t : Text} (h : Plain t) : braces t = 0 := by
  have ho : '\x7b' ∉ t := fun hc => h _ hc (by decide)
  have hc : '\x7d' ∉ t := fun hc => h _ hc (by decide)
  simp [depth, List.count_eq_zero_of_not_mem, ho, hc]

theorem Plain.passed {t : Text} (h : Plain t) : Passed t := by
  have inits {p : Text} (hp : p ∈ t.inits) : Plain p := fun c hc =>
    h c (((List.mem_inits _ _).mp hp).subset hc)
  refine Braced.passed ⟨fun p hp => Int.le_of_eq (inits hp).braces.symm, h.braces, fun p hp hl => ?_⟩
  exact absurd (List.mem_of_getLast? hl) fun hc => inits hp _ hc (by decide)

-- Characters of one class are not among those outside of it.
theorem forall_not_mem {p : Char → Bool} {t : Text} {cs : List Char} (h : t.all p)
    (hp : cs.any p = false) : ∀ c ∈ t, c ∉ cs := fun c hc hm =>
  List.any_eq_false.mp hp c hm (List.all_eq_true.mp h c hc)

theorem plain_of_isBlankOnly {t : Text} (h : Text.isBlankOnly t) : Plain t :=
  forall_not_mem h rfl

theorem splitFrom_of_some {t s rest : Text} (h : take? 0 t = some (s, rest)) (start : Nat) :
    splitFrom start t = ⟨s, start⟩ :: splitFrom (start + Text.width s) rest := by
  rw [splitFrom]
  split
  case h_1 hs => rw [h] at hs; cases hs; rfl
  case h_2 hs => rw [h] at hs; contradiction

theorem splitFrom_of_none {t : Text} (h : take? 0 t = none) (start : Nat) :
    splitFrom start t = if Text.isBlankOnly t then [] else [⟨t, start⟩] := by
  rw [splitFrom]
  split
  case h_1 hs => rw [h] at hs; contradiction
  case h_2    => rfl

theorem Passed.splitFrom_append {t : Text} (h : Passed t) (start : Nat) (rest : Text) :
    splitFrom start (t ++ [';'] ++ rest) =
      ⟨t ++ [';'], start⟩ :: splitFrom (start + Text.width (t ++ [';'])) rest := by
  have ht : take? 0 (t ++ [';'] ++ rest) = some (t ++ [';'], rest) := by
    rw [List.append_assoc, h]
    rfl
  exact splitFrom_of_some ht start

theorem splitFrom_blank {t : Text} (h : Text.isBlankOnly t) (start : Nat) : splitFrom start t = [] := by
  have ht : take? 0 t = none := by
    have := (plain_of_isBlankOnly h).passed []
    rwa [List.append_nil] at this
  rw [splitFrom_of_none ht, if_pos h]

end TikzPress.Statement
