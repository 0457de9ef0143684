import Mathlib.Data.List.Infix
import TikzPress.StyleName
import TikzPress.Token

/-!
Names of styles that are suggested. The groups of a text are what its blanks, marks and colons leave of its letters
and digits, and a name is in normal form if it is a sequence of groups with a colon between each two. Main
statement: the suggestion is the normal form of the groups, and only a normal form is its own suggestion
(`suggested`).
-/

namespace TikzPress.StyleName

open Text

-- Ends a group. Any other character that is neither a letter nor a digit is left out of its group.
def separates (c : Char) : Bool :=
  isBlank c || c ∈ ['_', '/', '.', '-', ':']

def groups (t : Text) : List Text :=
  ((t.splitOnP separates).map (·.filter Char.isAlphanum)).filter (· ≠ [])

structure Group (g : Text) : Prop where
  nonempty     : g ≠ []
  alphanumeric : ∀ c ∈ g, c.isAlphanum

-- Groups with a colon between each two.
inductive Normal : Text → Prop
  | intro : gs ≠ [] → (∀ g ∈ gs, Group g) → Normal (joinWith [':'] gs)

structure Suggested (t : Text) : Prop where
  spelled  : suggest t = if groups t = [] then "style".toList else joinWith [':'] (groups t)
  valid    : isValid (suggest t)
  opening  : (suggest t).head? ≠ some ':'
  closing  : (suggest t).getLast? ≠ some ':'
  doubled  : ¬[':', ':'] <:+: suggest t
  repeated : suggest (suggest t) = suggest t
  kept     : suggest t = t ↔ Normal t

section Characters

variable {c : Char}

theorem not_separates_of_isAlphanum (h : c.isAlphanum) : separates c = false := by
  have marks : ['_', '/', '.', '-', ':'].all (!Char.isAlphanum ·) := by decide
  simp only [separates, Bool.or_eq_false_iff, decide_eq_false_iff_not]
  constructor
  case left =>
    by_contra hb
    have := Token.isWordChar_of_isBlank (Bool.of_not_eq_false hb)
    simp [Token.isWordChar, h] at this
  case right => exact fun hm => by simpa [h] using List.all_eq_true.mp marks c hm

theorem separates_iff : separates c ↔ isSeparator c ∨ c = ':' := by
  simp [separates, isSeparator, or_assoc]

end Characters

-- The separators become colons, and the groups, empty ones included, stay between them.
theorem filter_separated (t : Text) :
    (t.map fun c => if isSeparator c then ':' else c).filter isNameChar =
      joinWith [':'] ((t.splitOnP separates).map (·.filter Char.isAlphanum)) := by
  induction t
  case nil => rfl
  case cons c t hi =>
    obtain ⟨p, ps, hp⟩ := List.exists_cons_of_ne_nil (List.splitOnP_ne_nil separates t)
    rw [List.map_cons, List.splitOnP_cons_eq_if_modifyHead]
    by_cases hc : separates c
    case pos =>
      have colon : (if isSeparator c then ':' else c) = ':' := by
        obtain h | rfl := separates_iff.mp hc
        case inl => exact if_pos h
        case inr => rfl
      rw [colon, List.filter_cons_of_pos (by decide), hi, if_pos hc, hp]
      rfl
    case neg =>
      have ⟨hs, hn⟩ := not_or.mp (mt separates_iff.mpr hc)
      have named : isNameChar c = c.isAlphanum := by simp [isNameChar, hn]
      rw [if_neg hs, if_neg hc, List.filter_cons, hi, hp, named]
      simp only [List.modifyHead_cons, List.map_cons, List.filter_cons]
      cases c.isAlphanum
      case true  => exact (joinWith_cons_cons _ c _ _).symm
      case false => rfl

section Collapsing

variable {g t : Text} {ps : List Text}

theorem dropColon_cons (h : c ≠ ':') : dropColon (c :: t) = c :: t := by
  unfold dropColon
  split
  case h_1 => simp_all
  case h_2 => rfl

theorem collapse_cons (h : c ≠ ':') : collapse (c :: t) = c :: collapse t := by
  rw [collapse]
  simp [h]

theorem collapse_append (h : ':' ∉ g) : collapse (g ++ t) = g ++ collapse t := by
  induction g
  case nil => rfl
  case cons hi =>
    have ⟨hc, hg⟩ := List.ne_and_not_mem_of_not_mem_cons h
    rw [List.cons_append, collapse_cons hc.symm, hi hg, List.cons_append]

-- A colon takes the one behind it away.
theorem collapse_colon_cons (t : Text) : collapse (':' :: t) = ':' :: dropColon (collapse t) := by
  induction t
  case nil => rfl
  case cons c t hi =>
    by_cases h : c = ':'
    case pos =>
      subst h
      rw [collapse, hi]
      rfl
    case neg =>
      rw [collapse_cons h, dropColon_cons h, ← collapse_cons h]
      simp [collapse, h]

theorem dropColon_append (h : ':' ∉ g) (hg : g ≠ []) (t : Text) : dropColon (g ++ t) = g ++ t := by
  cases g
  case nil => contradiction
  case cons => exact dropColon_cons (List.ne_of_not_mem_cons h).symm

theorem dropColon_of_not_mem (h : ':' ∉ g) : dropColon g = g := by
  cases g
  case nil => rfl
  case cons => exact dropColon_cons (List.ne_of_not_mem_cons h).symm

-- The colon at the end is that of the last part.
theorem dropColon_reverse_append (s : Text) (h : t ≠ []) :
    (dropColon (s ++ t).reverse).reverse = s ++ (dropColon t.reverse).reverse := by
  rw [List.reverse_append]
  cases ht : t.reverse
  case nil => simp_all
  case cons c r =>
    by_cases hc : c = ':'
    case pos => simp [hc, dropColon]
    case neg => simp [dropColon_cons hc]

theorem collapse_joinWith (hp : ':' ∉ p) (hn : ps ≠ []) :
    collapse (joinWith [':'] (p :: ps)) = p ++ ':' :: dropColon (collapse (joinWith [':'] ps)) := by
  rw [joinWith_cons hn, List.append_assoc, collapse_append hp, List.singleton_append, collapse_colon_cons]

-- Of the parts between colons those that are empty are left out.
theorem trimmed_collapse (h : ∀ p ∈ ps, ':' ∉ p) (hn : ps ≠ []) :
    (dropColon (collapse (joinWith [':'] ps)) = [] ↔ ps.filter (· ≠ []) = []) ∧
      (dropColon (dropColon (collapse (joinWith [':'] ps))).reverse).reverse =
        joinWith [':'] (ps.filter (· ≠ [])) := by
  induction ps
  case nil => contradiction
  case cons p ps hi =>
    have ⟨hp, hps⟩ := List.forall_mem_cons.mp h
    cases ps
    case nil =>
      have whole : collapse p = p := by simpa [collapse] using collapse_append (t := []) hp
      rw [joinWith, whole, dropColon_of_not_mem hp, dropColon_of_not_mem (by simpa using hp), List.reverse_reverse]
      by_cases hg : p = [] <;> simp [hg, joinWith]
    case cons q ps =>
      obtain ⟨empty, trimmed⟩ := hi hps (List.cons_ne_nil q ps)
      rw [collapse_joinWith hp (List.cons_ne_nil q ps)]
      generalize dropColon (collapse (joinWith [':'] (q :: ps))) = rest at empty trimmed
      by_cases hg : p = []
      case pos =>
        subst hg
        exact ⟨empty, trimmed⟩
      case neg =>
        rw [dropColon_append hp hg, List.filter_cons_of_pos (by simpa using hg)]
        refine ⟨by simp, ?_⟩
        by_cases hr : rest = []
        case pos =>
          rw [hr, empty.mp hr]
          simp [dropColon, joinWith]
        case neg =>
          rw [List.append_cons, dropColon_reverse_append _ hr, trimmed, joinWith_cons (mt empty.mpr hr)]

end Collapsing

section Groups

variable {t g : Text} {gs : List Text}

theorem group_of_mem_groups (h : g ∈ groups t) : Group g := by
  have ⟨hm, hn⟩ := List.mem_filter.mp h
  obtain ⟨p, -, rfl⟩ := List.mem_map.mp hm
  exact ⟨by simpa using hn, fun c hc => (List.mem_filter.mp hc).right⟩

theorem suggest_eq (t : Text) :
    suggest t = if groups t = [] then fallback else joinWith [':'] (groups t) := by
  have parts : ∀ p ∈ (t.splitOnP separates).map (·.filter Char.isAlphanum), ':' ∉ p := by
    intro p hp
    obtain ⟨q, -, rfl⟩ := List.mem_map.mp hp
    simp [List.mem_filter]
  have trimmed := (trimmed_collapse parts (by simp [List.splitOnP_ne_nil])).right
  rw [← groups] at trimmed
  rw [suggest, filter_separated]
  simp only [trimmed]
  have nonempty : joinWith [':'] (groups t) = [] ↔ groups t = [] :=
    joinWith_eq_nil_iff fun _ hg => (group_of_mem_groups hg).nonempty
  split
  case h_1 h  => rw [if_pos (nonempty.mp h)]
  case h_2 hn => rw [if_neg (mt nonempty.mpr hn)]

-- What separates two groups is not part of any of them.
theorem splitOnP_joinWith (hn : gs ≠ []) (h : ∀ g ∈ gs, Group g) :
    (joinWith [':'] gs).splitOnP separates = gs := by
  induction gs
  case nil => contradiction
  case cons g gs hi =>
    have ⟨hg, hgs⟩ := List.forall_mem_cons.mp h
    have single : g.splitOnP separates = [g] :=
      List.splitOnP_eq_singleton fun c hc => not_separates_of_isAlphanum (hg.alphanumeric c hc)
    cases gs
    case nil => exact single
    case cons =>
      rw [joinWith_cons (List.cons_ne_nil _ _), List.append_assoc, List.singleton_append,
        List.splitOnP_append_cons _ _ rfl, single, hi (List.cons_ne_nil _ _) hgs]
      rfl

theorem groups_joinWith (hn : gs ≠ []) (h : ∀ g ∈ gs, Group g) : groups (joinWith [':'] gs) = gs := by
  have kept : ∀ g ∈ gs, g.filter Char.isAlphanum = g :=
    fun g hg => List.filter_eq_self.mpr (h g hg).alphanumeric
  rw [groups, splitOnP_joinWith hn h, List.map_congr_left kept, List.map_id', List.filter_eq_self]
  exact fun g hg => by simpa using (h g hg).nonempty

end Groups

namespace Normal

variable {t u : Text}

theorem isValid (h : Normal t) : isValid t := by
  obtain @⟨gs, hn, h⟩ := h
  have chars : ∀ c ∈ joinWith [':'] gs, isNameChar c := by
    intro c hc
    obtain hc | ⟨g, hg, hc⟩ := mem_of_mem_joinWith hc
    case inl => exact List.mem_singleton.mp hc ▸ rfl
    case inr => simp [isNameChar, (h g hg).alphanumeric c hc]
  rw [StyleName.isValid, Bool.and_eq_true, List.all_eq_true, decide_eq_true_eq]
  exact ⟨mt (joinWith_eq_nil_iff fun g hg => (h g hg).nonempty).mp hn, chars⟩

-- Between colons and at the ends there is always a group.
theorem nil_not_mem_splitOnP (h : Normal (t ++ ':' :: u)) :
    [] ∉ t.splitOnP separates ∧ [] ∉ u.splitOnP separates := by
  have split : (t ++ ':' :: u).splitOnP separates = t.splitOnP separates ++ u.splitOnP separates :=
    List.splitOnP_append_cons t u rfl
  generalize t ++ ':' :: u = name at h split
  obtain ⟨hn, h⟩ := h
  rw [splitOnP_joinWith hn h] at split
  rw [← not_or, ← List.mem_append, ← split]
  exact fun hm => (h [] hm).nonempty rfl

theorem head?_ne_colon (h : Normal t) : t.head? ≠ some ':' := by
  intro hc
  obtain ⟨u, rfl⟩ := List.head?_eq_some_iff.mp hc
  exact (nil_not_mem_splitOnP (t := []) h).left (.head _)

theorem getLast?_ne_colon (h : Normal t) : t.getLast? ≠ some ':' := by
  intro hc
  obtain ⟨u, rfl⟩ := List.getLast?_eq_some_iff.mp hc
  exact (nil_not_mem_splitOnP (u := []) h).right (.head _)

theorem not_doubled (h : Normal t) : ¬[':', ':'] <:+: t := by
  rintro ⟨u, v, rfl⟩
  rw [List.append_assoc] at h
  exact (nil_not_mem_splitOnP h).right (.head _)

end Normal

theorem normal_suggest (t : Text) : Normal (suggest t) := by
  rw [suggest_eq]
  split
  case isTrue =>
    have : Group fallback := ⟨by decide, List.all_eq_true.mp (by decide)⟩
    exact @Normal.intro [fallback] (List.cons_ne_nil _ _) (List.forall_mem_singleton.mpr this)
  case isFalse h => exact .intro h fun _ => group_of_mem_groups

theorem suggest_eq_self_iff {t : Text} : suggest t = t ↔ Normal t := by
  constructor
  case mp  => exact fun h => h ▸ normal_suggest t
  case mpr =>
    rintro ⟨hn, h⟩
    rw [suggest_eq, groups_joinWith hn h, if_neg hn]

theorem suggested (t : Text) : Suggested t :=
  have normal := normal_suggest t
  { spelled  := suggest_eq t
    valid    := normal.isValid
    opening  := normal.head?_ne_colon
    closing  := normal.getLast?_ne_colon
    doubled  := normal.not_doubled
    repeated := suggest_eq_self_iff.mpr normal
    kept     := suggest_eq_self_iff }

-- A letter that is left out ends no group.
example : suggest "- Große  Straße_2/".toList = "Groe:Strae:2".toList := by
  decide

end TikzPress.StyleName
