import TikzPress.FileTree

/-!
Where a path leads by its text alone. Main statements: what is appended to a path without a slash goes
into its last name (`ofPath_append`), so that different endings lead to different places
(`ofPath_append_inj`).
-/

namespace TikzPress

namespace Text

variable {c : Char} {t e : Text}

theorem piecesAt_ne_nil (c : Char) (t : Text) : piecesAt c t ≠ [] := by
  cases t
  case nil => exact List.cons_ne_nil _ _
  case cons x t =>
    simp only [piecesAt]
    split
    case isTrue => exact List.cons_ne_nil _ _
    case isFalse => split <;> exact List.cons_ne_nil _ _

theorem piecesAt_of_not_mem (h : c ∉ t) : piecesAt c t = [t] := by
  induction t
  case nil => rfl
  case cons x t hi =>
    have ⟨hx, ht⟩ := not_or.mp (mt List.mem_cons.mpr h)
    rw [piecesAt, if_neg (Ne.symm hx), hi ht]

theorem piecesAt_append_cons (c : Char) (s t : Text) :
    piecesAt c (s ++ c :: t) = piecesAt c s ++ piecesAt c t := by
  induction s
  case nil => simp [piecesAt]
  case cons x s hi =>
    by_cases hx : x = c
    case pos => simp [piecesAt, hx, hi]
    case neg =>
      cases hp : piecesAt c s
      case nil  => exact absurd hp (piecesAt_ne_nil c s)
      case cons => simp [piecesAt, hx, hi, hp]

theorem not_mem_of_mem_piecesAt {p : Text} (h : p ∈ piecesAt c t) : c ∉ p := by
  induction t generalizing p
  case nil => simp_all [piecesAt]
  case cons x t hi =>
    cases hp : piecesAt c t
    case nil => exact absurd hp (piecesAt_ne_nil c t)
    case cons q qs =>
      rw [hp] at hi
      by_cases hx : x = c
      case pos =>
        simp only [piecesAt, hx, if_true, hp, List.mem_cons] at h
        rcases h with rfl | h
        case inl => exact List.not_mem_nil
        case inr => exact hi (List.mem_cons.mpr h)
      case neg =>
        simp only [piecesAt, hx, if_false, hp, List.mem_cons] at h
        rcases h with rfl | h
        case inl => simp [Ne.symm hx, hi (.head _)]
        case inr => exact hi (.tail _ h)

theorem piecesAt_append (h : c ∉ e) :
    piecesAt c (t ++ e) = (piecesAt c t).dropLast ++ [(piecesAt c t).getLastD [] ++ e] := by
  induction t
  case nil => exact piecesAt_of_not_mem h
  case cons x t hi =>
    cases hp : piecesAt c t
    case nil => exact absurd hp (piecesAt_ne_nil c t)
    case cons p ps =>
      rw [hp] at hi
      simp only [List.cons_append, piecesAt, hi, hp]
      by_cases hx : x = c
      case pos => simp [hx]
      case neg => cases ps <;> simp [hx]

end Text

namespace Path

variable {p q : Text}

-- A part of a path that names nothing.
abbrev Silent (part : Text) : Prop :=
  part = [] ∨ part = ['.']

theorem names_eq (p : Text) : names p = (Text.piecesAt '/' p).filter (¬Silent ·) := by
  simp [names, Silent, not_or]

-- The parts of a joined path are those of the two, but for one that names nothing where they are joined.
theorem exists_piecesAt_join (h : isAbsolute q = false) (p : Text) :
    ∃ parts, Text.piecesAt '/' (join p q) = parts ++ Text.piecesAt '/' q ∧
      parts.filter (¬Silent ·) = names p := by
  simp only [join, h, Bool.false_eq_true, if_false]
  split
  case h_1 hp =>
    rw [List.getLast?_eq_none_iff.mp hp]
    exact ⟨[], rfl, rfl⟩
  case h_2 hp =>
    obtain ⟨p, rfl⟩ := List.getLast?_eq_some_iff.mp hp
    refine ⟨Text.piecesAt '/' p, ?_, ?_⟩
    case refine_1 => rw [List.append_assoc]; exact Text.piecesAt_append_cons '/' p q
    case refine_2 => simp [names_eq, Text.piecesAt_append_cons, Text.piecesAt]
  case h_3 => exact ⟨_, Text.piecesAt_append_cons '/' p q, (names_eq p).symm⟩

theorem names_join (h : isAbsolute q = false) (p : Text) : names (join p q) = names p ++ names q := by
  have ⟨_, pieces, named⟩ := exists_piecesAt_join h p
  rw [names_eq, pieces, List.filter_append, named, ← names_eq]

theorem isAbsolute_join (h : isAbsolute q = false) (p : Text) : isAbsolute (join p q) = isAbsolute p := by
  simp only [join, h, Bool.false_eq_true, if_false]
  cases p
  case nil  => exact h
  case cons => split <;> first | contradiction | rfl

section Absolute

theorem isAbsolute_of_mem_names {part : Text} (h : part ∈ names p) : isAbsolute part = false := by
  have mem := (List.mem_filter.mp h).left
  cases part
  case nil => rfl
  case cons c _ =>
    have hc : c ≠ '/' := fun hc => Text.not_mem_of_mem_piecesAt mem (hc ▸ .head _)
    simpa [isAbsolute] using hc

theorem names_of_mem_names {part : Text} (h : part ∈ names p) : names part = [part] := by
  have ⟨mem, audible⟩ := List.mem_filter.mp h
  rw [names, Text.piecesAt_of_not_mem (Text.not_mem_of_mem_piecesAt mem)]
  exact List.filter_cons_of_pos audible

theorem names_foldl_join (start : Text) {parts : List Text} (h : parts ⊆ names p) :
    names (parts.foldl join start) = names start ++ parts ∧
      isAbsolute (parts.foldl join start) = isAbsolute start := by
  induction parts generalizing start
  case nil => simp
  case cons part parts hi =>
    have own := h (.head _)
    have ⟨named, rooted⟩ := hi (join start part) fun _ hm => h (.tail _ hm)
    rw [List.foldl_cons, named, rooted, names_join (isAbsolute_of_mem_names own), names_of_mem_names own,
      isAbsolute_join (isAbsolute_of_mem_names own)]
    simp

theorem isAbsolute_of_opensWith (h : Text.opensWith "//".toList p) : isAbsolute p := by
  cases p
  case nil    => simp [Text.opensWith, Text.dropLiteral?] at h
  case cons c _ =>
    by_cases hc : '/' = c
    case pos => rw [← hc]; rfl
    case neg => simp [Text.opensWith, Text.dropLiteral?, hc] at h

-- The absolute form of a path leads past the same names, those of the working directory first.
theorem names_absolute {directory : Text} (h : isAbsolute directory) (p : Text) :
    names (absolute directory p) = (if isAbsolute p then [] else names directory) ++ names p ∧
      isAbsolute (absolute directory p) = true := by
  unfold absolute
  extract_lets start full
  have begins : names start = (if isAbsolute p then [] else names directory) ∧ isAbsolute start = true := by
    unfold start
    split
    case isTrue hp => rw [if_pos (isAbsolute_of_opensWith hp.left)]; decide
    case isFalse =>
      split
      case isTrue  => decide
      case isFalse => exact ⟨rfl, h⟩
  have ⟨named, rooted⟩ := names_foldl_join start (List.Subset.refl (names p))
  rw [begins.left] at named
  rw [begins.right] at rooted
  split
  case isTrue =>
    rw [names_join rfl, isAbsolute_join rfl]
    exact ⟨(List.append_nil _).trans named, rooted⟩
  case isFalse => exact ⟨named, rooted⟩

end Absolute
end Path

-- A text that completes any name to one that names something below the folder. It is too long for the
-- name to become a point or two.
structure Path.Ending (e : Text) : Prop where
  no_slash : '/' ∉ e
  long     : 2 < e.length

instance {e : Text} : Decidable (Path.Ending e) :=
  decidable_of_iff ('/' ∉ e ∧ 2 < e.length) ⟨fun h => ⟨h.left, h.right⟩, fun h => ⟨h.no_slash, h.long⟩⟩

theorem Path.Ending.isAbsolute_eq_false {e : Text} (h : Ending e) : isAbsolute e = false := by
  cases e
  case nil => rfl
  case cons x e =>
    have hx : x ≠ '/' := fun hx => h.no_slash (hx ▸ List.mem_cons_self)
    simpa [isAbsolute] using hx

-- The path of a job's file is the same text for each of them, up to the ending.
theorem Path.join_append {directory name e : Text} (h : Path.Ending e) :
    Path.join directory (name ++ e) = Path.join directory name ++ e := by
  have ha : isAbsolute (name ++ e) = isAbsolute name := by
    cases name
    case nil  => exact h.isAbsolute_eq_false
    case cons => rfl
  simp only [join, ha]
  split
  case isTrue  => rfl
  case isFalse => split <;> simp

-- The parts of a path up to its last name, and the last name, which what is appended completes.
def Path.front (path : Text) : List Text :=
  (Text.piecesAt '/' path).dropLast

def Path.lastName (path : Text) : Text :=
  (Text.piecesAt '/' path).getLastD []

namespace Location

-- The place that one part of a path leads to.
def next (place : Location) (part : Text) : Location :=
  if part = [] ∨ part = ['.'] then place
  else if part = "..".toList then place.dropLast
  else place ++ [part]

-- Where a path starts to be followed.
def start (directory : Location) (path : Text) : Location :=
  if Path.isAbsolute path then [] else directory

def ofPath (directory : Location) (path : Text) : Location :=
  (Text.piecesAt '/' path).foldl next (directory.start path)

def folder (directory : Location) (path : Text) : Location :=
  (Path.front path).foldl next (directory.start path)

variable {directory : Location} {path e e' : Text}

-- Names that lead down from a place, each by itself.
def Proper (place : Location) : Prop :=
  ∀ name ∈ place, '/' ∉ name ∧ ¬Path.Silent name ∧ name ≠ "..".toList

theorem foldl_next_of_proper {names : List Text} (h : Proper names) (place : Location) :
    names.foldl next place = place ++ names := by
  induction names generalizing place
  case nil => simp
  case cons name names hi =>
    have ⟨_, audible, down⟩ := h name (.head _)
    rw [List.foldl_cons, next, if_neg audible, if_neg down, hi fun _ hm => h _ (.tail _ hm)]
    simp

theorem piecesAt_joinWith {names : List Text} (h : ∀ name ∈ names, '/' ∉ name) (hn : names ≠ []) :
    Text.piecesAt '/' (Text.joinWith ['/'] names) = names := by
  fun_induction Text.joinWith ['/'] names
  case case1   => contradiction
  case case2 t => exact Text.piecesAt_of_not_mem (h t (.head _))
  case case3 t u ts hi =>
    have first := Text.piecesAt_of_not_mem (h t (.head _))
    have rest := hi (fun _ hm => h _ (.tail _ hm)) (List.cons_ne_nil u ts)
    rw [List.append_assoc, List.singleton_append, Text.piecesAt_append_cons, first, rest]
    rfl

theorem names_path (h : Proper directory) : Path.names directory.path = directory := by
  have rooted : Text.piecesAt '/' directory.path = [] :: Text.piecesAt '/' (Text.joinWith ['/'] directory) := by
    simp [Location.path, Text.piecesAt]
  by_cases hn : directory = []
  case pos => rw [hn]; rfl
  case neg =>
    rw [Path.names_eq, rooted, piecesAt_joinWith (fun name hm => (h name hm).left) hn,
      List.filter_cons_of_neg (by simp)]
    exact List.filter_eq_self.mpr fun name hm => by simpa using (h name hm).right.left

theorem start_append (h : Path.Ending e) :
    directory.start (path ++ e) = directory.start path := by
  cases path
  case nil  => rw [List.nil_append, start, h.isAbsolute_eq_false]; rfl
  case cons => rfl

theorem next_append (h : Path.Ending e) (place : Location) (name : Text) :
    place.next (name ++ e) = place ++ [name ++ e] := by
  have hl : 2 < (name ++ e).length := List.length_append ▸ Nat.lt_add_left _ h.long
  have h₁ : name ++ e ≠ []            := fun hn => by simp [hn] at hl
  have h₂ : name ++ e ≠ ['.']         := fun hn => by simp [hn] at hl
  have h₃ : name ++ e ≠ "..".toList   := fun hn => by simp [hn] at hl
  rw [next, if_neg (not_or.mpr ⟨h₁, h₂⟩), if_neg h₃]

theorem ofPath_append (h : Path.Ending e) :
    directory.ofPath (path ++ e) = directory.folder path ++ [Path.lastName path ++ e] := by
  rw [ofPath, start_append h, Text.piecesAt_append h.no_slash, List.foldl_append]
  exact next_append h _ _

theorem ofPath_append_ne_nil (h : Path.Ending e) : directory.ofPath (path ++ e) ≠ [] := by
  simp [ofPath_append h]

theorem ofPath_append_inj (h : Path.Ending e) (h' : Path.Ending e') :
    directory.ofPath (path ++ e) = directory.ofPath (path ++ e') ↔ e = e' := by
  simp [ofPath_append h, ofPath_append h']

end Location
end TikzPress
