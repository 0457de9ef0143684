import Mathlib.Data.List.DropRight
import TikzPress.Proofs.FileTree

/-!
Making a directory with all its parents. Main statements: where this succeeds the directory is there
(`lookUp_of_makeAll`), where the directory is there already nothing is done (`makeAll_of_lookUp`), nothing
changes but that directories appear where nothing stood (`grownAt_makeAll`), and what stands deeper than the
path has names is left alone (`get?_makeAll`).
-/

namespace TikzPress

namespace Path

variable {path : Text}

-- A path without the slashes at its end, unless it has nothing else.
def stripped (path : Text) : Text :=
  let bare := (path.reverse.dropWhile (· = '/')).reverse
  if bare = [] then path else bare

theorem exists_stripped_append (path : Text) : ∃ k, path = stripped path ++ List.replicate k '/' := by
  unfold stripped
  extract_lets bare
  split
  case isTrue  => exact ⟨0, (List.append_nil path).symm⟩
  case isFalse =>
    have slashes : ∀ c ∈ path.rtakeWhile (· = '/'), c = '/' := fun c hc => by
      simpa using List.mem_rtakeWhile_imp hc
    refine ⟨(path.rtakeWhile (· = '/')).length, ?_⟩
    rw [← List.eq_replicate_of_mem slashes]
    exact (List.rdropWhile_append_rtakeWhile ..).symm

theorem stripped_ne_nil (h : path ≠ []) : stripped path ≠ [] := by
  unfold stripped
  extract_lets bare
  split
  case isTrue  => exact h
  case isFalse => assumption

-- A path to whose end names can be appended.
theorem exists_join_nil_eq (path : Text) (h : path ≠ []) :
    ∃ p, join path [] = p ++ ['/'] ∧ (path = p ∨ path = p ++ ['/']) := by
  simp only [join, isAbsolute, List.head?_nil, reduceCtorEq, decide_false, Bool.false_eq_true, if_false]
  split
  case h_1 hp => exact absurd (List.getLast?_eq_none_iff.mp hp) h
  case h_2 hp =>
    obtain ⟨p, rfl⟩ := List.getLast?_eq_some_iff.mp hp
    exact ⟨p, List.append_nil _, .inr rfl⟩
  case h_3 => exact ⟨path, rfl, .inl rfl⟩

theorem names_append_slashes (path : Text) (k : ℕ) : names (path ++ List.replicate k '/') = names path := by
  induction k
  case zero => rw [List.replicate_zero, List.append_nil]
  case succ k hi =>
    rw [List.replicate_succ', ← List.append_assoc, names_eq, Text.piecesAt_append_cons, List.filter_append,
      ← names_eq, hi]
    exact List.append_nil _

theorem names_stripped (path : Text) : names (stripped path) = names path := by
  obtain ⟨k, hk⟩ := exists_stripped_append path
  conv_rhs => rw [hk, names_append_slashes]

theorem isAbsolute_iff : isAbsolute path ↔ ∃ t, path = '/' :: t := by
  cases path
  case nil  => simp [isAbsolute]
  case cons => simp [isAbsolute, eq_comm]

theorem isAbsolute_stripped (h : isAbsolute path) : isAbsolute (stripped path) := by
  obtain ⟨t, rfl⟩ := isAbsolute_iff.mp h
  obtain ⟨k, hk⟩ := exists_stripped_append ('/' :: t)
  obtain ⟨c, rest, hs⟩ := List.exists_cons_of_ne_nil (stripped_ne_nil (List.cons_ne_nil '/' t))
  rw [hs] at hk ⊢
  exact isAbsolute_iff.mpr ⟨rest, by rw [(List.cons.inj hk).left]⟩

section Parents

variable {t parent : Text} {parts : List Text}

theorem names_cons_slash (t : Text) : names ('/' :: t) = names t := by
  simp [names_eq, Text.piecesAt]

theorem exists_dropSilent_cons (part : Text) (parts : List Text) :
    ∃ rest, rest.Sublist parts ∧ dropSilent (part :: parts) = part :: rest := by
  refine ⟨_, ?_, rfl⟩
  rw [← List.reverse_sublist, List.reverse_reverse]
  exact List.dropWhile_sublist _

theorem exists_of_parent?_eq_some (h : parent? ('/' :: t) = some parent) :
    ∃ parts, parts.Sublist (Text.piecesAt '/' t) ∧ parent = '/' :: Text.joinWith ['/'] parts := by
  obtain ⟨rest, below, dropped⟩ := exists_dropSilent_cons [] (Text.piecesAt '/' t)
  have pieces : Text.piecesAt '/' ('/' :: t) = [] :: Text.piecesAt '/' t := if_pos rfl
  rw [parent?, pieces, dropped] at h
  cases rest
  case nil => simp at h
  case cons part rest =>
    obtain ⟨parts, above, again⟩ := exists_dropSilent_cons [] (part :: rest).dropLast
    refine ⟨parts, above.trans ((List.dropLast_sublist _).trans below), ?_⟩
    simp only [List.dropLast_cons_cons, again] at h
    cases parts <;> simp_all [Text.joinWith]

theorem names_joinWith (h : ∀ part ∈ parts, '/' ∉ part) :
    names (Text.joinWith ['/'] parts) = parts.filter (¬Silent ·) := by
  cases parts
  case nil  => rfl
  case cons => rw [names_eq, Location.piecesAt_joinWith h (List.cons_ne_nil _ _)]

-- A parent has no more names.
theorem absolute_of_parent? (ha : isAbsolute path) (h : parent? path = some parent) :
    isAbsolute parent ∧ (names parent).length ≤ (names path).length := by
  obtain ⟨t, rfl⟩ := isAbsolute_iff.mp ha
  obtain ⟨parts, below, rfl⟩ := exists_of_parent?_eq_some h
  refine ⟨rfl, List.Sublist.length_le ?_⟩
  rw [names_cons_slash, names_cons_slash,
    names_joinWith fun part hm => Text.not_mem_of_mem_piecesAt (below.subset hm), names_eq]
  exact below.filter _

theorem absolute_of_mem_withParents (ha : isAbsolute path) {p : Text} (h : p ∈ FileTree.withParents path) :
    isAbsolute p ∧ (names p).length ≤ (names path).length := by
  fun_induction FileTree.withParents path
  case case1 => cases List.mem_singleton.mp h; exact ⟨ha, le_rfl⟩
  case case3 => cases List.mem_singleton.mp h; exact ⟨ha, le_rfl⟩
  case case2 path parent hp _ hi =>
    have ⟨above, fewer⟩ := absolute_of_parent? ha hp
    rcases List.mem_cons.mp h with rfl | h
    case inl => exact ⟨ha, le_rfl⟩
    case inr => exact (hi above h).imp_right fewer.trans'

end Parents
end Path

namespace FileTree

variable {tree tree' : FileTree} {directory place : Location} {path : Text} {entry : Entry}

theorem lookUp_eq_ok_iff :
    tree.lookUp directory path = .ok entry ↔
      ∃ place, tree.locate directory path = .ok place ∧ tree.get? place = some entry := by
  unfold lookUp
  cases tree.locate directory path
  case error => simp [bind, Except.bind]
  case ok place => cases hg : tree.get? place <;> simp [bind, Except.bind, hg]

section Slashes

theorem front_slash (path : Text) : Path.front (path ++ ['/']) = Text.piecesAt '/' path := by
  rw [Path.front, Text.piecesAt_append_cons]
  exact List.dropLast_concat

-- What a path with a slash at its end leads to is a directory.
theorem locate_slash_eq_ok_iff :
    tree.locate directory (path ++ ['/']) = .ok place ↔
      tree.HasFolder directory (path ++ ['/']) ∧ place = directory.folder (path ++ ['/']) := by
  rw [locate, if_neg (List.concat_ne_nil _ _), Text.piecesAt_append_cons, ← front_slash]
  change tree.walk (directory.start (path ++ ['/'])) (Path.front (path ++ ['/']) ++ [[]]) = _ ↔ _
  rw [walk_append_eq_ok_iff]
  constructor
  case mp =>
    rintro ⟨middle, leads, silent⟩
    obtain ⟨there, last⟩ := walk_cons_eq_ok_iff.mp silent
    cases last
    cases eq_foldl_of_walk leads
    exact ⟨⟨leads, there⟩, rfl⟩
  case mpr =>
    rintro ⟨f, rfl⟩
    exact ⟨_, f.walk, walk_cons_eq_ok_iff.mpr ⟨f.directory, rfl⟩⟩

theorem lookUp_slash_iff :
    tree.lookUp directory (path ++ ['/']) = .ok .directory ↔ tree.HasFolder directory (path ++ ['/']) := by
  simp only [lookUp_eq_ok_iff, locate_slash_eq_ok_iff]
  constructor
  case mp  => exact fun ⟨_, ⟨f, _⟩, _⟩ => f
  case mpr => exact fun f => ⟨_, ⟨f, rfl⟩, f.directory⟩

theorem hasFolder_slash_iff (h : path ≠ []) :
    tree.HasFolder directory (path ++ ['/']) ↔ tree.lookUp directory path = .ok .directory := by
  have starts : directory.start (path ++ ['/']) = directory.start path := by
    cases path
    case nil  => contradiction
    case cons => rfl
  have located : tree.locate directory path = tree.walk (directory.start (path ++ ['/']))
      (Path.front (path ++ ['/'])) := by
    rw [locate, if_neg h, front_slash, starts]
    rfl
  rw [lookUp_eq_ok_iff, located]
  constructor
  case mp  => exact fun f => ⟨_, f.walk, f.directory⟩
  case mpr =>
    rintro ⟨place, leads, there⟩
    cases eq_foldl_of_walk leads
    exact ⟨leads, there⟩

theorem lookUp_slashes_iff (h : path ≠ []) (k : ℕ) :
    tree.lookUp directory (path ++ List.replicate k '/') = .ok .directory ↔
      tree.lookUp directory path = .ok .directory := by
  induction k
  case zero => rw [List.replicate_zero, List.append_nil]
  case succ k hi =>
    rw [List.replicate_succ', ← List.append_assoc, lookUp_slash_iff,
      hasFolder_slash_iff (List.append_ne_nil_of_left_ne_nil h _), hi]

theorem lookUp_stripped_iff (h : path ≠ []) :
    tree.lookUp directory (Path.stripped path) = .ok .directory ↔
      tree.lookUp directory path = .ok .directory := by
  obtain ⟨k, hk⟩ := Path.exists_stripped_append path
  conv_rhs => rw [hk]
  exact (lookUp_slashes_iff (Path.stripped_ne_nil h) k).symm

-- Names can be appended to a path exactly if it leads to a directory.
theorem hasFolder_join_nil_iff (h : path ≠ []) :
    tree.HasFolder directory (Path.join path []) ↔ tree.lookUp directory path = .ok .directory := by
  obtain ⟨p, joined, rfl | rfl⟩ := Path.exists_join_nil_eq path h
  case inl => rw [joined, hasFolder_slash_iff h]
  case inr => rw [joined, lookUp_slash_iff]

theorem folder_join_nil (h : path ≠ []) :
    directory.folder (Path.join path []) = directory.ofPath path := by
  obtain ⟨p, joined, rfl | rfl⟩ := Path.exists_join_nil_eq path h
  case inl =>
    rw [joined, Location.folder, front_slash, Location.ofPath]
    cases path
    case nil  => contradiction
    case cons => rfl
  case inr =>
    rw [joined, Location.folder, front_slash, Location.ofPath, Text.piecesAt_append_cons, List.foldl_append]
    rfl

end Slashes

section Making

theorem makeDirectory_eq_ok_iff :
    tree.makeDirectory directory path = .ok tree' ↔
      ∃ place, tree.locate directory (Path.stripped path) = .ok place ∧ tree.get? place = none ∧
        tree' = tree.set place .directory := by
  change (tree.locate directory (Path.stripped path)).bind _ = _ ↔ _
  cases tree.locate directory (Path.stripped path)
  case error    => simp [Except.bind]
  case ok place => cases hg : tree.get? place <;> simp [Except.bind, hg, eq_comm]

theorem ne_nil_of_get?_eq_none (h : tree.get? place = none) : place ≠ [] := by
  rintro rfl
  contradiction

theorem upheld_of_makeDirectory (h : tree.makeDirectory directory path = .ok tree') : Upheld tree tree' := by
  obtain ⟨place, -, free, rfl⟩ := makeDirectory_eq_ok_iff.mp h
  exact upheld_set (ne_nil_of_get?_eq_none free) (by simp [free])

theorem lookUp_of_makeDirectory (h : tree.makeDirectory directory path = .ok tree') :
    tree'.lookUp directory path = .ok .directory := by
  have upheld := upheld_of_makeDirectory h
  obtain ⟨place, leads, free, rfl⟩ := makeDirectory_eq_ok_iff.mp h
  have hn : path ≠ [] := by
    rintro rfl
    simp [Path.stripped, locate] at leads
  refine (lookUp_stripped_iff hn).mp (lookUp_eq_ok_iff.mpr ⟨place, ?_, ?_⟩)
  case refine_1 =>
    rw [locate, if_neg (Path.stripped_ne_nil hn)] at leads ⊢
    exact walk_of_upheld upheld leads
  case refine_2 => rw [get?_set _ _ _ _ (ne_nil_of_get?_eq_none free), if_pos rfl]

theorem isDirectory_iff : tree.isDirectory directory path ↔ tree.lookUp directory path = .ok .directory := by
  unfold isDirectory
  split <;> simp_all

theorem ensureDirectory_cases (h : tree.ensureDirectory directory path = .ok tree') :
    tree.makeDirectory directory path = .ok tree' ∨
      tree.lookUp directory path = .ok .directory ∧ tree' = tree := by
  unfold ensureDirectory at h
  split at h
  case h_1 made => exact .inl (h ▸ made)
  case h_2 =>
    split at h
    case isTrue there => exact .inr ⟨isDirectory_iff.mp there, (Except.ok.inj h).symm⟩
    case isFalse      => contradiction

theorem lookUp_of_ensureDirectory (h : tree.ensureDirectory directory path = .ok tree') :
    tree'.lookUp directory path = .ok .directory := by
  rcases ensureDirectory_cases h with made | ⟨there, rfl⟩
  case inl => exact lookUp_of_makeDirectory made
  case inr => exact there

theorem ensureDirectory_of_lookUp (hn : path ≠ []) (h : tree.lookUp directory path = .ok .directory) :
    tree.ensureDirectory directory path = .ok tree := by
  obtain ⟨place, leads, there⟩ := lookUp_eq_ok_iff.mp ((lookUp_stripped_iff hn).mpr h)
  have taken : tree.makeDirectory directory path = .error .alreadyExists := by
    change (tree.locate directory (Path.stripped path)).bind _ = _
    simp only [leads, Except.bind, there]
  simp only [ensureDirectory, taken, isDirectory_iff.mpr h, if_true]

-- What holds between the files before and after a directory is made holds so for all the directories.
theorem makeDirectories_of_ensureDirectory {paths : List Text} {R : FileTree → FileTree → Prop}
    (refl : ∀ t, R t t) (trans : ∀ {t t' t''}, R t t' → R t' t'' → R t t'')
    (step : ∀ path ∈ paths, ∀ {t t'}, t.ensureDirectory directory path = .ok t' → R t t') :
    R tree (tree.makeDirectories directory paths).2 := by
  induction paths
  case nil => exact refl tree
  case cons path parents hi =>
    have hi := hi fun path hp => step path (.tail _ hp)
    have step := @step path (.head _)
    unfold makeDirectories
    split
    case h_1 made => exact step made
    case h_2 =>
      split
      case h_1 hm => rwa [hm] at hi
      case h_2 hm =>
        rw [hm] at hi
        split
        case h_1 made => exact trans hi (step made)
        case h_2      => exact hi
    case h_3 => exact refl tree

theorem exists_withParents_eq (path : Text) : ∃ parents, withParents path = path :: parents := by
  rw [withParents]
  split
  case h_1 => exact ⟨[], rfl⟩
  case h_2 => split <;> exact ⟨_, rfl⟩

theorem lookUp_of_makeAll (h : tree.makeAll directory path = (.ok (), tree')) :
    tree'.lookUp directory path = .ok .directory := by
  obtain ⟨parents, hp⟩ := exists_withParents_eq path
  rw [makeAll, hp, makeDirectories] at h
  split at h
  case h_1 made => exact lookUp_of_ensureDirectory ((Prod.mk.inj h).right ▸ made)
  case h_2 =>
    split at h
    case h_1 => cases h
    case h_2 =>
      split at h
      case h_1 made => exact lookUp_of_ensureDirectory ((Prod.mk.inj h).right ▸ made)
      case h_2      => cases h
  case h_3 => cases h

theorem makeAll_of_lookUp (hn : path ≠ []) (h : tree.lookUp directory path = .ok .directory) :
    tree.makeAll directory path = (.ok (), tree) := by
  obtain ⟨parents, hp⟩ := exists_withParents_eq path
  rw [makeAll, hp, makeDirectories, ensureDirectory_of_lookUp hn h]

end Making

section Growing

variable {x : Location}

-- A directory has come where nothing stood, or nothing has changed.
def GrownAt (tree tree' : FileTree) (x : Location) : Prop :=
  tree'.get? x = tree.get? x ∨ tree.get? x = none ∧ tree'.get? x = some .directory

theorem GrownAt.trans {tree'' : FileTree} (h : GrownAt tree tree' x) (h' : GrownAt tree' tree'' x) :
    GrownAt tree tree'' x := by
  cases h
  case inl h => rwa [GrownAt, ← h]
  case inr h =>
    cases h'
    case inl h' => exact .inr ⟨h.left, h'.trans h.right⟩
    case inr h' => exact nomatch h'.left.symm.trans h.right

theorem grownAt_of_makeDirectory (h : tree.makeDirectory directory path = .ok tree') :
    GrownAt tree tree' x := by
  obtain ⟨place, -, free, rfl⟩ := makeDirectory_eq_ok_iff.mp h
  have hp := ne_nil_of_get?_eq_none free
  by_cases hx : x = place
  case pos => exact .inr ⟨hx ▸ free, by rw [get?_set _ _ _ _ hp, if_pos hx]⟩
  case neg => exact .inl (by rw [get?_set _ _ _ _ hp, if_neg hx])

theorem grownAt_makeAll : GrownAt tree (tree.makeAll directory path).2 x := by
  refine makeDirectories_of_ensureDirectory (R := (GrownAt · · x)) (fun _ => .inl rfl) .trans fun _ _ _ _ h => ?_
  rcases ensureDirectory_cases h with made | ⟨-, rfl⟩
  case inl => exact grownAt_of_makeDirectory made
  case inr => exact .inl rfl

end Growing

section Depth

variable {x : Location}

theorem foldl_next_filter (parts : List Text) (place : Location) :
    (parts.filter (¬Path.Silent ·)).foldl Location.next place = parts.foldl Location.next place := by
  induction parts generalizing place
  case nil => rfl
  case cons part parts hi =>
    by_cases silent : Path.Silent part
    case pos => rw [List.filter_cons_of_neg (by simp [silent]), hi, List.foldl_cons, Location.next, if_pos silent]
    case neg => rw [List.filter_cons_of_pos (by simpa using silent), List.foldl_cons, hi, List.foldl_cons]

theorem ofPath_of_isAbsolute (ha : Path.isAbsolute path) :
    directory.ofPath path = (Path.names path).foldl Location.next [] := by
  rw [Location.ofPath, Location.start, if_pos ha, Path.names_eq, foldl_next_filter]

-- A path leads at most as deep as it has names, and just so deep if it never goes back.
theorem length_ofPath_le (ha : Path.isAbsolute path) :
    (directory.ofPath path).length ≤ (Path.names path).length := by
  have once (place : Location) (part : Text) : (place.next part).length ≤ place.length + 1 := by
    unfold Location.next
    split
    case isTrue  => omega
    case isFalse =>
      split
      case isTrue  => exact (List.length_dropLast ..).trans_le (by omega)
      case isFalse => exact (List.length_append ..).le
  have deep (parts : List Text) (place : Location) :
      (parts.foldl Location.next place).length ≤ place.length + parts.length := by
    induction parts generalizing place
    case nil => rfl
    case cons part parts hi =>
      rw [List.foldl_cons, List.length_cons]
      exact (hi _).trans (by have := once place part; omega)
  rw [ofPath_of_isAbsolute ha]
  exact (deep _ []).trans_eq (Nat.zero_add _)

theorem length_ofPath (ha : Path.isAbsolute path) (straight : "..".toList ∉ Path.names path) :
    (directory.ofPath path).length = (Path.names path).length := by
  have proper : Location.Proper (Path.names path) := by
    intro name hm
    have ⟨mem, audible⟩ := List.mem_filter.mp (Path.names_eq path ▸ hm)
    exact ⟨Text.not_mem_of_mem_piecesAt mem, by simpa using audible, fun he => straight (he ▸ hm)⟩
  rw [ofPath_of_isAbsolute ha, Location.foldl_next_of_proper proper, List.nil_append]

theorem ofPath_of_locate (h : tree.locate directory path = .ok place) : place = directory.ofPath path := by
  unfold locate at h
  split at h
  case isTrue  => contradiction
  case isFalse => exact eq_foldl_of_walk h

theorem get?_of_makeDirectory (ha : Path.isAbsolute path) (hx : (Path.names path).length < x.length)
    (h : tree.makeDirectory directory path = .ok tree') : tree'.get? x = tree.get? x := by
  obtain ⟨place, leads, free, rfl⟩ := makeDirectory_eq_ok_iff.mp h
  have shallow : (directory.ofPath (Path.stripped path)).length ≤ _ :=
    length_ofPath_le (Path.isAbsolute_stripped ha)
  rw [← ofPath_of_locate leads, Path.names_stripped] at shallow
  have hn : x ≠ place := by rintro rfl; omega
  rw [get?_set _ _ _ _ (ne_nil_of_get?_eq_none free), if_neg hn]

theorem get?_makeAll (ha : Path.isAbsolute path) (hx : (Path.names path).length < x.length) :
    (tree.makeAll directory path).2.get? x = tree.get? x := by
  refine makeDirectories_of_ensureDirectory (R := fun t t' => t'.get? x = t.get? x) (fun _ => rfl)
    (fun h h' => h'.trans h) fun p hp _ _ h => ?_
  have ⟨above, fewer⟩ := Path.absolute_of_mem_withParents ha hp
  rcases ensureDirectory_cases h with made | ⟨-, rfl⟩
  case inl => exact get?_of_makeDirectory above (fewer.trans_lt hx) made
  case inr => rfl

end Depth
end FileTree
end TikzPress
