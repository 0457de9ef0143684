import TikzPress.Proofs.Path

/-!
What the operations on files come to. All files whose paths differ in an ending alone stand in one folder,
so that for them it is enough to look at their own places. Main statement: a copy from one such file to
another sets the place of the other (`copy_append_eq_ok_iff`).
-/

namespace TikzPress.FileTree

variable {tree tree' : FileTree} {directory place last : Location} {path e e' : Text}

section Walking

variable {part : Text} {parts parts' : List Text}

-- A part of a path can be followed from a directory only.
theorem walk_cons_eq_ok_iff :
    tree.walk place (part :: parts) = .ok last ↔
      tree.get? place = some .directory ∧ tree.walk (place.next part) parts = .ok last := by
  rw [walk]
  cases tree.get? place
  case none => simp
  case some x =>
    cases x
    case file      => simp
    case directory =>
      simp only [Location.next, true_and]
      split
      case isTrue  => rfl
      case isFalse => split <;> rfl

theorem walk_append_eq_ok_iff :
    tree.walk place (parts ++ parts') = .ok last ↔
      ∃ middle, tree.walk place parts = .ok middle ∧ tree.walk middle parts' = .ok last := by
  induction parts generalizing place
  case nil => simp [walk]
  case cons part parts hi =>
    rw [List.cons_append, walk_cons_eq_ok_iff, hi]
    simp only [walk_cons_eq_ok_iff, and_assoc, exists_and_left]

-- Parts that name nothing may be left out, as long as others follow.
theorem walk_filter_append_eq_ok_iff (h : parts' ≠ []) :
    tree.walk place (parts.filter (¬Path.Silent ·) ++ parts') = .ok last ↔
      tree.walk place (parts ++ parts') = .ok last := by
  induction parts generalizing place
  case nil => rfl
  case cons part parts hi =>
    rw [List.cons_append, walk_cons_eq_ok_iff, ← hi]
    by_cases silent : Path.Silent part
    case neg =>
      rw [List.filter_cons_of_pos (by simpa using silent), List.cons_append, walk_cons_eq_ok_iff]
    case pos =>
      rw [List.filter_cons_of_neg (by simp [silent]), Location.next, if_pos silent]
      refine (and_iff_right_of_imp fun walks => ?_).symm
      have more : parts.filter (¬Path.Silent ·) ++ parts' ≠ [] := List.append_ne_nil_of_right_ne_nil _ h
      obtain ⟨_, _, split⟩ := List.exists_cons_of_ne_nil more
      rw [split] at walks
      exact (walk_cons_eq_ok_iff.mp walks).left

theorem eq_foldl_of_walk (h : tree.walk place parts = .ok last) :
    last = parts.foldl Location.next place := by
  induction parts generalizing place
  case nil          => exact (Except.ok.inj h).symm
  case cons part parts hi => exact hi (walk_cons_eq_ok_iff.mp h).right

-- Every directory is there still.
def Upheld (tree tree' : FileTree) : Prop :=
  ∀ x, tree.get? x = some .directory → tree'.get? x = some .directory

theorem Upheld.trans {tree'' : FileTree} (h : Upheld tree tree') (h' : Upheld tree' tree'') :
    Upheld tree tree'' :=
  fun x hx => h' x (h x hx)

theorem upheld_set {x : Location} {entry : Entry} (hx : x ≠ []) (hd : tree.get? x ≠ some .directory) :
    Upheld tree (tree.set x entry) := by
  intro y hy
  have hn : y ≠ x := fun he => hd (he ▸ hy)
  rw [get?_set _ _ _ _ hx, if_neg hn, hy]

-- Who gets through still does where no directory has gone.
theorem walk_of_upheld (u : Upheld tree tree') (h : tree.walk place parts = .ok last) :
    tree'.walk place parts = .ok last := by
  induction parts generalizing place
  case nil => exact h
  case cons part parts hi =>
    have ⟨hp, h⟩ := walk_cons_eq_ok_iff.mp h
    exact walk_cons_eq_ok_iff.mpr ⟨u _ hp, hi h⟩

end Walking

-- The folder in which the files stand whose paths complete a path.
structure HasFolder (tree : FileTree) (directory : Location) (path : Text) : Prop where
  walk      : tree.walk (directory.start path) (Path.front path) = .ok (directory.folder path)
  directory : tree.get? (directory.folder path) = some .directory

theorem HasFolder.of_upheld (f : tree.HasFolder directory path) (u : Upheld tree tree') :
    tree'.HasFolder directory path where
  walk      := walk_of_upheld u f.walk
  directory := u _ f.directory

theorem HasFolder.set {x : Location} {entry : Entry} (f : tree.HasFolder directory path) (hx : x ≠ [])
    (hd : tree.get? x ≠ some .directory) : (tree.set x entry).HasFolder directory path :=
  f.of_upheld (upheld_set hx hd)

theorem locate_append_eq_ok_iff (h : Path.Ending e) :
    tree.locate directory (path ++ e) = .ok place ↔
      tree.HasFolder directory path ∧ place = directory.ofPath (path ++ e) := by
  have hn : path ++ e ≠ [] := fun hn => by simpa [(List.append_eq_nil_iff.mp hn).right] using h.long
  have hw {middle : Location} : tree.walk middle [Path.lastName path ++ e] = .ok place ↔
      tree.get? middle = some .directory ∧ place = middle ++ [Path.lastName path ++ e] := by
    rw [walk_cons_eq_ok_iff, Location.next_append h, walk, Except.ok.injEq, eq_comm (a := place)]
  rw [locate, if_neg hn, Location.ofPath_append h, Text.piecesAt_append h.no_slash]
  change tree.walk (directory.start (path ++ e)) (Path.front path ++ [Path.lastName path ++ e]) = _ ↔ _
  rw [Location.start_append h, walk_append_eq_ok_iff]
  simp only [hw]
  constructor
  case mp =>
    intro ⟨middle, hm, hd, he⟩
    cases eq_foldl_of_walk hm
    exact ⟨⟨hm, hd⟩, he⟩
  case mpr => exact fun ⟨f, he⟩ => ⟨_, f.walk, f.directory, he⟩

theorem HasFolder.locate_append (f : tree.HasFolder directory path) (h : Path.Ending e) :
    tree.locate directory (path ++ e) = .ok (directory.ofPath (path ++ e)) :=
  (locate_append_eq_ok_iff h).mpr ⟨f, rfl⟩

section Joined

variable {q : Text}

theorem locate_join_eq_ok_iff (hq : q ≠ []) (h : Path.isAbsolute q = false) :
    tree.locate directory (Path.join path q) = .ok place ↔
      tree.walk (directory.start path) (Path.names path ++ Text.piecesAt '/' q) = .ok place := by
  have ⟨parts, pieces, named⟩ := Path.exists_piecesAt_join h path
  have nonempty : Path.join path q ≠ [] := by
    unfold Path.join
    rw [if_neg (by simp [h])]
    split <;> simp [hq]
  rw [locate, if_neg nonempty, Path.isAbsolute_join h, pieces, ← named,
    walk_filter_append_eq_ok_iff (Text.piecesAt_ne_nil '/' q)]
  rfl

-- What is found below the absolute form of a path is found below the path itself.
theorem locate_join_of_absolute (proper : directory.Proper) (hq : q ≠ []) (h : Path.isAbsolute q = false)
    (found : tree.locate directory (Path.join (Path.absolute directory.path path) q) = .ok place) :
    tree.locate directory (Path.join path q) = .ok place := by
  rw [locate_join_eq_ok_iff hq h] at found ⊢
  have absolute : Path.isAbsolute directory.path := rfl
  obtain ⟨named, rooted⟩ := Path.names_absolute absolute path
  rw [named, Location.start, if_pos rooted] at found
  rw [Location.start]
  split at found
  case isTrue ha  => rwa [if_pos ha]
  case isFalse ha =>
    rw [if_neg ha]
    rw [Location.names_path proper, List.append_assoc, walk_append_eq_ok_iff] at found
    obtain ⟨middle, leads, rest⟩ := found
    have there := eq_foldl_of_walk leads
    rw [Location.foldl_next_of_proper proper, List.nil_append] at there
    exact there ▸ rest

theorem hasEntry_join_of_absolute (proper : directory.Proper) (hq : q ≠ []) (h : Path.isAbsolute q = false)
    (found : tree.hasEntry directory (Path.join (Path.absolute directory.path path) q)) :
    tree.hasEntry directory (Path.join path q) := by
  unfold hasEntry lookUp at found ⊢
  cases hl : tree.locate directory (Path.join (Path.absolute directory.path path) q)
  case error => simp [hl, bind, Except.bind, Except.isOk, Except.toBool] at found
  case ok    => rwa [hl, ← locate_join_of_absolute proper hq h hl] at found

end Joined

section Content

variable {entry : Entry} {content : Bytes}

theorem lookUp_append_eq_ok_iff (h : Path.Ending e) :
    tree.lookUp directory (path ++ e) = .ok entry ↔
      tree.HasFolder directory path ∧ tree.get? (directory.ofPath (path ++ e)) = some entry := by
  unfold lookUp
  cases hl : tree.locate directory (path ++ e)
  case error =>
    refine iff_of_false nofun fun ⟨f, _⟩ => ?_
    exact nomatch hl.symm.trans (f.locate_append h)
  case ok place =>
    have ⟨f, he⟩ := (locate_append_eq_ok_iff h).mp hl
    cases hg : tree.get? place <;> simp [bind, Except.bind, hg, f, ← he]

theorem read_eq_ok_iff :
    tree.read directory path = .ok content ↔ tree.lookUp directory path = .ok (.file content) := by
  unfold read
  cases tree.lookUp directory path
  case error => exact iff_of_false nofun nofun
  case ok x  => cases x <;> simp [bind, Except.bind]

theorem read_append_eq_ok_iff (h : Path.Ending e) :
    tree.read directory (path ++ e) = .ok content ↔
      tree.HasFolder directory path ∧
        tree.get? (directory.ofPath (path ++ e)) = some (.file content) :=
  read_eq_ok_iff.trans (lookUp_append_eq_ok_iff h)

theorem write_append_eq_ok_iff (h : Path.Ending e) :
    tree.write directory (path ++ e) content = .ok tree' ↔
      tree.HasFolder directory path ∧ tree.get? (directory.ofPath (path ++ e)) ≠ some .directory ∧
        tree' = tree.set (directory.ofPath (path ++ e)) (.file content) := by
  unfold write
  cases hl : tree.locate directory (path ++ e)
  case error =>
    refine iff_of_false nofun fun ⟨f, _⟩ => ?_
    exact nomatch hl.symm.trans (f.locate_append h)
  case ok place =>
    have ⟨f, he⟩ := (locate_append_eq_ok_iff h).mp hl
    simp only [bind, Except.bind, f, ← he, true_and]
    split
    case h_1 hg => simp [hg]
    case h_2 hg => exact ⟨fun h => ⟨hg, (Except.ok.inj h).symm⟩, fun h => h.right ▸ rfl⟩

theorem copy_append_eq_ok_iff (h : Path.Ending e) (h' : Path.Ending e') :
    tree.copy directory (path ++ e) (path ++ e') = .ok tree' ↔
      ∃ content, tree.read directory (path ++ e) = .ok content ∧
        tree.get? (directory.ofPath (path ++ e')) ≠ some .directory ∧
          tree' = tree.set (directory.ofPath (path ++ e')) (.file content) := by
  simp only [read_eq_ok_iff]
  unfold copy
  cases hl : tree.lookUp directory (path ++ e)
  case error => exact iff_of_false nofun fun ⟨_, h, _⟩ => nomatch h
  case ok x =>
    have f := ((lookUp_append_eq_ok_iff h).mp hl).left
    cases x
    case directory => exact iff_of_false nofun fun ⟨_, h, _⟩ => nomatch h
    case file content =>
      simp only [bind, Except.bind, write_append_eq_ok_iff h', f, true_and, Except.ok.injEq,
        Entry.file.injEq, exists_eq_left']

end Content

end TikzPress.FileTree
