import TikzPress.Proofs.FileTree

/-!
Changes to the files of a folder, and the files there that matter for them. Main statements: writing a file and
copying one are local to the files that are named (`Local.write`, `Local.copy`), and so are two such changes one
after the other (`Local.andThen`).
-/

namespace TikzPress.FileTree

-- Two trees differ in nothing but files of a folder that are not among the own ones.
def Agree (folder : Location) (own : List Location) (tree tree' : FileTree) : Prop :=
  ∀ x, (folder <+: x → x ∈ own) → tree'.get? x = tree.get? x

def entriesAt (tree : FileTree) (places : List Location) : List (Option Entry) :=
  places.map tree.get?

theorem entriesAt_eq_iff {tree tree' : FileTree} {places : List Location} :
    tree.entriesAt places = tree'.entriesAt places ↔ ∀ x ∈ places, tree.get? x = tree'.get? x :=
  List.map_inj_left

section Agreeing

variable {folder : Location} {own own' reads writes : List Location} {tree tree' after after' : FileTree}

theorem Agree.mono (a : Agree folder own tree tree') (h : own' ⊆ own) : Agree folder own' tree tree' :=
  fun x hx => a x fun below => h (hx below)

-- Trees still agree when the same has been written to both.
theorem Agree.of_written (a : Agree folder own tree tree') (h : ∀ x ∉ writes, after.get? x = tree.get? x)
    (h' : ∀ x ∉ writes, after'.get? x = tree'.get? x) (he : after.entriesAt writes = after'.entriesAt writes) :
    Agree folder own after after' := by
  intro x hx
  by_cases hw : x ∈ writes
  case pos => exact (entriesAt_eq_iff.mp he x hw).symm
  case neg => rw [h x hw, h' x hw, a x hx]

end Agreeing

-- A change that writes at some places only and leaves all directories where they are. Of the files in the
-- folder only those that it reads and writes matter for it.
structure Local (directory : Location) (root : Text) (reads writes : List Location)
    (change : FileTree → Except FileError FileTree) : Prop where
  elsewhere : change tree = .ok after → ∀ x ∉ writes, after.get? x = tree.get? x
  upheld    : change tree = .ok after → Upheld tree after
  alike     : tree.HasFolder directory root → tree'.HasFolder directory root →
    Agree (directory.folder root) (reads ++ writes) tree tree' →
    (change tree).map (entriesAt · writes) = (change tree').map (entriesAt · writes)

section Folder

variable {tree : FileTree} {directory : Location} {path e e' : Text}

theorem HasFolder.lookUp_append (f : tree.HasFolder directory path) (h : Path.Ending e) :
    tree.lookUp directory (path ++ e) =
      match tree.get? (directory.ofPath (path ++ e)) with
      | some entry => .ok entry
      | none       => .error .notFound := by
  rw [lookUp, f.locate_append h]
  rfl

theorem HasFolder.write_append (f : tree.HasFolder directory path) (h : Path.Ending e) (content : Bytes) :
    tree.write directory (path ++ e) content =
      match tree.get? (directory.ofPath (path ++ e)) with
      | some .directory => .error .isADirectory
      | _               => .ok (tree.set (directory.ofPath (path ++ e)) (.file content)) := by
  rw [write, f.locate_append h]
  rfl

theorem exists_write_of_copy {source target : Text} {tree' : FileTree}
    (h : tree.copy directory source target = .ok tree') :
    ∃ content, tree.write directory target content = .ok tree' := by
  unfold copy at h
  cases hl : tree.lookUp directory source
  case error => simp [hl, bind, Except.bind] at h
  case ok entry =>
    cases entry
    case directory    => simp [hl, bind, Except.bind] at h
    case file content => exact ⟨content, by simpa [hl, bind, Except.bind] using h⟩

end Folder

namespace Local

variable {directory : Location} {root e e' : Text} {reads writes : List Location}
variable {change change' : FileTree → Except FileError FileTree}

theorem write (h : Path.Ending e) (hw : directory.ofPath (root ++ e) ∈ writes) (content : Bytes) :
    Local directory root reads writes fun tree => tree.write directory (root ++ e) content where
  elsewhere hc x hx := by
    obtain ⟨-, -, rfl⟩ := (write_append_eq_ok_iff h).mp hc
    have hn : x ≠ directory.ofPath (root ++ e) := fun he => hx (he ▸ hw)
    rw [get?_set _ _ _ _ (Location.ofPath_append_ne_nil h), if_neg hn]
  upheld hc := by
    obtain ⟨-, hd, rfl⟩ := (write_append_eq_ok_iff h).mp hc
    exact upheld_set (Location.ofPath_append_ne_nil h) hd
  alike f f' a := by
    rw [f.write_append h, f'.write_append h, a _ fun _ => List.mem_append_right _ hw]
    split
    case h_1 => rfl
    case h_2 =>
      refine congrArg Except.ok (entriesAt_eq_iff.mpr fun x hx => ?_)
      rw [get?_set _ _ _ _ (Location.ofPath_append_ne_nil h), get?_set _ _ _ _ (Location.ofPath_append_ne_nil h),
        a x fun _ => List.mem_append_right _ hx]

theorem copy (h : Path.Ending e) (h' : Path.Ending e') (hr : directory.ofPath (root ++ e) ∈ reads)
    (hw : directory.ofPath (root ++ e') ∈ writes) :
    Local directory root reads writes fun tree => tree.copy directory (root ++ e) (root ++ e') where
  elsewhere hc := by
    obtain ⟨content, hc⟩ := exists_write_of_copy hc
    have written : Local directory root reads writes _ := write h' hw content
    exact written.elsewhere hc
  upheld hc := by
    obtain ⟨content, hc⟩ := exists_write_of_copy hc
    have written : Local directory root reads writes _ := write h' hw content
    exact written.upheld hc
  alike {tree tree'} f f' a := by
    have same := a _ fun _ => List.mem_append_left _ hr
    unfold FileTree.copy
    rw [f.lookUp_append h, f'.lookUp_append h, same]
    rcases tree.get? (directory.ofPath (root ++ e)) with _ | (content | _)
    case none => rfl
    case some.file => exact (write h' hw content).alike f f' a
    case some.directory => rfl

theorem andThen (l : Local directory root reads writes change) (l' : Local directory root reads writes change') :
    Local directory root reads writes fun tree => (change tree).bind change' where
  elsewhere {tree after} hc x hx := by
    cases h : change tree
    case error => simp [h, Except.bind] at hc
    case ok    =>
      rw [h] at hc
      exact (l'.elsewhere hc x hx).trans (l.elsewhere h x hx)
  upheld {tree after} hc := by
    cases h : change tree
    case error => simp [h, Except.bind] at hc
    case ok    =>
      rw [h] at hc
      exact (l.upheld h).trans (l'.upheld hc)
  alike {tree tree'} f f' a := by
    have first := l.alike f f' a
    cases h : change tree <;> cases h' : change tree' <;> simp only [h, h', Except.map, reduceCtorEq] at first
    case error => exact congrArg Except.error (Except.error.inj first)
    case ok    =>
      have written := a.of_written (l.elsewhere h) (l.elsewhere h') (Except.ok.inj first)
      exact l'.alike (f.of_upheld (l.upheld h)) (f'.of_upheld (l.upheld h')) written

end Local
end TikzPress.FileTree
