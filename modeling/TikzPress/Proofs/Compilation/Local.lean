import TikzPress.Proofs.FileTree.Local
import TikzPress.Proofs.Compilation.Publication

/-!
Steps to which only some files matter of all that are in the cache directory. Such steps can be put together, and
calls of programs that are contained in this way are such steps. Main statement: where two such steps have no files
in common, it does not matter which of them goes first (`Step.Local.outcome_outcome`, `Step.Local.commute`).
-/

namespace TikzPress

-- What can be told of a program from its ending, its messages and the files at some places.
def Effect.seen (x : Effect) (places : List Location) : List (Option Entry) × Bytes × Ending :=
  (x.tree.entriesAt places, x.messages, x.ending)

namespace Compilation

namespace Job

section Definitions

variable (host : Host) (job : Job)

def endings : List String :=
  [".tmp.tex", ".tmp.pdf", ".tmp.svg", ".tmp.log", ".pdf", ".svg"]

-- The place of the cache directory.
def folder : Location :=
  host.directory.ofPath (job.directory host)

def places (endings : List String) : List Location :=
  endings.map (job.place host)

def files : List Location :=
  job.places host endings

-- The path that the names of files complete.
def root : Text :=
  Path.join (job.directory host) []

end Definitions

variable {host : Host} {job job' : Job} {e : String} {x : Location} {tree : FileTree}

theorem ending_of_mem (h : e ∈ endings) : Path.Ending e.toList := by
  revert e
  decide

theorem ending_append (hn : '/' ∉ job.baseName) (h : Path.Ending e.toList) :
    Path.Ending (job.baseName ++ e.toList) where
  no_slash := by simp [hn, h.no_slash]
  long     := by rw [List.length_append]; exact Nat.lt_add_left _ h.long

theorem path_eq_root (hn : '/' ∉ job.baseName) (h : Path.Ending e.toList) :
    job.path host e = job.root host ++ (job.baseName ++ e.toList) :=
  show Path.join _ ([] ++ _) = Path.join _ [] ++ _ from Path.join_append (ending_append hn h)

theorem isAbsolute_directory : Path.isAbsolute (job.directory host) :=
  (Path.names_absolute (by rfl) _).right

theorem directory_ne_nil : job.directory host ≠ [] := by
  intro h
  have rooted : Path.isAbsolute (job.directory host) := isAbsolute_directory
  rw [h] at rooted
  contradiction

theorem folder_eq : job.folder host = host.directory.folder (job.root host) :=
  (FileTree.folder_join_nil directory_ne_nil).symm

theorem place_eq (hn : '/' ∉ job.baseName) (h : Path.Ending e.toList) :
    job.place host e = host.directory.folder (job.root host) ++
      [Path.lastName (job.root host) ++ (job.baseName ++ e.toList)] := by
  rw [place, path_eq_root hn h, Location.ofPath_append (ending_append hn h)]

theorem hasFolder_iff :
    tree.HasFolder host.directory (job.root host) ↔
      tree.lookUp host.directory (job.directory host) = .ok .directory :=
  FileTree.hasFolder_join_nil_iff directory_ne_nil

theorem locate_directory (f : tree.HasFolder host.directory (job.root host)) :
    tree.locate host.directory (job.directory host) = .ok (job.folder host) := by
  obtain ⟨place, leads, -⟩ := FileTree.lookUp_eq_ok_iff.mp (hasFolder_iff.mp f)
  rw [leads, FileTree.ofPath_of_locate leads]
  rfl

theorem below_of_mem_files (hn : '/' ∉ job.baseName) (h : x ∈ job.files host) :
    host.directory.folder (job.root host) <+: x := by
  obtain ⟨e, he, rfl⟩ := List.mem_map.mp h
  rw [place_eq hn (ending_of_mem he)]
  exact List.prefix_append ..

theorem ofPath_mem_places {es : List String} (hn : '/' ∉ job.baseName) (h : Path.Ending e.toList)
    (hm : e ∈ es) :
    host.directory.ofPath (job.root host ++ (job.baseName ++ e.toList)) ∈ job.places host es :=
  path_eq_root hn h ▸ List.mem_map_of_mem hm

variable {e' : String} {reads writes : List String}

theorem local_write (hn : '/' ∉ job.baseName) (h : Path.Ending e.toList) (hw : e ∈ writes) (content : Bytes) :
    FileTree.Local host.directory (job.root host) (job.places host reads) (job.places host writes) fun tree =>
      tree.write host.directory (job.path host e) content := by
  rw [path_eq_root hn h]
  exact .write (ending_append hn h) (ofPath_mem_places hn h hw) content

theorem local_copy (hn : '/' ∉ job.baseName) (h : Path.Ending e.toList) (h' : Path.Ending e'.toList)
    (hr : e ∈ reads) (hw : e' ∈ writes) :
    FileTree.Local host.directory (job.root host) (job.places host reads) (job.places host writes) fun tree =>
      tree.copy host.directory (job.path host e) (job.path host e') := by
  rw [path_eq_root hn h, path_eq_root hn h']
  exact .copy (ending_append hn h) (ending_append hn h') (ofPath_mem_places hn h hr) (ofPath_mem_places hn h' hw)

end Job

-- A step to which only the own ones matter of all files in a folder, and that changes no others.
structure Step.Local (directory : Location) (root : Text) (own : List Location) (x : Step Unit) : Prop where
  keeps  : ∀ place ∉ own, x.Keeps place
  upheld : ∀ w : World, w.tree.Upheld (x.outcome w).2.tree
  alike  : ∀ {w w' : World}, w.tree.HasFolder directory root → w'.tree.HasFolder directory root →
    FileTree.Agree (directory.folder root) own w.tree w'.tree → (x.outcome w).1 = (x.outcome w').1 ∧
      FileTree.Agree (directory.folder root) own (x.outcome w).2.tree (x.outcome w').2.tree

namespace Step.Local

section Building

variable {directory : Location} {root : Text} {own : List Location} {x : Step Unit} {f : Unit → Step Unit}

theorem pure : Step.Local directory root own (Pure.pure ()) where
  keeps _ _   := .pure ()
  upheld _    := fun _ h => h
  alike _ _ a := ⟨rfl, a⟩

theorem bind (l : Step.Local directory root own x) (l' : Step.Local directory root own (f ())) :
    Step.Local directory root own (x >>= f) where
  keeps place h := (l.keeps place h).bind (l'.keeps place h)
  upheld w := by
    have first := l.upheld w
    match h : x.outcome w with
    | (.ok (), u)   =>
      rw [h] at first
      rw [outcome_bind_of_ok h]
      exact first.trans (l'.upheld u)
    | (.error _, _) =>
      rw [outcome_bind_of_error h]
      rwa [h] at first
  alike {w w'} f f' a := by
    have ⟨same, agree⟩ := l.alike f f' a
    have upheld := l.upheld w
    have upheld' := l.upheld w'
    match h : x.outcome w, h' : x.outcome w' with
    | (.ok (), u), (.ok (), u') =>
      rw [h] at upheld agree
      rw [h'] at upheld' agree
      rw [outcome_bind_of_ok h, outcome_bind_of_ok h']
      exact l'.alike (f.of_upheld upheld) (f'.of_upheld upheld') agree
    | (.error _, _), (.error _, _) =>
      rw [h, h'] at same agree
      rw [outcome_bind_of_error h, outcome_bind_of_error h']
      exact ⟨congrArg Except.error (Except.error.inj same), agree⟩
    | (.ok (), _), (.error _, _) => simp [h, h'] at same
    | (.error _, _), (.ok (), _) => simp [h, h'] at same

theorem forM {α : Type} {xs : List α} {g : α → Step Unit}
    (h : ∀ x ∈ xs, Step.Local directory root own (g x)) :
    Step.Local directory root own (ForM.forM xs g) := by
  induction xs
  case nil => exact .pure
  case cons x xs hi => exact .bind (h x (.head _)) (hi fun x hx => h x (.tail _ hx))

variable {reads writes : List Location} {change : FileTree → Except FileError FileTree} {step : FileStep}

theorem changing (l : FileTree.Local directory root reads writes change) (hs : reads ++ writes ⊆ own) :
    Step.Local directory root own (Compilation.changing step change) where
  keeps place h w := by
    rw [outcome_changing]
    split
    case h_1 hc => exact l.elsewhere hc place fun hw => h (hs (List.mem_append_right _ hw))
    case h_2    => rfl
  upheld w := by
    rw [outcome_changing]
    split
    case h_1 hc => exact l.upheld hc
    case h_2    => exact fun _ h => h
  alike {w w'} f f' a := by
    have same := l.alike f f' (a.mono hs)
    rw [outcome_changing, outcome_changing]
    cases h : change w.tree <;> cases h' : change w'.tree <;> simp only [h, h', Except.map, reduceCtorEq] at same
    case error =>
      cases same
      exact ⟨rfl, a⟩
    case ok =>
      exact ⟨rfl, a.of_written (l.elsewhere h) (l.elsewhere h') (Except.ok.inj same)⟩

variable {host : Host} {program log e : Text}

theorem requiring (h : Path.Ending e) (hm : host.directory.ofPath (root ++ e) ∈ own) :
    Step.Local host.directory root own (Compilation.requiring host program (root ++ e) log) where
  keeps _ _ := .requiring
  upheld w  := by
    rw [outcome_requiring]
    exact fun _ h => h
  alike f f' a := by
    rw [outcome_requiring, outcome_requiring, f.lookUp_append h, f'.lookUp_append h, a _ fun _ => hm]
    exact ⟨rfl, a⟩

end Building

section Commuting

variable {directory : Location} {root : Text} {own own' : List Location} {x y : Step Unit} {w : World}
variable (l : Step.Local directory root own x) (below : ∀ place ∈ own, directory.folder root <+: place)
variable (disjoint : ∀ place ∈ own, place ∉ own')
include l below disjoint

-- Who has other files in the folder sees nothing of a step.
theorem agree_outcome (w : World) :
    FileTree.Agree (directory.folder root) own' w.tree (x.outcome w).2.tree := by
  intro place h
  exact l.keeps place (fun hm => disjoint place hm (h (below place hm))) w

theorem outcome_outcome (l' : Step.Local directory root own' y) (f : w.tree.HasFolder directory root) :
    (y.outcome (x.outcome w).2).1 = (y.outcome w).1 ∧ ∀ place ∈ own',
      (y.outcome (x.outcome w).2).2.tree.get? place = (y.outcome w).2.tree.get? place := by
  have ⟨same, agree⟩ := l'.alike f (f.of_upheld (l.upheld w)) (l.agree_outcome below disjoint w)
  exact ⟨same.symm, fun place hm => agree place fun _ => hm⟩

theorem commute (l' : Step.Local directory root own' y)
    (below' : ∀ place ∈ own', directory.folder root <+: place)
    (f : w.tree.HasFolder directory root) (place : Location) :
    (y.outcome (x.outcome w).2).2.tree.get? place = (x.outcome (y.outcome w).2).2.tree.get? place := by
  have disjoint' : ∀ place ∈ own', place ∉ own := fun place hm hm' => disjoint place hm' hm
  by_cases hm : place ∈ own
  case pos =>
    rw [l'.keeps place (disjoint place hm), (l'.outcome_outcome below' disjoint' l f).right place hm]
  case neg =>
    rw [l.keeps place hm]
    by_cases hm' : place ∈ own'
    case pos => exact (l.outcome_outcome below disjoint l' f).right place hm'
    case neg => rw [l'.keeps place hm', l.keeps place hm, l'.keeps place hm']

end Commuting
end Step.Local

section Programs

-- A program to which only some files of a job matter, of all that is in the cache directory, and that writes
-- to some of them only. This holds of its start too, so that it is not in the cache directory itself.
structure Contained (host : Host) (job : Job) (c : Call) (reads writes : List String) : Prop where
  elsewhere : host.programs c (job.folder host) tree = .ok effect →
    ∀ x ∉ job.places host writes, effect.tree.get? x = tree.get? x
  upheld    : host.programs c (job.folder host) tree = .ok effect → tree.Upheld effect.tree
  alike     : tree.lookUp host.directory (job.directory host) = .ok .directory →
    tree'.lookUp host.directory (job.directory host) = .ok .directory →
    FileTree.Agree (job.folder host) (job.places host (reads ++ writes)) tree tree' →
    (host.programs c (job.folder host) tree).map (·.seen (job.places host writes)) =
      (host.programs c (job.folder host) tree').map (·.seen (job.places host writes))

variable {host : Host} {job : Job} {c : Call} {log : Text} {reads writes : List String} {w : World}

-- A call leaves the files as they are, or as the program has left them that was called on them.
theorem tree_calling (host : Host) (job : Job) (c : Call) (log : Text) (w : World) :
    ((calling host (job.directory host) log c).outcome w).2.tree = w.tree ∨
      ∃ effect, host.programs c (job.folder host) w.tree = .ok effect ∧
        ((calling host (job.directory host) log c).outcome w).2.tree = effect.tree := by
  rcases exists_execution_or host (job.directory host) log c w with ⟨x, hx⟩ | ⟨_, he⟩
  case inr => exact .inl (by rw [he])
  case inl =>
    have there : x.place = job.folder host := FileTree.ofPath_of_locate hx.located
    exact .inr ⟨x.effect, there ▸ hx.ran, by rw [outcome_calling hx]⟩

theorem Contained.local_calling (t : Contained host job c reads writes) (h : reads ++ writes ⊆ Job.endings) :
    Step.Local host.directory (job.root host) (job.files host)
      (calling host (job.directory host) log c) where
  keeps place hm w := by
    rcases tree_calling host job c log w with h' | ⟨effect, ran, h'⟩
    case inl => rw [h']
    case inr =>
      rw [h']
      refine t.elsewhere ran place fun hw => hm ?_
      exact List.map_subset _ (fun _ he => h (List.mem_append_right _ he)) hw
  upheld w := by
    rcases tree_calling host job c log w with h' | ⟨effect, ran, h'⟩
    case inl => exact h' ▸ fun _ h => h
    case inr => exact h' ▸ t.upheld ran
  alike {w w'} f f' a := by
    have own : job.places host (reads ++ writes) ⊆ job.files host := List.map_subset _ h
    have same := t.alike (Job.hasFolder_iff.mp f) (Job.hasFolder_iff.mp f') (Job.folder_eq ▸ a.mono own)
    have started {v : World} (g : v.tree.HasFolder host.directory (job.root host)) :
        ((v.tree.locate host.directory (job.directory host)).bind fun place => host.programs c place v.tree) =
          host.programs c (job.folder host) v.tree := by
      rw [Job.locate_directory g]
      rfl
    cases h : host.programs c (job.folder host) w.tree <;> cases h' : host.programs c (job.folder host) w'.tree <;>
      simp only [h, h', Except.map, reduceCtorEq] at same
    case error =>
      cases same
      rw [outcome_calling_of_error ((started f).trans h), outcome_calling_of_error ((started f').trans h')]
      exact ⟨rfl, a⟩
    case ok effect effect' =>
      have x : Execution.Of ⟨c, _, _, effect⟩ host (job.directory host) c w.tree :=
        ⟨rfl, rfl, Job.locate_directory f, h⟩
      have x' : Execution.Of ⟨c, _, _, effect'⟩ host (job.directory host) c w'.tree :=
        ⟨rfl, rfl, Job.locate_directory f', h'⟩
      simp only [Effect.seen, Except.ok.injEq, Prod.mk.injEq] at same
      have ⟨entries, messages, ending⟩ := same
      rw [outcome_calling x, outcome_calling x']
      refine ⟨?_, a.of_written (t.elsewhere h) (t.elsewhere h') entries⟩
      simp only [Execution.result, messages, ending]

-- A program that makes a change to files or fails.
def effectOf (change : FileTree → Except FileError FileTree) (tree : FileTree) : Effect :=
  match change tree with
  | .ok after => ⟨after, [], .exited 0⟩
  | .error _  => ⟨tree, [], .exited 1⟩

theorem contained_of_local (change : FileTree → Except FileError FileTree)
    (runs : ∀ tree, host.programs c (job.folder host) tree = .ok (effectOf change tree))
    (l : FileTree.Local host.directory (job.root host) (job.places host reads) (job.places host writes) change) :
    Contained host job c reads writes where
  elsewhere {tree effect} ran := by
    cases (runs tree).symm.trans ran
    unfold effectOf
    split
    case h_1 h => exact l.elsewhere h
    case h_2   => exact fun _ _ => rfl
  upheld {tree effect} ran := by
    cases (runs tree).symm.trans ran
    unfold effectOf
    split
    case h_1 h => exact l.upheld h
    case h_2   => exact fun _ h => h
  alike {tree tree'} f f' a := by
    rw [Job.folder_eq, Job.places, List.map_append] at a
    have same := l.alike (Job.hasFolder_iff.mpr f) (Job.hasFolder_iff.mpr f') a
    have untouched : tree.entriesAt (job.places host writes) = tree'.entriesAt (job.places host writes) :=
      FileTree.entriesAt_eq_iff.mpr fun x hx => (a x fun _ => List.mem_append_right _ hx).symm
    rw [runs, runs]
    refine congrArg Except.ok ?_
    unfold effectOf
    cases h : change tree <;> cases h' : change tree' <;> simp only [h, h', Except.map, reduceCtorEq] at same
    case error => simp only [Effect.seen, untouched]
    case ok    => simp only [Effect.seen, Except.ok.inj same]

end Programs

end Compilation
end TikzPress
