import Mathlib.Control.Monad.Basic
import TikzPress.Config

/-!
Overrides against what a configuration file says. Two files that differ only where there is an override lead to
the same settings or to the same failure, with one exception: the references in a cache directory are replaced
even if another one is to be used. Main statement: when two such files lead to the same (`load_eq_iff`).
-/

namespace TikzPress

def Entry.isFile : Entry → Bool
  | file _    => true
  | directory => false

namespace FileTree

-- The same files and directories, whatever stands in the files.
def Alike (tree tree' : FileTree) : Prop :=
  ∀ place, (tree.get? place).map Entry.isFile = (tree'.get? place).map Entry.isFile

variable {tree tree' : FileTree}

theorem alike_set_file {place : Location} (h : place ≠ []) (tree : FileTree) (content content' : Bytes) :
    (tree.set place (.file content)).Alike (tree.set place (.file content')) := by
  intro other
  rw [get?_set _ _ _ _ h, get?_set _ _ _ _ h]
  split
  case isTrue  => rfl
  case isFalse => rfl

namespace Alike

theorem get?_cases (a : tree.Alike tree') (place : Location) :
    (tree.get? place = none ∧ tree'.get? place = none) ∨
    (tree.get? place = some .directory ∧ tree'.get? place = some .directory) ∨
    ∃ c c', tree.get? place = some (.file c) ∧ tree'.get? place = some (.file c') := by
  have h := a place
  revert h
  cases tree.get? place <;> cases tree'.get? place <;> intro h
  case none.none => exact .inl ⟨rfl, rfl⟩
  case some.some e e' =>
    cases e <;> cases e'
    case directory.directory => exact .inr (.inl ⟨rfl, rfl⟩)
    case file.file c c'      => exact .inr (.inr ⟨c, c', rfl, rfl⟩)
    all_goals exact nomatch Option.some.inj h
  all_goals contradiction

theorem walk_eq (a : tree.Alike tree') (place : Location) (parts : List Text) :
    tree.walk place parts = tree'.walk place parts := by
  induction parts generalizing place
  case nil => rfl
  case cons part parts hi =>
    unfold walk
    simp only [hi]
    obtain ⟨h, h'⟩ | ⟨h, h'⟩ | ⟨_, _, h, h'⟩ := a.get?_cases place <;> rw [h, h']

theorem locate_eq (a : tree.Alike tree') (directory : Location) (path : Text) :
    tree.locate directory path = tree'.locate directory path := by
  unfold locate
  rw [a.walk_eq]

theorem hasEntry_eq (a : tree.Alike tree') (directory : Location) (path : Text) :
    tree.hasEntry directory path = tree'.hasEntry directory path := by
  unfold hasEntry lookUp
  rw [a.locate_eq]
  cases tree'.locate directory path
  case error => rfl
  case ok place =>
    obtain ⟨h, h'⟩ | ⟨h, h'⟩ | ⟨_, _, h, h'⟩ := a.get?_cases place <;>
      simp [bind, Except.bind, h, h', Except.isOk, Except.toBool]

theorem source?_eq (a : tree.Alike tree') (directory : Location) (path? : Option Text) :
    Config.source? tree directory path? = Config.source? tree' directory path? := by
  have h : tree.hasEntry directory = tree'.hasEntry directory := funext (a.hasEntry_eq directory)
  unfold Config.source? Config.discover?
  rw [h]

end Alike
end FileTree

namespace Config

-- Two sections that differ only in what is overridden. A program that is chosen anew overrides the path of the
-- former one as well.
structure Section.AgreesUpTo (s : Section) (o : Overrides) (s' : Section) : Prop where
  engine         : o.engine? = none → s.engine? = s'.engine?
  enginePath     : o.engine? = none → o.enginePath? = none → s.enginePath? = s'.enginePath?
  svgTool        : o.svgTool? = none → s.svgTool? = s'.svgTool?
  svgToolPath    : o.svgTool? = none → o.svgToolPath? = none → s.svgToolPath? = s'.svgToolPath?
  preamble       : s.preamble? = s'.preamble?
  cacheDirectory : o.cacheDirectory? = none → s.cacheDirectory? = s'.cacheDirectory?
  timeoutMs      : o.timeoutMs? = none → s.timeoutMs? = s'.timeoutMs?

namespace Section

variable {s s' : Section} {o : Overrides} {env : Variables}

theorem or_eq_or {α : Type} {a b c : Option α} (h : a = none → b = c) : a.or b = a.or c := by
  cases a
  case none   => exact h rfl
  case some _ => rfl

-- The path of a program counts only if neither the path nor the program is overridden.
theorem path_eq_path {α : Type} {program : Option α} {p q q' : Option Text}
    (h : program = none → p = none → q = q') :
    p.or (if program.isSome then none else q) = p.or (if program.isSome then none else q') := by
  cases program
  case none   => exact or_eq_or (h rfl)
  case some _ => rfl

-- What is left of a difference after the overrides.
theorem AgreesUpTo.override_eq (a : s.AgreesUpTo o s') :
    s'.override o = { s.override o with cacheDirectory? := s'.cacheDirectory? } := by
  unfold override
  rw [or_eq_or a.engine, or_eq_or a.svgTool, or_eq_or a.timeoutMs, path_eq_path a.enginePath,
    path_eq_path a.svgToolPath, a.preamble]

theorem expandPaths_cacheDirectory (env : Variables) (s : Section) (path? : Option Text) :
    ({ s with cacheDirectory? := path? } : Section).expandPaths env =
      (s.expandPaths env).map ({ · with cacheDirectory? := path? }) := by
  unfold expandPaths
  cases s.enginePath?.mapM (expandField env "render.engine_path".toList)
  case error => rfl
  case ok =>
    cases s.svgToolPath?.mapM (expandField env "render.svg_tool_path".toList)
    case error => rfl
    case ok    => rfl

theorem expandPaths_keeps {t : Section} (h : s.expandPaths env = .ok t) :
    t.cacheDirectory? = s.cacheDirectory? := by
  have same := expandPaths_cacheDirectory env s s.cacheDirectory?
  rw [h] at same
  have kept : t = { t with cacheDirectory? := s.cacheDirectory? } := Except.ok.inj same
  rw [kept]

theorem AgreesUpTo.expandPaths_eq (a : s.AgreesUpTo o s') (env : Variables) :
    (s'.override o).expandPaths env =
      ((s.override o).expandPaths env).map ({ · with cacheDirectory? := s'.cacheDirectory? }) := by
  rw [a.override_eq]
  exact expandPaths_cacheDirectory env (s.override o) s'.cacheDirectory?

-- The variable that is not set and keeps the cache directory from being known.
def unset? (env : Variables) (s : Section) : Option Text :=
  s.cacheDirectory?.bind fun path =>
    match Expansion.expand env path with
    | .error name => some name
    | .ok _       => none

theorem cacheDirectory_eq (env : Variables) (directory : Text) (s : Section) :
    (∃ name, s.unset? env = some name ∧
      s.cacheDirectory env directory = .error (.unset "render.cache_dir".toList name)) ∨
    (s.unset? env = none ∧ ∃ path, s.cacheDirectory env directory = .ok path) := by
  unfold unset? cacheDirectory
  cases s.cacheDirectory?
  case none => exact .inr ⟨rfl, _, rfl⟩
  case some path =>
    unfold expandField
    cases h : Expansion.expand env path
    case error name => exact .inl ⟨name, by simp [h], by simp [h]; rfl⟩
    case ok         => exact .inr ⟨by simp [h], _, by simp [h]; rfl⟩

end Section

-- The settings of a section are checked when the cache directory is known.
def Section.check (path cacheDirectory : Text) (s : Section) : Except Failure Config :=
  match (s.settings cacheDirectory).invalid? with
  | some setting => .error (.invalid setting)
  | none         => .ok ⟨s.settings cacheDirectory, some path⟩

-- What comes of the section of a file, with the paths of its programs replaced.
def Section.load (env : Variables) (path : Text) (o : Overrides) (s : Section) : Except Failure Config := do
  let cacheDirectory ← s.cacheDirectory env ((Path.parent? path).getD ['.'])
  s.check path (o.cacheDirectory?.getD cacheDirectory)

variable {env : Variables} {tree tree' : FileTree} {directory : Location} {path d : Text}
  {path? : Option Text} {o : Overrides} {s s' : Section}

theorem load_eq_of_read (found : source? tree directory path? = .ok (some path))
    (read : readSection tree directory path = .ok s) :
    load env tree directory path? o = ((s.override o).expandPaths env >>= Section.load env path o) := by
  unfold load
  rw [found]
  simp only [bind, Except.bind, read]
  rfl

theorem Section.check_ne_unset (s : Section) (path d field name : Text) :
    s.check path d ≠ .error (.unset field name) := by
  unfold check
  split
  case h_1 => nofun
  case h_2 => nofun

-- An override of the cache directory takes effect after its references are replaced.
theorem Section.load_of_cacheDirectory (hd : o.cacheDirectory? = some d) :
    s.load env path o = ((s.unset? env).elim (s.check path d) fun name =>
      .error (.unset "render.cache_dir".toList name)) := by
  unfold Section.load
  obtain ⟨name, hu, h⟩ | ⟨hu, _, h⟩ := s.cacheDirectory_eq env ((Path.parent? path).getD ['.']) <;>
    rw [h, hu, hd] <;> rfl

theorem Section.load_eq_load_iff (hd : o.cacheDirectory? = some d)
    (hs : s.check path d = s'.check path d) :
    s.load env path o = s'.load env path o ↔ s.unset? env = s'.unset? env := by
  rw [load_of_cacheDirectory hd, load_of_cacheDirectory hd, hs]
  cases s.unset? env <;> cases s'.unset? env
  case none.none => exact iff_of_true rfl rfl
  case some.some => simp
  case none.some => exact iff_of_false (s'.check_ne_unset path d _ _) nofun
  case some.none => exact iff_of_false (s'.check_ne_unset path d _ _).symm nofun

-- Two files that differ only in what is overridden lead to the same settings or to the same failure, unless
-- the cache directory of one refers to a variable that is not set, and that of the other to none such or to
-- another one. If the path of a program cannot be known, that is what both lead to.
theorem load_eq_iff (alike : tree.Alike tree') (found : source? tree directory path? = .ok (some path))
    (read : readSection tree directory path = .ok s) (read' : readSection tree' directory path = .ok s')
    (agrees : s.AgreesUpTo o s') :
    load env tree directory path? o = load env tree' directory path? o ↔
      (∃ e, (s.override o).expandPaths env = .error e) ∨ s.unset? env = s'.unset? env := by
  rw [load_eq_of_read found read, load_eq_of_read (alike.source?_eq directory path? ▸ found) read',
    agrees.expandPaths_eq]
  cases h : (s.override o).expandPaths env
  case error e => exact iff_of_true rfl (.inl ⟨e, rfl⟩)
  case ok t =>
    have kept : t.cacheDirectory? = s.cacheDirectory? := (Section.expandPaths_keeps h).trans rfl
    have unset : t.unset? env = s.unset? env := by rw [Section.unset?, kept, ← Section.unset?]
    change t.load env path o = Section.load env path o { t with cacheDirectory? := s'.cacheDirectory? } ↔ _
    simp only [reduceCtorEq, exists_false, false_or]
    cases hd : o.cacheDirectory?
    case none =>
      have same := agrees.cacheDirectory hd
      refine iff_of_true ?_ (by rw [Section.unset?, same, ← Section.unset?])
      rw [← same, ← kept]
    case some d =>
      exact unset ▸ Section.load_eq_load_iff hd rfl

def sampleOverrides : Overrides :=
  { cacheDirectory? := some "out".toList }

-- A tree with a configuration file.
def sampleTree (content : String) : FileTree :=
  .set .empty ["tikzmd.toml".toList] (.file (Text.encode content.toList))

def sampleSection (path? : Option String) : Section :=
  { cacheDirectory? := path?.map String.toList }

theorem agreesUpTo_sampleSection (path? path?' : Option String) :
    (sampleSection path?).AgreesUpTo sampleOverrides (sampleSection path?') where
  engine _         := rfl
  enginePath _ _   := rfl
  svgTool _        := rfl
  svgToolPath _ _  := rfl
  preamble         := rfl
  cacheDirectory   := nofun
  timeoutMs _      := rfl

theorem alike_sampleTree (content content' : String) : (sampleTree content).Alike (sampleTree content') :=
  FileTree.alike_set_file (List.cons_ne_nil _ _) _ _ _

theorem load_eq_of_overridden :
    load [] (sampleTree "[render]\ncache_dir = \"cache\"\n") [] none sampleOverrides =
      load [] (sampleTree "[render]\n") [] none sampleOverrides := by
  have found : source? (sampleTree "[render]\ncache_dir = \"cache\"\n") [] none =
      .ok (some "/tikzmd.toml".toList) := by decide +kernel
  have read : readSection (sampleTree "[render]\ncache_dir = \"cache\"\n") [] "/tikzmd.toml".toList =
      .ok (sampleSection "cache") := by decide +kernel
  have read' : readSection (sampleTree "[render]\n") [] "/tikzmd.toml".toList =
      .ok (sampleSection none) := by decide +kernel
  exact (load_eq_iff (alike_sampleTree _ _) found read read' (agreesUpTo_sampleSection ..)).mpr
    (.inr (by decide +kernel))

-- A reference in a cache directory that is not used keeps the settings from being loaded.
theorem load_ne_of_unset :
    ∃ tree tree' s s', tree.Alike tree' ∧
      source? tree [] none = .ok (some "/tikzmd.toml".toList) ∧
      readSection tree [] "/tikzmd.toml".toList = .ok s ∧
      readSection tree' [] "/tikzmd.toml".toList = .ok s' ∧
      s.AgreesUpTo sampleOverrides s' ∧
      load [] tree [] none sampleOverrides =
        .error (.unset "render.cache_dir".toList "TIKZ_CACHE".toList) ∧
      load [] tree' [] none sampleOverrides =
        .ok ⟨.withCacheDirectory "out".toList, some "/tikzmd.toml".toList⟩ := by
  refine ⟨sampleTree "[render]\ncache_dir = \"$\x7bTIKZ_CACHE\x7d\"\n", sampleTree "[render]\n",
    sampleSection "$\x7bTIKZ_CACHE\x7d", sampleSection none, alike_sampleTree _ _, ?_, ?_, ?_,
    agreesUpTo_sampleSection .., ?_, ?_⟩
  all_goals decide +kernel

end Config
end TikzPress
