import Mathlib.Data.List.Basic
import Mathlib.Data.List.Induction
import Mathlib.Data.List.Infix
import TikzPress.Config
import TikzPress.Proofs.FileTree

/-!
Looking for a configuration file. The search goes from the working directory up to the root and takes the first
file that it meets. Main statement: to have the file found and to name it lead to the same, and where there is
none no file matters (`discovered`).
-/

namespace TikzPress

namespace Location

variable {place : Location} {name : Text}

theorem Proper.of_prefix {other : Location} (h : place.Proper) (hp : other <+: place) : other.Proper :=
  fun name hm => h name (hp.subset hm)

theorem joinWith_concat (hn : place ≠ []) (name : Text) :
    Text.joinWith ['/'] (place ++ [name]) = Text.joinWith ['/'] place ++ '/' :: name := by
  induction place
  case nil => contradiction
  case cons first place hi =>
    cases place
    case nil  => simp [Text.joinWith]
    case cons =>
      rw [List.cons_append, Text.joinWith_cons (by simp), hi (List.cons_ne_nil _ _),
        Text.joinWith_cons (List.cons_ne_nil _ _)]
      simp

-- The path of a place does not end with a slash, unless the place is the root.
theorem join_path (proper : place.Proper) (h : Path.isAbsolute name = false) :
    Path.join place.path name = (place ++ [name]).path := by
  simp only [Path.join, h, Bool.false_eq_true, if_false]
  obtain rfl | ⟨above, last, rfl⟩ := List.eq_nil_or_concat' place
  case inl => rfl
  case inr =>
    obtain ⟨unslashed, audible, -⟩ := proper last (by simp)
    obtain ⟨front, c, rfl⟩ := (List.eq_nil_or_concat' last).resolve_left fun hn => audible (.inl hn)
    have hc : c ≠ '/' := fun hc => unslashed (by simp [hc])
    have ends : (path (above ++ [front ++ [c]])).getLast? = some c := by
      by_cases hn : above = []
      case pos => rw [hn, path, List.nil_append, Text.joinWith, ← List.cons_append, List.getLast?_concat]
      case neg =>
        rw [path, joinWith_concat hn, ← List.cons_append, ← List.cons_append, ← List.append_assoc,
          List.getLast?_concat]
    have named : path (above ++ [front ++ [c]] ++ [name]) = path (above ++ [front ++ [c]]) ++ '/' :: name := by
      rw [path, joinWith_concat (List.concat_ne_nil _ _)]
      rfl
    rw [ends, named]
    split
    case h_1 hl => cases hl
    case h_2 hl => cases hl; contradiction
    case h_3    => rfl

theorem withAncestors_concat (place : Location) (name : Text) :
    (place ++ [name]).withAncestors = (place ++ [name]) :: place.withAncestors := by
  have shorter : ∀ n ∈ (List.range (place.length + 1)).reverse, (place ++ [name]).take n = place.take n := by
    intro n hn
    have : n ≤ place.length := by simpa [Nat.lt_succ_iff] using hn
    exact List.take_append_of_le_length this
  have whole : (place ++ [name]).take (place.length + 1) = place ++ [name] := List.take_of_length_le (by simp)
  rw [withAncestors, List.length_append, List.length_singleton, List.range_succ, List.reverse_concat,
    List.map_cons, whole, List.map_congr_left shorter, withAncestors]

section Nearest

variable {p : Location → Bool} {x : Location}

theorem here_eq_iff (h : p place) :
    place = x ↔ x <+: place ∧ p x ∧ ∀ y, y <+: place → x.length < y.length → ¬p y := by
  constructor
  case mp =>
    rintro rfl
    exact ⟨List.prefix_rfl, h, fun y hy hl => absurd hy.length_le (Nat.not_le_of_lt hl)⟩
  case mpr =>
    rintro ⟨hx, _, first⟩
    by_contra hn
    have shorter : x.length < place.length :=
      Nat.lt_of_le_of_ne hx.length_le fun hl => hn (hx.eq_of_length hl).symm
    exact first place List.prefix_rfl shorter h

-- The nearest place, of one and those above it, at which something holds.
theorem find?_withAncestors_eq_some_iff :
    place.withAncestors.find? p = some x ↔
      x <+: place ∧ p x ∧ ∀ y, y <+: place → x.length < y.length → ¬p y := by
  induction place using List.reverseRecOn
  case nil =>
    have root : withAncestors [] = [[]] := rfl
    rw [root]
    by_cases h : p []
    case pos => rw [List.find?_cons_of_pos h, Option.some.injEq, here_eq_iff h]
    case neg =>
      rw [List.find?_cons_of_neg h]
      refine iff_of_false nofun fun ⟨hx, hp, _⟩ => ?_
      exact h (List.prefix_nil.mp hx ▸ hp)
  case append_singleton place name hi =>
    rw [withAncestors_concat]
    by_cases h : p (place ++ [name])
    case pos => rw [List.find?_cons_of_pos h, Option.some.injEq, here_eq_iff h]
    case neg =>
      rw [List.find?_cons_of_neg h, hi]
      constructor
      case mp =>
        rintro ⟨hx, hp, first⟩
        refine ⟨hx.trans (List.prefix_append ..), hp, fun y hy hl => ?_⟩
        obtain rfl | hy := List.prefix_concat_iff.mp hy
        case inl => exact h
        case inr => exact first y hy hl
      case mpr =>
        rintro ⟨hx, hp, first⟩
        obtain rfl | hx := List.prefix_concat_iff.mp hx
        case inl => contradiction
        case inr => exact ⟨hx, hp, fun y hy => first y (hy.trans (List.prefix_append ..))⟩

end Nearest

end Location

namespace FileTree

variable {tree : FileTree} {directory place last : Location} {name : Text}

-- Names are followed through directories.
theorem walk_of_proper_iff {names : List Text} (proper : Location.Proper names) :
    tree.walk place names = .ok last ↔
      (∀ x, x <+: names → x ≠ names → tree.get? (place ++ x) = some .directory) ∧ last = place ++ names := by
  induction names generalizing place
  case nil =>
    simp only [walk, Except.ok.injEq, List.prefix_nil, List.append_nil, eq_comm (a := place)]
    exact ⟨fun h => ⟨fun x hx hn => absurd hx hn, h⟩, And.right⟩
  case cons name names hi =>
    obtain ⟨-, audible, down⟩ := proper name (.head _)
    have onward : place.next name = place ++ [name] := by rw [Location.next, if_neg audible, if_neg down]
    rw [walk_cons_eq_ok_iff, onward, hi fun _ hm => proper _ (.tail _ hm)]
    simp only [List.append_assoc, List.singleton_append, ← and_assoc]
    refine and_congr_left fun _ => ⟨?_, ?_⟩
    case refine_1 =>
      rintro ⟨here, below⟩ x hx hn
      cases x
      case nil       => simpa using here
      case cons y ys =>
        obtain ⟨rfl, hys⟩ := List.cons_prefix_cons.mp hx
        exact below ys hys fun he => hn (he ▸ rfl)
    case refine_2 =>
      intro all
      refine ⟨by simpa using all [] List.nil_prefix (List.cons_ne_nil _ _).symm, fun x hx hn => ?_⟩
      exact all (name :: x) (List.cons_prefix_cons.mpr ⟨rfl, hx⟩) fun he => hn (List.cons.inj he).right

-- The path of a place leads to it through the directories above it.
theorem locate_path_eq_ok_iff (proper : Location.Proper (place ++ [name])) :
    tree.locate directory (Location.path (place ++ [name])) = .ok last ↔
      (∀ x, x <+: place → tree.get? x = some .directory) ∧ last = place ++ [name] := by
  have pieces : Text.piecesAt '/' (Location.path (place ++ [name])) = [] :: (place ++ [name]) := by
    rw [Location.path, Text.piecesAt, if_pos rfl,
      Location.piecesAt_joinWith (fun _ hm => (proper _ hm).left) (List.concat_ne_nil _ _)]
  have root : tree.get? [] = some .directory := rfl
  have full : Location.path (place ++ [name]) ≠ [] := List.cons_ne_nil _ _
  rw [locate, if_neg full, pieces]
  change tree.walk [] _ = _ ↔ _
  rw [walk_cons_eq_ok_iff, and_iff_right root]
  change tree.walk [] _ = _ ↔ _
  rw [walk_of_proper_iff proper]
  refine and_congr_left fun _ => forall_congr' fun x => ?_
  rw [List.prefix_concat_iff]
  constructor
  case mp  => exact fun h hx => h (.inr hx) fun he => absurd hx.length_le (by simp [he])
  case mpr => exact fun h hx hn => h (hx.resolve_left hn)

theorem hasEntry_path_iff (proper : Location.Proper (place ++ [name])) :
    tree.hasEntry directory (Location.path (place ++ [name])) ↔
      (∀ x, x <+: place → tree.get? x = some .directory) ∧ (tree.get? (place ++ [name])).isSome := by
  unfold hasEntry lookUp
  cases hl : tree.locate directory (Location.path (place ++ [name]))
  case error =>
    refine iff_of_false nofun fun ⟨h, _⟩ => ?_
    exact nomatch hl.symm.trans ((locate_path_eq_ok_iff proper).mpr ⟨h, rfl⟩)
  case ok last =>
    obtain ⟨h, he⟩ := (locate_path_eq_ok_iff proper).mp hl
    rw [and_iff_right h, he]
    cases hg : tree.get? (place ++ [name]) <;> simp [bind, Except.bind, hg, Except.isOk, Except.toBool]

end FileTree

-- The directory for the data of a user: the one that is set, or else the usual one.
inductive Expansion.DataDirectory (env : Variables) : Text → Prop
  | own   : env.lookup "XDG_DATA_HOME".toList = some d → d ≠ [] → DataDirectory env d
  | usual : (∀ d ∈ env.lookup "XDG_DATA_HOME".toList, d = []) →
      DataDirectory env (expandTilde env "~/.local/share".toList)

theorem Expansion.dataDirectory_spec (env : Variables) : DataDirectory env (dataDirectory env) := by
  unfold dataDirectory
  split
  case h_1 h => exact .own h (List.cons_ne_nil _ _)
  case h_2 h =>
    refine .usual fun d hd => ?_
    cases d
    case nil  => rfl
    case cons => exact absurd hd (h _ _)

namespace Config

-- A configuration file stands in a directory that is there, or something else that has its name.
structure Holds (tree : FileTree) (place : Location) : Prop where
  there : ∀ x, x <+: place → tree.get? x = some .directory
  named : (tree.get? (place ++ [fileName])).isSome

-- The nearest such directory, of one and those above it.
structure Nearest (tree : FileTree) (directory place : Location) : Prop where
  above : place <+: directory
  holds : Holds tree place
  first : ∀ x, x <+: directory → place.length < x.length → ¬Holds tree x

-- What comes of looking for a configuration file.
structure Discovered (env : Variables) (tree : FileTree) (directory : Location) (o : Overrides) : Prop where
  named    : ∀ place, Nearest tree directory place →
    load env tree directory none o = load env tree directory (some (Location.path (place ++ [fileName]))) o
  path     : ∀ place, Nearest tree directory place → ∀ c, load env tree directory none o = .ok c →
    c.path? = some (Location.path (place ++ [fileName]))
  unread   : (∀ x, x <+: directory → ¬Holds tree x) →
    load env tree directory none o = load env .empty [] none o
  settings : (∀ x, x <+: directory → ¬Holds tree x) → ∀ c, load env tree directory none o = .ok c →
    c.path? = none ∧ ∃ d, Expansion.DataDirectory env d ∧
      c.settings.cacheDirectory = o.cacheDirectory?.getD (Path.join d "tikz-cache".toList)

variable {env : Variables} {tree : FileTree} {directory place : Location} {path? : Option Text}
  {path : Text} {o : Overrides} {c : Config}

theorem proper_concat (proper : place.Proper) : Location.Proper (place ++ [fileName]) := by
  have own : Location.Proper [fileName] := by
    unfold Location.Proper
    decide
  exact fun name hm => (List.mem_append.mp hm).elim (proper name) (own name)

theorem hasEntry_path_iff_holds (proper : place.Proper) :
    tree.hasEntry directory (Location.path (place ++ [fileName])) ↔ Holds tree place := by
  rw [FileTree.hasEntry_path_iff (proper_concat proper)]
  exact ⟨fun h => ⟨h.left, h.right⟩, fun h => ⟨h.there, h.named⟩⟩

theorem discover?_eq (proper : directory.Proper) :
    discover? tree directory =
      (directory.withAncestors.find? fun x => tree.hasEntry directory (Location.path (x ++ [fileName]))).map
        fun x => Location.path (x ++ [fileName]) := by
  have joined : candidates directory = directory.withAncestors.map fun x => Location.path (x ++ [fileName]) := by
    refine List.map_congr_left fun x hx => Location.join_path (proper.of_prefix ?_) rfl
    obtain ⟨n, -, rfl⟩ := List.mem_map.mp hx
    exact List.take_prefix n directory
  rw [discover?, joined, List.find?_map]
  rfl

theorem discover?_of_nearest (proper : directory.Proper) (n : Nearest tree directory place) :
    discover? tree directory = some (Location.path (place ++ [fileName])) := by
  have found := Location.find?_withAncestors_eq_some_iff
    (p := fun x => tree.hasEntry directory (Location.path (x ++ [fileName]))).mpr
    ⟨n.above, (hasEntry_path_iff_holds (proper.of_prefix n.above)).mpr n.holds, fun x hx hl =>
      mt (hasEntry_path_iff_holds (proper.of_prefix hx)).mp (n.first x hx hl)⟩
  rw [discover?_eq proper, found]
  rfl

theorem discover?_of_none (proper : directory.Proper) (h : ∀ x, x <+: directory → ¬Holds tree x) :
    discover? tree directory = none := by
  rw [discover?_eq proper, Option.map_eq_none_iff]
  refine Option.eq_none_iff_forall_ne_some.mpr fun x hx => ?_
  obtain ⟨above, entry, -⟩ := Location.find?_withAncestors_eq_some_iff.mp hx
  exact h x above ((hasEntry_path_iff_holds (proper.of_prefix above)).mp entry)

-- Of what is asked for only the file that is read counts.
theorem load_congr {tree' : FileTree} {directory' : Location} {path?' : Option Text}
    (h : source? tree directory path? = source? tree' directory' path?')
    (read : ∀ path, source? tree directory path? = .ok (some path) →
      readSection tree directory path = readSection tree' directory' path) :
    load env tree directory path? o = load env tree' directory' path?' o := by
  unfold load
  rw [← h]
  cases hs : source? tree directory path?
  case error => rfl
  case ok x =>
    cases x
    case none      => rfl
    case some path => simp only [bind, Except.bind, read path hs]

theorem bind_eq_ok_iff {ε α β : Type} {x : Except ε α} {f : α → Except ε β} {b : β} :
    (x >>= f) = .ok b ↔ ∃ a, x = .ok a ∧ f a = .ok b := by
  cases x <;> simp [bind, Except.bind]

-- Settings carry the path that was found. Without one the cache directory is that of the user.
theorem load_eq_ok (h : load env tree directory path? o = .ok c) :
    source? tree directory path? = .ok c.path? ∧
      (c.path? = none → c.settings.cacheDirectory = o.cacheDirectory?.getD (userCacheDirectory env)) := by
  obtain ⟨found, hf, h⟩ := bind_eq_ok_iff.mp h
  cases found
  case none =>
    obtain ⟨given, -, h⟩ := bind_eq_ok_iff.mp h
    obtain ⟨expanded, -, h⟩ := bind_eq_ok_iff.mp h
    obtain ⟨cache, hc, h⟩ := bind_eq_ok_iff.mp h
    cases hc
    dsimp only at h
    split at h
    case h_1 => contradiction
    case h_2 => cases h; exact ⟨hf, fun _ => rfl⟩
  case some path =>
    obtain ⟨given, -, h⟩ := bind_eq_ok_iff.mp h
    obtain ⟨expanded, -, h⟩ := bind_eq_ok_iff.mp h
    obtain ⟨cache, -, h⟩ := bind_eq_ok_iff.mp h
    dsimp only at h
    split at h
    case h_1 => contradiction
    case h_2 => cases h; exact ⟨hf, nofun⟩

-- To look for a configuration file leads to the same as to name the nearest one. Where there is none, no file
-- matters, and the cache directory is that of the user unless another one is given.
theorem discovered (proper : directory.Proper) (env : Variables) (tree : FileTree) (o : Overrides) :
    Discovered env tree directory o where
  named place n := by
    have entry : tree.hasEntry directory (Location.path (place ++ [fileName])) :=
      (hasEntry_path_iff_holds (proper.of_prefix n.above)).mpr n.holds
    have same : source? tree directory none =
        source? tree directory (some (Location.path (place ++ [fileName]))) := by
      rw [source?, source?, discover?_of_nearest proper n, if_pos entry]
    exact load_congr same fun _ _ => rfl
  path place n c hc := by
    have found := (load_eq_ok hc).left
    rw [source?, discover?_of_nearest proper n] at found
    exact (Except.ok.inj found).symm
  unread h := by
    have nothing : source? tree directory none = .ok none := by rw [source?, discover?_of_none proper h]; rfl
    have same : source? tree directory none = source? .empty [] none := nothing
    refine load_congr same fun path hp => ?_
    cases nothing.symm.trans hp
  settings h c hc := by
    obtain ⟨found, cache⟩ := load_eq_ok hc
    rw [source?, discover?_of_none proper h] at found
    have unnamed := (Except.ok.inj found).symm
    exact ⟨unnamed, _, Expansion.dataDirectory_spec env, cache unnamed⟩

-- A directory with the name of a configuration file, and above it a file that is not looked at.
def sampleFolders : FileTree where
  entries :=
    [(["a".toList], .directory), (["a".toList, "b".toList], .directory), (["a".toList, fileName], .directory),
      ([fileName], .file (Text.encode "[render]\n".toList))]

theorem nearest_sampleFolders : Nearest sampleFolders ["a".toList, "b".toList] ["a".toList] where
  above := by decide
  holds := { there := by simp only [← List.mem_inits]; decide, named := by decide }
  first := by
    intro x hx hl h
    have whole : x = ["a".toList, "b".toList] := hx.eq_of_length_le hl
    exact absurd h.named (by rw [whole]; decide)

theorem discovered_sampleFolders :
    Location.Proper ["a".toList, "b".toList] ∧
    Nearest sampleFolders ["a".toList, "b".toList] ["a".toList] ∧
    load [] sampleFolders ["a".toList, "b".toList] none {} = .error (.file .isADirectory) ∧
    load [] sampleFolders ["a".toList, "b".toList] (some "/a/tikzmd.toml".toList) {} =
      .error (.file .isADirectory) := by
  have proper : Location.Proper ["a".toList, "b".toList] := by
    unfold Location.Proper
    decide
  have fails : load [] sampleFolders ["a".toList, "b".toList] none {} = .error (.file .isADirectory) := by
    decide +kernel
  exact ⟨proper, nearest_sampleFolders, fails,
    (((discovered proper [] sampleFolders {}).named _ nearest_sampleFolders).symm.trans fails)⟩

end Config
end TikzPress
