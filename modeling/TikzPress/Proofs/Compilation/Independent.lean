import TikzPress.Proofs.CacheKey
import TikzPress.Proofs.Compilation.Local
import TikzPress.Proofs.Compilation.Sequence

/-!
Two compilations in one cache directory. Their files have different names, so that neither compilation comes
across the files of the other. Only the way to the cache directory is common to them: where it leads through a
name and back, making it makes a directory there, be it in the place of a file. Main statement: two compilations
are independent of each other exactly if making their directory is settled, that is, makes no directory in the
place of a file of theirs, and fails again if it fails (`independent_iff`).
-/

namespace TikzPress.Compilation

section Statements

-- A job under some settings, and the time that a program which hangs is given.
structure Request where
  settings : Settings
  patience : ℕ
  job      : Job

def Request.run (host : Host) (r : Request) (w : World) : Option (Except Failure Artifacts) × World :=
  Compilation.run host r.settings r.patience r.job w

-- The engine reads the source and writes the PDF and the log, the converter reads the PDF and writes the SVG.
structure Tidy (host : Host) (r : Request) : Prop where
  engine    : Contained host r.job (r.job.engineCall host r.settings) [".tmp.tex"] [".tmp.pdf", ".tmp.log"]
  converter : r.job.svg →
    Contained host r.job (r.job.converterCall host r.settings) [".tmp.pdf"] [".tmp.svg"]

-- Two jobs in one cache directory, named after keys that differ in the digits that are shown.
structure Keyed (job job' : Job) : Prop where
  directory : job.cacheDirectory = job'.cacheDirectory
  named     : ∃ key key', CacheKey.IsKey key ∧ CacheKey.IsKey key' ∧ key.take 16 ≠ key'.take 16 ∧
    job.baseName = CacheKey.baseName key ∧ job'.baseName = CacheKey.baseName key'

section Requests

variable (host : Host) (r r' : Request) (w : World)

-- The second request finds its files as if the first one had not been there, and comes to the same.
structure Unnoticed : Prop where
  files  : ∀ x ∈ r'.job.files host, (r.run host w).2.tree.get? x = w.tree.get? x
  result : (r'.run host (r.run host w).2).1 = (r'.run host w).1

structure Independent : Prop where
  first  : Unnoticed host r r' w
  second : Unnoticed host r' r w
  files  : ∀ x, (r'.run host (r.run host w).2).2.tree.get? x = (r.run host (r'.run host w).2).2.tree.get? x

end Requests

-- Making the cache directory leaves the places of the files alone, and if it fails, then so in the same way
-- when it is tried again.
structure Settled (host : Host) (job job' : Job) (tree : FileTree) : Prop where
  opens : ∀ x ∈ job.files host ++ job'.files host, (opened host job tree).get? x = tree.get? x
  fails : job.cacheDirectory ≠ [] → tree.makeAll host.directory (job.directory host) = (.error e, after) →
    (after.makeAll host.directory (job.directory host)).1 = .error e

end Statements

namespace Keyed

variable {host : Host} {job job' : Job} {e e' : Text} {x : Location}

theorem symm (k : Keyed job job') : Keyed job' job where
  directory := k.directory.symm
  named     := by
    obtain ⟨key, key', h, h', hn, named, named'⟩ := k.named
    exact ⟨key', key, h', h, hn.symm, named', named⟩

theorem no_slash (k : Keyed job job') : '/' ∉ job.baseName := by
  obtain ⟨key, -, h, -, -, named, -⟩ := k.named
  exact named ▸ h.slash_not_mem

-- Names of one length are told from each other before any ending begins.
theorem baseName_append_ne (k : Keyed job job') : job.baseName ++ e ≠ job'.baseName ++ e' := by
  obtain ⟨key, key', h, h', hn, named, named'⟩ := k.named
  intro same
  rw [named, named', h.baseName_eq, h'.baseName_eq, List.append_assoc, List.append_assoc] at same
  have shown := List.append_cancel_left same
  exact hn (List.append_inj_left shown (by rw [List.length_take, List.length_take, h.length, h'.length]))

theorem directory_eq (k : Keyed job job') : job'.directory host = job.directory host := by
  rw [Job.directory, Job.directory, k.directory]

theorem root_eq (k : Keyed job job') : job'.root host = job.root host := by
  rw [Job.root, Job.root, k.directory_eq]

theorem opened_eq (k : Keyed job job') (tree : FileTree) : opened host job' tree = opened host job tree := by
  rw [opened, opened, k.directory_eq, k.directory]

theorem not_mem_files (k : Keyed job job') (h : x ∈ job.files host) : x ∉ job'.files host := by
  intro h'
  obtain ⟨e, he, rfl⟩ := List.mem_map.mp h
  obtain ⟨e', he', same⟩ := List.mem_map.mp h'
  rw [Job.place_eq k.no_slash (Job.ending_of_mem he), Job.place_eq k.symm.no_slash (Job.ending_of_mem he'),
    k.root_eq] at same
  have names := List.singleton_inj.mp (List.append_cancel_left same)
  exact k.symm.baseName_append_ne (List.append_cancel_left names)

end Keyed

section Work

variable {host : Host} {r : Request} {x : Stage}

-- What is done once the cache directory is there.
def Request.work (host : Host) (r : Request) : Step Unit :=
  forM r.job.stages.tail (Stage.step host r.settings r.job)

theorem Output.temporary_mem (o : Output) : o.temporary ∈ Job.endings := by
  cases o <;> decide

theorem Output.final_mem (o : Output) : o.final ∈ Job.endings := by
  cases o <;> decide

theorem Job.makeDirectory_not_mem_tail (job : Job) : .makeDirectory ∉ job.stages.tail := by
  unfold stages typesetting
  cases job.svg <;> simp

theorem local_step (t : Tidy host r) (hn : '/' ∉ r.job.baseName) (hx : x ∈ r.job.stages.tail) :
    Step.Local host.directory (r.job.root host) (r.job.files host) (x.step host r.settings r.job) := by
  have own : r.job.files host ++ r.job.files host ⊆ r.job.files host :=
    List.append_subset.mpr ⟨List.Subset.refl _, List.Subset.refl _⟩
  cases x
  case makeDirectory => exact absurd hx r.job.makeDirectory_not_mem_tail
  case writeSource   => exact .changing (Job.local_write hn (by decide) (by decide) _) own
  case call o =>
    cases o
    case pdf => exact t.engine.local_calling (by decide)
    case svg =>
      have hs : r.job.svg := by
        refine Classical.byContradiction fun hs => ?_
        simp [Job.stages, typesetting, hs] at hx
      exact (t.converter hs).local_calling (by decide)
  case check o =>
    have h := Job.ending_of_mem o.temporary_mem
    rw [Stage.step, Job.path_eq_root hn h]
    exact .requiring (Job.ending_append hn h) (Job.ofPath_mem_places hn h o.temporary_mem)
  case copy o =>
    have h := Job.ending_of_mem o.temporary_mem
    have h' := Job.ending_of_mem o.final_mem
    exact .changing (Job.local_copy hn h h' o.temporary_mem o.final_mem) own

theorem local_work (t : Tidy host r) (hn : '/' ∉ r.job.baseName) :
    Step.Local host.directory (r.job.root host) (r.job.files host) (r.work host) :=
  .forM fun _ hx => local_step t hn hx

end Work

-- Only the first stage fails like this.
theorem Stage.makeAll_eq_error_of_outcome {host : Host} {s : Settings} {job : Job} {u v : World} {x : Stage}
    {e : FileError} (h : (x.step host s job).outcome u = (.error (.failed (.files .makeDirectory e)), v)) :
    x = .makeDirectory ∧ (u.tree.makeAll host.directory (job.directory host)).1 = .error e := by
  cases x
  case makeDirectory =>
    by_cases hc : job.cacheDirectory = []
    case pos => simp [step, hc] at h
    case neg =>
      rcases hm : u.tree.makeAll host.directory (job.directory host) with ⟨made, tree⟩
      cases made
      case ok => simp [step, hc, outcome_makingDirectory, hm] at h
      case error =>
        simp [step, hc, outcome_makingDirectory, hm] at h
        exact ⟨rfl, congrArg _ h.left⟩
  case writeSource =>
    rw [step, changing_eq_error_iff] at h
    obtain ⟨_, -, h, -⟩ := h
    cases h
  case copy =>
    rw [step, publish, changing_eq_error_iff] at h
    obtain ⟨_, -, h, -⟩ := h
    cases h
  case call o =>
    rcases exists_execution host (job.directory host) (job.call host s o) u.tree with ⟨y, hy⟩ | ⟨e, he⟩
    case inl =>
      rw [outcome_of_called hy, Execution.result] at h
      split at h <;> cases h
    case inr =>
      rw [step, outcome_calling_of_error he] at h
      cases h
  case check o =>
    rw [step, outcome_requiring] at h
    split at h <;> cases h

section Runs

variable {host : Host} {r r' : Request} {w : World} {tree : FileTree} {e : FileError} {x : Location}

namespace Request

def concluded (host : Host) (r : Request) : Except Stop Unit → Option (Except Failure Artifacts)
  | .ok ()      => some (.ok (r.job.artifacts host))
  | .error stop => (stop.failure? r.settings.timeout? r.patience).map .error

theorem run_of_makeDirectory_eq_error {f : Failure} {v : World}
    (h : (Stage.makeDirectory.step host r.settings r.job).outcome w = (.error (.failed f), v)) :
    r.run host w = (some (.error f), v) := by
  have first : r.job.stages = [] ++ .makeDirectory :: r.job.stages.tail := rfl
  exact (run_eq_map_error_iff_step (f := some f)).mpr ⟨.makeDirectory, w, .failed f, ⟨first, .nil⟩, h, rfl⟩

theorem run_of_nil (hc : r.job.cacheDirectory = []) :
    r.run host w = (some (.error (.files .resolveDirectory .emptyPath)), w) :=
  run_of_makeDirectory_eq_error (by simp [Stage.step, hc])

theorem run_of_makeAll_eq_error (hc : r.job.cacheDirectory ≠ [])
    (h : w.tree.makeAll host.directory (r.job.directory host) = (.error e, tree)) :
    r.run host w = (some (.error (.files .makeDirectory e)), { w with tree }) :=
  run_of_makeDirectory_eq_error (by simp [Stage.step, hc, outcome_makingDirectory, h])

theorem run_of_makeAll_eq_ok (hc : r.job.cacheDirectory ≠ [])
    (h : w.tree.makeAll host.directory (r.job.directory host) = (.ok (), tree)) :
    r.run host w = (r.concluded host ((r.work host).outcome { w with tree }).1,
      ((r.work host).outcome { w with tree }).2) := by
  have made := Stage.Succeeds.outcome (s := r.settings) (.makeDirectory (w := w) hc h)
  have compiled : compile host r.settings r.job =
      (Stage.makeDirectory.step host r.settings r.job >>= fun _ => r.work host) >>= fun _ =>
        pure (r.job.artifacts host) :=
    compile_eq_stages host r.settings r.job
  match hw : (r.work host).outcome { w with tree } with
  | (.ok (), v) =>
    refine run_eq_ok_iff.mpr ?_
    rw [compiled, outcome_bind_of_ok ((outcome_bind_of_ok made).trans hw)]
    rfl
  | (.error stop, v) =>
    refine run_eq_map_error_iff.mpr ⟨stop, ?_, rfl⟩
    rw [compiled, outcome_bind_of_error ((outcome_bind_of_ok made).trans hw)]

theorem run_of_hasFolder (hc : r.job.cacheDirectory ≠ [])
    (f : w.tree.HasFolder host.directory (r.job.root host)) :
    r.run host w = (r.concluded host ((r.work host).outcome w).1, ((r.work host).outcome w).2) :=
  run_of_makeAll_eq_ok hc (FileTree.makeAll_of_lookUp Job.directory_ne_nil (Job.hasFolder_iff.mp f))

theorem makeAll_eq_error_of_run (h : (r.run host w).1 = some (.error (.files .makeDirectory e))) :
    (w.tree.makeAll host.directory (r.job.directory host)).1 = .error e := by
  replace h : r.run host w = (some (.error (.files .makeDirectory e)), (r.run host w).2) := Prod.ext h rfl
  generalize (r.run host w).2 = v at h
  obtain ⟨x, u, stop, @⟨before, after, stages, complete⟩, ho, hf⟩ :=
    (run_eq_map_error_iff_step (f := some _)).mp h
  cases Stop.eq_failed_of_failure? hf nofun
  obtain ⟨rfl, failed⟩ := Stage.makeAll_eq_error_of_outcome ho
  cases complete
  case nil => exact failed
  case cons =>
    refine absurd ?_ r.job.makeDirectory_not_mem_tail
    rw [stages]
    exact List.mem_append_right _ (.head _)

end Request

theorem hasFolder_of_makeAll (h : w.tree.makeAll host.directory (r.job.directory host) = (.ok (), tree)) :
    tree.HasFolder host.directory (r.job.root host) :=
  Job.hasFolder_iff.mpr (FileTree.lookUp_of_makeAll h)

-- At other places a run changes nothing but that directories are made.
theorem get?_run (t : Tidy host r) (hn : '/' ∉ r.job.baseName) (hx : x ∉ r.job.files host) :
    (r.run host w).2.tree.get? x = (opened host r.job w.tree).get? x := by
  unfold opened
  split
  case isTrue hc  => rw [Request.run_of_nil hc]
  case isFalse hc =>
    match h : w.tree.makeAll host.directory (r.job.directory host) with
    | (.error _, _) => rw [Request.run_of_makeAll_eq_error hc h]
    | (.ok (), _)   =>
      rw [Request.run_of_makeAll_eq_ok hc h]
      exact (local_work t hn).keeps x hx _

theorem Settled.symm (k : Keyed r.job r'.job) (st : Settled host r.job r'.job w.tree) :
    Settled host r'.job r.job w.tree where
  opens x hx := by
    rw [k.opened_eq]
    exact st.opens x (List.mem_append.mpr (List.mem_append.mp hx).symm)
  fails hc h := by
    rw [k.directory_eq] at h ⊢
    exact st.fails (k.directory ▸ hc) h

variable (k : Keyed r.job r'.job)
include k

theorem run_run_of_makeAll_eq_error (hc : r.job.cacheDirectory ≠ [])
    (h : w.tree.makeAll host.directory (r.job.directory host) = (.error e, tree))
    (again : (tree.makeAll host.directory (r.job.directory host)).1 = .error e) :
    r'.run host (r.run host w).2 = (some (.error (.files .makeDirectory e)),
      { w with tree := (tree.makeAll host.directory (r.job.directory host)).2 }) := by
  have failed : tree.makeAll host.directory (r'.job.directory host) =
      (.error e, (tree.makeAll host.directory (r.job.directory host)).2) := by
    rw [k.directory_eq]
    exact Prod.ext again rfl
  rw [Request.run_of_makeAll_eq_error hc h, Request.run_of_makeAll_eq_error (k.directory ▸ hc) failed]

-- The second request finds the cache directory that the first one has made.
theorem run_run_of_makeAll_eq_ok (t : Tidy host r) (hc : r.job.cacheDirectory ≠ [])
    (h : w.tree.makeAll host.directory (r.job.directory host) = (.ok (), tree)) :
    r'.run host (r.run host w).2 =
      (r'.concluded host ((r'.work host).outcome ((r.work host).outcome { w with tree }).2).1,
        ((r'.work host).outcome ((r.work host).outcome { w with tree }).2).2) := by
  have kept := (hasFolder_of_makeAll h).of_upheld ((local_work t k.no_slash).upheld { w with tree })
  rw [Request.run_of_makeAll_eq_ok hc h, Request.run_of_hasFolder (k.directory ▸ hc) (k.root_eq ▸ kept)]

variable (t : Tidy host r) (t' : Tidy host r')
include t t'

theorem Settled.unnoticed (st : Settled host r.job r'.job w.tree) : Unnoticed host r r' w where
  files x hx := by
    rw [get?_run t k.no_slash (k.symm.not_mem_files hx)]
    exact st.opens x (List.mem_append_right _ hx)
  result := by
    by_cases hc : r.job.cacheDirectory = []
    case pos => rw [Request.run_of_nil hc]
    case neg =>
      have hc' : r'.job.cacheDirectory ≠ [] := k.directory ▸ hc
      match h : w.tree.makeAll host.directory (r.job.directory host) with
      | (.error e, tree) =>
        rw [run_run_of_makeAll_eq_error k hc h (st.fails hc h),
          Request.run_of_makeAll_eq_error hc' (k.directory_eq ▸ h)]
      | (.ok (), tree) =>
        have same := (local_work t k.no_slash).outcome_outcome (w := { w with tree })
          (fun _ => Job.below_of_mem_files k.no_slash) (fun _ => k.not_mem_files)
          (k.root_eq ▸ local_work t' k.symm.no_slash) (hasFolder_of_makeAll h)
        rw [run_run_of_makeAll_eq_ok k t hc h, Request.run_of_makeAll_eq_ok hc' (k.directory_eq ▸ h)]
        exact congrArg (r'.concluded host) same.left

theorem Settled.independent (st : Settled host r.job r'.job w.tree) : Independent host r r' w where
  first   := st.unnoticed k t t'
  second  := (st.symm k).unnoticed k.symm t' t
  files x := by
    by_cases hc : r.job.cacheDirectory = []
    case pos => rw [Request.run_of_nil hc, Request.run_of_nil (k.directory ▸ hc), Request.run_of_nil hc]
    case neg =>
      have hc' : r'.job.cacheDirectory ≠ [] := k.directory ▸ hc
      match h : w.tree.makeAll host.directory (r.job.directory host) with
      | (.error e, tree) =>
        rw [run_run_of_makeAll_eq_error k hc h (st.fails hc h),
          run_run_of_makeAll_eq_error k.symm hc' (k.directory_eq ▸ h) (k.directory_eq ▸ st.fails hc h),
          k.directory_eq]
      | (.ok (), tree) =>
        have commute := (local_work t k.no_slash).commute (w := { w with tree })
          (fun _ => Job.below_of_mem_files k.no_slash) (fun _ => k.not_mem_files)
          (k.root_eq ▸ local_work t' k.symm.no_slash)
          (fun _ hx => k.root_eq ▸ Job.below_of_mem_files k.symm.no_slash hx) (hasFolder_of_makeAll h)
        rw [run_run_of_makeAll_eq_ok k t hc h, run_run_of_makeAll_eq_ok k.symm t' hc' (k.directory_eq ▸ h)]
        exact commute x

theorem Independent.settled (i : Independent host r r' w) : Settled host r.job r'.job w.tree where
  opens x hx := by
    rcases List.mem_append.mp hx with hx | hx
    case inl =>
      rw [← k.opened_eq, ← get?_run t' k.symm.no_slash (k.not_mem_files hx)]
      exact i.second.files x hx
    case inr =>
      rw [← get?_run t k.no_slash (k.symm.not_mem_files hx)]
      exact i.first.files x hx
  fails hc h := by
    have alone := Request.run_of_makeAll_eq_error (r := r') (k.directory ▸ hc) (k.directory_eq ▸ h)
    have same := i.first.result
    rw [alone, Request.run_of_makeAll_eq_error hc h] at same
    exact k.directory_eq ▸ Request.makeAll_eq_error_of_run same

theorem independent_iff : Independent host r r' w ↔ Settled host r.job r'.job w.tree :=
  ⟨Independent.settled k t t', Settled.independent k t t'⟩

end Runs

section Settling

variable {host : Host} {job job' : Job} {tree : FileTree} {x : Location}

-- A cache directory that is there is not made.
theorem settled_of_lookUp (h : tree.lookUp host.directory (job.directory host) = .ok .directory) :
    Settled host job job' tree where
  opens x _ := by
    unfold opened
    rw [FileTree.makeAll_of_lookUp Job.directory_ne_nil h]
    split <;> rfl
  fails _ h' := by
    rw [FileTree.makeAll_of_lookUp Job.directory_ne_nil h] at h'
    cases h'

-- On a way that never goes back only directories above the files are made.
theorem settled_of_straight (k : Keyed job job') (straight : "..".toList ∉ Path.names (job.directory host))
    (made : (tree.makeAll host.directory (job.directory host)).1 = .ok ()) : Settled host job job' tree where
  opens x hx := by
    have deep {j : Job} (same : j.directory host = job.directory host) (hn : '/' ∉ j.baseName)
        (hx : x ∈ j.files host) : (Path.names (job.directory host)).length < x.length := by
      obtain ⟨e, he, rfl⟩ := List.mem_map.mp hx
      rw [Job.place_eq hn (Job.ending_of_mem he), ← Job.folder_eq, Job.folder, same, List.length_append,
        FileTree.length_ofPath Job.isAbsolute_directory straight]
      exact Nat.lt_succ_self _
    have below := (List.mem_append.mp hx).elim (deep rfl k.no_slash) (deep k.directory_eq k.symm.no_slash)
    unfold opened
    split
    case isTrue  => rfl
    case isFalse => exact FileTree.get?_makeAll Job.isAbsolute_directory below
  fails _ h := nomatch made.symm.trans (congrArg Prod.fst h)

end Settling

section Copying

-- A source is copied to its PDF and to its log.
def print (source : Text) (tree : FileTree) : Except FileError FileTree :=
  let stem := source.take (source.length - ".tex".toList.length)
  (tree.copy [] source (stem ++ ".pdf".toList)).bind fun tree => tree.copy [] source (stem ++ ".log".toList)

-- A host whose engine and converter copy what they read.
def copyist : Host where
  directory := []
  width     := 1
  programs c _ tree :=
    match c.arguments with
    | [_, _, _, _, source]   => .ok (effectOf (print source) tree)
    | [_, _, _, pdf, _, svg] => .ok (effectOf (·.copy [] pdf svg) tree)
    | _                      => .error .notFound

def copying (digit : Char) (cacheDirectory : Text) : Request where
  settings := .withCacheDirectory cacheDirectory
  patience := 0
  job      := ⟨['x'], CacheKey.baseName (List.replicate 64 digit), cacheDirectory, true⟩

theorem print_path {job : Job} : print (job.path copyist ".tmp.tex") = fun tree =>
    (tree.copy [] (job.path copyist ".tmp.tex") (job.path copyist ".tmp.pdf")).bind fun tree =>
      tree.copy [] (job.path copyist ".tmp.tex") (job.path copyist ".tmp.log") := by
  have path {e : String} (h : Path.Ending (".tmp" ++ e).toList) :
      job.path copyist (".tmp" ++ e) = job.stem copyist ++ ".tmp".toList ++ e.toList := by
    rw [Job.path_eq h, String.toList_append, List.append_assoc]
  have source := path (e := ".tex") (by decide)
  have pdf := path (e := ".pdf") (by decide)
  have log := path (e := ".log") (by decide)
  funext tree
  rw [show ".tmp.tex" = ".tmp" ++ ".tex" by rfl, show ".tmp.pdf" = ".tmp" ++ ".pdf" by rfl,
    show ".tmp.log" = ".tmp" ++ ".log" by rfl, source, pdf, log, print, List.length_append, Nat.add_sub_cancel,
    List.take_left]

theorem tidy_copying {digit : Char} {cacheDirectory : Text}
    (hn : '/' ∉ (copying digit cacheDirectory).job.baseName) :
    Tidy copyist (copying digit cacheDirectory) where
  engine := by
    refine contained_of_local (print _) (fun _ => rfl) ?_
    rw [print_path]
    exact .andThen (Job.local_copy hn (by decide) (by decide) (by decide) (by decide))
      (Job.local_copy hn (by decide) (by decide) (by decide) (by decide))
  converter _ := contained_of_local _ (fun _ => rfl) <|
    Job.local_copy hn (by decide) (by decide) (by decide) (by decide)

theorem keyed_copying (cacheDirectory : Text) :
    Keyed (copying 'a' cacheDirectory).job (copying 'b' cacheDirectory).job where
  directory := rfl
  named     := by
    have key (n : ℕ) (hn : n < 16) : CacheKey.IsKey (List.replicate 64 (Digest.hexDigit n)) :=
      ⟨List.length_replicate, fun c hc => ⟨n, hn, List.eq_of_mem_replicate hc⟩⟩
    exact ⟨_, _, key 10 (by decide), key 11 (by decide), by decide, rfl, rfl⟩

theorem independent_copying :
    Keyed (copying 'a' "cache".toList).job (copying 'b' "cache".toList).job ∧
      Tidy copyist (copying 'a' "cache".toList) ∧ Tidy copyist (copying 'b' "cache".toList) ∧
      Independent copyist (copying 'a' "cache".toList) (copying 'b' "cache".toList) ⟨.empty, []⟩ := by
  have k := keyed_copying "cache".toList
  have t := tidy_copying k.no_slash
  have t' := tidy_copying k.symm.no_slash
  have st : Settled copyist _ _ .empty := settled_of_straight k (by decide +kernel) (by decide +kernel)
  exact ⟨k, t, t', (independent_iff k t t').mpr st⟩

-- On the way to this cache directory a directory is made where the second PDF is to be.
def detour : Text :=
  "cache/tikzmd-bbbbbbbbbbbbbbbb.pdf/..".toList

theorem not_independent_of_detour :
    ¬∀ host r r' w, Keyed r.job r'.job → Tidy host r → Tidy host r' → Independent host r r' w := by
  intro h
  have k := keyed_copying detour
  have i := h copyist (copying 'a' detour) (copying 'b' detour) ⟨.empty, []⟩ k (tidy_copying k.no_slash)
    (tidy_copying k.symm.no_slash)
  have made : ((copying 'a' detour).run copyist ⟨.empty, []⟩).2.tree.get?
      ((copying 'b' detour).job.place copyist ".pdf") = some .directory := by
    decide +kernel
  have kept := i.first.files _ (List.mem_map_of_mem (a := ".pdf") (by decide))
  exact absurd (made.symm.trans kept) (by decide +kernel)

end Copying
end TikzPress.Compilation
