import TikzPress.Proofs.Compilation.Steps
import TikzPress.Proofs.FileTree

/-!
The stages of a compilation and the files of its job. Main statements: a compilation brings about all its
outputs before it publishes any of them (`compile_eq`), and what is published has the content of the
output that it is a copy of (`reads_of_publishAll`).
-/

namespace TikzPress.Compilation

namespace Job

variable (host : Host) (s : Settings) (job : Job)

def directory : Text :=
  Path.absolute host.directory.path job.cacheDirectory

def path (ending : String) : Text :=
  job.file (job.directory host) ending

def place (ending : String) : Location :=
  host.directory.ofPath (job.path host ending)

-- The path that the endings complete to the paths of the job's files.
def stem : Text :=
  Path.join (job.directory host) job.baseName

def engineCall : Call :=
  Compilation.engineCall s (job.path host ".tmp.tex") (job.directory host)

def converterCall : Call :=
  Compilation.converterCall s (job.path host ".tmp.pdf") (job.path host ".tmp.svg")

def artifacts : Artifacts where
  pdf  := job.path host ".pdf"
  svg? := if job.svg then some (job.path host ".svg") else none
  log  := job.path host ".tmp.log"

variable {host job} {e e' : String} {tree tree' : FileTree} {content : Bytes}

theorem path_eq (h : Path.Ending e.toList) : job.path host e = job.stem host ++ e.toList :=
  Path.join_append h

theorem path_inj (h : Path.Ending e.toList) (h' : Path.Ending e'.toList) :
    job.path host e = job.path host e' ↔ e = e' := by
  rw [path_eq h, path_eq h', List.append_cancel_left_eq, String.toList_inj]

theorem place_inj (h : Path.Ending e.toList) (h' : Path.Ending e'.toList) :
    job.place host e = job.place host e' ↔ e = e' := by
  rw [place, place, path_eq h, path_eq h', Location.ofPath_append_inj h h', String.toList_inj]

theorem place_ne_nil (h : Path.Ending e.toList) : job.place host e ≠ [] := by
  rw [place, path_eq h]
  exact Location.ofPath_append_ne_nil h

theorem get?_set_place (h : Path.Ending e.toList) (h' : Path.Ending e'.toList) (entry : Entry) :
    (tree.set (job.place host e') entry).get? (job.place host e) =
      if e = e' then some entry else tree.get? (job.place host e) := by
  rw [FileTree.get?_set _ _ _ _ (place_ne_nil h')]
  simp only [place_inj h h']

theorem read_path_eq_ok_iff (h : Path.Ending e.toList) :
    tree.read host.directory (job.path host e) = .ok content ↔
      tree.HasFolder host.directory (job.stem host) ∧
        tree.get? (job.place host e) = some (.file content) := by
  rw [place, path_eq h, FileTree.read_append_eq_ok_iff h]

theorem copy_path_eq_ok_iff (h : Path.Ending e.toList) (h' : Path.Ending e'.toList) :
    tree.copy host.directory (job.path host e) (job.path host e') = .ok tree' ↔
      ∃ content, tree.read host.directory (job.path host e) = .ok content ∧
        tree.get? (job.place host e') ≠ some .directory ∧
          tree' = tree.set (job.place host e') (.file content) := by
  rw [place, path_eq h, path_eq h', FileTree.copy_append_eq_ok_iff h h']

-- Where a copy has succeeded there is a folder, and reading goes on there as before but for the copy.
theorem read_path_set_eq_ok_iff (h : Path.Ending e.toList) (h' : Path.Ending e'.toList)
    (f : tree.HasFolder host.directory (job.stem host))
    (hd : tree.get? (job.place host e') ≠ some .directory) {content' : Bytes} :
    (tree.set (job.place host e') (.file content)).read host.directory (job.path host e) =
        .ok content' ↔
      if e = e' then content = content'
      else tree.read host.directory (job.path host e) = .ok content' := by
  simp only [read_path_eq_ok_iff h, f.set (place_ne_nil h') hd, f, true_and, get?_set_place h h']
  split
  case isTrue  => rw [Option.some_inj, Entry.file.injEq]
  case isFalse => rfl

end Job

section Stages

variable (host : Host) (s : Settings) (job : Job)

-- The cache directory is made and the source written to it.
def prepare : Step Unit := do
  if job.cacheDirectory = [] then throw (.failed (.files .resolveDirectory .emptyPath))
  makingDirectory host (job.directory host)
  changing .writeSource fun tree =>
    tree.write host.directory (job.path host ".tmp.tex") (Text.encode job.source)

def typeset : Step Unit :=
  producing host (job.directory host) (job.path host ".tmp.log") (job.engineCall host s)
    (job.path host ".tmp.pdf")

def outputs : Step Unit := do
  prepare host job
  typeset host s job
  if job.svg then convert host s job (job.directory host)

def publishAll : Step Unit := do
  publish host (job.path host ".tmp.pdf") (job.path host ".pdf")
  if job.svg then publish host (job.path host ".tmp.svg") (job.path host ".svg")

theorem convert_eq :
    convert host s job (job.directory host) =
      producing host (job.directory host) (job.path host ".tmp.log") (job.converterCall host s)
        (job.path host ".tmp.svg") :=
  rfl

theorem compile_eq :
    compile host s job = do
      outputs host s job
      publishAll host job
      return job.artifacts host := by
  unfold compile outputs prepare typeset producing publishAll
  by_cases hc : job.cacheDirectory = []
  case pos => simp [hc]
  case neg =>
    by_cases hs : job.svg <;>
      simp [hc, hs, Job.path, Job.directory, Job.engineCall, Job.artifacts, engineCall]

end Stages

section Publication

variable {host : Host} {job : Job} {w v : World} {e e' : String}

theorem publish_eq_ok_iff (h : Path.Ending e.toList) (h' : Path.Ending e'.toList) :
    (publish host (job.path host e) (job.path host e')).outcome w = (.ok (), v) ↔
      ∃ content, w.tree.read host.directory (job.path host e) = .ok content ∧
        w.tree.get? (job.place host e') ≠ some .directory ∧
          v = { w with tree := w.tree.set (job.place host e') (.file content) } := by
  simp only [publish, changing_eq_ok_iff, Job.copy_path_eq_ok_iff h h']
  constructor
  case mp =>
    intro ⟨_, ⟨content, hr, hd, ht⟩, hv⟩
    exact ⟨content, hr, hd, ht ▸ hv⟩
  case mpr => exact fun ⟨content, hr, hd, hv⟩ => ⟨_, ⟨content, hr, hd, rfl⟩, hv⟩

theorem hasFolder_of_read {content : Bytes} (h : Path.Ending e.toList)
    (hr : w.tree.read host.directory (job.path host e) = .ok content) :
    w.tree.HasFolder host.directory (job.stem host) :=
  ((Job.read_path_eq_ok_iff h).mp hr).left

theorem reads_of_publish (h : Path.Ending e.toList) (h' : Path.Ending e'.toList)
    (hp : (publish host (job.path host e) (job.path host e')).outcome w = (.ok (), v)) :
    ∃ content, w.tree.read host.directory (job.path host e) = .ok content ∧
      v.tree.read host.directory (job.path host e') = .ok content := by
  have ⟨content, hr, hd, hv⟩ := (publish_eq_ok_iff h h').mp hp
  refine ⟨content, hr, ?_⟩
  rw [hv]
  exact (Job.read_path_set_eq_ok_iff h' h' (hasFolder_of_read h hr) hd).mpr (if_pos rfl ▸ rfl)

-- What is published changes nothing for the other files.
theorem read_of_publish {e'' : String} {content : Bytes} (h : Path.Ending e.toList)
    (h' : Path.Ending e'.toList) (h'' : Path.Ending e''.toList) (hn : e'' ≠ e')
    (hp : (publish host (job.path host e) (job.path host e')).outcome w = (.ok (), v)) :
    v.tree.read host.directory (job.path host e'') = .ok content ↔
      w.tree.read host.directory (job.path host e'') = .ok content := by
  have ⟨_, hr, hd, hv⟩ := (publish_eq_ok_iff h h').mp hp
  rw [hv, Job.read_path_set_eq_ok_iff h'' h' (hasFolder_of_read h hr) hd, if_neg hn]

theorem reads_of_publishAll (h : (publishAll host job).outcome w = (.ok (), v)) :
    (∃ content, w.tree.read host.directory (job.path host ".tmp.pdf") = .ok content ∧
      v.tree.read host.directory (job.path host ".pdf") = .ok content) ∧
    (job.svg → ∃ content, w.tree.read host.directory (job.path host ".tmp.svg") = .ok content ∧
      v.tree.read host.directory (job.path host ".svg") = .ok content) := by
  have ⟨u, hp, h⟩ := outcome_bind_eq_ok_iff.mp h
  have ⟨content, hr, hu⟩ := reads_of_publish (by decide) (by decide) hp
  cases hs : job.svg
  case false =>
    rw [hs] at h
    cases h
    exact ⟨⟨content, hr, hu⟩, nofun⟩
  case true =>
    rw [hs] at h
    have ⟨content', hr', hv'⟩ := reads_of_publish (by decide) (by decide) h
    have hv := (read_of_publish (by decide) (by decide) (by decide) (by decide) h).mpr hu
    have hw := (read_of_publish (by decide) (by decide) (by decide) (by decide) hp).mp hr'
    exact ⟨⟨content, hr, hv⟩, fun _ => ⟨content', hw, hv'⟩⟩

-- Nothing that is done with files alone fails for the want of an output.
theorem publishAll_ne_missing {program output log : Text} :
    (publishAll host job).outcome w ≠ (.error (.failed (.missing program output log)), v) := by
  intro h
  cases outcome_bind_eq_error_iff.mp h
  case inl h => exact changing_ne_missing h
  case inr h =>
    have ⟨_, _, h⟩ := h
    split at h
    case isTrue  => exact changing_ne_missing h
    case isFalse => cases h

theorem prepare_ne_missing {program output log : Text} :
    (prepare host job).outcome w ≠ (.error (.failed (.missing program output log)), v) := by
  intro h
  unfold prepare at h
  split at h
  case isTrue => cases h
  case isFalse =>
    cases outcome_bind_eq_error_iff.mp h
    case inl h => exact makingDirectory_ne_missing h
    case inr h =>
      have ⟨_, _, h⟩ := h
      exact changing_ne_missing h

end Publication

section Outcomes

variable {host : Host} {s : Settings} {patience : Nat} {job : Job} {w v : World}

theorem run_eq_ok_iff {artifacts : Artifacts} :
    run host s patience job w = (some (.ok artifacts), v) ↔
      (compile host s job).outcome w = (.ok artifacts, v) := by
  unfold run
  change (match (compile host s job).outcome w with | (.ok _, _) => _ | (.error _, _) => _) = _ ↔ _
  match (compile host s job).outcome w with
  | (.ok _, _)    => simp
  | (.error _, _) => simp

-- Without a failure a program hangs.
theorem run_eq_map_error_iff {r : Option Failure} :
    run host s patience job w = (r.map .error, v) ↔
      ∃ stop, (compile host s job).outcome w = (.error stop, v) ∧
        stop.failure? s.timeout? patience = r := by
  have injective : Function.Injective (Except.error : Failure → Except Failure Artifacts) :=
    fun _ _ => Except.error.inj
  unfold run
  change (match (compile host s job).outcome w with | (.ok _, _) => _ | (.error _, _) => _) = _ ↔ _
  match (compile host s job).outcome w with
  | (.ok _, _)    => cases r <;> simp
  | (.error _, _) => simp [Option.map_inj_right injective, and_comm, and_assoc]

theorem run_eq_error_iff {f : Failure} :
    run host s patience job w = (some (.error f), v) ↔
      ∃ stop, (compile host s job).outcome w = (.error stop, v) ∧
        stop.failure? s.timeout? patience = some f :=
  run_eq_map_error_iff (r := some f)

-- A program that hangs comes to nothing but the end of its time.
theorem Stop.eq_failed_of_failure? {stop : Stop} {timeout? : Option Nat} {elapsed : Nat} {f : Failure}
    (h : stop.failure? timeout? elapsed = some f) (hf : f.kind ≠ .timeout) : stop = .failed f := by
  cases stop
  case failed f => exact congrArg Stop.failed (Option.some.inj h)
  case hanging =>
    simp only [Stop.failure?] at h
    split at h
    case h_1 => contradiction
    case h_2 =>
      split at h
      case isFalse => contradiction
      case isTrue =>
        cases h
        contradiction

theorem compile_eq_ok_iff {artifacts : Artifacts} :
    (compile host s job).outcome w = (.ok artifacts, v) ↔
      ∃ u, (outputs host s job).outcome w = (.ok (), u) ∧
        (publishAll host job).outcome u = (.ok (), v) ∧ artifacts = job.artifacts host := by
  simp only [compile_eq, outcome_bind_eq_ok_iff, outcome_pure, Prod.mk.injEq, Except.ok.injEq]
  constructor
  case mp  => exact fun ⟨u, ho, _, hp, ha, hv⟩ => ⟨u, ho, hv ▸ hp, ha.symm⟩
  case mpr => exact fun ⟨u, ho, hp, ha⟩ => ⟨u, ho, v, hp, ha.symm, rfl⟩

theorem compile_eq_error_iff {stop : Stop} :
    (compile host s job).outcome w = (.error stop, v) ↔
      (outputs host s job).outcome w = (.error stop, v) ∨
        ∃ u, (outputs host s job).outcome w = (.ok (), u) ∧
          (publishAll host job).outcome u = (.error stop, v) := by
  simp only [compile_eq, outcome_bind_eq_error_iff, outcome_pure, Prod.mk.injEq, reduceCtorEq,
    false_and, and_false, exists_false, or_false]

theorem outputs_eq_ok_iff :
    (outputs host s job).outcome w = (.ok (), v) ↔
      ∃ u, (prepare host job).outcome w = (.ok (), u) ∧
        ∃ u', (typeset host s job).outcome u = (.ok (), u') ∧
          if job.svg then (convert host s job (job.directory host)).outcome u' = (.ok (), v)
          else v = u' := by
  simp only [outputs, outcome_bind_eq_ok_iff]
  cases job.svg <;> simp [eq_comm]

theorem outputs_eq_error_iff {stop : Stop} :
    (outputs host s job).outcome w = (.error stop, v) ↔
      (prepare host job).outcome w = (.error stop, v) ∨
        ∃ u, (prepare host job).outcome w = (.ok (), u) ∧
          ((typeset host s job).outcome u = (.error stop, v) ∨
            ∃ u', (typeset host s job).outcome u = (.ok (), u') ∧
              job.svg ∧ (convert host s job (job.directory host)).outcome u' = (.error stop, v)) := by
  simp only [outputs, outcome_bind_eq_error_iff]
  cases job.svg <;> simp

-- An output that is missing is that of the engine or of the converter.
theorem run_eq_missing_iff {program output log : Text} :
    run host s patience job w = (some (.error (.missing program output log)), v) ↔
      ∃ u, (prepare host job).outcome w = (.ok (), u) ∧
        ((typeset host s job).outcome u = (.error (.failed (.missing program output log)), v) ∨
          ∃ u', (typeset host s job).outcome u = (.ok (), u') ∧ job.svg ∧
            (convert host s job (job.directory host)).outcome u' =
              (.error (.failed (.missing program output log)), v)) := by
  simp only [run_eq_error_iff, compile_eq_error_iff, outputs_eq_error_iff]
  constructor
  case mp =>
    intro ⟨stop, h, hf⟩
    cases Stop.eq_failed_of_failure? hf nofun
    cases h
    case inr h =>
      have ⟨_, _, h⟩ := h
      exact absurd h publishAll_ne_missing
    case inl h =>
      cases h
      case inl h => exact absurd h prepare_ne_missing
      case inr h => exact h
  case mpr => exact fun h => ⟨_, .inl (.inr h), rfl⟩

end Outcomes
end TikzPress.Compilation
