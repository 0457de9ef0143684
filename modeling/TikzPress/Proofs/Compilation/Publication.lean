import TikzPress.Proofs.FileTree.Directories
import TikzPress.Proofs.Compilation.Stages

/-!
What a compilation that fails does to the final artifacts of earlier ones. The PDF is published before the
SVG, so that there is a PDF without its SVG where the SVG cannot be. Main statement: with programs that
leave the final artifacts alone, these are as before a compilation that fails exactly if no directory was
made in their place and the compilation is not torn like that (`unchanged_iff`).
-/

namespace TikzPress.Compilation

-- A step after which there stands at a place what stood there before.
def Step.Keeps (x : Step α) (place : Location) : Prop :=
  ∀ w, (x.outcome w).2.tree.get? place = w.tree.get? place

namespace Step.Keeps

variable {place : Location} {host : Host} {directory log output : Text} {c : Call} {e : String}

theorem pure (a : α) : Step.Keeps (Pure.pure a) place :=
  fun _ => rfl

-- What follows on a step and keeps the place adds nothing to what the step does there.
theorem get?_bind {x : Step Unit} {f : Unit → Step α} (hf : (f ()).Keeps place) (w : World) :
    (Step.outcome (x >>= f) w).2.tree.get? place = (x.outcome w).2.tree.get? place := by
  match h : x.outcome w with
  | (.ok (), u)   => rw [outcome_bind_of_ok h, hf u]
  | (.error _, _) => rw [outcome_bind_of_error h]

theorem bind {x : Step Unit} {f : Unit → Step α} (hx : x.Keeps place) (hf : (f ()).Keeps place) :
    Step.Keeps (x >>= f) place :=
  fun w => (get?_bind hf w).trans (hx w)

theorem requiring {program : Text} : (Compilation.requiring host program output log).Keeps place := by
  intro w
  rw [outcome_requiring]

theorem calling (h : ∀ {place' tree effect}, host.programs c place' tree = .ok effect →
    effect.tree.get? place = tree.get? place) :
    (Compilation.calling host directory log c).Keeps place := by
  intro w
  cases exists_execution_or host directory log c w
  case inl hx =>
    have ⟨_, hx⟩ := hx
    rw [outcome_calling hx]
    exact h hx.ran
  case inr he =>
    have ⟨_, he⟩ := he
    rw [he]

theorem producing (h : ∀ {place' tree effect}, host.programs c place' tree = .ok effect →
    effect.tree.get? place = tree.get? place) :
    (Compilation.producing host directory log c output).Keeps place :=
  bind (calling h) requiring

theorem writing {job : Job} (content : Bytes) (h : Path.Ending e.toList)
    (hn : place ≠ job.place host e) :
    (changing .writeSource fun tree => tree.write host.directory (job.path host e) content).Keeps place := by
  intro w
  rw [outcome_changing]
  split
  case h_2 => rfl
  case h_1 tree ht =>
    rw [Job.path_eq h, FileTree.write_append_eq_ok_iff h] at ht
    rw [Job.place, Job.path_eq h] at hn
    rw [ht.right.right, FileTree.get?_set _ _ _ _ (Location.ofPath_append_ne_nil h), if_neg hn]

end Step.Keeps

section Statements

variable (host : Host) (s : Settings) (job : Job)

def Job.finals : List Location :=
  [job.place host ".pdf", job.place host ".svg"]

-- The programs leave alone what stands where the final artifacts of the job are.
def Confined : Prop :=
  ∀ c ∈ [job.engineCall host s, job.converterCall host s], ∀ {place tree effect},
    host.programs c place tree = .ok effect →
    ∀ final ∈ job.finals host, effect.tree.get? final = tree.get? final

def Unchanged (before after : FileTree) : Prop :=
  ∀ final ∈ job.finals host, after.get? final = before.get? final

-- The files when the cache directory has been made.
def opened (tree : FileTree) : FileTree :=
  if job.cacheDirectory = [] then tree else (tree.makeAll host.directory (job.directory host)).2

-- Why an output is not copied: something is in the way at the place of the copy, or it is no file.
def Blocked (tree : FileTree) (e e' : String) : Prop :=
  tree.get? (job.place host e') = some .directory ∨
    ∀ content, tree.read host.directory (job.path host e) ≠ .ok content

-- All outputs are there, and a PDF is published in place of another one or of none, but no SVG is.
inductive Torn (w : World) : Prop
  | intro : job.svg → (outputs host s job).outcome w = (.ok (), u) →
    u.tree.read host.directory (job.path host ".tmp.pdf") = .ok content →
    u.tree.get? (job.place host ".pdf") ≠ some .directory →
    u.tree.get? (job.place host ".pdf") ≠ some (.file content) →
    Blocked host job u.tree ".tmp.svg" ".svg" → Torn w

-- Where a compilation stops that fails: while it makes its outputs, at the PDF, or at the SVG.
inductive Stopped (w v : World) : Prop
  | early : (outputs host s job).outcome w = (.error stop, v) → Stopped w v
  | pdf : (outputs host s job).outcome w = (.ok (), v) → Blocked host job v.tree ".tmp.pdf" ".pdf" →
    Stopped w v
  | svg : job.svg → (outputs host s job).outcome w = (.ok (), u) →
    u.tree.read host.directory (job.path host ".tmp.pdf") = .ok content →
    u.tree.get? (job.place host ".pdf") ≠ some .directory →
    Blocked host job u.tree ".tmp.svg" ".svg" →
    v.tree = u.tree.set (job.place host ".pdf") (.file content) → Stopped w v

end Statements

theorem unchanged_iff_places {host : Host} {job : Job} {before after : FileTree} :
    Unchanged host job before after ↔
      after.get? (job.place host ".pdf") = before.get? (job.place host ".pdf") ∧
        after.get? (job.place host ".svg") = before.get? (job.place host ".svg") := by
  simp [Unchanged, Job.finals]

-- A file that is there is not touched by the making of the cache directory.
theorem get?_opened_of_file {host : Host} {job : Job} {tree : FileTree} {place : Location}
    {content : Bytes} (h : tree.get? place = some (.file content)) :
    (opened host job tree).get? place = some (.file content) := by
  unfold opened
  split
  case isTrue  => exact h
  case isFalse =>
    cases FileTree.grownAt_makeAll
    case inl he => exact he.trans h
    case inr he => exact nomatch he.left.symm.trans h

section Outputs

variable {host : Host} {s : Settings} {job : Job} {w u : World} {final : Location}

theorem Job.ne_source_of_mem_finals (h : final ∈ job.finals host) :
    final ≠ job.place host ".tmp.tex" := by
  intro he
  simp only [finals, List.mem_cons, List.not_mem_nil, or_false] at h
  cases h
  case inl h => exact absurd ((place_inj (by decide) (by decide)).mp (h.symm.trans he)) (by decide)
  case inr h => exact absurd ((place_inj (by decide) (by decide)).mp (h.symm.trans he)) (by decide)

-- What is done in the cache directory once it is there.
def fill (host : Host) (s : Settings) (job : Job) : Step Unit := do
  changing .writeSource fun tree =>
    tree.write host.directory (job.path host ".tmp.tex") (Text.encode job.source)
  typeset host s job
  if job.svg then convert host s job (job.directory host)

theorem outputs_of_ne_nil (h : job.cacheDirectory ≠ []) :
    outputs host s job = makingDirectory host (job.directory host) >>= fun _ => fill host s job := by
  simp [outputs, prepare, fill, h]

theorem keeps_fill (hc : Confined host s job) (h : final ∈ job.finals host) :
    (fill host s job).Keeps final := by
  have hw := Step.Keeps.writing (Text.encode job.source) (by decide)
    (Job.ne_source_of_mem_finals h)
  have ht : (typeset host s job).Keeps final :=
    .producing fun hr => hc _ List.mem_cons_self hr final h
  have hs : (convert host s job (job.directory host)).Keeps final :=
    .producing fun hr => hc _ (.tail _ List.mem_cons_self) hr final h
  refine .bind hw (.bind ht ?_)
  split
  case isTrue  => exact hs
  case isFalse => exact .pure ()

-- Before anything is published, nothing but the making of the cache directory can change what stands
-- where the final artifacts are.
theorem get?_outputs (hc : Confined host s job) (h : final ∈ job.finals host) (w : World) :
    ((outputs host s job).outcome w).2.tree.get? final = (opened host job w.tree).get? final := by
  unfold opened
  split
  case isTrue hd  => simp [outputs, prepare, hd]
  case isFalse hd =>
    rw [outputs_of_ne_nil hd, Step.Keeps.get?_bind (keeps_fill hc h), tree_makingDirectory]

end Outputs

section Failing

variable {host : Host} {s : Settings} {patience : Nat} {job : Job} {w u v : World} {stop : Stop}
variable {e e' : String} {content : Bytes} {f : Failure}

theorem blocked_of_publish_eq_error (h : Path.Ending e.toList) (h' : Path.Ending e'.toList)
    (hp : (publish host (job.path host e) (job.path host e')).outcome w = (.error stop, v)) :
    Blocked host job w.tree e e' ∧ v = w := by
  have ⟨_, _, _, hv⟩ := changing_eq_error_iff.mp hp
  refine ⟨?_, hv⟩
  by_cases hd : w.tree.get? (job.place host e') = some .directory
  case pos => exact .inl hd
  case neg =>
    refine .inr fun content hr => ?_
    exact nomatch hp.symm.trans ((publish_eq_ok_iff h h').mpr ⟨content, hr, hd, rfl⟩)

-- What blocks the SVG has done so before the PDF was published.
theorem Blocked.of_publish
    (hp : (publish host (job.path host ".tmp.pdf") (job.path host ".pdf")).outcome w = (.ok (), v))
    (h : Blocked host job v.tree ".tmp.svg" ".svg") : Blocked host job w.tree ".tmp.svg" ".svg" := by
  have ⟨_, hr, hd, hv⟩ := (publish_eq_ok_iff (by decide) (by decide)).mp hp
  cases h
  case inl h =>
    rw [hv, Job.get?_set_place (by decide) (by decide), if_neg (by decide)] at h
    exact .inl h
  case inr h =>
    refine .inr fun content hr' => h content ?_
    exact (read_of_publish (by decide) (by decide) (by decide) (by decide) hp).mpr hr'

theorem Stopped.of_compile (h : (compile host s job).outcome w = (.error stop, v)) :
    Stopped host s job w v := by
  cases compile_eq_error_iff.mp h
  case inl h => exact .early h
  case inr h =>
    have ⟨u, ho, h⟩ := h
    cases outcome_bind_eq_error_iff.mp h
    case inl hp =>
      have ⟨hb, hv⟩ := blocked_of_publish_eq_error (by decide) (by decide) hp
      cases hv
      exact .pdf ho hb
    case inr h =>
      have ⟨u', hp, h⟩ := h
      have ⟨content, hr, hd, hu⟩ := (publish_eq_ok_iff (by decide) (by decide)).mp hp
      split at h
      case isFalse   => cases h
      case isTrue hs =>
        have ⟨hb, hv⟩ := blocked_of_publish_eq_error (by decide) (by decide) h
        cases hv
        cases hu
        exact .svg hs ho hr hd (.of_publish hp hb) rfl

variable (hc : Confined host s job)
include hc

theorem unchanged_outputs_iff (ho : (outputs host s job).outcome w = (r, v)) :
    Unchanged host job w.tree v.tree ↔ Unchanged host job w.tree (opened host job w.tree) := by
  have hf {final : Location} (h : final ∈ job.finals host) := get?_outputs hc h w
  rw [ho] at hf
  exact forall₂_congr fun final h => by rw [hf h]

theorem unchanged_iff_of_stopped (h : Stopped host s job w v) :
    Unchanged host job w.tree v.tree ↔
      Unchanged host job w.tree (opened host job w.tree) ∧ ¬Torn host s job w := by
  cases h
  case early ho =>
    rw [unchanged_outputs_iff hc ho, iff_self_and]
    intro _ ht
    cases ht
    case intro ho' _ _ _ _ => exact nomatch ho.symm.trans ho'
  case pdf ho hb =>
    rw [unchanged_outputs_iff hc ho, iff_self_and]
    intro _ ht
    cases ht
    case intro ho' hr hd _ _ =>
      cases ho.symm.trans ho'
      exact hb.elim hd fun h => h _ hr
  case svg u content hs ho hr hd hb hv =>
    have hp : v.tree.get? (job.place host ".pdf") = some (.file content) := by
      rw [hv, Job.get?_set_place (by decide) (by decide), if_pos rfl]
    have hs' : v.tree.get? (job.place host ".svg") = u.tree.get? (job.place host ".svg") := by
      rw [hv, Job.get?_set_place (by decide) (by decide), if_neg (by decide)]
    rw [← unchanged_outputs_iff hc ho, unchanged_iff_places, unchanged_iff_places, hp, hs']
    constructor
    case mp =>
      intro ⟨hwp, hws⟩
      have hu : u.tree.get? (job.place host ".pdf") = some (.file content) := by
        have hf := get?_outputs hc List.mem_cons_self w
        rw [ho] at hf
        exact hf.trans (get?_opened_of_file hwp.symm)
      refine ⟨⟨hu.trans hwp, hws⟩, fun ht => ?_⟩
      cases ht
      case intro ho' hr' _ hn _ =>
        cases ho.symm.trans ho'
        cases hr.symm.trans hr'
        exact hn hu
    case mpr =>
      intro ⟨⟨hwp, hws⟩, ht⟩
      refine ⟨?_, hws⟩
      refine Classical.byContradiction fun hn => ht (.intro hs ho hr hd ?_ hb)
      exact fun hu => hn (hu.symm.trans hwp)

theorem unchanged_iff (hr : run host s patience job w = (some (.error f), v)) :
    Unchanged host job w.tree v.tree ↔
      Unchanged host job w.tree (opened host job w.tree) ∧ ¬Torn host s job w := by
  have ⟨_, h, _⟩ := run_eq_error_iff.mp hr
  exact unchanged_iff_of_stopped hc (.of_compile h)

end Failing

section Shelf

def sample : Job :=
  ⟨['x'], "job".toList, "cache".toList, true⟩

-- A directory stands where the SVG of the sample is to be published, and an earlier PDF is there.
def shelf : World :=
  ⟨⟨[(["cache".toList], .directory), (["cache".toList, "job.svg".toList], .directory),
    (["cache".toList, "job.pdf".toList], .file [1])]⟩, []⟩

-- A host that has no programs.
def bare : Host :=
  ⟨[], fun _ _ _ => .error .notFound, 1⟩

-- A host whose programs make the outputs of the sample.
def press : Host where
  directory := []
  width     := 1
  programs _ place tree :=
    .ok ⟨(tree.set (place ++ ["job.tmp.pdf".toList]) (.file [2])).set
      (place ++ ["job.tmp.svg".toList]) (.file [3]), [], .exited 0⟩

theorem run_bare_shelf :
    (run bare (.withCacheDirectory "cache".toList) 0 sample shelf).1 =
      some (.error (.start "pdflatex".toList .notFound "/cache/job.tmp.log".toList)) := by
  decide +kernel

theorem outputs_bare_shelf :
    ((outputs bare (.withCacheDirectory "cache".toList) sample).outcome shelf).1.isOk = false := by
  decide +kernel

theorem run_press_shelf :
    (run press (.withCacheDirectory "cache".toList) 0 sample shelf).1 =
      some (.error (.files .copyArtifact .isADirectory)) := by
  decide +kernel

theorem get?_run_press_shelf :
    (run press (.withCacheDirectory "cache".toList) 0 sample shelf).2.tree.get? (sample.place press ".pdf") =
      some (.file [2]) := by
  decide +kernel

theorem confined_press (s : Settings) : Confined press s sample := by
  intro _ _ place tree _ h final hf
  have he : sample.finals press =
    [["cache".toList, "job.pdf".toList], ["cache".toList, "job.svg".toList]] := by decide
  have hl : final.getLast? ∈ [some "job.pdf".toList, some "job.svg".toList] := by
    rw [he] at hf
    exact List.mem_map_of_mem (f := List.getLast?) hf
  have hn {name : Text} (h : some name ∉ [some "job.pdf".toList, some "job.svg".toList]) :
      final ≠ place ++ [name] := by
    intro he
    rw [he, List.getLast?_concat] at hl
    exact h hl
  cases h
  rw [FileTree.get?_set _ _ _ _ (List.concat_ne_nil _ _), if_neg (hn (by decide)),
    FileTree.get?_set _ _ _ _ (List.concat_ne_nil _ _), if_neg (hn (by decide))]

theorem unchanged_without_programs :
    ∃ f v, run bare (.withCacheDirectory "cache".toList) 0 sample shelf = (some (.error f), v) ∧
      Unchanged bare sample shelf.tree v.tree := by
  have hc : Confined bare (.withCacheDirectory "cache".toList) sample := fun _ _ _ _ _ h => nomatch h
  refine ⟨_, _, Prod.ext run_bare_shelf rfl, (unchanged_iff hc (Prod.ext run_bare_shelf rfl)).mpr ⟨?_, ?_⟩⟩
  case refine_1 => exact unchanged_iff_places.mpr ⟨by decide +kernel, by decide +kernel⟩
  case refine_2 =>
    intro ht
    cases ht
    case intro ho _ _ _ _ =>
      have he := outputs_bare_shelf
      rw [ho] at he
      contradiction

theorem changed_by_failure :
    ¬∀ host s patience job w f v, Confined host s job →
      run host s patience job w = (some (.error f), v) → Unchanged host job w.tree v.tree := by
  intro h
  have hu := h press _ 0 sample shelf _ _ (confined_press _) (Prod.ext run_press_shelf rfl)
  have hp := (unchanged_iff_places.mp hu).left
  exact absurd (get?_run_press_shelf.symm.trans hp) (by decide)

end Shelf
end TikzPress.Compilation
