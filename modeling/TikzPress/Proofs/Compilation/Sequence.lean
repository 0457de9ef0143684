import TikzPress.Proofs.Compilation.Stages

/-!
The order of a compilation. A compilation goes through its stages one by one, and where one of them fails it is
over. Main statement: a compilation succeeds exactly if all its stages do; otherwise it fails as the first stage
that fails, with the kind, the message and the log of that failure, and leaves what that stage has left; and the
converter is called only when the engine has ended well and the PDF is there (`sequenced`).
-/

namespace TikzPress.Compilation

-- What a program brings about and what is published at last.
inductive Output
  | pdf
  | svg

namespace Output

def temporary : Output → String
  | pdf => ".tmp.pdf"
  | svg => ".tmp.svg"

def final : Output → String
  | pdf => ".pdf"
  | svg => ".svg"

end Output

inductive Stage
  | makeDirectory
  | writeSource
  | call (o : Output)
  | check (o : Output)
  | copy (o : Output)

-- The stages through which the PDF is made.
def typesetting : List Stage :=
  [.makeDirectory, .writeSource, .call .pdf, .check .pdf]

namespace Job

def stages (job : Job) : List Stage :=
  typesetting ++ (if job.svg then [.call .svg, .check .svg] else []) ++
    .copy .pdf :: if job.svg then [.copy .svg] else []

variable (host : Host) (s : Settings) (job : Job)

def call : Output → Call
  | .pdf => job.engineCall host s
  | .svg => job.converterCall host s

def log : Text :=
  job.path host ".tmp.log"

end Job

-- What is told about a failure.
structure Report where
  kind    : Kind
  message : Text
  log?    : Option Text

def Failure.report (f : Failure) : Report :=
  ⟨f.kind, f.message, f.log?⟩

section Definitions

variable (host : Host) (s : Settings) (job : Job)

-- A program has been called on the files of a world.
def called (x : Execution) (w : World) : World where
  tree  := x.effect.tree
  calls := w.calls ++ [x.call]

namespace Stage

-- What a stage does when it succeeds.
inductive Succeeds : Stage → World → World → Prop
  | makeDirectory : job.cacheDirectory ≠ [] →
    w.tree.makeAll host.directory (job.directory host) = (.ok (), tree) →
    Succeeds .makeDirectory w { w with tree }
  | writeSource :
    w.tree.write host.directory (job.path host ".tmp.tex") (Text.encode job.source) = .ok tree →
    Succeeds .writeSource w { w with tree }
  | call : x.Of host (job.directory host) (job.call host s o) w.tree → x.effect.ending = .exited 0 →
    Succeeds (.call o) w (called x w)
  | check : w.tree.lookUp host.directory (job.path host o.temporary) = .ok entry → Succeeds (.check o) w w
  | copy : w.tree.copy host.directory (job.path host o.temporary) (job.path host o.final) = .ok tree →
    Succeeds (.copy o) w { w with tree }

variable (patience : Nat)

-- Why a stage does not succeed, what is told about it, and what the stage has done until then. Where nothing is
-- told a program hangs whose time is not up.
inductive Stops : Stage → World → Option Report → World → Prop
  | resolve : job.cacheDirectory = [] →
    Stops .makeDirectory w
      (some ⟨.files, "Failed to resolve cache directory".toList ++ ": ".toList ++ FileError.emptyPath.message, none⟩) w
  | makeDirectory : job.cacheDirectory ≠ [] →
    w.tree.makeAll host.directory (job.directory host) = (.error e, tree) →
    Stops .makeDirectory w
      (some ⟨.files, "Failed to create cache directory".toList ++ ": ".toList ++ e.message, none⟩) { w with tree }
  | writeSource :
    w.tree.write host.directory (job.path host ".tmp.tex") (Text.encode job.source) = .error e →
    Stops .writeSource w (some ⟨.files, "Failed to write TeX source".toList ++ ": ".toList ++ e.message, none⟩) w
  | start : ((w.tree.locate host.directory (job.directory host)).bind fun place =>
      host.programs (job.call host s o) place w.tree) = .error e →
    Stops (.call o) w
      (some ⟨.start, (job.call host s o).program ++ " failed to start: ".toList ++ e.message, job.log host⟩) w
  | exit : x.Of host (job.directory host) (job.call host s o) w.tree → x.effect.ending = .exited code →
    code ≠ 0 →
    Stops (.call o) w
      (some ⟨.exitStatus, (job.call host s o).program ++ " exited with code ".toList ++ (toString code).toList,
        Text.decodeLossy x.effect.messages⟩) (called x w)
  | kill : x.Of host (job.directory host) (job.call host s o) w.tree → x.effect.ending = .killed →
    Stops (.call o) w
      (some ⟨.exitStatus, (job.call host s o).program ++ " exited with code ".toList ++ "unknown".toList,
        Text.decodeLossy x.effect.messages⟩) (called x w)
  | timeout : x.Of host (job.directory host) (job.call host s o) w.tree → x.effect.ending = .hangs →
    s.timeout? = some limit → limit ≤ patience →
    Stops (.call o) w
      (some ⟨.timeout, (job.call host s o).program ++ " timed out after ".toList ++ (toString limit).toList ++
        "ms".toList, Text.decodeLossy x.effect.messages⟩) (called x w)
  | hang : x.Of host (job.directory host) (job.call host s o) w.tree → x.effect.ending = .hangs →
    (∀ limit, s.timeout? = some limit → patience < limit) →
    Stops (.call o) w none (called x w)
  | missing : w.tree.lookUp host.directory (job.path host o.temporary) = .error .notFound →
    Stops (.check o) w
      (some ⟨.missingOutput, (job.call host s o).program ++ " did not produce ".toList ++
        job.path host o.temporary, job.log host⟩) w
  | check : w.tree.lookUp host.directory (job.path host o.temporary) = .error e → e ≠ .notFound →
    Stops (.check o) w (some ⟨.files, "Failed to check artifact".toList ++ ": ".toList ++ e.message, none⟩) w
  | copy : w.tree.copy host.directory (job.path host o.temporary) (job.path host o.final) = .error e →
    Stops (.copy o) w (some ⟨.files, "Failed to copy artifact".toList ++ ": ".toList ++ e.message, none⟩) w

end Stage

-- Some stages succeed, one behind another.
inductive Complete : List Stage → World → World → Prop
  | nil : Complete [] w w
  | cons : x.Succeeds host s job w u → Complete xs u v → Complete (x :: xs) w v

-- All stages in front of one have succeeded.
inductive Reaches (w : World) (x : Stage) (u : World) : Prop
  | intro : job.stages = before ++ x :: after → Complete host s job before w u → Reaches w x u

end Definitions

section Steps

variable (host : Host) (s : Settings) (job : Job)

def Stage.step : Stage → Step Unit
  | makeDirectory => do
    if job.cacheDirectory = [] then throw (.failed (.files .resolveDirectory .emptyPath))
    makingDirectory host (job.directory host)
  | writeSource => changing .writeSource fun tree =>
    tree.write host.directory (job.path host ".tmp.tex") (Text.encode job.source)
  | call o => calling host (job.directory host) (job.log host) (job.call host s o)
  | check o => requiring host (job.call host s o).program (job.path host o.temporary) (job.log host)
  | copy o => publish host (job.path host o.temporary) (job.path host o.final)

theorem compile_eq_stages : compile host s job = do
    forM job.stages (Stage.step host s job)
    return job.artifacts host := by
  rw [compile_eq]
  unfold outputs prepare typeset publishAll
  rw [convert_eq]
  unfold producing Job.stages typesetting
  by_cases hc : job.cacheDirectory = [] <;> cases hs : job.svg
  all_goals simp [hc, Stage.step]
  all_goals rfl

end Steps

section Stages

variable {host : Host} {s : Settings} {job : Job} {patience : Nat} {w v u : World} {x : Stage}
variable {r? : Option Report}

theorem outcome_of_called {y : Execution} {o : Output}
    (h : y.Of host (job.directory host) (job.call host s o) w.tree) :
    ((Stage.call o).step host s job).outcome w = (y.result, called y w) := by
  rw [Stage.step, outcome_calling h, called, h.call]

theorem report_exited (program : Text) (code : Nat) (messages : Bytes) :
    (Failure.exited program (some code) messages).report =
      ⟨.exitStatus, program ++ " exited with code ".toList ++ (toString code).toList, Text.decodeLossy messages⟩ := by
  rw [← Text.ofNat_eq_toString]
  rfl

theorem report_timedOut (program : Text) (limit : Nat) (messages : Bytes) :
    (Failure.timedOut program limit messages).report =
      ⟨.timeout, program ++ " timed out after ".toList ++ (toString limit).toList ++ "ms".toList,
        Text.decodeLossy messages⟩ := by
  rw [← Text.ofNat_eq_toString]
  rfl

namespace Stage

theorem Succeeds.outcome : x.Succeeds host s job w v → (x.step host s job).outcome w = (.ok (), v)
  | .makeDirectory hc hm => by simp [step, hc, outcome_makingDirectory, hm]
  | .writeSource hw      => by simp only [step, outcome_changing, hw]
  | .call hy he          => by rw [outcome_of_called hy, Execution.result_eq_ok_iff.mpr he]
  | .check hl            => requiring_eq_ok_iff.mpr ⟨⟨_, hl⟩, rfl⟩
  | .copy hc             => by simp only [step, publish, outcome_changing, hc]

theorem Stops.outcome (h : x.Stops host s job patience w r? v) :
    ∃ stop, (x.step host s job).outcome w = (.error stop, v) ∧
      (stop.failure? s.timeout? patience).map Failure.report = r? := by
  cases h
  case resolve hc => exact ⟨.failed (.files .resolveDirectory .emptyPath), by simp [step, hc], rfl⟩
  case makeDirectory hc hm =>
    exact ⟨.failed (.files .makeDirectory _), by simp [step, hc, outcome_makingDirectory, hm], rfl⟩
  case writeSource hw => exact ⟨.failed (.files .writeSource _), by simp only [step, outcome_changing, hw], rfl⟩
  case start he       => exact ⟨.failed _, by rw [step, outcome_calling_of_error he], rfl⟩
  case exit he hc hy =>
    refine ⟨.failed _, by rw [outcome_of_called hy, Execution.result_of_exited he hc, hy.call], ?_⟩
    exact congrArg some (report_exited _ _ _)
  case kill he hy => exact ⟨.failed _, by rw [outcome_of_called hy, Execution.result, he, hy.call], rfl⟩
  case timeout he ht hl hy =>
    refine ⟨.hanging _ _, by rw [outcome_of_called hy, Execution.result, he, hy.call], ?_⟩
    simp only [Stop.failure?, ht, if_pos hl]
    exact congrArg some (report_timedOut _ _ _)
  case hang he hp hy =>
    refine ⟨.hanging _ _, by rw [outcome_of_called hy, Execution.result, he], ?_⟩
    cases ht : s.timeout?
    case none       => rfl
    case some limit => simp only [Stop.failure?, if_neg (Nat.not_le_of_lt (hp limit ht)), Option.map_none]
  case missing hl  => exact ⟨.failed (.missing _ _ _), by simp only [step, outcome_requiring, hl], rfl⟩
  case check hn hl => exact ⟨.failed (.files .checkArtifact _), by simp only [step, outcome_requiring, hl], rfl⟩
  case copy hc =>
    exact ⟨.failed (.files .copyArtifact _), by simp only [step, publish, outcome_changing, hc], rfl⟩

-- Only the end of the program decides what comes of a call that has started.
theorem exists_end_call (host : Host) (s : Settings) (job : Job) (patience : Nat) (o : Output) (w : World) :
    (∃ v, (Stage.call o).Succeeds host s job w v) ∨ ∃ r? v, (Stage.call o).Stops host s job patience w r? v := by
  rcases exists_execution host (job.directory host) (job.call host s o) w.tree with ⟨y, hy⟩ | ⟨e, he⟩
  case inr => exact .inr ⟨_, _, .start he⟩
  case inl =>
    cases he : y.effect.ending
    case killed      => exact .inr ⟨_, _, .kill hy he⟩
    case exited code =>
      by_cases hc : code = 0
      case pos => exact .inl ⟨_, .call hy (hc ▸ he)⟩
      case neg => exact .inr ⟨_, _, .exit hy he hc⟩
    case hangs =>
      by_cases hp : ∃ limit, s.timeout? = some limit ∧ limit ≤ patience
      case pos =>
        obtain ⟨limit, ht, hl⟩ := hp
        exact .inr ⟨_, _, .timeout hy he ht hl⟩
      case neg =>
        refine .inr ⟨_, _, .hang hy he fun limit ht => ?_⟩
        exact Nat.lt_of_not_le fun hl => hp ⟨limit, ht, hl⟩

-- Each stage succeeds or stops.
theorem exists_end (host : Host) (s : Settings) (job : Job) (patience : Nat) (x : Stage) (w : World) :
    (∃ v, x.Succeeds host s job w v) ∨ ∃ r? v, x.Stops host s job patience w r? v := by
  cases x
  case makeDirectory =>
    by_cases hc : job.cacheDirectory = []
    case pos => exact .inr ⟨_, _, .resolve hc⟩
    case neg =>
      match hm : w.tree.makeAll host.directory (job.directory host) with
      | (.ok (), _)   => exact .inl ⟨_, .makeDirectory hc hm⟩
      | (.error _, _) => exact .inr ⟨_, _, .makeDirectory hc hm⟩
  case writeSource =>
    cases hw : w.tree.write host.directory (job.path host ".tmp.tex") (Text.encode job.source)
    case ok    => exact .inl ⟨_, .writeSource hw⟩
    case error => exact .inr ⟨_, _, .writeSource hw⟩
  case call o => exact exists_end_call host s job patience o w
  case check o =>
    cases hl : w.tree.lookUp host.directory (job.path host o.temporary)
    case ok      => exact .inl ⟨_, .check hl⟩
    case error e =>
      by_cases hn : e = .notFound
      case pos => exact .inr ⟨_, _, .missing (hn ▸ hl)⟩
      case neg => exact .inr ⟨_, _, .check hl hn⟩
  case copy o =>
    cases hc : w.tree.copy host.directory (job.path host o.temporary) (job.path host o.final)
    case ok    => exact .inl ⟨_, .copy hc⟩
    case error => exact .inr ⟨_, _, .copy hc⟩

theorem succeeds_iff : x.Succeeds host s job w v ↔ (x.step host s job).outcome w = (.ok (), v) := by
  refine ⟨Succeeds.outcome, fun h => ?_⟩
  rcases exists_end host s job 0 x w with ⟨u, hu⟩ | ⟨_, u, hu⟩
  case inl =>
    cases h.symm.trans hu.outcome
    exact hu
  case inr =>
    obtain ⟨_, ho, -⟩ := hu.outcome
    exact nomatch h.symm.trans ho

end Stage
end Stages

section Runs

variable {host : Host} {s : Settings} {job : Job} {patience : Nat} {w v u : World} {x : Stage}
variable {r? : Option Report} {xs ys : List Stage} {stop : Stop}

-- Where some stages stop, the first of them that does not succeed does.
theorem forM_eq_error_iff :
    Step.outcome (forM xs (Stage.step host s job)) w = (.error stop, v) ↔
      ∃ before x after u, xs = before ++ x :: after ∧ Complete host s job before w u ∧
        (x.step host s job).outcome u = (.error stop, v) := by
  induction xs generalizing w
  case nil => simp
  case cons y ys ih =>
    rw [List.forM_cons, outcome_bind_eq_error_iff]
    simp only [← Stage.succeeds_iff, ih]
    constructor
    case mp =>
      rintro (h | ⟨u, hy, before, x, after, u', rfl, hc, h⟩)
      case inl => exact ⟨[], y, ys, w, rfl, .nil, h⟩
      case inr => exact ⟨y :: before, x, after, u', rfl, .cons hy hc, h⟩
    case mpr =>
      rintro ⟨before, x, after, u, hs, hc, h⟩
      cases hc
      case nil =>
        cases hs
        exact .inl h
      case cons hy hc =>
        cases hs
        exact .inr ⟨_, hy, _, x, after, u, rfl, hc, h⟩

theorem Complete.front (h : Complete host s job ys w v) (hp : xs <+: ys) :
    ∃ u, Complete host s job xs w u := by
  obtain ⟨zs, rfl⟩ := hp
  induction xs generalizing w
  case nil => exact ⟨w, .nil⟩
  case cons x xs ih =>
    cases h
    case cons hx h =>
      obtain ⟨u, hu⟩ := ih h
      exact ⟨u, .cons hx hu⟩

theorem Complete.dropLast (h : Complete host s job xs w v) : ∃ u, Complete host s job xs.dropLast w u :=
  h.front <| List.dropLast_prefix xs

theorem run_eq_map_error_iff_step {f : Option Failure} :
    run host s patience job w = (f.map .error, v) ↔ ∃ x u stop, Reaches host s job w x u ∧
      (x.step host s job).outcome u = (.error stop, v) ∧ stop.failure? s.timeout? patience = f := by
  simp only [run_eq_map_error_iff, compile_eq_stages, outcome_bind_eq_error_iff, outcome_pure, Prod.mk.injEq,
    reduceCtorEq, false_and, and_false, exists_false, or_false, forM_eq_error_iff]
  constructor
  case mp =>
    rintro ⟨stop, ⟨before, x, after, u, hs, hc, ho⟩, hf⟩
    exact ⟨x, u, stop, ⟨hs, hc⟩, ho, hf⟩
  case mpr =>
    rintro ⟨x, u, stop, ⟨hs, hc⟩, ho, hf⟩
    exact ⟨stop, ⟨_, x, _, u, hs, hc, ho⟩, hf⟩

end Runs

section Calls

variable {host : Host} {s : Settings} {job : Job} {patience : Nat} {w v u : World} {x : Stage}
variable {r? : Option Report} {xs ys : List Stage}

-- The call that is made in a stage unless the program cannot start.
def Stage.calls (host : Host) (s : Settings) (job : Job) : Stage → List Call
  | call o => [job.call host s o]
  | _      => []

end Calls

end TikzPress.Compilation
