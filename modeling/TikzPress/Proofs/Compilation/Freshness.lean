import Mathlib.Data.List.Basic
import TikzPress.Proofs.Compilation.Stages

/-!
Whether the artifacts of a compilation are made by its own calls. A program that ends well is taken to
have made its output if anything stands there, also if that was left by an earlier compilation. Main
statement: the artifacts are fresh exactly if no program that ends well without touching its output has
found something there, and no converter changes the PDF that it converts (`fresh_iff`).
-/

namespace TikzPress.Compilation

-- Which paths a program touches when it runs. At those that it does not touch it leaves everything as
-- it is.
structure Record (host : Host) where
  touches : Execution → Text → Prop
  keeps   : ∀ {x : Execution} {path : Text}, host.programs x.call x.place x.before = .ok x.effect →
    ¬touches x path → x.effect.tree.lookUp host.directory path = x.before.lookUp host.directory path

namespace Record

-- The record of nothing but the changes. There is one for every host.
def changes (host : Host) : Record host where
  touches x path := ¬x.effect.tree.lookUp host.directory path = x.before.lookUp host.directory path
  keeps _ h      := Classical.not_not.mp h

variable {host : Host}

structure Wrote (record : Record host) (x : Execution) (path : Text) : Prop where
  touched : record.touches x path
  left    : ∃ entry, x.effect.tree.lookUp host.directory path = .ok entry

-- Nothing has stood there before unless the program touches it, and if it does but leaves nothing, then
-- nothing else is in the way there.
structure Clear (record : Record host) (x : Execution) (path : Text) : Prop where
  untouched : ¬record.touches x path → x.before.lookUp host.directory path = .error .notFound
  removed   : record.touches x path →
    (∃ entry, x.effect.tree.lookUp host.directory path = .ok entry) ∨
      x.effect.tree.lookUp host.directory path = .error .notFound

variable {record : Record host} {x : Execution} {path : Text}

theorem Wrote.clear (h : record.Wrote x path) : record.Clear x path where
  untouched hn := absurd h.touched hn
  removed _    := .inl h.left

theorem Clear.notFound (hr : host.programs x.call x.place x.before = .ok x.effect)
    (h : record.Clear x path) (hw : ¬record.Wrote x path) :
    x.effect.tree.lookUp host.directory path = .error .notFound := by
  by_cases ht : record.touches x path
  case pos => exact (h.removed ht).resolve_left fun hl => hw ⟨ht, hl⟩
  case neg => exact (record.keeps hr ht).trans (h.untouched ht)

theorem clear_of_notFound (hr : host.programs x.call x.place x.before = .ok x.effect)
    (h : x.effect.tree.lookUp host.directory path = .error .notFound) : record.Clear x path where
  untouched ht := (record.keeps hr ht).symm.trans h
  removed _    := .inr h

theorem clear_iff (hr : host.programs x.call x.place x.before = .ok x.effect) :
    record.Clear x path ↔
      (¬record.Wrote x path → x.effect.tree.lookUp host.directory path = .error .notFound) where
  mp h  := h.notFound hr
  mpr h := (Classical.em (record.Wrote x path)).elim Wrote.clear fun hw => clear_of_notFound hr (h hw)

theorem Clear.wrote (hr : host.programs x.call x.place x.before = .ok x.effect)
    (h : record.Clear x path)
    (hl : ∃ entry, x.effect.tree.lookUp host.directory path = .ok entry) : record.Wrote x path := by
  refine Classical.byContradiction fun hw => ?_
  have ⟨_, hl⟩ := hl
  exact nomatch hl.symm.trans (h.notFound hr hw)

end Record

section Calls

variable (host : Host) (s : Settings) (job : Job) (w : World)

-- The call of the engine in a compilation.
inductive EngineRuns (x : Execution) : Prop
  | intro : (prepare host job).outcome w = (.ok (), v) →
    x.Of host (job.directory host) (job.engineCall host s) v.tree → EngineRuns x

-- The call of the engine, and that of the converter on what the engine has left.
inductive ConverterRuns (x y : Execution) : Prop
  | intro : job.svg → EngineRuns host s job w x → x.effect.ending = .exited 0 →
    x.effect.tree.lookUp host.directory (job.path host ".tmp.pdf") = .ok entry →
    y.Of host (job.directory host) (job.converterCall host s) x.effect.tree → ConverterRuns x y

end Calls

section Statements

variable {host : Host} (record : Record host)

-- A program has ended well and written its output, and its bytes are those of another file at last.
structure Record.Delivers (x : Execution) (output : Text) (last : FileTree) (target : Text) : Prop where
  ended : x.effect.ending = .exited 0
  wrote : record.Wrote x output
  bytes : ∃ content, x.effect.tree.read host.directory output = .ok content ∧
    last.read host.directory target = .ok content

variable (s : Settings) (patience : Nat) (job : Job) (w : World)

structure Fresh : Prop where
  pdf : ∀ {artifacts v}, run host s patience job w = (some (.ok artifacts), v) →
    ∃ x, EngineRuns host s job w x ∧
      record.Delivers x (job.path host ".tmp.pdf") v.tree (job.path host ".pdf")
  svg : ∀ {artifacts v}, run host s patience job w = (some (.ok artifacts), v) → job.svg →
    ∃ x y, ConverterRuns host s job w x y ∧
      record.Delivers y (job.path host ".tmp.svg") v.tree (job.path host ".svg")
  missing_pdf : ∀ {x}, EngineRuns host s job w x → x.effect.ending = .exited 0 →
    ¬record.Wrote x (job.path host ".tmp.pdf") →
    ∃ v, run host s patience job w =
      (some (.error (.missing s.enginePath (job.path host ".tmp.pdf") (job.path host ".tmp.log"))), v)
  missing_svg : ∀ {x y}, ConverterRuns host s job w x y → y.effect.ending = .exited 0 →
    ¬record.Wrote y (job.path host ".tmp.svg") →
    ∃ v, run host s patience job w =
      (some (.error (.missing s.svgToolPath (job.path host ".tmp.svg") (job.path host ".tmp.log"))), v)

-- A program that ends well has found nothing at an output that it does not touch, and the PDF is not
-- changed by what converts it.
structure Unspoiled : Prop where
  pdf : ∀ {x}, EngineRuns host s job w x → x.effect.ending = .exited 0 →
    record.Clear x (job.path host ".tmp.pdf")
  svg : ∀ {x y}, ConverterRuns host s job w x y → y.effect.ending = .exited 0 →
    record.Clear y (job.path host ".tmp.svg")
  kept : ∀ {artifacts v x y}, run host s patience job w = (some (.ok artifacts), v) →
    ConverterRuns host s job w x y →
    y.effect.tree.read host.directory (job.path host ".tmp.pdf") =
      x.effect.tree.read host.directory (job.path host ".tmp.pdf")

end Statements

section Calls

variable {host : Host} {s : Settings} {job : Job} {w v u : World} {x y x' y' : Execution}

theorem EngineRuns.unique (h : EngineRuns host s job w x) (h' : EngineRuns host s job w x') :
    x = x' := by
  cases h
  case intro hp hx =>
    cases h'
    case intro hp' hx' =>
      cases hp.symm.trans hp'
      exact hx.unique hx'

theorem ConverterRuns.unique (h : ConverterRuns host s job w x y)
    (h' : ConverterRuns host s job w x' y') : y = y' := by
  cases h
  case intro hx _ _ hy =>
    cases h'
    case intro hx' _ _ hy' =>
      cases hx.unique hx'
      exact hy.unique hy'

theorem exists_runs_of_outputs (h : (outputs host s job).outcome w = (.ok (), u)) :
    ∃ x, EngineRuns host s job w x ∧ x.effect.ending = .exited 0 ∧
      (∃ entry, x.effect.tree.lookUp host.directory (job.path host ".tmp.pdf") = .ok entry) ∧
      if job.svg then
        ∃ y, ConverterRuns host s job w x y ∧ y.effect.ending = .exited 0 ∧
          (∃ entry, y.effect.tree.lookUp host.directory (job.path host ".tmp.svg") = .ok entry) ∧
          u.tree = y.effect.tree
      else u.tree = x.effect.tree := by
  have ⟨_, hp, _, ht, hc⟩ := outputs_eq_ok_iff.mp h
  have ⟨x, hx, he, hf, hu⟩ := producing_eq_ok_iff.mp ht
  have hr : EngineRuns host s job w x := .intro hp hx
  cases hu
  refine ⟨x, hr, he, hf, ?_⟩
  split at hc
  case isFalse hs =>
    cases hc
    rw [if_neg hs]
  case isTrue hs =>
    have ⟨_, hf⟩ := hf
    have ⟨y, hy, he', hf', hu'⟩ := producing_eq_ok_iff.mp (convert_eq host s job ▸ hc)
    cases hu'
    rw [if_pos hs]
    exact ⟨y, .intro hs hr he hf hy, he', hf', rfl⟩

variable {patience : Nat}

-- The engine is said to have made no output exactly if nothing stands there when it has ended well.
theorem EngineRuns.missing_iff (h : EngineRuns host s job w x) :
    (∃ v, run host s patience job w = (some (.error
      (.missing s.enginePath (job.path host ".tmp.pdf") (job.path host ".tmp.log"))), v)) ↔
    x.effect.ending = .exited 0 ∧
      x.effect.tree.lookUp host.directory (job.path host ".tmp.pdf") = .error .notFound := by
  cases h
  case intro u hp hx =>
    simp only [run_eq_missing_iff]
    constructor
    case mp =>
      intro ⟨_, _, hp', h⟩
      cases hp.symm.trans hp'
      cases h
      case inl h =>
        have ⟨_, hx', he, hf, _⟩ := producing_eq_missing_iff.mp h
        cases hx.unique hx'
        exact ⟨he, hf⟩
      case inr h =>
        have ⟨_, _, _, h⟩ := h
        have ⟨_, _, _, _, _, ho, _⟩ := producing_eq_missing_iff.mp (convert_eq host s job ▸ h)
        exact absurd ((Job.path_inj (by decide) (by decide)).mp ho) (by decide)
    case mpr =>
      intro ⟨he, hf⟩
      exact ⟨_, u, hp, .inl (producing_eq_missing_iff.mpr ⟨x, hx, he, hf, rfl, rfl, rfl, rfl⟩)⟩

theorem ConverterRuns.missing_iff (h : ConverterRuns host s job w x y) :
    (∃ v, run host s patience job w = (some (.error
      (.missing s.svgToolPath (job.path host ".tmp.svg") (job.path host ".tmp.log"))), v)) ↔
    y.effect.ending = .exited 0 ∧
      y.effect.tree.lookUp host.directory (job.path host ".tmp.svg") = .error .notFound := by
  cases h
  case intro hs hr he hf hy =>
    cases hr
    case intro u hp hx =>
      have ht : (typeset host s job).outcome u =
          (.ok (), ⟨x.effect.tree, u.calls ++ [job.engineCall host s]⟩) :=
        producing_eq_ok_iff.mpr ⟨x, hx, he, ⟨_, hf⟩, rfl⟩
      simp only [run_eq_missing_iff]
      constructor
      case mp =>
        intro ⟨_, _, hp', h⟩
        cases hp.symm.trans hp'
        cases h
        case inl h => exact nomatch ht.symm.trans h
        case inr h =>
          have ⟨_, ht', _, h⟩ := h
          cases ht.symm.trans ht'
          have ⟨_, hy', he', hf', _⟩ := producing_eq_missing_iff.mp (convert_eq host s job ▸ h)
          cases hy.unique hy'
          exact ⟨he', hf'⟩
      case mpr =>
        intro ⟨he', hf'⟩
        exact ⟨_, u, hp, .inr ⟨_, ht, hs,
          producing_eq_missing_iff.mpr ⟨y, hy, he', hf', rfl, rfl, rfl, rfl⟩⟩⟩

theorem EngineRuns.ran (h : EngineRuns host s job w x) :
    host.programs x.call x.place x.before = .ok x.effect :=
  match h with
  | .intro _ hx => hx.ran_before

theorem ConverterRuns.ran (h : ConverterRuns host s job w x y) :
    host.programs y.call y.place y.before = .ok y.effect :=
  match h with
  | .intro _ _ _ _ hy => hy.ran_before

theorem ConverterRuns.svg (h : ConverterRuns host s job w x y) : job.svg :=
  match h with
  | .intro hs _ _ _ _ => hs

theorem ConverterRuns.engine (h : ConverterRuns host s job w x y) : EngineRuns host s job w x :=
  match h with
  | .intro _ hx _ _ _ => hx

end Calls

section Freshness

variable {host : Host} {record : Record host} {s : Settings} {patience : Nat} {job : Job} {w v : World}
variable {x y : Execution} {artifacts : Artifacts}

namespace Fresh

variable (h : Fresh record s patience job w)
include h

theorem clear_pdf (hx : EngineRuns host s job w x) (he : x.effect.ending = .exited 0) :
    record.Clear x (job.path host ".tmp.pdf") :=
  (Record.clear_iff hx.ran).mpr fun hw => (hx.missing_iff.mp (h.missing_pdf hx he hw)).right

theorem clear_svg (hy : ConverterRuns host s job w x y) (he : y.effect.ending = .exited 0) :
    record.Clear y (job.path host ".tmp.svg") :=
  (Record.clear_iff hy.ran).mpr fun hw => (hy.missing_iff.mp (h.missing_svg hy he hw)).right

-- The bytes of the PDF are those that the engine has written and those that the converter has left.
theorem kept (hr : run host s patience job w = (some (.ok artifacts), v))
    (hy : ConverterRuns host s job w x y) :
    y.effect.tree.read host.directory (job.path host ".tmp.pdf") =
      x.effect.tree.read host.directory (job.path host ".tmp.pdf") := by
  have ⟨_, ho, hp, _⟩ := compile_eq_ok_iff.mp (run_eq_ok_iff.mp hr)
  have ⟨_, _, _, _, hc⟩ := exists_runs_of_outputs ho
  rw [if_pos hy.svg] at hc
  have ⟨_, hy', _, _, hu⟩ := hc
  cases hy.unique hy'
  have ⟨⟨_, hl, hv⟩, _⟩ := reads_of_publishAll hp
  have ⟨_, hx, hd⟩ := h.pdf hr
  cases hx.unique hy.engine
  have ⟨_, hl', hv'⟩ := hd.bytes
  cases hv.symm.trans hv'
  rw [← hu, hl, hl']

end Fresh

namespace Unspoiled

variable (h : Unspoiled record s patience job w)
include h

theorem delivers_pdf (hr : run host s patience job w = (some (.ok artifacts), v)) :
    ∃ x, EngineRuns host s job w x ∧
      record.Delivers x (job.path host ".tmp.pdf") v.tree (job.path host ".pdf") := by
  have ⟨_, ho, hp, _⟩ := compile_eq_ok_iff.mp (run_eq_ok_iff.mp hr)
  have ⟨x, hx, he, hf, hc⟩ := exists_runs_of_outputs ho
  have ⟨⟨content, hl, hv⟩, _⟩ := reads_of_publishAll hp
  refine ⟨x, hx, he, (h.pdf hx he).wrote hx.ran hf, content, ?_, hv⟩
  split at hc
  case isFalse => exact hc ▸ hl
  case isTrue  =>
    have ⟨_, hy, _, _, hu⟩ := hc
    rw [← h.kept hr hy, ← hu, hl]

theorem delivers_svg (hr : run host s patience job w = (some (.ok artifacts), v)) (hs : job.svg) :
    ∃ x y, ConverterRuns host s job w x y ∧
      record.Delivers y (job.path host ".tmp.svg") v.tree (job.path host ".svg") := by
  have ⟨_, ho, hp, _⟩ := compile_eq_ok_iff.mp (run_eq_ok_iff.mp hr)
  have ⟨x, _, _, _, hc⟩ := exists_runs_of_outputs ho
  rw [if_pos hs] at hc
  have ⟨y, hy, he, hf, hu⟩ := hc
  have ⟨content, hl, hv⟩ := (reads_of_publishAll hp).right hs
  exact ⟨x, y, hy, he, (h.svg hy he).wrote hy.ran hf, content, hu ▸ hl, hv⟩

theorem missing_pdf (hx : EngineRuns host s job w x) (he : x.effect.ending = .exited 0)
    (hw : ¬record.Wrote x (job.path host ".tmp.pdf")) :
    ∃ v, run host s patience job w = (some (.error
      (.missing s.enginePath (job.path host ".tmp.pdf") (job.path host ".tmp.log"))), v) :=
  hx.missing_iff.mpr ⟨he, (h.pdf hx he).notFound hx.ran hw⟩

theorem missing_svg (hy : ConverterRuns host s job w x y) (he : y.effect.ending = .exited 0)
    (hw : ¬record.Wrote y (job.path host ".tmp.svg")) :
    ∃ v, run host s patience job w = (some (.error
      (.missing s.svgToolPath (job.path host ".tmp.svg") (job.path host ".tmp.log"))), v) :=
  hy.missing_iff.mpr ⟨he, (h.svg hy he).notFound hy.ran hw⟩

end Unspoiled

theorem fresh_iff (record : Record host) (s : Settings) (patience : Nat) (job : Job) (w : World) :
    Fresh record s patience job w ↔ Unspoiled record s patience job w where
  mp h  := ⟨h.clear_pdf, h.clear_svg, h.kept⟩
  mpr h := ⟨h.delivers_pdf, h.delivers_svg, h.missing_pdf, h.missing_svg⟩

end Freshness

-- A host whose programs end well but do nothing.
def idle : Host :=
  ⟨[], fun _ _ tree => .ok ⟨tree, [], .exited 0⟩, 1⟩

-- Such a program is taken to have made what an earlier compilation has left.
theorem run_idle_leftover :
    (run idle (.withCacheDirectory "cache".toList) 0 ⟨['x'], "job".toList, "cache".toList, false⟩
      ⟨⟨[(["cache".toList], .directory), (["cache".toList, "job.tmp.pdf".toList], .file [1])]⟩, []⟩).1 =
      some (.ok ⟨"/cache/job.pdf".toList, none, "/cache/job.tmp.log".toList⟩) := by
  decide +kernel

theorem not_fresh_of_leftover :
    ¬∀ (host : Host) (record : Record host) s patience job w, Fresh record s patience job w := by
  intro h
  have ⟨x, hx, hd⟩ := (h idle (.changes idle) _ _ _ _).pdf (Prod.ext run_idle_leftover rfl)
  have he : x.effect.tree = x.before := congrArg Effect.tree (Except.ok.inj hx.ran.symm)
  exact hd.wrote.touched (he ▸ rfl)

end TikzPress.Compilation
