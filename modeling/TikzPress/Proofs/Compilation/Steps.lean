import TikzPress.Compilation

/-!
The steps of a compilation and what each of them can do. Main statements: a call does what its execution does,
and nothing if it cannot start (`outcome_calling`, `outcome_calling_of_error`), and an output is there exactly if
its program has ended well and something stands in its place (`producing_eq_ok_iff`).
-/

namespace TikzPress.Compilation

def Step.outcome (x : Step α) (w : World) : Except Stop α × World :=
  x.run w

section Sequence

variable {x : Step Unit} {f : Unit → Step β} {w v : World} {b : β} {stop : Stop}

@[simp] theorem outcome_pure (b : β) (w : World) : Step.outcome (pure b) w = (.ok b, w) :=
  rfl

@[simp] theorem outcome_throw (stop : Stop) (w : World) :
    Step.outcome (throw stop : Step β) w = (.error stop, w) :=
  rfl

theorem outcome_bind_of_ok (h : x.outcome w = (.ok (), v)) :
    Step.outcome (x >>= f) w = (f ()).outcome v := by
  simp only [Step.outcome, ExceptT.run, bind, ExceptT.bind, ExceptT.mk, StateT.bind] at h ⊢
  rw [h]
  rfl

theorem outcome_bind_of_error (h : x.outcome w = (.error stop, v)) :
    Step.outcome (x >>= f) w = (.error stop, v) := by
  simp only [Step.outcome, ExceptT.run, bind, ExceptT.bind, ExceptT.mk, StateT.bind] at h ⊢
  rw [h]
  rfl

theorem outcome_bind_eq_ok_iff :
    Step.outcome (x >>= f) w = (.ok b, v) ↔
      ∃ u, x.outcome w = (.ok (), u) ∧ (f ()).outcome u = (.ok b, v) := by
  match h : x.outcome w with
  | (.ok (), u)   => simp [outcome_bind_of_ok h]
  | (.error e, u) => simp [outcome_bind_of_error h]

theorem outcome_bind_eq_error_iff :
    Step.outcome (x >>= f) w = (.error stop, v) ↔
      x.outcome w = (.error stop, v) ∨
        ∃ u, x.outcome w = (.ok (), u) ∧ (f ()).outcome u = (.error stop, v) := by
  match h : x.outcome w with
  | (.ok (), u)   => simp [outcome_bind_of_ok h]
  | (.error e, u) => simp [outcome_bind_of_error h]

end Sequence

-- A call of a program that could start: where and on which files it did, and what it did.
structure Execution where
  call   : Call
  place  : Location
  before : FileTree
  effect : Effect

namespace Execution

structure Of (x : Execution) (host : Host) (directory : Text) (c : Call) (tree : FileTree) : Prop where
  call    : x.call = c
  before  : x.before = tree
  located : tree.locate host.directory directory = .ok x.place
  ran     : host.programs c x.place tree = .ok x.effect

theorem Of.unique {x y : Execution} {host : Host} {directory : Text} {c : Call} {tree : FileTree}
    (hx : x.Of host directory c tree) (hy : y.Of host directory c tree) : x = y := by
  have hp : x.place = y.place := Except.ok.inj (hx.located.symm.trans hy.located)
  have he : x.effect = y.effect := Except.ok.inj (hx.ran.symm.trans (hp ▸ hy.ran))
  cases x
  cases y
  cases hp
  cases he
  cases hx.call.trans hy.call.symm
  cases hx.before.trans hy.before.symm
  rfl

theorem Of.ran_before {x : Execution} {host : Host} {directory : Text} {c : Call} {tree : FileTree}
    (h : x.Of host directory c tree) : host.programs x.call x.place x.before = .ok x.effect :=
  h.call ▸ h.before ▸ h.ran

-- What a call that started means for the compilation.
def result (x : Execution) : Except Stop Unit :=
  match x.effect.ending with
  | .exited 0    => .ok ()
  | .exited code => .error (.failed (.exited x.call.program (some code) x.effect.messages))
  | .killed      => .error (.failed (.exited x.call.program none x.effect.messages))
  | .hangs       => .error (.hanging x.call.program x.effect.messages)

variable {x : Execution}

theorem result_eq_ok_iff : x.result = .ok () ↔ x.effect.ending = .exited 0 := by
  unfold result
  split
  case h_1 h   => simp [h]
  case h_2 h _ => simp_all
  case h_3 h   => simp [h]
  case h_4 h   => simp [h]

theorem result_of_exited {code : Nat} (h : x.effect.ending = .exited code) (hc : code ≠ 0) :
    x.result = .error (.failed (.exited x.call.program (some code) x.effect.messages)) := by
  rw [result, h]
  cases code
  case zero => contradiction
  case succ => rfl

theorem result_ne_missing {program output log : Text} :
    x.result ≠ .error (.failed (.missing program output log)) := by
  unfold result
  split <;> nofun

end Execution

-- A program is called and its output asked for.
def producing (host : Host) (directory log : Text) (c : Call) (output : Text) : Step Unit := do
  calling host directory log c
  requiring host c.program output log

section Specifications

variable {host : Host} {directory log output : Text} {c : Call} {w v : World} {stop : Stop}
variable {step : FileStep} {change : FileTree → Except FileError FileTree}

theorem outcome_changing :
    (changing step change).outcome w =
      match change w.tree with
      | .ok tree => (.ok (), { w with tree })
      | .error e => (.error (.failed (.files step e)), w) :=
  rfl

theorem changing_eq_ok_iff :
    (changing step change).outcome w = (.ok (), v) ↔
      ∃ tree, change w.tree = .ok tree ∧ v = { w with tree } := by
  rw [outcome_changing]
  cases change w.tree <;> simp [eq_comm]

theorem changing_eq_error_iff :
    (changing step change).outcome w = (.error stop, v) ↔
      ∃ e, change w.tree = .error e ∧ stop = .failed (.files step e) ∧ v = w := by
  rw [outcome_changing]
  cases change w.tree <;> simp [eq_comm]

theorem changing_ne_missing {program : Text} :
    (changing step change).outcome w ≠ (.error (.failed (.missing program output log)), v) := by
  intro h
  have ⟨_, _, h, _⟩ := changing_eq_error_iff.mp h
  cases h

theorem outcome_makingDirectory :
    (makingDirectory host directory).outcome w =
      match w.tree.makeAll host.directory directory with
      | (.ok (), tree) => (.ok (), { w with tree })
      | (.error e, tree) => (.error (.failed (.files .makeDirectory e)), { w with tree }) :=
  rfl

theorem tree_makingDirectory (host : Host) (directory : Text) (w : World) :
    ((makingDirectory host directory).outcome w).2.tree =
      (w.tree.makeAll host.directory directory).2 := by
  unfold Step.outcome makingDirectory
  simp only [ExceptT.run]
  split
  case h_1 h => rw [h]
  case h_2 h => rw [h]

theorem makingDirectory_ne_missing {program : Text} :
    (makingDirectory host directory).outcome w ≠
      (.error (.failed (.missing program output log)), v) := by
  intro h
  unfold Step.outcome makingDirectory at h
  simp only [ExceptT.run] at h
  split at h <;> cases h

theorem outcome_calling {x : Execution} (h : x.Of host directory c w.tree) :
    (calling host directory log c).outcome w = (x.result, ⟨x.effect.tree, w.calls ++ [c]⟩) := by
  unfold Step.outcome calling
  simp only [ExceptT.run, h.located, Except.bind, h.ran, Execution.result, h.call]
  cases x.effect.ending
  case exited code => cases code <;> rfl
  case killed      => rfl
  case hangs       => rfl

-- A call that cannot start changes nothing.
theorem outcome_calling_of_error {e : FileError}
    (h : ((w.tree.locate host.directory directory).bind fun place => host.programs c place w.tree) = .error e) :
    (calling host directory log c).outcome w = (.error (.failed (.start c.program e log)), w) := by
  simp only [Step.outcome, calling, ExceptT.run, h]

theorem exists_execution (host : Host) (directory : Text) (c : Call) (tree : FileTree) :
    (∃ x : Execution, x.Of host directory c tree) ∨
      ∃ e, ((tree.locate host.directory directory).bind fun place => host.programs c place tree) = .error e := by
  cases hl : tree.locate host.directory directory
  case error e  => exact .inr ⟨e, rfl⟩
  case ok place =>
    cases hr : host.programs c place tree
    case error e   => exact .inr ⟨e, hr⟩
    case ok effect => exact .inl ⟨⟨c, place, tree, effect⟩, rfl, rfl, hl, hr⟩

theorem exists_execution_or (host : Host) (directory log : Text) (c : Call) (w : World) :
    (∃ x : Execution, x.Of host directory c w.tree) ∨
      ∃ e, (calling host directory log c).outcome w =
        (.error (.failed (.start c.program e log)), w) :=
  (exists_execution host directory c w.tree).imp_right fun ⟨e, h⟩ => ⟨e, outcome_calling_of_error h⟩

theorem calling_eq_ok_iff :
    (calling host directory log c).outcome w = (.ok (), v) ↔
      ∃ x : Execution, x.Of host directory c w.tree ∧ x.effect.ending = .exited 0 ∧
        v = ⟨x.effect.tree, w.calls ++ [c]⟩ := by
  constructor
  case mp =>
    intro h
    cases exists_execution_or host directory log c w
    case inl hx =>
      have ⟨x, hx⟩ := hx
      have ⟨hr, hv⟩ := Prod.mk.inj ((outcome_calling hx).symm.trans h)
      exact ⟨x, hx, Execution.result_eq_ok_iff.mp hr, hv.symm⟩
    case inr he =>
      have ⟨_, he⟩ := he
      exact nomatch he.symm.trans h
  case mpr =>
    intro ⟨x, hx, he, hv⟩
    rw [outcome_calling hx, Execution.result_eq_ok_iff.mpr he, hv]

theorem calling_ne_missing {program : Text} :
    (calling host directory log c).outcome w ≠ (.error (.failed (.missing program output log')), v) := by
  intro h
  cases exists_execution_or host directory log c w
  case inl hx =>
    have ⟨x, hx⟩ := hx
    exact Execution.result_ne_missing (congrArg Prod.fst ((outcome_calling hx).symm.trans h))
  case inr he =>
    have ⟨_, he⟩ := he
    exact nomatch he.symm.trans h

theorem outcome_requiring {program : Text} :
    (requiring host program output log).outcome w =
      (match w.tree.lookUp host.directory output with
        | .ok _            => .ok ()
        | .error .notFound => .error (.failed (.missing program output log))
        | .error e         => .error (.failed (.files .checkArtifact e)), w) := by
  unfold Step.outcome requiring FileTree.tryHasEntry
  simp only [ExceptT.run]
  cases w.tree.lookUp host.directory output
  case ok      => rfl
  case error e => cases e <;> rfl

theorem requiring_eq_ok_iff {program : Text} :
    (requiring host program output log).outcome w = (.ok (), v) ↔
      (∃ entry, w.tree.lookUp host.directory output = .ok entry) ∧ v = w := by
  rw [outcome_requiring]
  cases w.tree.lookUp host.directory output
  case ok      => simp [eq_comm]
  case error e => cases e <;> simp

theorem requiring_eq_missing_iff {program program' output' log' : Text} :
    (requiring host program output log).outcome w =
        (.error (.failed (.missing program' output' log')), v) ↔
      w.tree.lookUp host.directory output = .error .notFound ∧
        program' = program ∧ output' = output ∧ log' = log ∧ v = w := by
  rw [outcome_requiring]
  cases w.tree.lookUp host.directory output
  case ok      => simp
  case error e => cases e <;> simp [eq_comm, and_assoc]

theorem producing_eq_ok_iff :
    (producing host directory log c output).outcome w = (.ok (), v) ↔
      ∃ x : Execution, x.Of host directory c w.tree ∧ x.effect.ending = .exited 0 ∧
        (∃ entry, x.effect.tree.lookUp host.directory output = .ok entry) ∧
        v = ⟨x.effect.tree, w.calls ++ [c]⟩ := by
  simp only [producing, outcome_bind_eq_ok_iff, calling_eq_ok_iff, requiring_eq_ok_iff]
  constructor
  case mp =>
    intro ⟨_, ⟨x, hx, he, hu⟩, ho, hv⟩
    cases hu
    exact ⟨x, hx, he, ho, hv⟩
  case mpr => exact fun ⟨x, hx, he, ho, hv⟩ => ⟨_, ⟨x, hx, he, rfl⟩, ho, hv⟩

theorem producing_eq_missing_iff {program' output' log' : Text} :
    (producing host directory log c output).outcome w =
        (.error (.failed (.missing program' output' log')), v) ↔
      ∃ x : Execution, x.Of host directory c w.tree ∧ x.effect.ending = .exited 0 ∧
        x.effect.tree.lookUp host.directory output = .error .notFound ∧
        program' = c.program ∧ output' = output ∧ log' = log ∧
        v = ⟨x.effect.tree, w.calls ++ [c]⟩ := by
  simp only [producing, outcome_bind_eq_error_iff, calling_eq_ok_iff, requiring_eq_missing_iff]
  constructor
  case mp =>
    intro h
    cases h
    case inl h => exact absurd h calling_ne_missing
    case inr h =>
      have ⟨_, ⟨x, hx, he, hu⟩, ho, h⟩ := h
      cases hu
      exact ⟨x, hx, he, ho, h⟩
  case mpr => exact fun ⟨x, hx, he, ho, h⟩ => .inr ⟨_, ⟨x, hx, he, rfl⟩, ho, h⟩

end Specifications
end TikzPress.Compilation
