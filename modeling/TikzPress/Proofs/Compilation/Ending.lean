import TikzPress.Proofs.Compilation.Stages

/-!
Which compilations come to an end. Main statement: only an engine or a converter that hangs can hold one up, and
only where there is no timeout (`ends_compile`).
-/

namespace TikzPress

-- A program that is called comes to an end by itself, wherever it starts.
def Call.Ends (host : Host) (c : Call) : Prop :=
  ∀ place tree effect, host.programs c place tree = .ok effect → effect.ending ≠ .hangs

-- Every call of an engine or a converter comes to an end: when its time is up, or else by itself.
def Host.Bounded (host : Host) (s : Settings) : Prop :=
  s.timeout? = none → ∀ c : Call, c.program = s.enginePath ∨ c.program = s.svgToolPath → c.Ends host

namespace Compilation

-- Nothing in a step hangs.
def Step.Ends (x : Step α) : Prop :=
  ∀ w program messages v, x.outcome w ≠ (.error (.hanging program messages), v)

namespace Step.Ends

variable {x : Step Unit} {f : Unit → Step α}

theorem pure (a : α) : Ends (Pure.pure a : Step α) :=
  nofun

theorem bind (hx : x.Ends) (hf : (f ()).Ends) : (x >>= f).Ends := by
  intro w program messages v h
  cases outcome_bind_eq_error_iff.mp h
  case inl h => exact hx w program messages v h
  case inr h =>
    have ⟨u, _, h⟩ := h
    exact hf u program messages v h

theorem ite {c : Prop} [Decidable c] {x y : Step α} (hx : x.Ends) (hy : y.Ends) : (if c then x else y).Ends := by
  split
  case isTrue  => exact hx
  case isFalse => exact hy

end Step.Ends

variable {host : Host} {s : Settings} {job : Job} {c : Call} {directory log output : Text}

theorem ends_changing {step : FileStep} {change : FileTree → Except FileError FileTree} :
    (changing step change).Ends := by
  intro w program messages v h
  have ⟨_, _, h, _⟩ := changing_eq_error_iff.mp h
  cases h

theorem ends_makingDirectory : (makingDirectory host directory).Ends := by
  intro w program messages v h
  unfold Step.outcome makingDirectory at h
  simp only [ExceptT.run] at h
  split at h <;> cases h

theorem ends_requiring {program : Text} : (requiring host program output log).Ends := by
  intro w program' messages v h
  rw [outcome_requiring] at h
  have h := (Prod.mk.inj h).left
  split at h <;> cases h

theorem ends_calling (ends : c.Ends host) : (calling host directory log c).Ends := by
  intro w program messages v h
  cases exists_execution_or host directory log c w
  case inr he =>
    have ⟨_, he⟩ := he
    exact nomatch he.symm.trans h
  case inl hx =>
    have ⟨x, hx⟩ := hx
    have hr : x.result = .error (.hanging program messages) :=
      congrArg Prod.fst ((outcome_calling hx).symm.trans h)
    have hn := ends _ _ _ hx.ran
    unfold Execution.result at hr
    split at hr <;> simp_all

theorem ends_producing (ends : c.Ends host) : (producing host directory log c output).Ends :=
  (ends_calling ends).bind ends_requiring

-- Only the engine and the converter can hold a compilation up.
theorem ends_compile (b : host.Bounded s) (h : s.timeout? = none) : (compile host s job).Ends := by
  have engine : (job.engineCall host s).Ends host := b h _ (.inl rfl)
  have converter : (job.converterCall host s).Ends host := b h _ (.inr rfl)
  have prepare : (prepare host job).Ends := .ite nofun (ends_makingDirectory.bind ends_changing)
  have outputs : (outputs host s job).Ends :=
    prepare.bind <| (ends_producing engine).bind <| .ite (ends_producing converter) (.pure ())
  have publishAll : (publishAll host job).Ends :=
    ends_changing.bind <| .ite ends_changing (.pure ())
  rw [compile_eq]
  exact outputs.bind <| publishAll.bind <| .pure _

end Compilation
end TikzPress
