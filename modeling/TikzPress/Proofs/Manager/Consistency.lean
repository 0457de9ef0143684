import TikzPress.Proofs.Manager.InFlight

/-!
What a manager knows stays consistent in every run. A key is never in two parts of the ledger, and it is
pending exactly as long as one compilation of it from the current epoch is in flight. A compilation that a
clearing has let go of changes nothing when it ends. Main statement: all three at once (`run_consistent`).
-/

namespace TikzPress.Manager

variable {m n : Manager} {t : Task} {key : Text}

theorem ledger_finish (m : Manager) (t : Task) (result : Except Compilation.Failure Compilation.Artifacts) :
    ∃ r, (m.finish t result).ledger = (m.ledger.settle? t.key t.epoch r).getD m.ledger := by
  unfold finish
  dsimp only
  split
  all_goals rename_i h; exact ⟨_, by rw [h]; rfl⟩

theorem finish_of_epoch_ne (h : m.ledger.epoch ≠ t.epoch)
    (result : Except Compilation.Failure Compilation.Artifacts) : m.finish t result = m := by
  unfold finish
  dsimp only
  rw [Ledger.settle?_eq_none_iff.mpr h]

-- A task that ends is one of those in flight, and all that its end does is what `finish` does.
theorem Step.exists_finish {result : Except Compilation.Failure Compilation.Artifacts}
    (e : Step m (.settle t result) n) :
    t ∈ m.tasks ∧ ∃ k : Manager, k.ledger = m.ledger ∧ k.refresh = m.refresh ∧ n = k.finish t result := by
  cases e
  case settle before after h =>
    have ht := (tasks_perm_of_queue h).mem_iff.mpr (.head _)
    exact ⟨ht, { m with queue := before ++ after }, rfl, rfl, rfl⟩
  case stop x before after h =>
    have ht := (tasks_perm_of_hanging h).mem_iff.mpr (.head _)
    exact ⟨ht, { m with hanging := before ++ after }, rfl, rfl, rfl⟩

theorem Tracked.mem_pending (i : Tracked m) (ht : t ∈ m.tasks) (he : t.epoch = m.ledger.epoch) :
    t.key ∈ m.ledger.pending := by
  by_contra hn
  have h := i.current t.key
  rw [if_neg hn, inFlight, List.countP_eq_zero] at h
  exact h t ht (by simp [he])

theorem Tracked.mem_pending_iff (i : Tracked m) :
    key ∈ m.ledger.pending ↔ m.inFlight key m.ledger.epoch = 1 := by
  rw [i.current]
  split <;> simp_all

section Exclusive

theorem exclusive_new (width window : Nat) (key : Text) : (new width window).ledger.Exclusive key where
  artifact_failure := nofun
  artifact_pending := nofun
  failure_pending  := nofun

theorem exclusive_settle (i : Tracked m) (x : m.ledger.Exclusive key)
    {result : Except Compilation.Failure Compilation.Artifacts} (e : Step m (.settle t result) n) :
    n.ledger.Exclusive key := by
  have ⟨ht, k, hk, _, hn⟩ := e.exists_finish
  have ⟨r, hr⟩ := k.ledger_finish t result
  rw [hn, hr, hk]
  cases hs : m.ledger.settle? t.key t.epoch r
  case none   => exact x
  case some l => exact x.settle? (i.mem_pending ht (Ledger.epoch_of_settle? hs).left.symm) hs

theorem exclusive_step {a : Action} (i : Tracked m) (x : m.ledger.Exclusive key) (e : Step m a n) :
    n.ledger.Exclusive key := by
  cases a
  case settle => exact exclusive_settle i x e
  all_goals cases e
  case request => exact x.request ..
  case hang    => exact x
  case clear   => exact .clear ..
  case advance => exact x

theorem exclusive_run {history : History} (i : Tracked m) (x : m.ledger.Exclusive key)
    (r : Run m history n) : n.ledger.Exclusive key := by
  induction r
  case refl          => exact x
  case step r e hi   => exact exclusive_step (i.run r) hi e

end Exclusive

section Epoch

theorem Step.epoch_le {a : Action} (e : Step m a n) : m.ledger.epoch ≤ n.ledger.epoch := by
  cases Change.of_step e
  case start he _ _ _  => exact Nat.le_of_eq he.symm
  case finish he _ _   => exact Nat.le_of_eq he.symm
  case discard hl _    => exact Nat.le_of_eq (congrArg Ledger.epoch hl.symm)
  case clear he _      => exact he ▸ Nat.le_succ _
  case quiet he _      => exact Nat.le_of_eq he.symm

theorem Run.epoch_lt_of_clear {history : History} {k : Manager} (r : Run m history n)
    (h : (k, .clear) ∈ history) : k.ledger.epoch < n.ledger.epoch := by
  induction r
  case refl => contradiction
  case step e hi =>
    cases h
    case head   => cases e; exact Nat.lt_succ_self _
    case tail h => exact Nat.lt_of_lt_of_le (hi h) e.epoch_le

end Epoch

-- Whatever the order of requests, endings and clearings: no key is in two parts of the ledger, the pending
-- keys are those of which one compilation of the current epoch is in flight, and the end of a compilation
-- that was in flight at a clearing neither changes the ledger nor reports anything.
theorem run_consistent {width window : Nat} {history : History} {m : Manager}
    (r : Run (.new width window) history m) :
    (∀ key, m.ledger.Exclusive key) ∧
    (∀ key, key ∈ m.ledger.pending ↔ m.inFlight key m.ledger.epoch = 1) ∧
    ∀ k t, (k, .clear) ∈ history → t ∈ k.tasks →
      ∀ result n, Step m (.settle t result) n → n.ledger = m.ledger ∧ n.refresh = m.refresh := by
  have tracked := (Tracked.new width window).run r
  refine ⟨fun key => ?exclusive, fun key => tracked.mem_pending_iff, ?discarded⟩
  case exclusive => exact exclusive_run (.new width window) (exclusive_new width window key) r
  case discarded =>
    intro k t hk ht result n e
    have ⟨_, rk⟩ := r.of_mem hk
    have hle := ((Tracked.new width window).run rk).epoch_le t ht
    have hlt := r.epoch_lt_of_clear hk
    have old : m.ledger.epoch ≠ t.epoch := Ne.symm (Nat.ne_of_lt (Nat.lt_of_le_of_lt hle hlt))
    obtain ⟨_, l, hl, hr, rfl⟩ := e.exists_finish
    rw [finish_of_epoch_ne (hl ▸ old)]
    exact ⟨hl, hr⟩

-- A compilation ends after its key was cleared and asked for again.
theorem discarded_after_restart :
    ∃ history m t result n, Run (new 2 0) history m ∧ t.key = ['k'] ∧ Step m (.settle t result) n ∧
      ['k'] ∈ m.ledger.pending ∧ m.inFlight ['k'] m.ledger.epoch = 1 ∧
      n.ledger = m.ledger ∧ n.refresh = m.refresh := by
  let s : Settings := .withCacheDirectory "cache".toList
  let m := (new 2 0).request ['k'] ['x'] s true false
  let t := (new 2 0).task ['k'] ['x'] s true
  let result : Except Compilation.Failure Compilation.Artifacts :=
    .error (.files .makeDirectory .notADirectory)
  have r := Run.restart (new 2 0) ['k'] ['x'] s
  have e : Step (m.clear.request ['k'] ['x'] s true false) (.settle t result) _ :=
    .settle [] [m.clear.task ['k'] ['x'] s true] rfl
  have ⟨_, pending, discarded⟩ := run_consistent r
  have hp := (pending ['k']).mpr (by decide)
  exact ⟨_, _, t, result, _, r, rfl, e, hp, (pending ['k']).mp hp,
    discarded m t (.tail _ (.head _)) (.head _) result _ e⟩

end TikzPress.Manager
