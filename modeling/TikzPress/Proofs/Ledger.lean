import TikzPress.Ledger

/-!
What the operations on a ledger do to its epoch, to the keys that are pending, and to what is known. Main
statements: a compilation starts only for a key that is not pending (`not_mem_pending_of_request`), one ends
only in its own epoch (`epoch_of_settle?`), no operation brings a key into two parts of the ledger
(`Exclusive.request`, `Exclusive.settle?`), and a key stays pending whatever is asked for (`status_request`).
-/

namespace TikzPress.Ledger

variable {l l' : Ledger} {key : Text} {epoch : Nat} {force : Bool} {result : Except Text Text}

@[simp] theorem epoch_clear (l : Ledger) : l.clear.epoch = l.epoch + 1 :=
  rfl

@[simp] theorem pending_clear (l : Ledger) : l.clear.pending = [] :=
  rfl

@[simp] theorem epoch_request (l : Ledger) (key : Text) (force : Bool) :
    (l.request key force).1.epoch = l.epoch := by
  simp only [request]
  repeat' split
  all_goals rfl

theorem pending_request (l : Ledger) (key : Text) (force : Bool) :
    (l.request key force).1.pending =
      if (l.request key force).2 then key :: l.pending else l.pending := by
  simp only [request, forget]
  repeat' split
  all_goals simp_all

theorem not_mem_pending_of_request (h : (l.request key force).2) : key ∉ l.pending := by
  simp only [request, forget] at h
  repeat' split at h
  all_goals simp_all

theorem settle?_eq_none_iff : l.settle? key epoch result = none ↔ l.epoch ≠ epoch := by
  simp only [settle?]
  repeat' split
  all_goals simp_all

theorem epoch_of_settle? (h : l.settle? key epoch result = some l') :
    l.epoch = epoch ∧ l'.epoch = epoch := by
  simp only [settle?] at h
  repeat' split at h
  case isTrue => contradiction
  all_goals cases h; simp_all

theorem pending_of_settle? (h : l.settle? key epoch result = some l') :
    l'.pending = l.pending.filter (· ≠ key) := by
  simp only [settle?] at h
  repeat' split at h
  case isTrue => contradiction
  all_goals cases h; rfl

section Pending

variable {k : Text}

theorem status_eq_pending_iff :
    l.status key = .pending ↔
      Table.get? key l.artifacts = none ∧ Table.get? key l.failures = none ∧ key ∈ l.pending := by
  unfold status
  cases Table.get? key l.artifacts
  case some => simp
  case none =>
    cases Table.get? key l.failures
    case some => simp
    case none => by_cases h : key ∈ l.pending <;> simp [h]

-- No request takes a key out of those that are pending.
theorem status_request (h : l.status key = .pending) (k : Text) (force : Bool) :
    (l.request k force).1.status key = .pending := by
  obtain ⟨ha, hf, hp⟩ := status_eq_pending_iff.mp h
  refine status_eq_pending_iff.mpr ⟨?_, ?_, ?_⟩
  case refine_3 =>
    rw [pending_request]
    split
    case isTrue  => exact .tail _ hp
    case isFalse => exact hp
  all_goals
    simp only [request, forget]
    repeat' split
    all_goals simp [Table.get?_erase, ha, hf]

-- The end of a compilation says nothing about another key.
theorem status_settle? (h : l.status key = .pending) (hk : key ≠ k)
    (hs : l.settle? k epoch result = some l') : l'.status key = .pending := by
  obtain ⟨ha, hf, hp⟩ := status_eq_pending_iff.mp h
  refine status_eq_pending_iff.mpr ?_
  simp only [settle?] at hs
  split at hs
  case isTrue  => contradiction
  case isFalse => cases result <;> cases hs <;> simp [Table.get?_erase, Table.get?_put, hk, ha, hf, hp]

end Pending

section Known

variable {k a e : Text}

-- An artifact comes before a failure, and a failure before a compilation that runs.
theorem status_eq (l : Ledger) (key : Text) :
    l.status key = match l.artifact? key, l.failure? key with
      | some a, _    => .resolved a
      | none, some e => .failed e
      | none, none   => if key ∈ l.pending then .pending else .absent := by
  unfold status artifact? failure?
  cases Table.get? key l.artifacts <;> cases Table.get? key l.failures <;> simp

theorem status_eq_resolved_iff : l.status key = .resolved a ↔ l.artifact? key = some a := by
  rw [status_eq]
  repeat' split
  all_goals simp_all

theorem status_eq_failed_iff :
    l.status key = .failed e ↔ l.artifact? key = none ∧ l.failure? key = some e := by
  rw [status_eq]
  repeat' split
  all_goals simp_all

theorem status_eq_absent_iff :
    l.status key = .absent ↔ l.artifact? key = none ∧ l.failure? key = none ∧ key ∉ l.pending := by
  rw [status_eq]
  repeat' split
  all_goals simp_all

theorem isSettled_status_iff :
    (l.status key).isSettled ↔ (l.artifact? key).isSome ∨ (l.failure? key).isSome := by
  rw [status_eq]
  repeat' split
  all_goals simp_all [Status.isSettled]

-- A request by force only makes a key forgotten.
theorem known_request (h : force = true → key ≠ k) :
    (l.request key force).1.artifact? k = l.artifact? k ∧
    (l.request key force).1.failure? k = l.failure? k := by
  cases force
  case false =>
    simp only [request, Bool.false_eq_true, if_false]
    repeat' split
    all_goals exact ⟨rfl, rfl⟩
  case true =>
    have hk : k ≠ key := (h rfl).symm
    simp only [request, forget]
    repeat' split
    all_goals simp [artifact?, failure?, Table.get?_erase, hk]

theorem status_of_request_starts (h : (l.request key false).2) : l.status key = .absent := by
  have idle := not_mem_pending_of_request h
  by_cases hk : l.isKnown key
  case pos => simp [request, hk] at h
  case neg =>
    simp only [isKnown, Table.hasKey, Bool.or_eq_true, not_or, Option.not_isSome_iff_eq_none] at hk
    exact status_eq_absent_iff.mpr ⟨hk.left, hk.right, idle⟩

-- Something is known about a key that was asked for, and nothing is lost about the others but by force.
theorem status_request_self_ne_absent : (l.request key force).1.status key ≠ .absent := by
  intro h
  have ⟨ha, hf, hp⟩ := status_eq_absent_iff.mp h
  revert ha hf hp
  simp only [request]
  repeat' split
  case isTrue hk =>
    simp only [isKnown, Table.hasKey, Bool.or_eq_true, Option.isSome_iff_ne_none] at hk
    exact fun ha hf _ => hk.right.elim (· ha) (· hf)
  all_goals simp_all

theorem status_request_ne_absent (h : l.status k ≠ .absent) : (l.request key force).1.status k ≠ .absent := by
  by_cases hk : key = k
  case pos => exact hk ▸ status_request_self_ne_absent
  case neg =>
    have ⟨artifact, failure⟩ := known_request (l := l) fun _ : force = true => hk
    refine fun absent => h (status_eq_absent_iff.mpr ?_)
    have ⟨ha, hf, hp⟩ := status_eq_absent_iff.mp absent
    refine ⟨artifact ▸ ha, failure ▸ hf, fun pending => hp ?_⟩
    rw [pending_request]
    split
    case isTrue  => exact .tail _ pending
    case isFalse => exact pending

theorem known_settle? (hk : key ≠ k) (h : l.settle? key epoch result = some l') :
    l'.artifact? k = l.artifact? k ∧ l'.failure? k = l.failure? k := by
  simp only [settle?] at h
  split at h
  case isTrue  => contradiction
  case isFalse =>
    cases result <;> cases h <;> simp [artifact?, failure?, Table.get?_erase, Table.get?_put, hk.symm]

-- Only the end of a compilation adds an artifact.
theorem artifact?_of_request (h : (l.request key force).1.artifact? k = some a) : l.artifact? k = some a := by
  by_cases hk : force = true ∧ key = k
  case neg =>
    have ⟨artifact, _⟩ := known_request (l := l) fun hf he => hk ⟨hf, he⟩
    exact artifact ▸ h
  case pos =>
    obtain ⟨rfl, rfl⟩ := hk
    simp only [request, forget] at h
    repeat' split at h
    all_goals simp_all [artifact?, Table.get?_erase]

theorem artifact?_of_settle? (hs : l.settle? key epoch result = some l') (h : l'.artifact? k = some a) :
    l.artifact? k = some a ∨ key = k ∧ result = .ok a := by
  by_cases hk : key = k
  case neg => exact .inl ((known_settle? hk hs).left ▸ h)
  case pos =>
    subst hk
    simp only [settle?] at hs
    split at hs
    case isTrue  => contradiction
    case isFalse =>
      cases result <;> cases hs
      case ok    => exact .inr ⟨rfl, by simpa [artifact?, Table.get?_put] using h⟩
      case error => exact .inl h

theorem isSettled_of_settle? (h : l.settle? key epoch result = some l') : (l'.status key).isSettled := by
  simp only [settle?] at h
  split at h
  case isTrue  => contradiction
  case isFalse =>
    rw [isSettled_status_iff]
    cases result <;> cases h <;> simp [artifact?, failure?, Table.get?_put]

end Known

-- A key is in at most one of the three parts of a ledger.
structure Exclusive (l : Ledger) (key : Text) : Prop where
  artifact_failure : Table.hasKey key l.artifacts → ¬Table.hasKey key l.failures
  artifact_pending : Table.hasKey key l.artifacts → key ∉ l.pending
  failure_pending  : Table.hasKey key l.failures → key ∉ l.pending

namespace Exclusive

variable {k : Text}

theorem clear (l : Ledger) (key : Text) : l.clear.Exclusive key where
  artifact_failure := nofun
  artifact_pending := nofun
  failure_pending  := nofun

theorem forget (x : l.Exclusive k) (key : Text) : (l.forget key).Exclusive k := by
  have ⟨h₁, h₂, h₃⟩ := x
  constructor <;> simp only [Ledger.forget, Table.hasKey_erase] <;> simp_all

theorem pend (x : l.Exclusive k) (h : l.isKnown key = false) :
    Exclusive { l with pending := key :: l.pending } k := by
  have ⟨ha, hf⟩ := Bool.or_eq_false_iff.mp h
  have ne {table : Table Text} (hk : Table.hasKey k table) (hn : Table.hasKey key table = false) : k ≠ key :=
    fun he => absurd (he ▸ hk) (by simp [hn])
  refine ⟨x.artifact_failure, fun h => ?_, fun h => ?_⟩
  case refine_1 => simp [ne h ha, x.artifact_pending h]
  case refine_2 => simp [ne h hf, x.failure_pending h]

-- A key that becomes pending is not known: by force it is forgotten, and else it is not asked for.
theorem request (x : l.Exclusive k) (key : Text) (force : Bool) : (l.request key force).1.Exclusive k := by
  have forgotten : (l.forget key).isKnown key = false := by
    simp [isKnown, Ledger.forget, Table.hasKey_erase]
  simp only [Ledger.request]
  split
  case isTrue => exact x
  case isFalse h =>
    cases force
    case true =>
      simp only [if_true]
      split
      case isTrue => exact x.forget key
      case isFalse => exact (x.forget key).pend forgotten
    case false =>
      simp only [Bool.false_eq_true, if_false]
      split
      case isTrue => exact x
      case isFalse => exact x.pend (by simpa using h)

-- A compilation that fails leaves the artifacts alone: there is none of a key that was pending.
theorem settle? (x : l.Exclusive k) (hp : key ∈ l.pending)
    (h : l.settle? key epoch result = some l') : l'.Exclusive k := by
  have ⟨h₁, h₂, h₃⟩ := x
  simp only [Ledger.settle?] at h
  split at h
  case isTrue => contradiction
  case isFalse =>
    cases result <;> cases h <;> constructor <;>
      simp only [Table.hasKey_put, Table.hasKey_erase, List.mem_filter]
    case error.refl.artifact_failure =>
      intro ha
      have hk : k ≠ key := fun he => h₂ ha (he ▸ hp)
      simp [hk, h₁ ha]
    all_goals by_cases hk : k = key <;> simp_all

-- What is pending is not known.
theorem status_of_mem_pending (x : l.Exclusive key) (h : key ∈ l.pending) : l.status key = .pending := by
  refine status_eq_pending_iff.mpr ⟨?_, ?_, h⟩
  case refine_1 => exact Option.not_isSome_iff_eq_none.mp fun ha => x.artifact_pending ha h
  case refine_2 => exact Option.not_isSome_iff_eq_none.mp fun hf => x.failure_pending hf h

end Exclusive
end TikzPress.Ledger
