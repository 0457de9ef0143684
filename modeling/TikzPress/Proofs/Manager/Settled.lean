import TikzPress.Proofs.Manager.Consistency

/-!
A key that is neither cleared nor asked for by force. It passes from absent to pending to settled, and never
back: a compilation of it starts at most once, and what was found then stays what is known. Main statement:
all this for any stretch of a run (`steady_of_spared`).
-/

namespace TikzPress.Manager

variable {m n : Manager} {key k : Text} {a : Action}

-- Neither a clearing nor a request for a key by force.
def Action.Spares (key : Text) : Action → Prop
  | .request k _ _ _ force => force = true → k ≠ key
  | .clear                 => False
  | _                      => True

instance (m : Manager) (key : Text) : DecidablePred (m.Starts key)
  | .request ..                                  => inferInstanceAs (Decidable (_ ∧ _))
  | .hang _ | .settle .. | .clear | .advance _   => inferInstanceAs (Decidable False)

-- All that can be asked about a settled key gives the same answer: it has an artifact or a failure, not both.
inductive Reports (m : Manager) (key : Text) : Status → Prop
  | resolved : m.status key = .resolved artifact → m.artifact? key = some artifact →
      m.failure? key = none → Reports m key (.resolved artifact)
  | failed : m.status key = .failed message → m.artifact? key = none →
      m.failure? key = some message → Reports m key (.failed message)

theorem reports_of_exclusive (x : m.ledger.Exclusive key) (h : (m.status key).isSettled) :
    m.Reports key (m.status key) := by
  cases hs : m.status key
  case absent  => rw [hs] at h; contradiction
  case pending => rw [hs] at h; contradiction
  case resolved artifact =>
    have known : m.artifact? key = some artifact := Ledger.status_eq_resolved_iff.mp hs
    have unfailed := x.artifact_failure (Option.isSome_of_eq_some known)
    exact .resolved hs known (Option.not_isSome_iff_eq_none.mp unfailed)
  case failed message =>
    have ⟨unresolved, known⟩ := Ledger.status_eq_failed_iff.mp hs
    exact .failed hs unresolved known

-- Nothing changes in what is known about a key.
structure Same (m n : Manager) (key : Text) : Prop where
  artifact : n.artifact? key = m.artifact? key
  failure  : n.failure? key = m.failure? key
  pending  : key ∈ n.ledger.pending ↔ key ∈ m.ledger.pending

theorem Same.of_ledger (h : n.ledger = m.ledger) : Same m n key where
  artifact := congrArg (·.artifact? key) h
  failure  := congrArg (·.failure? key) h
  pending  := by rw [h]

theorem Same.trans {l : Manager} (s : Same m n key) (t : Same n l key) : Same m l key where
  artifact := t.artifact.trans s.artifact
  failure  := t.failure.trans s.failure
  pending  := t.pending.trans s.pending

theorem Same.status (s : Same m n key) : n.status key = m.status key := by
  have artifact : n.ledger.artifact? key = m.ledger.artifact? key := s.artifact
  have failure : n.ledger.failure? key = m.ledger.failure? key := s.failure
  rw [Manager.status, Manager.status, Ledger.status_eq, Ledger.status_eq, artifact, failure]
  simp only [s.pending]

-- What a step that spares a key can do to it.
inductive Passage (m n : Manager) (key : Text) (a : Action) : Prop
  | stay (same : Same m n key) (idle : ¬m.Starts key a)
  | start (absent : m.status key = .absent) (pending : n.status key = .pending)
  | settle (pending : m.status key = .pending) (settled : (n.status key).isSettled) (idle : ¬m.Starts key a)

namespace Passage

theorem of_request {content : Text} {s : Settings} {svg force : Bool}
    (h : (Action.request k content s svg force).Spares key) :
    Passage m (m.request k content s svg force) key (.request k content s svg force) := by
  have ⟨artifact, failure⟩ := Ledger.known_request (l := m.ledger) h
  have hp := m.ledger.pending_request k force
  by_cases starts : k = key ∧ (m.ledger.request k force).2
  case neg =>
    refine .stay ⟨artifact, failure, ?_⟩ starts
    have mem : key ∈ (m.ledger.request k force).1.pending ↔ key ∈ m.ledger.pending := by
      rw [hp]
      split
      case isFalse   => rfl
      case isTrue hs => simp [show key ≠ k from fun hk => starts ⟨hk.symm, hs⟩]
    exact mem
  case pos =>
    obtain ⟨rfl, hs⟩ := starts
    cases force
    case true  => exact absurd rfl (h rfl)
    case false =>
      have absent := Ledger.status_of_request_starts hs
      have ⟨ha, hf, _⟩ := Ledger.status_eq_absent_iff.mp absent
      rw [if_pos hs] at hp
      exact .start absent <| Ledger.status_eq_pending_iff.mpr
        ⟨artifact.trans ha, failure.trans hf, hp ▸ .head _⟩

theorem of_settle {t : Task} {result : Except Compilation.Failure Compilation.Artifacts} (i : Tracked m)
    (x : m.ledger.Exclusive key) (e : Step m (.settle t result) n) :
    Passage m n key (.settle t result) := by
  have ⟨ht, l, hl, _, hn⟩ := e.exists_finish
  have ⟨r, hr⟩ := l.ledger_finish t result
  rw [← hn, hl] at hr
  cases hs : m.ledger.settle? t.key t.epoch r
  case none => exact .stay (.of_ledger (by rw [hr, hs]; rfl)) nofun
  case some l' =>
    have ledger : n.ledger = l' := by rw [hr, hs]; rfl
    by_cases hk : t.key = key
    case pos =>
      subst hk
      have pending := i.mem_pending ht (Ledger.epoch_of_settle? hs).left.symm
      have status := x.status_of_mem_pending pending
      refine .settle status ?_ nofun
      rw [Manager.status, ledger]
      exact Ledger.isSettled_of_settle? hs
    case neg =>
      have ⟨artifact, failure⟩ := Ledger.known_settle? hk hs
      refine .stay ⟨?_, ?_, ?_⟩ nofun
      case refine_1 => rw [artifact?, ledger]; exact artifact
      case refine_2 => rw [failure?, ledger]; exact failure
      case refine_3 => simp [ledger, Ledger.pending_of_settle? hs, Ne.symm hk]

theorem of_step (i : Tracked m) (x : m.ledger.Exclusive key) (e : Step m a n) (h : a.Spares key) :
    Passage m n key a := by
  cases a
  case settle => exact of_settle i x e
  all_goals cases e
  case request => exact of_request h
  case hang    => exact .stay (.of_ledger rfl) nofun
  case clear   => contradiction
  case advance => exact .stay (.of_ledger rfl) nofun

end Passage

-- How many compilations of a key are started in a stretch of a run.
def starts (stretch : History) (key : Text) : Nat :=
  stretch.countP fun x => x.1.Starts key x.2

-- A start takes an absent key to the next stage, where it stays.
def stage : Status → Nat
  | .absent => 0
  | _       => 1

theorem stage_le_one (x : Status) : stage x ≤ 1 := by
  cases x
  case absent => exact Nat.zero_le 1
  all_goals exact Nat.le_refl 1

theorem stage_eq_one_iff {x : Status} : stage x = 1 ↔ x ≠ .absent := by
  cases x <;> simp [stage]

theorem Passage.starts_le (p : Passage m n key a) :
    (if m.Starts key a then 1 else 0) + stage (m.status key) ≤ stage (n.status key) := by
  cases p
  case stay same idle =>
    exact Nat.le_of_eq (by rw [if_neg idle, same.status, Nat.zero_add])
  case start absent pending =>
    rw [absent, pending]
    split <;> decide
  case settle pending settled idle =>
    have present : n.status key ≠ .absent := fun absent => by simp [absent, Status.isSettled] at settled
    rw [if_neg idle, pending, stage_eq_one_iff.mpr present]
    decide

theorem Passage.same (p : Passage m n key a) (h : (m.status key).isSettled) : Same m n key := by
  cases p
  case stay same _          => exact same
  case start absent _       => rw [absent] at h; contradiction
  case settle pending _ _   => rw [pending] at h; contradiction

section Run

variable {stretch : History}

theorem starts_le_of_run (i : Tracked m) (x : m.ledger.Exclusive key) (r : Run m stretch n)
    (h : ∀ x ∈ stretch, x.2.Spares key) :
    starts stretch key + stage (m.status key) ≤ stage (n.status key) := by
  induction r
  case refl => exact Nat.le_of_eq (Nat.zero_add _)
  case step r e hi =>
    have before := hi fun x hx => h x (.tail _ hx)
    have last := (Passage.of_step (i.run r) (exclusive_run i x r) e (h _ (.head _))).starts_le
    simp only [starts, List.countP_cons, decide_eq_true_eq] at before ⊢
    omega

theorem same_of_run (i : Tracked m) (x : m.ledger.Exclusive key) (r : Run m stretch n)
    (h : ∀ x ∈ stretch, x.2.Spares key) (settled : (m.status key).isSettled) : Same m n key := by
  induction r
  case refl => exact .of_ledger rfl
  case step r e hi =>
    have before := hi fun x hx => h x (.tail _ hx)
    have last := (Passage.of_step (i.run r) (exclusive_run i x r) e (h _ (.head _))).same
    exact before.trans (last (before.status ▸ settled))

end Run

-- What a stretch of a run leaves of a key, from its first state to its last.
structure Steady (m n : Manager) (stretch : History) (key : Text) : Prop where
  starts  : starts stretch key ≤ 1
  begun   : m.status key ≠ .absent → Manager.starts stretch key = 0
  pending : m.status key = .pending → n.status key = .pending ∨ (n.status key).isSettled
  settled : (m.status key).isSettled → m.Reports key (m.status key) ∧ n.Reports key (m.status key)

-- A stretch may begin and end in any state of a run. Where it spares a key, a compilation of the key starts
-- once at most, a pending key never becomes absent, and what is known of a settled key stays the same.
theorem steady_of_spared {width window : Nat} {history stretch : History}
    (r : Run (.new width window) history m) (s : Run m stretch n)
    (h : ∀ x ∈ stretch, x.2.Spares key) : Steady m n stretch key := by
  have tracked := (Tracked.new width window).run r
  have exclusive := exclusive_run (.new width window) (exclusive_new width window key) r
  have le := starts_le_of_run tracked exclusive s h
  have bound := stage_le_one (n.status key)
  refine ⟨by omega, fun begun => ?begun, fun pending => ?pending, fun settled => ?settled⟩
  case begun =>
    rw [stage_eq_one_iff.mpr begun] at le
    omega
  case pending =>
    have present : n.status key ≠ .absent := by
      rw [pending] at le
      exact stage_eq_one_iff.mp (Nat.le_antisymm bound (Nat.le_of_add_left_le le))
    cases hs : n.status key
    case absent  => exact absurd hs present
    case pending => exact .inl rfl
    all_goals exact .inr rfl
  case settled =>
    have same := (same_of_run tracked exclusive s h settled).status
    have later := reports_of_exclusive (exclusive_run tracked exclusive s) (same ▸ settled)
    exact ⟨reports_of_exclusive exclusive settled, same ▸ later⟩

-- A key is asked for again when its compilation has failed, and another key by force.
theorem Run.asked_again (m : Manager) (key other content : Text) (s : Settings) :
    have m₁ := m.request key content s true false
    Run m [(m₁, .request other content s true true), (m, .request key content s true false)]
      (m₁.request other content s true true) :=
  .step (.step .refl .request) .request

theorem steady_after_failure :
    ∃ history m stretch n, Run (new 2 0) history m ∧ Run m stretch n ∧
      (∀ x ∈ stretch, x.2.Spares ['k']) ∧ stretch ≠ [] ∧ (m.status ['k']).isSettled ∧
      Steady m n stretch ['k'] := by
  let s : Settings := .withCacheDirectory "cache".toList
  let m := (new 2 0).request ['k'] ['x'] s true false
  let t := (new 2 0).task ['k'] ['x'] s true
  let result : Except Compilation.Failure Compilation.Artifacts :=
    .error (.files .makeDirectory .notADirectory)
  have settle : Step m (.settle t result) _ := .settle [] [] rfl
  have failed : Run (new 2 0) [(m, .settle t result), (new 2 0, .request ['k'] ['x'] s true false)] _ :=
    (Run.refl.step .request).step settle
  have again := Run.asked_again (({ m with queue := [] } : Manager).finish t result) ['k'] ['l'] ['x'] s
  refine ⟨_, _, _, _, failed, again, ?spares, by simp, by decide, steady_of_spared failed again ?spares⟩
  simp [Action.Spares]

end TikzPress.Manager
