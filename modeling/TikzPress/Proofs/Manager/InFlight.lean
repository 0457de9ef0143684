import TikzPress.Proofs.Ledger
import TikzPress.Proofs.Manager.Run

/-!
How many compilations of one key are in flight. Within one epoch there is at most one, and the key is
pending exactly as long as there is one of the current epoch. A clearing lets go of the compilations of
its epoch without ending them. Main statement: two compilations of a key are in flight at once exactly in
those runs in which one is started while another from before a clearing goes on (`running_le_one_iff`).
-/

namespace TikzPress.Manager

def inFlight (m : Manager) (key : Text) (epoch : Nat) : Nat :=
  m.tasks.countP fun t => t.key = key ∧ t.epoch = epoch

def running (m : Manager) (key : Text) : Nat :=
  m.tasks.countP (·.key = key)

-- The compilations that a clearing has let go of.
def stale (m : Manager) (key : Text) : Nat :=
  m.tasks.countP fun t => t.key = key ∧ t.epoch < m.ledger.epoch

def Starts (m : Manager) (key : Text) : Action → Prop
  | .request k _ _ _ force => k = key ∧ (m.ledger.request k force).2
  | _                      => False

-- What a step can do to the tasks, the pending keys and the epoch.
inductive Change (m n : Manager) : Prop
  | start (t : Task) (tasks : n.tasks.Perm (t :: m.tasks)) (epoch : n.ledger.epoch = m.ledger.epoch)
      (pending : n.ledger.pending = t.key :: m.ledger.pending) (current : t.epoch = m.ledger.epoch)
      (fresh : t.key ∉ m.ledger.pending)
  | finish (t : Task) (tasks : m.tasks.Perm (t :: n.tasks)) (epoch : n.ledger.epoch = m.ledger.epoch)
      (pending : n.ledger.pending = m.ledger.pending.filter (· ≠ t.key))
      (current : t.epoch = m.ledger.epoch)
  | discard (t : Task) (tasks : m.tasks.Perm (t :: n.tasks)) (ledger : n.ledger = m.ledger)
      (old : t.epoch ≠ m.ledger.epoch)
  | clear (tasks : n.tasks = m.tasks) (epoch : n.ledger.epoch = m.ledger.epoch + 1)
      (pending : n.ledger.pending = [])
  | quiet (tasks : n.tasks.Perm m.tasks) (epoch : n.ledger.epoch = m.ledger.epoch)
      (pending : n.ledger.pending = m.ledger.pending)

namespace Change

variable {m n : Manager}

theorem of_request (m : Manager) (key content : Text) (s : Settings) (svg force : Bool) :
    Change m (m.request key content s svg force) := by
  have ht := m.tasks_request_perm key content s svg force
  have hp := m.ledger.pending_request key force
  have he := m.ledger.epoch_request key force
  cases h : (m.ledger.request key force).2
  case false =>
    rw [h, if_neg Bool.false_ne_true] at ht hp
    exact .quiet ht he hp
  case true =>
    rw [h, if_pos rfl] at ht hp
    exact .start (m.task key content s svg) ht he hp rfl (Ledger.not_mem_pending_of_request h)

-- A task that has been taken out of the queue, or off its place, and then ends.
theorem of_finish {k : Manager} {t : Task} (ht : m.tasks.Perm (t :: k.tasks))
    (hl : k.ledger = m.ledger) (result : Except Compilation.Failure Compilation.Artifacts) :
    Change m (k.finish t result) := by
  have hk := k.tasks_finish t result
  unfold Manager.finish at hk ⊢
  dsimp only at hk ⊢
  split at hk
  case h_1 hs =>
    rw [hl] at hs
    exact .discard t ht hl (Ledger.settle?_eq_none_iff.mp hs).symm
  case h_2 hs =>
    rw [hl] at hs
    have ⟨hm, he⟩ := Ledger.epoch_of_settle? hs
    exact .finish t (hk.symm ▸ ht) (he.trans hm.symm) (Ledger.pending_of_settle? hs) hm.symm

theorem of_step {a : Action} (e : Step m a n) : Change m n := by
  cases e
  case request    => exact .of_request ..
  case hang h     => exact .quiet (tasks_hang_perm h) rfl rfl
  case settle h   => exact .of_finish (tasks_perm_of_queue h) rfl _
  case stop h     => exact .of_finish (tasks_perm_of_hanging h) rfl _
  case clear      => exact .clear rfl m.ledger.epoch_clear m.ledger.pending_clear
  case advance    => exact .quiet (.refl _) rfl rfl

end Change

-- The compilations of the current epoch are the pending keys, one for each, and no compilation is of
-- an epoch to come.
structure Tracked (m : Manager) : Prop where
  epoch_le : ∀ t ∈ m.tasks, t.epoch ≤ m.ledger.epoch
  current  : ∀ key, m.inFlight key m.ledger.epoch = if key ∈ m.ledger.pending then 1 else 0
  single   : ∀ key epoch, m.inFlight key epoch ≤ 1

namespace Tracked

variable {m n : Manager}

theorem new (width window : Nat) : Tracked (.new width window) where
  epoch_le _ h := nomatch h
  current _    := rfl
  single _ _   := Nat.zero_le 1

theorem inFlight_cons {t : Task} (h : n.tasks.Perm (t :: m.tasks)) (key : Text) (epoch : Nat) :
    n.inFlight key epoch = m.inFlight key epoch + if t.key = key ∧ t.epoch = epoch then 1 else 0 := by
  simp [inFlight, h.countP_eq, List.countP_cons]

theorem epoch_le_of_change (i : Tracked m) (c : Change m n) {t : Task} (h : t ∈ n.tasks) :
    t.epoch ≤ n.ledger.epoch := by
  cases c
  case start u ht he _ hc _ =>
    cases ht.mem_iff.mp h
    case head   => exact Nat.le_of_eq (hc.trans he.symm)
    case tail h => exact he ▸ i.epoch_le t h
  case finish ht he _ _ => exact he ▸ i.epoch_le t (ht.mem_iff.mpr (.tail _ h))
  case discard ht hl _  => exact hl ▸ i.epoch_le t (ht.mem_iff.mpr (.tail _ h))
  case clear ht he _    => exact he ▸ Nat.le_succ_of_le (i.epoch_le t (ht ▸ h))
  case quiet ht he _    => exact he ▸ i.epoch_le t (ht.mem_iff.mp h)

theorem current_of_change (i : Tracked m) (c : Change m n) (key : Text) :
    n.inFlight key n.ledger.epoch = if key ∈ n.ledger.pending then 1 else 0 := by
  have h := i.current key
  cases c
  case start t ht he hp hc hf =>
    rw [inFlight_cons ht, he, hp, h, hc]
    by_cases hk : t.key = key
    case pos => simp [← hk, hf]
    case neg => simp [hk, Ne.symm hk]
  case finish t ht he hp hc =>
    rw [inFlight_cons ht, hc] at h
    rw [he, hp]
    by_cases hk : t.key = key
    case pos =>
      -- The task that ends was the only one of its key in this epoch.
      have := i.single key m.ledger.epoch
      rw [inFlight_cons ht, hc, if_pos ⟨hk, rfl⟩] at this
      simp only [hk, ne_eq, List.mem_filter, decide_not, decide_true, Bool.not_true,
        Bool.false_eq_true, and_false, if_false]
      omega
    case neg => simpa [hk, Ne.symm hk] using h
  case discard t ht hl ho =>
    rw [inFlight_cons ht, if_neg fun h => ho h.right] at h
    exact hl ▸ h
  case clear ht he hp =>
    rw [hp, he, inFlight, ht, if_neg List.not_mem_nil, List.countP_eq_zero]
    intro u hu
    have := i.epoch_le u hu
    simp only [decide_eq_true_eq]
    omega
  case quiet ht he hp => rwa [inFlight, ht.countP_eq, he, hp]

theorem single_of_change (i : Tracked m) (c : Change m n) (key : Text) (epoch : Nat) :
    n.inFlight key epoch ≤ 1 := by
  have h := i.single key epoch
  cases c
  case start t ht _ _ hc hf =>
    rw [inFlight_cons ht]
    split
    case isTrue ht =>
      have hz : m.inFlight key epoch = 0 := by
        rw [← ht.left, ← ht.right, hc, i.current, if_neg hf]
      exact Nat.le_of_eq (congrArg (· + 1) hz)
    case isFalse => exact h
  case finish ht _ _ _ => exact Nat.le_of_add_right_le (inFlight_cons ht key epoch ▸ h)
  case discard ht _ _  => exact Nat.le_of_add_right_le (inFlight_cons ht key epoch ▸ h)
  case clear ht _ _    => rwa [inFlight, ht]
  case quiet ht _ _    => rwa [inFlight, ht.countP_eq]

theorem step {a : Action} (i : Tracked m) (e : Step m a n) : Tracked n where
  epoch_le _ := epoch_le_of_change i (.of_step e)
  current    := current_of_change i (.of_step e)
  single     := single_of_change i (.of_step e)

theorem run {history : History} (i : Tracked m) (r : Run m history n) : Tracked n := by
  induction r
  case refl         => exact i
  case step _ e hi  => exact hi.step e

theorem running_eq (i : Tracked m) (key : Text) :
    m.running key = m.inFlight key m.ledger.epoch + m.stale key := by
  have h := i.epoch_le
  unfold running inFlight stale
  generalize m.tasks = ts at h
  induction ts
  case nil => rfl
  case cons t ts hi =>
    have ht := h t List.mem_cons_self
    simp only [List.countP_cons, hi fun u hu => h u (.tail _ hu), decide_eq_true_eq]
    by_cases hk : t.key = key
    case neg => simp [hk]
    case pos =>
      by_cases he : t.epoch = m.ledger.epoch
      case pos => simp [hk, he]; omega
      case neg => simp [hk, he, Nat.lt_of_le_of_ne ht he]; omega

end Tracked

section Running

variable {m n : Manager} {key : Text}

theorem running_request (m : Manager) (k content : Text) (s : Settings) (svg force : Bool) :
    (m.request k content s svg force).running key =
      m.running key + if k = key ∧ (m.ledger.request k force).2 then 1 else 0 := by
  rw [running, (m.tasks_request_perm k content s svg force).countP_eq]
  cases (m.ledger.request k force).2
  case false => simp [running]
  case true  => simp [running, List.countP_cons, task]

theorem Step.running_of_starts {a : Action} (e : Step m a n) (hs : m.Starts key a) :
    key ∉ m.ledger.pending ∧ n.running key = m.running key + 1 := by
  cases e
  case request =>
    simp only [Starts] at hs
    rw [running_request, if_pos hs, ← hs.left]
    exact ⟨Ledger.not_mem_pending_of_request hs.right, rfl⟩
  all_goals contradiction

theorem Step.running_le {a : Action} (e : Step m a n) (hs : ¬m.Starts key a) :
    n.running key ≤ m.running key := by
  have le_of_perm {k : Manager} {t : Task} (ht : m.tasks.Perm (t :: k.tasks)) :
      k.running key ≤ m.running key := by
    rw [running, running, ht.countP_eq, List.countP_cons]
    exact Nat.le_add_right ..
  cases e
  case request =>
    simp only [Starts] at hs
    rw [running_request, if_neg hs]
    exact Nat.le_refl _
  case hang h => exact Nat.le_of_eq <| (tasks_hang_perm h).countP_eq _
  case settle h =>
    rw [running, tasks_finish]
    exact le_of_perm (tasks_perm_of_queue h)
  case stop h =>
    rw [running, tasks_finish]
    exact le_of_perm (tasks_perm_of_hanging h)
  case clear   => exact Nat.le_refl _
  case advance => exact Nat.le_refl _

-- A compilation that starts finds those of its key that are in flight all from earlier epochs.
theorem Tracked.running_eq_stale_of_starts {a : Action} (i : Tracked m) (e : Step m a n)
    (h : m.Starts key a) : m.running key = m.stale key := by
  rw [i.running_eq, i.current, if_neg (e.running_of_starts h).left, Nat.zero_add]

end Running

-- One compilation for each key and epoch is all that there ever is in flight. For two of one key to be
-- in flight at once, one has to be started while another goes on that a clearing has let go of.
theorem running_le_one_iff {width window : Nat} {history : History} {m : Manager}
    (r : Run (.new width window) history m) (key : Text) :
    (∀ n ∈ history.states m, ∀ epoch, n.inFlight key epoch ≤ 1) ∧
    ((∀ n ∈ history.states m, n.running key ≤ 1) ↔
      ∀ n a, (n, a) ∈ history → n.Starts key a → n.stale key = 0) := by
  have tracked {n : Manager} (h : n ∈ history.states m) : Tracked n :=
    have ⟨_, r⟩ := r.of_mem_states h
    (Tracked.new width window).run r
  refine ⟨fun n h => (tracked h).single key, ?mp, ?mpr⟩
  case mp =>
    intro h n a hm hs
    have hn : n ∈ history.states m := .tail _ (List.mem_map.mpr ⟨_, hm, rfl⟩)
    have ⟨o, ho, e⟩ := r.exists_step hm
    have h₁ := h o ho
    have h₂ := (e.running_of_starts hs).right
    have h₃ := (tracked hn).running_eq_stale_of_starts e hs
    omega
  case mpr =>
    clear tracked
    intro h n hn
    induction r generalizing n
    case refl =>
      cases List.mem_singleton.mp hn
      exact Nat.zero_le 1
    case step history k a l r e hi =>
      have hi {n} := hi (fun n a hm => h n a (.tail _ hm)) n
      cases hn
      case tail hn => exact hi hn
      case head =>
        by_cases hs : k.Starts key a
        case neg => exact Nat.le_trans (e.running_le hs) (hi (.head _))
        case pos =>
          have i := (Tracked.new width window).run r
          have h₁ := (e.running_of_starts hs).right
          have h₂ := i.running_eq_stale_of_starts e hs
          have h₃ := h k a (.head _) hs
          omega

section Restart

variable (m : Manager) (key content : Text) (s : Settings)

-- A key that is asked for, then cleared, and asked for again while its first compilation goes on.
theorem Run.restart :
    have m₁ := m.request key content s true false
    Run m [(m₁.clear, .request key content s true false), (m₁, .clear),
      (m, .request key content s true false)] (m₁.clear.request key content s true false) :=
  .step (.step (.step .refl .request) .clear) .request

-- The same, but the first compilation comes to its end before the key is asked for again.
theorem Run.settled_restart (result : Except Compilation.Failure Compilation.Artifacts)
    (h : (m.request key content s true false).queue = [t]) :
    have m₁ := m.request key content s true false
    have m₃ := ({ m₁.clear with queue := [] } : Manager).finish t result
    Run m [(m₃, .request key content s true false), (m₁.clear, .settle t result), (m₁, .clear),
      (m, .request key content s true false)] (m₃.request key content s true false) :=
  .step (.step (.step (.step .refl .request) .clear) (.settle [] [] h)) .request

end Restart

theorem running_le_one_of_settled_restart :
    ∃ history m, Run (new 2 0) history m ∧ m.inFlight ['k'] 1 = 1 ∧
      ∀ n ∈ history.states m, n.running ['k'] ≤ 1 := by
  have r := Run.settled_restart (new 2 0) ['k'] ['x'] (.withCacheDirectory "cache".toList)
    (.error (.files .makeDirectory .notADirectory)) rfl
  refine ⟨_, _, r, rfl, (running_le_one_iff r ['k']).right.mpr ?_⟩
  intro n a h hs
  simp only [List.mem_cons, Prod.mk.injEq, List.not_mem_nil, or_false] at h
  rcases h with ⟨rfl, rfl⟩ | ⟨rfl, rfl⟩ | ⟨rfl, rfl⟩ | ⟨rfl, rfl⟩
  case inl => rfl
  case inr.inl => contradiction
  case inr.inr.inl => contradiction
  case inr.inr.inr => rfl

theorem two_running_after_restart :
    ¬∀ width window history m key, Run (new width window) history m → m.running key ≤ 1 := by
  intro h
  have r := Run.restart (new 2 0) ['k'] ['x'] (.withCacheDirectory "cache".toList)
  exact absurd (h 2 0 _ _ ['k'] r) (by decide)

end TikzPress.Manager
