import Mathlib.Data.List.Perm.Basic
import TikzPress.Manager

/-!
Runs of a manager in which requests, endings of compilations and clearings come in any order. A
compilation in flight may end at any time and with any result, whatever its place in the queue. Main
statements: the steps that the manager itself takes are steps of such a run (`Step.of_step?`), and what happens
without a request or a clearing leaves less to do (`Step.work_lt`).
-/

namespace TikzPress.Manager

-- The compilations that were started and are not over, those with a place and those without.
def tasks (m : Manager) : List Task :=
  m.queue ++ m.hanging.map HangingTask.task

inductive Action where
  | request (key content : Text) (settings : Settings) (svg force : Bool)
  | hang (t : Task)
  | settle (t : Task) (result : Except Compilation.Failure Compilation.Artifacts)
  | clear
  | advance (ms : Nat)

-- What happens without anybody asking for it.
def Action.Unasked : Action → Prop
  | .request .. | .clear => False
  | _                    => True

-- Each step is one change of the shared state that nothing can interrupt. Handles to a manager that
-- differ in whether they want an SVG all take their steps on the same state.
inductive Step (m : Manager) : Action → Manager → Prop
  | request : Step m (.request key content s svg force) (m.request key content s svg force)
  | hang (before after) : m.queue = before ++ t :: after → Step m (.hang t)
      { m with
        queue := before ++ after
        hanging := m.hanging ++ [⟨t, m.now, program, messages⟩] }
  | settle (before after) : m.queue = before ++ t :: after →
      Step m (.settle t result) ({ m with queue := before ++ after }.finish t result)
  | stop (before after) : m.hanging = before ++ h :: after →
      Step m (.settle h.task result) ({ m with hanging := before ++ after }.finish h.task result)
  | clear : Step m .clear m.clear
  | advance : Step m (.advance ms) (m.advance ms)

-- A history tells what was done in which state, the latest first.
abbrev History := List (Manager × Action)

inductive Run (m : Manager) : History → Manager → Prop
  | refl : Run m [] m
  | step : Run m history m₁ → Step m₁ a m₂ → Run m ((m₁, a) :: history) m₂

-- The states that a run with a given history and end passes through.
def History.states (history : History) (last : Manager) : List Manager :=
  last :: history.map Prod.fst

section Operations

variable {m n : Manager} {t : Task}

@[simp] theorem tasks_finish (m : Manager) (t : Task)
    (result : Except Compilation.Failure Compilation.Artifacts) :
    (m.finish t result).tasks = m.tasks := by
  simp [tasks]

theorem tasks_request_perm (m : Manager) (key content : Text) (s : Settings) (svg force : Bool) :
    (m.request key content s svg force).tasks.Perm <|
      if (m.ledger.request key force).2 then m.task key content s svg :: m.tasks else m.tasks := by
  simp only [request, tasks]
  split
  case isTrue  => rw [List.append_assoc]; exact List.perm_middle
  case isFalse => exact .refl _

theorem tasks_perm_of_queue {before after : List Task} (h : m.queue = before ++ t :: after) :
    m.tasks.Perm (t :: ({ m with queue := before ++ after } : Manager).tasks) := by
  simp only [tasks, h, List.append_assoc, List.cons_append]
  exact List.perm_middle

theorem tasks_perm_of_hanging {before after : List HangingTask} {x : HangingTask}
    (h : m.hanging = before ++ x :: after) :
    m.tasks.Perm (x.task :: ({ m with hanging := before ++ after } : Manager).tasks) := by
  simp only [tasks, h, List.map_append, List.map_cons, ← List.append_assoc]
  exact List.perm_middle

theorem tasks_hang_perm {before after : List Task} {program : Text} {messages : Bytes}
    (h : m.queue = before ++ t :: after) :
    ({ m with
      queue := before ++ after
      hanging := m.hanging ++ [⟨t, m.now, program, messages⟩] } : Manager).tasks.Perm m.tasks := by
  refine .trans ?_ (tasks_perm_of_queue h).symm
  simp only [tasks, List.map_append, List.map_cons, List.map_nil, ← List.append_assoc]
  exact List.perm_append_singleton t _

theorem work_request_le (m : Manager) (key content : Text) (s : Settings) (svg force : Bool) :
    (m.request key content s svg force).work ≤ m.work + 2 := by
  simp only [work, request]
  split
  case isTrue  => simp only [List.length_append, List.length_singleton]; omega
  case isFalse => exact Nat.le_add_right ..

end Operations

theorem exists_append_of_takeFirst? {f : α → Option β} {as others : List α} {a : α} {b : β}
    (h : takeFirst? f as = some (a, b, others)) :
    ∃ before after, as = before ++ a :: after ∧ others = before ++ after ∧ f a = some b := by
  induction as generalizing others
  case nil => simp [takeFirst?] at h
  case cons x as hi =>
    simp only [takeFirst?] at h
    split at h
    case h_1 hf =>
      cases h
      exact ⟨[], as, rfl, rfl, hf⟩
    case h_2 =>
      obtain ⟨⟨_, _, rest⟩, hr, he⟩ := Option.map_eq_some_iff.mp h
      cases he
      obtain ⟨before, after, ha, ho, hf⟩ := hi hr
      exact ⟨x :: before, after, by rw [ha]; rfl, by rw [ho]; rfl, hf⟩

-- A step of a manager stops a program whose time is up, or starts the first task in the queue.
theorem step?_cases {host : Host} {m n : Manager} {w v : World} (h : m.step? host w = some (n, v)) :
    (∃ before x after f, m.hanging = before ++ x :: after ∧
      n = ({ m with hanging := before ++ after } : Manager).finish x.task (.error f)) ∨
    (∃ t queue, m.queue = t :: queue ∧ n = (({ m with queue } : Manager).start host t w).1) := by
  unfold step? at h
  split at h
  case h_1 x f hanging ht =>
    have ⟨before, after, hm, ho, _⟩ := exists_append_of_takeFirst? ht
    cases h
    exact .inl ⟨before, x, after, f, hm, by rw [ho]⟩
  case h_2 =>
    split at h
    case h_1 => contradiction
    case h_2 t queue hq =>
      split at h
      case isTrue  => exact .inr ⟨t, queue, hq, (congrArg Prod.fst (Option.some.inj h)).symm⟩
      case isFalse => contradiction

theorem Step.of_start {host : Host} {m : Manager} {t : Task} {queue : List Task} {w : World}
    (h : m.queue = t :: queue) :
    ∃ a : Action, a.Unasked ∧ Step m a (({ m with queue } : Manager).start host t w).1 := by
  unfold start
  split
  case h_1 => exact ⟨.settle t (.ok _), trivial, .settle [] queue h⟩
  case h_2 => exact ⟨.settle t (.error _), trivial, .settle [] queue h⟩
  case h_3 => exact ⟨.hang t, trivial, .hang [] queue h⟩

theorem Step.of_step? {host : Host} {m n : Manager} {w v : World}
    (h : m.step? host w = some (n, v)) : ∃ a : Action, a.Unasked ∧ Step m a n := by
  obtain ⟨before, x, after, f, hm, rfl⟩ | ⟨t, queue, hq, rfl⟩ := step?_cases h
  case inl => exact ⟨.settle x.task (.error f), trivial, .stop before after hm⟩
  case inr => exact Step.of_start hq

section Unasked

variable {m n : Manager} {t : Task} {result : Except Compilation.Failure Compilation.Artifacts}

-- A compilation in flight can come to its end.
theorem Step.exists_settle (h : m.tasks ≠ []) (result : Except Compilation.Failure Compilation.Artifacts) :
    ∃ t n, Step m (.settle t result) n := by
  cases hq : m.queue
  case cons t queue => exact ⟨t, _, .settle [] queue hq⟩
  case nil =>
    cases hh : m.hanging
    case cons x hanging => exact ⟨x.task, _, .stop [] hanging hh⟩
    case nil            => simp [tasks, hq, hh] at h

theorem Step.work_lt_of_settle (e : Step m (.settle t result) n) : n.work < m.work := by
  cases e
  case settle before after h =>
    rw [work_finish]
    simp only [work, h, List.length_append, List.length_cons]
    omega
  case stop before after h =>
    rw [work_finish]
    simp only [work, h, List.length_append, List.length_cons]
    omega

-- What happens unasked leaves less to do, but for the time that passes.
theorem Step.work_lt {a : Action} (e : Step m a n) (h : a.Unasked) :
    n.work < m.work ∨ ∃ ms, n = m.advance ms := by
  cases a
  case request => contradiction
  case clear   => contradiction
  case settle  => exact .inl e.work_lt_of_settle
  case advance => cases e; exact .inr ⟨_, rfl⟩
  case hang =>
    cases e
    case hang before after h =>
      refine .inl ?_
      simp only [work, h, List.length_append, List.length_cons, List.length_nil]
      omega

end Unasked

namespace Run

variable {m n : Manager} {history : History}

theorem of_mem {x : Manager × Action} (r : Run m history n) (h : x ∈ history) :
    ∃ earlier, Run m earlier x.1 := by
  induction r
  case refl => contradiction
  case step r _ hi =>
    cases h
    case head   => exact ⟨_, r⟩
    case tail h => exact hi h

theorem of_mem_states {k : Manager} (r : Run m history n) (h : k ∈ history.states n) :
    ∃ earlier, Run m earlier k := by
  cases h
  case head   => exact ⟨_, r⟩
  case tail h =>
    have ⟨_, hm, he⟩ := List.mem_map.mp h
    exact he ▸ r.of_mem hm

theorem exists_step {k : Manager} {a : Action} (r : Run m history n) (h : (k, a) ∈ history) :
    ∃ l ∈ history.states n, Step k a l := by
  induction r
  case refl => contradiction
  case step r e hi =>
    cases h
    case head => exact ⟨_, .head _, e⟩
    case tail h =>
      have ⟨l, hl, e⟩ := hi h
      exact ⟨l, .tail _ hl, e⟩

end Run
end TikzPress.Manager
