import TikzPress.CacheKey
import TikzPress.Compilation
import TikzPress.Ledger
import TikzPress.Refresh
import TikzPress.Standalone

/-!
The manager of compilations. Requests are served in their order, so many at once as there are places. A
program that hangs keeps its place until its time is up. Main statement: each step brings the work that is
left nearer to its end (`work_lt_of_step?`).
-/

namespace TikzPress

structure Task where
  key : Text
  epoch : Nat
  settings : Settings
  job : Compilation.Job
  deriving DecidableEq, Repr

structure HangingTask where
  task : Task
  since : Nat
  program : Text
  messages : Bytes
  deriving DecidableEq, Repr

namespace HangingTask

def deadline? (h : HangingTask) : Option Nat := h.task.settings.timeout?.map (h.since + ·)

def failure? (now : Nat) (h : HangingTask) : Option Compilation.Failure :=
  (Compilation.Stop.hanging h.program h.messages).failure? h.task.settings.timeout? (now - h.since)

end HangingTask

structure Manager where
  width : Nat
  now : Nat
  ledger : Ledger
  refresh : Refresh
  queue : List Task
  hanging : List HangingTask
  deriving Repr

namespace Manager

-- There is at least one place.
def new (width window : Nat) : Manager :=
  ⟨max width 1, 0, .empty, .new window, [], []⟩

def status (m : Manager) (key : Text) : Status := m.ledger.status key

def artifact? (m : Manager) (key : Text) : Option Text := m.ledger.artifact? key

def failure? (m : Manager) (key : Text) : Option Text := m.ledger.failure? key

def task (m : Manager) (key content : Text) (s : Settings) (svg : Bool) : Task where
  key
  epoch := m.ledger.epoch
  settings := s
  job :=
    { source := Standalone.wrap content s.preamble
      baseName := CacheKey.baseName key
      cacheDirectory := s.cacheDirectory
      svg }

def request (m : Manager) (key content : Text) (s : Settings) (svg force : Bool) : Manager :=
  let (ledger, starts) := m.ledger.request key force
  { m with ledger, queue := if starts then m.queue ++ [m.task key content s svg] else m.queue }

-- What comes of a task from before the last clearing is dropped.
def finish (m : Manager) (t : Task)
    (result : Except Compilation.Failure Compilation.Artifacts) : Manager :=
  let result : Except Text Text := match result with
    | .ok artifacts => .ok artifacts.shown
    | .error f => .error f.message
  match m.ledger.settle? t.key t.epoch result with
  | none => m
  | some ledger => { m with ledger, refresh := m.refresh.schedule m.now (some t.key) }

-- Tasks go on, but nothing comes of them.
def clear (m : Manager) : Manager :=
  { m with ledger := m.ledger.clear, refresh := m.refresh.schedule m.now none }

def advance (ms : Nat) (m : Manager) : Manager :=
  { m with now := m.now + ms, refresh := m.refresh.advance (m.now + ms) }

def isIdle (m : Manager) : Bool := m.queue.isEmpty && m.hanging.isEmpty

-- Nobody uses the manager any more. As soon as no task is left its timer is stopped.
def drop (m : Manager) : Manager :=
  if m.isIdle then { m with refresh := m.refresh.cancel } else m

def isHanging (m : Manager) (key : Text) : Bool :=
  m.hanging.any fun h => h.task.key = key && h.task.epoch = m.ledger.epoch

def takeFirst? (f : α → Option β) : List α → Option (α × β × List α)
  | [] => none
  | a :: as =>
    match f a with
    | some b => some (a, b, as)
    | none => (takeFirst? f as).map fun (x, b, others) => (x, b, a :: others)

theorem length_lt_of_takeFirst? {f : α → Option β} {as others : List α} {a : α} {b : β}
    (h : takeFirst? f as = some (a, b, others)) : others.length < as.length := by
  induction as generalizing others
  case nil => simp [takeFirst?] at h
  case cons x as ih =>
    simp only [takeFirst?] at h
    split at h
    case h_1 =>
      simp only [Option.some.injEq, Prod.mk.injEq] at h
      simp [← h.2.2]
    case h_2 =>
      simp only [Option.map_eq_some_iff, Prod.mk.injEq] at h
      obtain ⟨⟨_, _, rest⟩, hr, rfl, rfl, rfl⟩ := h
      simpa using ih hr

def start (host : Host) (m : Manager) (t : Task) (w : World) : Manager × World :=
  match (Compilation.compile host t.settings t.job).run w with
  | (.ok artifacts, w) => (m.finish t (.ok artifacts), w)
  | (.error (.failed f), w) => (m.finish t (.error f), w)
  | (.error (.hanging program messages), w) =>
    ({ m with hanging := m.hanging ++ [⟨t, m.now, program, messages⟩] }, w)

def step? (host : Host) (m : Manager) (w : World) : Option (Manager × World) :=
  match takeFirst? (HangingTask.failure? m.now) m.hanging with
  | some (h, f, hanging) => some ({ m with hanging }.finish h.task (.error f), w)
  | none =>
    match m.queue with
    | [] => none
    | t :: queue =>
      if m.hanging.length < m.width then some ({ m with queue }.start host t w) else none

def work (m : Manager) : Nat := 2 * m.queue.length + m.hanging.length

@[simp] theorem queue_finish (m : Manager) (t : Task)
    (result : Except Compilation.Failure Compilation.Artifacts) :
    (m.finish t result).queue = m.queue := by
  unfold finish
  dsimp only
  split <;> rfl

@[simp] theorem hanging_finish (m : Manager) (t : Task)
    (result : Except Compilation.Failure Compilation.Artifacts) :
    (m.finish t result).hanging = m.hanging := by
  unfold finish
  dsimp only
  split <;> rfl

@[simp] theorem work_finish (m : Manager) (t : Task)
    (result : Except Compilation.Failure Compilation.Artifacts) :
    (m.finish t result).work = m.work := by
  simp [work]

@[simp] theorem work_advance (ms : Nat) (m : Manager) : (m.advance ms).work = m.work := rfl

theorem work_start_le (host : Host) (m : Manager) (t : Task) (w : World) :
    (m.start host t w).1.work ≤ m.work + 1 := by
  unfold start
  split
  case h_1 | h_2 => simp
  case h_3 =>
    simp only [work, List.length_append, List.length_singleton]
    omega

theorem work_lt_of_step? {host : Host} {m n : Manager} {w v : World}
    (h : m.step? host w = some (n, v)) : n.work < m.work := by
  unfold step? at h
  split at h
  case h_1 _ _ hanging ht =>
    have := length_lt_of_takeFirst? ht
    simp only [Option.some.injEq, Prod.mk.injEq] at h
    rw [← h.1, work_finish]
    simp only [work]
    omega
  case h_2 =>
    split at h
    case h_1 => simp at h
    case h_2 t queue hq =>
      split at h
      case isTrue =>
        simp only [Option.some.injEq] at h
        have hs := work_start_le host { m with queue } t w
        rw [h] at hs
        simp only [work, hq, List.length_cons] at hs ⊢
        omega
      case isFalse => contradiction

def runUntil (host : Host) (isDone : Manager → Bool) (m : Manager) (w : World) :
    Manager × World :=
  if isDone m then (m, w)
  else
    match _h : m.step? host w with
    | none => (m, w)
    | some (n, v) => runUntil host isDone n v
termination_by m.work
decreasing_by exact work_lt_of_step? _h

-- The time stands still.
def wait (host : Host) (key : Text) (m : Manager) (w : World) : Manager × World :=
  runUntil host (fun m => m.status key ≠ .pending) m w

def deadline? (m : Manager) : Option Nat :=
  (m.hanging.filterMap HangingTask.deadline?).min?

def stepInTime? (host : Host) (m : Manager) (w : World) : Option (Manager × World) :=
  match m.step? host w with
  | some next => some next
  | none => m.deadline?.bind fun time => (m.advance (time - m.now)).step? host w

theorem work_lt_of_stepInTime? {host : Host} {m n : Manager} {w v : World}
    (h : m.stepInTime? host w = some (n, v)) : n.work < m.work := by
  unfold stepInTime? at h
  split at h
  case h_1 _ _ hs => exact work_lt_of_step? (hs.trans h)
  case h_2 =>
    obtain ⟨time, _, ht⟩ := Option.bind_eq_some_iff.1 h
    exact work_advance (time - m.now) m ▸ work_lt_of_step? ht

def waitInTime (host : Host) (key : Text) (m : Manager) (w : World) : Manager × World :=
  if m.status key ≠ .pending then (m, w)
  else
    match _h : m.stepInTime? host w with
    | none => (m, w)
    | some (n, v) => waitInTime host key n v
termination_by m.work
decreasing_by exact work_lt_of_stepInTime? _h

def waitEach (host : Host) : List Text → Manager → World → List Status × World
  | [], _, w => ([], w)
  | key :: keys, m, w =>
    let (m, w) := m.waitInTime host key w
    let (statuses, w) := waitEach host keys m w
    (m.status key :: statuses, w)

end Manager
end TikzPress
