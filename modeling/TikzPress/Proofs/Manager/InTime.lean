import TikzPress.Proofs.Compilation.Ending
import TikzPress.Proofs.Manager.Session

/-!
Waiting with a clock. The steps that a manager takes while somebody waits for it, and the time that it lets
pass, are those of a session. Main statement: where every call of a program comes to an end, asking for some
contents and then waiting for each of them is a session in which all is found (`exists_run_inTime`).
-/

namespace TikzPress

-- A program is stopped when its time has come.
theorem HangingTask.failure?_ne_none {x : HangingTask} {time now : Nat} (h : x.deadline? = some time)
    (due : time ≤ now) : x.failure? now ≠ none := by
  have ⟨limit, hl, ht⟩ := Option.map_eq_some_iff.mp h
  have passed : limit ≤ now - x.since := by omega
  simp [failure?, Compilation.Stop.failure?, hl, passed]

namespace Manager

-- Requests in a row, each under the key of its content.
def requests (s : Settings) (svg force : Bool) (contents : List Text) (m : Manager) : Manager :=
  contents.foldl (fun m c => m.request (CacheKey.of c s) c s svg force) m

-- There is a place, all compilations have the same settings, and those that keep a place are stopped.
structure Timed (s : Settings) (m : Manager) : Prop where
  width    : 0 < m.width
  settings : ∀ t ∈ m.tasks, t.settings = s
  limited  : m.hanging ≠ [] → s.timeout? ≠ none

section Timed

variable {host : Host} {s : Settings} {m n : Manager} {w v : World}

@[simp] theorem width_finish (m : Manager) (t : Task)
    (result : Except Compilation.Failure Compilation.Artifacts) : (m.finish t result).width = m.width := by
  unfold finish
  dsimp only
  split <;> rfl

theorem takeFirst?_eq_none_iff {f : α → Option β} {as : List α} :
    takeFirst? f as = none ↔ ∀ a ∈ as, f a = none := by
  induction as
  case nil => simp [takeFirst?]
  case cons x as hi =>
    cases hx : f x
    case none   => simp [takeFirst?, hx, hi]
    case some b => simp [takeFirst?, hx]

-- A step in time is one that can be taken now or after a while.
theorem stepInTime?_cases (h : m.stepInTime? host w = some (n, v)) :
    ∃ ms, m.step? host w = some (n, v) ∨ (m.advance ms).step? host w = some (n, v) := by
  unfold stepInTime? at h
  split at h
  case h_1 hs => exact ⟨0, .inl (hs.trans h)⟩
  case h_2 =>
    have ⟨time, _, ht⟩ := Option.bind_eq_some_iff.mp h
    exact ⟨time - m.now, .inr ht⟩

namespace Timed

theorem new (s : Settings) (width window : Nat) : Timed s (.new width window) where
  width      := Nat.lt_of_lt_of_le Nat.zero_lt_one (Nat.le_max_right width 1)
  settings _ := nofun
  limited h  := absurd rfl h

theorem request (i : Timed s m) (key content : Text) (svg force : Bool) :
    Timed s (m.request key content s svg force) := by
  refine ⟨i.width, fun t ht => ?_, i.limited⟩
  have mem := (m.tasks_request_perm key content s svg force).mem_iff.mp ht
  split at mem
  case isFalse => exact i.settings t mem
  case isTrue =>
    cases mem
    case head     => rfl
    case tail mem => exact i.settings t mem

theorem requests (i : Timed s m) (svg force : Bool) (contents : List Text) :
    Timed s (m.requests s svg force contents) := by
  induction contents generalizing m
  case nil         => exact i
  case cons c _ hi => exact hi (i.request _ c svg force)

theorem finish (i : Timed s m) (t : Task) (result : Except Compilation.Failure Compilation.Artifacts) :
    Timed s (m.finish t result) where
  width         := (m.width_finish t result).symm ▸ i.width
  settings u hu := i.settings u (m.tasks_finish t result ▸ hu)
  limited h     := i.limited (m.hanging_finish t result ▸ h)

theorem advance (i : Timed s m) (ms : Nat) : Timed s (m.advance ms) :=
  ⟨i.width, i.settings, i.limited⟩

-- A task that starts keeps its place only if a program hangs, which it does for a while.
theorem start (b : host.Bounded s) (i : Timed s m) {t : Task} {queue : List Task} (h : m.queue = t :: queue)
    (w : World) : Timed s (({ m with queue } : Manager).start host t w).1 := by
  have first : m.queue = [] ++ t :: queue := h
  have perm : m.tasks.Perm (t :: ({ m with queue } : Manager).tasks) := tasks_perm_of_queue first
  have settings (u) (hu : u ∈ ({ m with queue } : Manager).tasks) : u.settings = s :=
    i.settings u (perm.mem_iff.mpr (.tail _ hu))
  have own : t.settings = s := i.settings t (perm.mem_iff.mpr (.head _))
  have rest : Timed s ({ m with queue } : Manager) := ⟨i.width, settings, i.limited⟩
  unfold Manager.start
  split
  case h_1 => exact rest.finish t (.ok _)
  case h_2 => exact rest.finish t (.error _)
  case h_3 program messages v hc =>
    refine ⟨i.width, fun u hu => ?_, fun _ unlimited => ?_⟩
    case refine_1 => exact i.settings u ((tasks_hang_perm first).mem_iff.mp hu)
    case refine_2 => exact Compilation.ends_compile b unlimited w program messages v (own ▸ hc)

theorem stop (i : Timed s m) {before after : List HangingTask} {x : HangingTask}
    (h : m.hanging = before ++ x :: after) : Timed s ({ m with hanging := before ++ after } : Manager) where
  width         := i.width
  settings t ht := i.settings t ((tasks_perm_of_hanging h).mem_iff.mpr (.tail _ ht))
  limited _     := i.limited (by simp [h])

theorem step? (b : host.Bounded s) (i : Timed s m) (h : m.step? host w = some (n, v)) : Timed s n := by
  obtain ⟨before, x, after, f, hm, rfl⟩ | ⟨t, queue, hq, rfl⟩ := step?_cases h
  case inl => exact (i.stop hm).finish x.task (.error f)
  case inr => exact i.start b hq w

theorem stepInTime? (b : host.Bounded s) (i : Timed s m) (h : m.stepInTime? host w = some (n, v)) :
    Timed s n := by
  have ⟨ms, h⟩ := stepInTime?_cases h
  exact h.elim (i.step? b) ((i.advance ms).step? b)

-- A manager that has tasks but no step to take has all its places kept.
theorem hanging_ne_nil (i : Timed s m) (ht : m.tasks ≠ []) (h : m.step? host w = none) : m.hanging ≠ [] := by
  unfold Manager.step? at h
  split at h
  case h_1 => contradiction
  case h_2 =>
    split at h
    case h_1 hq => simpa [tasks, hq] using ht
    case h_2 =>
      split at h
      case isTrue => contradiction
      case isFalse full =>
        intro idle
        rw [idle] at full
        exact full i.width

-- Time passes until the first of the programs that keep a place is stopped.
theorem exists_step?_of_hanging (i : Timed s m) (h : m.hanging ≠ []) (host : Host) (w : World) :
    ∃ time next, m.deadline? = some time ∧ (m.advance (time - m.now)).step? host w = some next := by
  have limited : m.deadline? ≠ none := by
    have ⟨x, hx⟩ := List.exists_mem_of_ne_nil _ h
    have ⟨limit, hl⟩ := Option.ne_none_iff_exists'.mp (i.limited h)
    have own : x.task.settings = s := i.settings _ (List.mem_append_right _ (List.mem_map_of_mem hx))
    simp only [Manager.deadline?, ne_eq, List.min?_eq_none_iff, List.filterMap_eq_nil_iff, not_forall]
    exact ⟨x, hx, by simp [HangingTask.deadline?, own, hl]⟩
  have ⟨time, ht⟩ := Option.ne_none_iff_exists'.mp limited
  have ⟨x, hx, hd⟩ := List.mem_filterMap.mp (List.min?_mem ht)
  have due : takeFirst? (HangingTask.failure? (m.advance (time - m.now)).now) m.hanging ≠ none := fun none =>
    HangingTask.failure?_ne_none hd (by simp only [Manager.advance]; omega) (takeFirst?_eq_none_iff.mp none x hx)
  have ⟨next, hn⟩ := Option.ne_none_iff_exists'.mp due
  have stopped : takeFirst? (HangingTask.failure? (m.advance (time - m.now)).now)
      (m.advance (time - m.now)).hanging = some next := hn
  exact ⟨time, _, ht, by rw [Manager.step?, stopped]⟩

theorem exists_stepInTime? (i : Timed s m) (h : m.tasks ≠ []) (host : Host) (w : World) :
    ∃ next, m.stepInTime? host w = some next := by
  cases hs : m.step? host w
  case some next => exact ⟨next, by simp [Manager.stepInTime?, hs]⟩
  case none =>
    have ⟨time, next, hd, hn⟩ := i.exists_step?_of_hanging (i.hanging_ne_nil h hs) host w
    exact ⟨next, by simp [Manager.stepInTime?, hs, hd, hn]⟩

end Timed
end Timed
end Manager

namespace Session

variable {host : Host} {s : Settings} {svg force : Bool} {contents : List Text} {w v : World}

section Steps

variable {m n : Manager} (asking waiting : List Text) (found : List Status)

theorem run_stepInTime? (h : m.stepInTime? host w = some (n, v)) :
    Run s svg force ⟨m, asking, waiting, found⟩ ⟨n, asking, waiting, found⟩ := by
  obtain ⟨ms, h | h⟩ := Manager.stepInTime?_cases h
  case inl =>
    have ⟨_, unasked, e⟩ := Manager.Step.of_step? h
    exact .single (.work e unasked)
  case inr =>
    have passes : Manager.Step m _ (m.advance ms) := .advance
    have ⟨_, unasked, e⟩ := Manager.Step.of_step? h
    exact .head (.work passes trivial) (.single (.work e unasked))

theorem run_requests (m : Manager) :
    Run s svg force ⟨m, asking, waiting, found⟩ ⟨m.requests s svg force asking, [], waiting, found⟩ := by
  induction asking generalizing m
  case nil         => exact .refl
  case cons c _ hi => exact .head (.ask rfl) (hi _)

end Steps

-- Who waits for a key until it is not pending any more does not wait for good.
theorem run_waitInTime (svg force : Bool) (b : host.Bounded s) {m : Manager} {asking waiting : List Text}
    {found : List Status} (i : Sound s contents ⟨m, asking, waiting, found⟩) (t : m.Timed s) (key : Text)
    (w : World) :
    have n := (m.waitInTime host key w).1
    Run s svg force ⟨m, asking, waiting, found⟩ ⟨n, asking, waiting, found⟩ ∧ n.Timed s ∧
      n.status key ≠ .pending := by
  fun_induction Manager.waitInTime host key m w
  case case1 done => exact ⟨.refl, t, done⟩
  case case2 m w pending stuck =>
    have tasks : m.tasks ≠ [] := tasks_ne_nil_of_pending i.tracked (Decidable.not_not.mp pending)
    have ⟨_, next⟩ := t.exists_stepInTime? tasks host w
    exact nomatch stuck.symm.trans next
  case case3 next hi =>
    have moves : Run s svg force _ _ := run_stepInTime? asking waiting found next
    have ⟨rest, timed, done⟩ := hi (i.run moves) (t.stepInTime? b next)
    exact ⟨moves.trans rest, timed, done⟩

theorem run_waitEach (svg force : Bool) (b : host.Bounded s) {m : Manager} {waiting : List Text}
    {found : List Status} (i : Sound s contents ⟨m, [], waiting, found⟩) (t : m.Timed s) (w : World) :
    ∃ n, Run s svg force ⟨m, [], waiting, found⟩
      ⟨n, [], [], found ++ (m.waitEach host (waiting.map (CacheKey.of · s)) w).1⟩ := by
  induction waiting generalizing m found w
  case nil => exact ⟨m, by simpa [Manager.waitEach] using .refl⟩
  case cons content rest hi =>
    have ⟨waits, timed, done⟩ := run_waitInTime svg force b i t (CacheKey.of content s) w
    have finds := waits.tail (.find rfl rfl done)
    have ⟨n, others⟩ := hi (i.run finds) timed (m.waitInTime host (CacheKey.of content s) w).2
    refine ⟨n, finds.trans ?_⟩
    simpa [Manager.waitEach, status] using others

-- All contents are asked for before anything else happens, and then waited for in turn.
theorem exists_run_inTime (b : host.Bounded s) (svg force : Bool) (window : Nat) (contents : List Text) (w : World) :
    ∃ m, Run s svg force (.start host.width window contents)
      ⟨m, [], [], (((Manager.new host.width window).requests s svg force contents).waitEach host
        (contents.map (CacheKey.of · s)) w).1⟩ := by
  have asks : Run s svg force (.start host.width window contents) _ := run_requests ..
  have timed := (Manager.Timed.new s host.width window).requests svg force contents
  have sound := (Sound.start s host.width window contents).run asks
  have ⟨m, waits⟩ := run_waitEach svg force b sound timed w
  exact ⟨m, asks.trans waits⟩

end Session
end TikzPress
