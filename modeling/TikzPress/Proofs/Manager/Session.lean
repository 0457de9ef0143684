import Mathlib.Logic.Relation
import TikzPress.Proofs.Manager.Settled

/-!
A session with a manager: somebody asks for some contents, one after another, and then waits for each of them
in the same order. Meanwhile compilations go on and end as they like, also while there is still something to
ask for. Main statement: a session never gets stuck and never goes on for good, and for each content it finds
the settled state of its key (`endsWith_of_settled`).
-/

namespace TikzPress

-- The contents that are still to be asked for, those that are still to be waited for, and what was found.
structure Session where
  manager : Manager
  asking  : List Text
  waiting : List Text
  found   : List Status

namespace Session

def start (width window : Nat) (contents : List Text) : Session :=
  ⟨.new width window, contents, contents, []⟩

def status (s : Settings) (m : Manager) (content : Text) : Status :=
  m.status (CacheKey.of content s)

-- A wait comes to its end in a state in which the key is not pending; when a waiter is woken up for it is a
-- matter of the notices.
inductive Step (s : Settings) (svg force : Bool) (σ : Session) : Session → Prop
  | work : Manager.Step σ.manager a m → a.Unasked → Step s svg force σ { σ with manager := m }
  | ask : σ.asking = content :: rest → Step s svg force σ
      { σ with
        manager := σ.manager.request (CacheKey.of content s) content s svg force
        asking  := rest }
  | find : σ.asking = [] → σ.waiting = content :: rest → status s σ.manager content ≠ .pending →
      Step s svg force σ
        { σ with
          waiting := rest
          found   := σ.found ++ [status s σ.manager content] }

abbrev Run (s : Settings) (svg force : Bool) : Session → Session → Prop :=
  Relation.ReflTransGen (Step s svg force)

-- A request is good for a compilation, and a compilation for two steps at most.
def work (σ : Session) : Nat :=
  3 * σ.asking.length + σ.waiting.length + σ.manager.work

-- What was found so far is settled. Something can be done until all is found, each step but the passing of time
-- leaves less to do, and what is found in the end is right.
structure EndsWith (s : Settings) (svg force : Bool) (Right : List Status → Prop) (σ : Session) : Prop where
  settled : ∀ x ∈ σ.found, x.isSettled
  unstuck : σ.waiting ≠ [] → ∃ τ, Step s svg force σ τ ∧ τ.work < σ.work
  finite  : ∀ τ, Step s svg force σ τ →
    τ.work < σ.work ∨ ∃ ms, τ = { σ with manager := σ.manager.advance ms }
  right   : σ.waiting = [] → Right σ.found

theorem isSettled_of_ne {x : Status} (present : x ≠ .absent) (done : x ≠ .pending) : x.isSettled := by
  cases x
  case absent  => contradiction
  case pending => contradiction
  all_goals rfl

section Manager

variable {m n : Manager} {key : Text} {a : Manager.Action}

theorem spares_of_unasked (h : a.Unasked) (key : Text) : a.Spares key := by
  cases a
  case request => contradiction
  case clear   => contradiction
  all_goals trivial

-- What goes on unasked takes no key back to absent.
theorem ne_absent_of_passage (p : Manager.Passage m n key a) (h : m.status key ≠ .absent) :
    n.status key ≠ .absent := by
  have le := p.starts_le
  rw [Manager.stage_eq_one_iff.mpr h] at le
  exact Manager.stage_eq_one_iff.mp (Nat.le_antisymm (Manager.stage_le_one _) (Nat.le_of_add_left_le le))

-- A key is pending only as long as there is a compilation in flight.
theorem tasks_ne_nil_of_pending (i : m.Tracked) (h : m.status key = .pending) : m.tasks ≠ [] := by
  have ⟨_, _, pending⟩ := Ledger.status_eq_pending_iff.mp h
  have one := i.mem_pending_iff.mp pending
  exact fun nil => by simp [Manager.inFlight, nil] at one

end Manager

-- What holds of a session at any time: something is known about each content that was asked for, and what was
-- found about one that was waited for is still known.
structure Sound (s : Settings) (contents : List Text) (σ : Session) : Prop where
  tracked   : σ.manager.Tracked
  exclusive : ∀ key, σ.manager.ledger.Exclusive key
  early     : σ.asking ≠ [] → σ.found = []
  asked     : ∃ before, contents = before ++ σ.asking ∧ ∀ c ∈ before, status s σ.manager c ≠ .absent
  waited    : ∃ before, contents = before ++ σ.waiting ∧ σ.found = before.map (status s σ.manager) ∧
    ∀ c ∈ before, (status s σ.manager c).isSettled

namespace Sound

variable {s : Settings} {svg force : Bool} {contents : List Text} {σ τ : Session} {m : Manager}

theorem start (s : Settings) (width window : Nat) (contents : List Text) :
    Sound s contents (.start width window contents) where
  tracked       := .new width window
  exclusive key := Manager.exclusive_new width window key
  early _       := rfl
  asked         := ⟨[], rfl, nofun⟩
  waited        := ⟨[], rfl, rfl, nofun⟩

theorem work {a : Manager.Action} (i : Sound s contents σ) (e : Manager.Step σ.manager a m) (h : a.Unasked) :
    Sound s contents { σ with manager := m } := by
  have passage (key : Text) : Manager.Passage σ.manager m key a :=
    .of_step i.tracked (i.exclusive key) e (spares_of_unasked h key)
  refine ⟨i.tracked.step e, fun key => Manager.exclusive_step i.tracked (i.exclusive key) e, i.early, ?_, ?_⟩
  case refine_1 =>
    have ⟨before, hb, present⟩ := i.asked
    exact ⟨before, hb, fun c hc => ne_absent_of_passage (passage _) (present c hc)⟩
  case refine_2 =>
    have ⟨before, hb, hf, settled⟩ := i.waited
    have same (c) (hc : c ∈ before) : status s m c = status s σ.manager c :=
      ((passage _).same (settled c hc)).status
    exact ⟨before, hb, hf.trans (List.map_congr_left fun c hc => (same c hc).symm),
      fun c hc => same c hc ▸ settled c hc⟩

-- As long as there is something to ask for, nothing was waited for, and so nothing found can be forgotten.
theorem ask {content : Text} {rest : List Text} (i : Sound s contents σ) (h : σ.asking = content :: rest) :
    Sound s contents
      { σ with
        manager := σ.manager.request (CacheKey.of content s) content s svg force
        asking  := rest } := by
  have e : Manager.Step σ.manager _ (σ.manager.request (CacheKey.of content s) content s svg force) := .request
  have none : σ.found = [] := i.early (by simp [h])
  refine ⟨i.tracked.step e, fun key => Manager.exclusive_step i.tracked (i.exclusive key) e, fun _ => none, ?_, ?_⟩
  case refine_1 =>
    have ⟨before, hb, present⟩ := i.asked
    refine ⟨before ++ [content], by simp [hb, h], fun c hc => ?_⟩
    cases List.mem_append.mp hc
    case inl hc => exact Ledger.status_request_ne_absent (present c hc)
    case inr hc => exact List.mem_singleton.mp hc ▸ Ledger.status_request_self_ne_absent
  case refine_2 =>
    have ⟨before, hb, hf, _⟩ := i.waited
    have nil : before = [] := List.map_eq_nil_iff.mp (hf.symm.trans none)
    subst nil
    exact ⟨[], hb, none, nofun⟩

-- Who waits for a content has asked for it before.
theorem present {content : Text} (i : Sound s contents σ) (ha : σ.asking = []) (h : content ∈ σ.waiting) :
    status s σ.manager content ≠ .absent := by
  have ⟨asked, hb, present⟩ := i.asked
  have ⟨waited, hc, _⟩ := i.waited
  refine present content ?_
  rw [← List.append_nil asked, ← ha, ← hb, hc]
  exact List.mem_append_right _ h

theorem find {content : Text} {rest : List Text} (i : Sound s contents σ) (ha : σ.asking = [])
    (h : σ.waiting = content :: rest) (done : status s σ.manager content ≠ .pending) :
    Sound s contents { σ with waiting := rest, found := σ.found ++ [status s σ.manager content] } := by
  have present := i.present ha (h ▸ List.mem_cons_self)
  have now : (status s σ.manager content).isSettled := isSettled_of_ne present done
  have ⟨before, hb, hf, settled⟩ := i.waited
  refine ⟨i.tracked, i.exclusive, fun left => absurd ha left, i.asked, before ++ [content], ?_, ?_, ?_⟩
  case refine_1 => simp [hb, h]
  case refine_2 => simp [hf]
  case refine_3 =>
    intro c hc
    cases List.mem_append.mp hc
    case inl hc => exact settled c hc
    case inr hc => exact List.mem_singleton.mp hc ▸ now

theorem step (i : Sound s contents σ) (e : Step s svg force σ τ) : Sound s contents τ := by
  cases e
  case work e h    => exact i.work e h
  case ask h       => exact i.ask h
  case find ha h p => exact i.find ha h p

theorem run (i : Sound s contents σ) (r : Run s svg force σ τ) : Sound s contents τ := by
  induction r
  case refl        => exact i
  case tail _ e hi => exact hi.step e

theorem settled (i : Sound s contents σ) : ∀ x ∈ σ.found, x.isSettled := by
  have ⟨_, _, hf, settled⟩ := i.waited
  rw [hf]
  exact List.forall_mem_map.mpr settled

-- At the end what was found about a content is what is known about its own key.
theorem found_eq (i : Sound s contents σ) (h : σ.waiting = []) :
    σ.found = contents.map (status s σ.manager) ∧ ∀ c ∈ contents, (status s σ.manager c).isSettled := by
  have ⟨before, hb, hf, settled⟩ := i.waited
  rw [h, List.append_nil] at hb
  exact hb ▸ ⟨hf, settled⟩

end Sound

section Progress

variable {s : Settings} {svg force : Bool} {contents rest : List Text} {content : Text} {σ τ : Session}

theorem work_ask_lt (h : σ.asking = content :: rest) :
    work
      { σ with
        manager := σ.manager.request (CacheKey.of content s) content s svg force
        asking  := rest } < σ.work := by
  have le := σ.manager.work_request_le (CacheKey.of content s) content s svg force
  simp only [work, h, List.length_cons]
  omega

theorem work_find_lt (h : σ.waiting = content :: rest) (found : List Status) :
    work { σ with waiting := rest, found } < σ.work := by
  simp only [work, h, List.length_cons]
  omega

theorem exists_work_lt (i : Sound s contents σ) (h : σ.waiting ≠ []) :
    ∃ τ, Step s svg force σ τ ∧ τ.work < σ.work := by
  cases ha : σ.asking
  case cons content rest => exact ⟨_, .ask ha, work_ask_lt ha⟩
  case nil =>
    have ⟨content, rest, hw⟩ := List.exists_cons_of_ne_nil h
    by_cases hs : status s σ.manager content = .pending
    case neg => exact ⟨_, .find ha hw hs, work_find_lt hw _⟩
    case pos =>
      have tasks := tasks_ne_nil_of_pending i.tracked hs
      have ⟨t, m, e⟩ := Manager.Step.exists_settle tasks (.error (.files .makeDirectory .notADirectory))
      exact ⟨_, .work e trivial, Nat.add_lt_add_left e.work_lt_of_settle _⟩

theorem Step.work_lt (e : Step s svg force σ τ) :
    τ.work < σ.work ∨ ∃ ms, τ = { σ with manager := σ.manager.advance ms } := by
  cases e
  case ask h    => exact .inl (work_ask_lt h)
  case find h _ => exact .inl (work_find_lt h _)
  case work e h =>
    cases e.work_lt h
    case inl lt     => exact .inl (Nat.add_lt_add_left lt _)
    case inr passed => exact .inr (passed.imp fun _ he => by rw [he])

end Progress

-- In any session for some contents, whatever the order of its steps: it ends, and what is found are the
-- settled states of the keys of the contents.
theorem endsWith_of_settled {s : Settings} {svg force : Bool} {contents : List Text} {width window : Nat}
    {σ : Session} {Right : List Status → Prop} (r : Run s svg force (.start width window contents) σ)
    (h : ∀ known : Text → Status, (∀ c ∈ contents, (known (CacheKey.of c s)).isSettled) →
      Right (contents.map fun c => known (CacheKey.of c s))) :
    EndsWith s svg force Right σ := by
  have sound := (Sound.start s width window contents).run r
  refine ⟨sound.settled, exists_work_lt sound, fun _ e => e.work_lt, fun hw => ?_⟩
  have ⟨found, settled⟩ := sound.found_eq hw
  exact found ▸ h σ.manager.status settled

end Session
end TikzPress
