import Mathlib.Logic.Function.Basic
import Mathlib.Logic.Relation
import TikzPress.Proofs.Manager.Consistency

/-!
Waiting for keys while others change what is known. Whoever waits first asks for a notice, then looks whether
the key is pending, and sleeps until the notice comes. Whoever changes what is known does so at once, but
notifies those who wait in a later step. Main statement: who sleeps on a key that is not pending is going to be
notified, because the change of that key is not announced yet (`no_lost_wakeup`).
-/

namespace TikzPress

-- What is asked of a notifier: that a waiter gets a notice, that the notice be enabled, that all notices of the
-- moment be sent, and that a notice be dropped.
inductive Notice where
  | create (waiter : Nat)
  | enable (waiter : Nat)
  | sendAll
  | drop (waiter : Nat)
  deriving DecidableEq

-- Tells whether the notice of a waiter has come, from what was asked for so far, the latest first.
abbrev Notifier := List Notice → Nat → Prop

-- A waiter has a notice that was enabled before these latest calls.
structure Listens (calls : List Notice) (waiter : Nat) (later : List Notice) : Prop where
  enabled : ∃ earlier, calls = later ++ .enable waiter :: earlier
  held    : .drop waiter ∉ later
  same    : .create waiter ∉ later

-- An enabled notice has come as soon as all are sent.
structure Notifier.Lawful (arrived : Notifier) : Prop where
  wakes : ∀ calls waiter later, Listens calls waiter later → .sendAll ∈ later → arrived calls waiter

theorem Listens.enable (calls : List Notice) (waiter : Nat) :
    Listens (.enable waiter :: calls) waiter [] where
  enabled := ⟨calls, rfl⟩
  held    := nofun
  same    := nofun

theorem Listens.append {calls later cs : List Notice} {waiter : Nat} (l : Listens calls waiter later)
    (hd : .drop waiter ∉ cs) (hc : .create waiter ∉ cs) : Listens (cs ++ calls) waiter (cs ++ later) where
  enabled := by
    obtain ⟨earlier, rfl⟩ := l.enabled
    exact ⟨earlier, (List.append_assoc ..).symm⟩
  held := fun h => (List.mem_append.mp h).elim hd l.held
  same := fun h => (List.mem_append.mp h).elim hc l.same

theorem Listens.sendAll {calls later : List Notice} {waiter : Nat} (l : Listens calls waiter later) :
    Listens ([.sendAll] ++ calls) waiter ([.sendAll] ++ later) :=
  l.append nofun nofun

-- How far a waiter has come: at the start of a round, with a notice, with an enabled notice, or asleep until
-- the notice comes, after the key was found pending.
inductive Phase where
  | start
  | noticed
  | enabled
  | waiting

structure Waiter where
  key : Text
  phase : Phase

-- What is left to do after a change of what is known about a key, or about all keys: to notify those who wait,
-- and then to report the change.
inductive Duty where
  | notify (key? : Option Text)
  | report (key? : Option Text)

def Duty.Concerns (key : Text) : Duty → Prop
  | notify key? => ∀ k ∈ key?, k = key
  | report _    => False

-- A manager, what is left to do after its changes, those who wait, and what was asked of the notifier.
structure WaitingRoom where
  manager : Manager
  duties  : List Duty
  waiters : Nat → Option Waiter
  calls   : List Notice

namespace WaitingRoom

open Manager (Action)

def new (width window : Nat) : WaitingRoom :=
  ⟨.new width window, [], fun _ => none, []⟩

-- A waiter moves on, or leaves, and asks something of the notifier or not.
def move (r : WaitingRoom) (w : Nat) (next : Option Waiter) (calls : List Notice) : WaitingRoom :=
  { r with waiters := Function.update r.waiters w next, calls := calls ++ r.calls }

-- A step of a manager after which there is nothing to announce.
def IsQuiet : Action → Prop
  | .settle .. | .clear => False
  | _                   => True

-- One step of the manager, of somebody who has changed what is known, or of a waiter. The end of a compilation
-- and a clearing change the ledger alone; the end of a compilation that was let go of does not even do that.
inductive Step (arrived : Notifier) (r : WaitingRoom) : WaitingRoom → Prop
  | quiet : Manager.Step r.manager a m → IsQuiet a → Step arrived r { r with manager := m }
  | settle : Manager.Step r.manager (.settle t result) m → t.epoch = r.manager.ledger.epoch →
      Step arrived r { r with
        manager := { m with refresh := r.manager.refresh }
        duties  := .notify (some t.key) :: r.duties }
  | discard : Manager.Step r.manager (.settle t result) m → t.epoch ≠ r.manager.ledger.epoch →
      Step arrived r { r with manager := m }
  | clear : Step arrived r { r with
        manager := { r.manager with ledger := r.manager.ledger.clear }
        duties  := .notify none :: r.duties }
  | notify (before after) : r.duties = before ++ .notify key? :: after →
      Step arrived r { r with duties := before ++ .report key? :: after, calls := .sendAll :: r.calls }
  | report (before after) : r.duties = before ++ .report key? :: after →
      Step arrived r { r with
        manager := { r.manager with refresh := r.manager.refresh.schedule r.manager.now key? }
        duties  := before ++ after }
  | arrive (w) : r.waiters w = none → Step arrived r (r.move w (some ⟨key, .start⟩) [])
  | create (w) : r.waiters w = some ⟨key, .start⟩ →
      Step arrived r (r.move w (some ⟨key, .noticed⟩) [.create w])
  | enable (w) : r.waiters w = some ⟨key, .noticed⟩ →
      Step arrived r (r.move w (some ⟨key, .enabled⟩) [.enable w])
  | sleep (w) : r.waiters w = some ⟨key, .enabled⟩ → r.manager.status key = .pending →
      Step arrived r (r.move w (some ⟨key, .waiting⟩) [])
  | leave (w) : r.waiters w = some ⟨key, .enabled⟩ → r.manager.status key ≠ .pending →
      Step arrived r (r.move w none [.drop w])
  | wake (w) : r.waiters w = some ⟨key, .waiting⟩ → arrived r.calls w →
      Step arrived r (r.move w (some ⟨key, .start⟩) [.drop w])
  | abandon (w) : r.waiters w = some ⟨key, .waiting⟩ → Step arrived r (r.move w none [.drop w])

abbrev Run (arrived : Notifier) : WaitingRoom → WaitingRoom → Prop :=
  Relation.ReflTransGen (Step arrived)

-- A waiter has found its key pending, and its notice has not come.
structure Asleep (arrived : Notifier) (r : WaitingRoom) (w : Nat) (key : Text) : Prop where
  waiting : r.waiters w = some ⟨key, .waiting⟩
  silent  : ¬arrived r.calls w

-- A change of a key is still to be announced.
def Owes (r : WaitingRoom) (key : Text) : Prop :=
  ∃ d ∈ r.duties, d.Concerns key

section Simulation

variable {arrived : Notifier} {m n : Manager} {a : Action} {t : Task}
  {result : Except Compilation.Failure Compilation.Artifacts}

theorem refresh_of_settle (e : Manager.Step m (.settle t result) n) (h : t.epoch = m.ledger.epoch) :
    n.refresh = m.refresh.schedule n.now (some t.key) := by
  obtain ⟨_, k, hl, hr, rfl⟩ := e.exists_finish
  unfold Manager.finish
  dsimp only
  split
  case h_1 hs => exact absurd (hl ▸ h.symm) (Ledger.settle?_eq_none_iff.mp hs)
  case h_2    => rw [hr]

theorem run_announce (m : Manager) (key? : Option Text) (waiters : Nat → Option Waiter)
    (calls : List Notice) :
    Run arrived ⟨m, [.notify key?], waiters, calls⟩
      ⟨{ m with refresh := m.refresh.schedule m.now key? }, [], waiters, .sendAll :: calls⟩ :=
  .tail (.single (.notify [] [] rfl)) (.report [] [] rfl)

-- A step of a manager is a run in which the change, if it is one, is announced at once.
theorem exists_run_of_step (e : Manager.Step m a n) (waiters : Nat → Option Waiter) (calls : List Notice) :
    ∃ calls', Run arrived ⟨m, [], waiters, calls⟩ ⟨n, [], waiters, calls'⟩ := by
  cases a
  case clear =>
    cases e
    exact ⟨_, .head .clear (run_announce ..)⟩
  case settle t result =>
    by_cases h : t.epoch = m.ledger.epoch
    case neg => exact ⟨_, .single (.discard e h)⟩
    case pos =>
      have announced : Run arrived ⟨{ n with refresh := m.refresh }, [.notify (some t.key)], waiters, calls⟩ _ :=
        run_announce ..
      rw [← refresh_of_settle e h] at announced
      exact ⟨_, .head (.settle e h) announced⟩
  all_goals exact ⟨_, .single (.quiet e trivial)⟩

end Simulation

section Status

variable {m n : Manager} {a : Action} {key : Text} {t : Task}
  {result : Except Compilation.Failure Compilation.Artifacts}

theorem status_of_quiet (e : Manager.Step m a n) (q : IsQuiet a) (h : m.status key = .pending) :
    n.status key = .pending := by
  cases e
  case request => exact Ledger.status_request h _ _
  case hang    => exact h
  case settle  => contradiction
  case stop    => contradiction
  case clear   => contradiction
  case advance => exact h

theorem status_of_settle (e : Manager.Step m (.settle t result) n) (hk : t.key ≠ key)
    (h : m.status key = .pending) : n.status key = .pending := by
  obtain ⟨_, k, hl, _, rfl⟩ := e.exists_finish
  have ⟨r, hr⟩ := k.ledger_finish t result
  rw [Manager.status, hr, hl]
  cases hs : m.ledger.settle? t.key t.epoch r
  case none => exact h
  case some => exact Ledger.status_settle? h hk.symm hs

theorem ledger_of_discard (e : Manager.Step m (.settle t result) n) (h : t.epoch ≠ m.ledger.epoch) :
    n.ledger = m.ledger := by
  obtain ⟨_, k, hl, _, rfl⟩ := e.exists_finish
  rw [Manager.finish_of_epoch_ne (hl ▸ h.symm), hl]

end Status

-- A key is pending, or else its change is still to be announced.
def Awaited (r : WaitingRoom) (key : Text) : Prop :=
  r.manager.status key = .pending ∨ r.Owes key

-- A key keeps its account as long as it stays pending, or its change is among those that are announced later.
theorem Awaited.of_step {r : WaitingRoom} {m : Manager} {ds : List Duty} {key : Text}
    (hs : r.manager.status key = .pending → m.status key = .pending ∨ ∃ d ∈ ds, d.Concerns key)
    (hd : ∀ d ∈ r.duties, d.Concerns key → d ∈ ds) (h : r.Awaited key) :
    Awaited { r with manager := m, duties := ds } key := by
  cases h
  case inl h => exact hs h
  case inr h =>
    have ⟨d, hm, hc⟩ := h
    exact .inr ⟨d, hd d hm hc, hc⟩

-- An enabled notice is held until it has come, and who sleeps without a notice having been sent since then is
-- accounted for.
structure Accounted (r : WaitingRoom) : Prop where
  enabled : ∀ w key, r.waiters w = some ⟨key, .enabled⟩ → ∃ later, Listens r.calls w later
  waiting : ∀ w key, r.waiters w = some ⟨key, .waiting⟩ →
    ∃ later, Listens r.calls w later ∧ (.sendAll ∈ later ∨ r.Awaited key)

namespace Accounted

variable {arrived : Notifier} {r r' : WaitingRoom} {w : Nat} {key : Text}

theorem new (width window : Nat) : Accounted (.new width window) where
  enabled := nofun
  waiting := nofun

-- What others do without the notifier.
theorem of_awaited (i : Accounted r) (hw : r'.waiters = r.waiters) (hc : r'.calls = r.calls)
    (h : ∀ key, r.Awaited key → r'.Awaited key) : Accounted r' where
  enabled w key hk := by
    rw [hw] at hk
    rw [hc]
    exact i.enabled w key hk
  waiting w key hk := by
    rw [hw] at hk
    rw [hc]
    obtain ⟨later, listens, accounted⟩ := i.waiting w key hk
    exact ⟨later, listens, accounted.imp_right (h key)⟩

-- A waiter asks for something that concerns its own notice.
theorem move (i : Accounted r) {next : Option Waiter} {cs : List Notice}
    (hd : ∀ v, v ≠ w → .drop v ∉ cs) (hc : ∀ v, v ≠ w → .create v ∉ cs)
    (enabled : ∀ key, next = some ⟨key, .enabled⟩ → ∃ later, Listens (cs ++ r.calls) w later)
    (waiting : ∀ key, next = some ⟨key, .waiting⟩ →
      ∃ later, Listens (cs ++ r.calls) w later ∧ (.sendAll ∈ later ∨ r.Awaited key)) :
    Accounted (r.move w next cs) where
  enabled v key hk := by
    by_cases hv : v = w
    case pos =>
      subst hv
      exact enabled key (Function.update_self v next r.waiters ▸ hk)
    case neg =>
      obtain ⟨later, listens⟩ := i.enabled v key (Function.update_of_ne hv next r.waiters ▸ hk)
      exact ⟨_, listens.append (hd v hv) (hc v hv)⟩
  waiting v key hk := by
    by_cases hv : v = w
    case pos =>
      subst hv
      exact waiting key (Function.update_self v next r.waiters ▸ hk)
    case neg =>
      obtain ⟨later, listens, accounted⟩ := i.waiting v key (Function.update_of_ne hv next r.waiters ▸ hk)
      exact ⟨_, listens.append (hd v hv) (hc v hv), accounted.imp_left (List.mem_append_right _)⟩

-- Asking a waiter's own notice for something is no concern of the others.
theorem step (i : Accounted r) (e : Step arrived r r') : Accounted r' := by
  cases e
  case quiet m e q =>
    exact i.of_awaited rfl rfl fun key =>
      Awaited.of_step (fun h => .inl (status_of_quiet e q h)) fun _ h _ => h
  case settle t _ m e h =>
    refine i.of_awaited rfl rfl fun key => Awaited.of_step (fun h => ?_) fun _ h _ => .tail _ h
    by_cases hk : t.key = key
    case pos => exact .inr ⟨_, .head _, fun _ h => Option.some.inj h ▸ hk⟩
    case neg =>
      have pending : m.status key = .pending := status_of_settle e hk h
      exact .inl pending
  case discard t _ m e h =>
    refine i.of_awaited rfl rfl fun key => Awaited.of_step (fun hp => .inl ?_) fun _ h _ => h
    rw [Manager.status, ledger_of_discard e h]
    exact hp
  case clear =>
    exact i.of_awaited rfl rfl fun key =>
      Awaited.of_step (fun _ => .inr ⟨_, .head _, nofun⟩) fun _ h _ => .tail _ h
  case notify key? before after h =>
    refine ⟨fun w key hk => ?_, fun w key hk => ?_⟩
    case refine_1 =>
      have ⟨_, listens⟩ := i.enabled w key hk
      exact ⟨_, listens.sendAll⟩
    case refine_2 =>
      have ⟨_, listens, _⟩ := i.waiting w key hk
      exact ⟨_, listens.sendAll, .inl (.head _)⟩
  case report key? before after h =>
    refine i.of_awaited rfl rfl fun key => Awaited.of_step .inl fun d hd hc => ?_
    simp only [h, List.mem_append, List.mem_cons] at hd ⊢
    obtain hd | rfl | hd := hd
    case inl     => exact .inl hd
    case inr.inl => contradiction
    case inr.inr => exact .inr hd
  case arrive w h =>
    exact i.move nofun nofun nofun nofun
  case create w h =>
    exact i.move nofun (by simp) nofun nofun
  case enable w h =>
    exact i.move nofun nofun (fun _ _ => ⟨_, .enable _ w⟩) nofun
  case sleep key w h pending =>
    refine i.move nofun nofun nofun fun _ hk => ?_
    cases hk
    have ⟨later, listens⟩ := i.enabled w key h
    exact ⟨later, listens, .inr (.inl pending)⟩
  case wake w h ha =>
    exact i.move (by simp) nofun nofun nofun
  case leave w _ _ | abandon w _ =>
    exact i.move (by simp) nofun nofun nofun

theorem run (i : Accounted r) (e : Run arrived r r') : Accounted r' := by
  induction e
  case refl        => exact i
  case tail _ e hi => exact hi.step e

end Accounted

-- Whoever sleeps on a key that is not pending is going to be notified: the change of the key is made, and not
-- announced yet. As soon as all changes are announced, whoever sleeps does so on a pending key.
theorem no_lost_wakeup {arrived : Notifier} (lawful : arrived.Lawful) {width window : Nat}
    {r : WaitingRoom} (e : Run arrived (.new width window) r) :
    (∀ w key, r.Asleep arrived w key → r.manager.status key = .pending ∨ r.Owes key) ∧
    ((∀ key?, .notify key? ∉ r.duties) →
      ∀ w key, r.Asleep arrived w key → r.manager.status key = .pending) := by
  have awaited {w : Nat} {key : Text} (h : r.Asleep arrived w key) : r.Awaited key := by
    obtain ⟨later, listens, accounted⟩ := ((Accounted.new width window).run e).waiting w key h.waiting
    cases accounted
    case inl sent => exact absurd (lawful.wakes _ _ _ listens sent) h.silent
    case inr h    => exact h
  refine ⟨fun _ _ => awaited, fun announced w key h => ?_⟩
  cases awaited h
  case inl pending => exact pending
  case inr owes =>
    obtain ⟨d, hd, hc⟩ := owes
    cases d
    case notify key? => exact absurd hd (announced key?)
    case report      => contradiction

-- The notices that were made before all were sent have come.
def sentSince : Notifier :=
  fun calls w => .sendAll ∈ calls.takeWhile (· ≠ .create w)

theorem lawful_sentSince : Notifier.Lawful sentSince where
  wakes calls w later listens sent := by
    obtain ⟨earlier, rfl⟩ := listens.enabled
    have kept : ∀ n ∈ later, decide (n ≠ .create w) = true := fun n hn =>
      decide_eq_true fun he => listens.same (he ▸ hn)
    rw [sentSince, List.takeWhile_append_of_pos kept]
    exact List.mem_append_left _ sent

-- Whoever comes for a pending key may fall asleep before anything else happens.
theorem exists_run_sleep {arrived : Notifier} {r : WaitingRoom} {w : Nat} {key : Text}
    (h : r.waiters w = none) (pending : r.manager.status key = .pending) :
    ∃ waiters, waiters w = some ⟨key, .waiting⟩ ∧
      Run arrived r { r with waiters, calls := .enable w :: .create w :: r.calls } := by
  let r₁ := r.move w (some ⟨key, .start⟩) []
  let r₂ := r₁.move w (some ⟨key, .noticed⟩) [.create w]
  let r₃ := r₂.move w (some ⟨key, .enabled⟩) [.enable w]
  have comes : Run arrived r r₁ := .single (.arrive w h)
  have notices : Run arrived r r₂ := comes.tail (.create w (Function.update_self ..))
  have enables : Run arrived r r₃ := notices.tail (.enable w (Function.update_self ..))
  exact ⟨_, Function.update_self .., enables.tail (.sleep w (Function.update_self ..) pending)⟩

-- A waiter falls asleep while its key is pending; then the compilation fails, which is not announced yet.
theorem owes_after_settle :
    ∃ r, Run sentSince (.new 2 0) r ∧ r.Asleep sentSince 0 ['k'] ∧ r.manager.status ['k'] = .pending ∧
      ∃ r', Run sentSince r r' ∧ r'.Asleep sentSince 0 ['k'] ∧ r'.manager.status ['k'] ≠ .pending ∧
        r'.Owes ['k'] := by
  let s : Settings := .withCacheDirectory "cache".toList
  let m := (Manager.new 2 0).request ['k'] ['x'] s true false
  let t := (Manager.new 2 0).task ['k'] ['x'] s true
  let result : Except Compilation.Failure Compilation.Artifacts :=
    .error (.files .makeDirectory .notADirectory)
  have request : Manager.Step (.new 2 0) (.request ['k'] ['x'] s true false) m := .request
  have asked : Run sentSince (.new 2 0) { new 2 0 with manager := m } := .single (.quiet request trivial)
  have ⟨waiters, waiting, sleeps⟩ :
      ∃ waiters, waiters 0 = some ⟨['k'], .waiting⟩ ∧
        Run sentSince { new 2 0 with manager := m } ⟨m, [], waiters, [.enable 0, .create 0]⟩ :=
    exists_run_sleep rfl (by decide)
  have settle : Manager.Step m (.settle t result) _ := .settle [] [] rfl
  have settles : Step sentSince ⟨m, [], waiters, [.enable 0, .create 0]⟩ _ := .settle settle rfl
  have silent : ¬sentSince [.enable 0, .create 0] 0 := by simp [sentSince]
  have settled : (m.finish t result).status ['k'] ≠ .pending := by decide
  have run := asked.trans sleeps
  have ⟨_, pending⟩ := no_lost_wakeup lawful_sentSince run
  have ⟨awaited, _⟩ := no_lost_wakeup lawful_sentSince (run.tail settles)
  exact ⟨_, run, ⟨waiting, silent⟩, pending nofun 0 _ ⟨waiting, silent⟩, _, .single settles,
    ⟨waiting, silent⟩, settled, (awaited 0 _ ⟨waiting, silent⟩).resolve_left settled⟩

end WaitingRoom
end TikzPress
