import TikzPress.Proofs.Manager.Waiting

/-!
Refresh events on their way to those who subscribe. What settles is reported in a later step; a timer that fires
takes the keys that were reported, and the event that names them is delivered in a later step again. A clearing
takes nothing of all that back. Main statement: the events that are delivered after a clearing name only keys
that settled after it exactly if nothing was on its way when all was cleared (`clear_respected_iff`).
-/

namespace TikzPress

def Duty.key? : Duty → Option Text
  | notify key? | report key? => key?

namespace WaitingRoom

variable {arrived : Notifier} {r r' : WaitingRoom} {key : Text}

-- The keys whose change is not reported yet.
def unreported (r : WaitingRoom) : List Text :=
  r.duties.filterMap Duty.key?

-- A compilation of a key comes to an end that counts: from now on it is to be announced.
def Settles (r r' : WaitingRoom) (key : Text) : Prop :=
  r'.duties = .notify (some key) :: r.duties

-- The events that a timer made from one moment to another.
def eventsTo (r r' : WaitingRoom) : List RefreshEvent :=
  r'.manager.refresh.sent.drop r.manager.refresh.sent.length

-- All is forgotten, which is to be announced.
def clear (r : WaitingRoom) : WaitingRoom :=
  { r with
    manager := { r.manager with ledger := r.manager.ledger.clear }
    duties  := .notify none :: r.duties }

-- As long as there is something to name a timer is live.
def Timed (r : WaitingRoom) : Prop :=
  r.manager.refresh.keys ≠ [] → r.manager.refresh.due? ≠ none

theorem not_settles_of_length_le (h : r'.duties.length ≤ r.duties.length) : ¬r.Settles r' key := by
  intro settles
  rw [settles, List.length_cons] at h
  omega

section Refresh

variable {m n : Manager} {a : Manager.Action}

-- What happens quietly does not touch the refresh events, but that time may pass until the timer fires.
theorem refresh_of_quiet (e : Manager.Step m a n) (q : IsQuiet a) :
    n.refresh = m.refresh ∨ n.refresh = m.refresh.fire := by
  cases e
  case request => exact .inl rfl
  case hang    => exact .inl rfl
  case settle  => contradiction
  case stop    => contradiction
  case clear   => contradiction
  case advance ms =>
    simp only [Manager.advance, Refresh.advance]
    split
    case isTrue  => exact .inr rfl
    case isFalse => exact .inl rfl

end Refresh

-- What a step can do to the keys whose change is not reported yet, and to those that were reported.
inductive Traffic (r r' : WaitingRoom) : Prop
  | settle (key : Text) (settles : r.Settles r' key) (refresh : r'.manager.refresh = r.manager.refresh)
  | keep (unreported : r'.unreported = r.unreported) (refresh : r'.manager.refresh = r.manager.refresh)
  | report (key? : Option Text) (unreported : r.unreported.Perm (key?.toList ++ r'.unreported))
      (refresh : r'.manager.refresh = r.manager.refresh.schedule r.manager.now key?)
  | fire (unreported : r'.unreported = r.unreported) (refresh : r'.manager.refresh = r.manager.refresh.fire)

namespace Traffic

theorem of_step (e : Step arrived r r') : Traffic r r' := by
  cases e
  case quiet e q =>
    cases refresh_of_quiet e q
    case inl h => exact .keep rfl h
    case inr h => exact .fire rfl h
  case settle t _ _ _ _ => exact .settle t.key rfl rfl
  case discard e h =>
    obtain ⟨_, k, hl, hr, rfl⟩ := e.exists_finish
    exact .keep rfl (by rw [Manager.finish_of_epoch_ne (hl ▸ h.symm), hr])
  case clear => exact .keep rfl rfl
  case notify key? before after h =>
    exact .keep (by simp [unreported, h, Duty.key?, List.filterMap_append, List.filterMap_cons]) rfl
  case report key? before after h =>
    refine .report key? ?_ rfl
    simp only [unreported, h, List.filterMap_append, List.filterMap_cons, Duty.key?]
    cases key?
    case none   => exact .refl _
    case some k => exact List.perm_middle
  all_goals exact .keep rfl rfl

-- The keys that are not named yet: to be reported, or reported.
theorem mem_of_mem (t : Traffic r r')
    (h : key ∈ r'.unreported ∨ key ∈ r'.manager.refresh.keys ∨ key ∈ (r.eventsTo r').flatten) :
    r.Settles r' key ∨ key ∈ r.unreported ∨ key ∈ r.manager.refresh.keys := by
  unfold eventsTo at h
  cases t
  case settle k settles refresh =>
    rw [refresh, List.drop_length, unreported, settles, List.filterMap_cons] at h
    simp only [Duty.key?, List.mem_cons, List.flatten_nil, List.not_mem_nil, or_false] at h
    obtain (rfl | h) | h := h
    case inl.inl => exact .inl settles
    case inl.inr => exact .inr (.inl h)
    case inr     => exact .inr (.inr h)
  case keep same refresh =>
    rw [refresh, List.drop_length, same] at h
    exact .inr (by simpa using h)
  case report key? perm refresh =>
    rw [refresh] at h
    simp only [perm.mem_iff, List.mem_append, Refresh.schedule, List.drop_length, List.mem_filter,
      List.flatten_nil, List.not_mem_nil, or_false] at h ⊢
    obtain h | h | h := h
    case inl     => exact .inr (.inl (.inr h))
    case inr.inl => exact .inr (.inr h)
    case inr.inr => exact .inr (.inl (.inl h.left))
  case fire same refresh =>
    rw [refresh, same] at h
    simp only [Refresh.fire, List.drop_left, List.flatten_cons, List.flatten_nil, List.append_nil,
      List.not_mem_nil, false_or] at h
    exact .inr h

-- A report starts a timer unless one is live, and a timer that fires leaves nothing to name.
theorem timed (t : Traffic r r') (h : r.Timed) : r'.Timed := by
  unfold Timed at h ⊢
  cases t
  case settle refresh => rwa [refresh]
  case keep refresh   => rwa [refresh]
  case report refresh => simp [refresh, Refresh.schedule]
  case fire refresh   => simp [refresh, Refresh.fire]

end Traffic
end WaitingRoom

-- What those who subscribed at some moment get to see: the events that were made and are not delivered yet, the
-- keys that settled since that moment, and the events that were delivered since.
structure Subscription where
  room      : WaitingRoom
  underway  : List RefreshEvent
  settled   : List Text
  delivered : List RefreshEvent

namespace Subscription

def new (width window : Nat) : Subscription :=
  ⟨.new width window, [], [], []⟩

-- Events that are under way at the same time may be delivered in any order.
inductive Step (arrived : Notifier) (σ : Subscription) : Subscription → Prop
  | settle : WaitingRoom.Step arrived σ.room r → σ.room.Settles r key → Step arrived σ
      { σ with
        room     := r
        underway := σ.underway ++ σ.room.eventsTo r
        settled  := key :: σ.settled }
  | work : WaitingRoom.Step arrived σ.room r → (∀ key, ¬σ.room.Settles r key) → Step arrived σ
      { σ with
        room     := r
        underway := σ.underway ++ σ.room.eventsTo r }
  | deliver (before after) : σ.underway = before ++ e :: after → Step arrived σ
      { σ with
        underway  := before ++ after
        delivered := σ.delivered ++ [e] }

abbrev Run (arrived : Notifier) : Subscription → Subscription → Prop :=
  Relation.ReflTransGen (Step arrived)

-- All is cleared, and from this moment on it is watched what settles and what is delivered.
def clear (σ : Subscription) : Subscription :=
  ⟨σ.room.clear, σ.underway, [], []⟩

-- The keys that are to be named by events which are not delivered yet.
def onTheWay (σ : Subscription) : List Text :=
  σ.room.unreported ++ σ.room.manager.refresh.keys ++ σ.underway.flatten

variable {arrived : Notifier} {σ τ : Subscription} {key : Text}

section Naming

-- A key is to be named, or it was named.
def Named (σ : Subscription) (key : Text) : Prop :=
  key ∈ σ.onTheWay ∨ key ∈ σ.delivered.flatten

theorem named_clear : σ.clear.Named key ↔ key ∈ σ.onTheWay := by
  simp [Named, clear, onTheWay, WaitingRoom.clear, WaitingRoom.unreported, Duty.key?, List.filterMap_cons]

-- What a step of the manager and of those who wait makes to be named was on its way before, or has just settled.
theorem named_of_step {r : WaitingRoom} (e : WaitingRoom.Step arrived σ.room r) {settled : List Text}
    (h : Named ⟨r, σ.underway ++ σ.room.eventsTo r, settled, σ.delivered⟩ key) :
    σ.room.Settles r key ∨ σ.Named key := by
  have traffic : _ → σ.room.Settles r key ∨ _ := (WaitingRoom.Traffic.of_step e).mem_of_mem
  simp only [Named, onTheWay, List.mem_append, List.flatten_append] at h ⊢
  obtain (((h | h) | (h | h)) | h) := h
  case inl.inl.inl => exact (traffic (.inl h)).imp_right fun h => .inl (.inl h)
  case inl.inl.inr => exact (traffic (.inr (.inl h))).imp_right fun h => .inl (.inl h)
  case inl.inr.inl => exact .inr (.inl (.inr h))
  case inl.inr.inr => exact (traffic (.inr (.inr h))).imp_right fun h => .inl (.inl h)
  case inr         => exact .inr (.inr h)

theorem named_of_deliver {before after : List RefreshEvent} {e : RefreshEvent}
    (h : σ.underway = before ++ e :: after) :
    Named { σ with underway := before ++ after, delivered := σ.delivered ++ [e] } key ↔ σ.Named key := by
  simp only [Named, onTheWay, h, List.mem_append, List.flatten_append, List.flatten_cons, List.flatten_nil,
    List.append_nil]
  tauto

theorem Step.named (e : Step arrived σ τ) (h : τ.Named key) : key ∈ τ.settled ∨ σ.Named key := by
  cases e
  case settle r k e settles =>
    refine (named_of_step e h).imp_left fun now => ?_
    obtain rfl : k = key := by simpa using settles.symm.trans now
    exact .head _
  case work r e unsettled => exact (named_of_step e h).imp_left fun now => absurd now (unsettled key)
  case deliver before after h' => exact .inr ((named_of_deliver h').mp h)

theorem Step.settled_subset (e : Step arrived σ τ) : σ.settled ⊆ τ.settled := by
  cases e
  case settle  => exact List.subset_cons_self ..
  case work    => exact List.Subset.refl _
  case deliver => exact List.Subset.refl _

theorem named_of_run (r : Run arrived σ τ) (h : τ.Named key) : key ∈ τ.settled ∨ σ.Named key := by
  induction r
  case refl => exact .inr h
  case tail e hi =>
    cases e.named h
    case inl h => exact .inl h
    case inr h => exact (hi h).imp_left (e.settled_subset ·)

end Naming

section Delivery

theorem timed_of_run {width window : Nat} (r : Run arrived (.new width window) σ) : σ.room.Timed := by
  induction r
  case refl => exact absurd rfl
  case tail e hi =>
    cases e
    case settle e _ => exact (WaitingRoom.Traffic.of_step e).timed hi
    case work e _   => exact (WaitingRoom.Traffic.of_step e).timed hi
    case deliver    => exact hi

-- A key is named by an event that is delivered before anything else settles.
def Reaches (arrived : Notifier) (σ : Subscription) (key : Text) : Prop :=
  ∃ τ, Run arrived σ τ ∧ τ.settled = σ.settled ∧ key ∈ τ.delivered.flatten

theorem Reaches.step (e : Step arrived σ τ) (h : τ.settled = σ.settled) (reaches : τ.Reaches arrived key) :
    σ.Reaches arrived key :=
  have ⟨_, r, settled, mem⟩ := reaches
  ⟨_, r.head e, settled.trans h, mem⟩

theorem Reaches.work {r : WaitingRoom} (e : WaitingRoom.Step arrived σ.room r)
    (h : r.duties.length ≤ σ.room.duties.length)
    (reaches : Reaches arrived { σ with room := r, underway := σ.underway ++ σ.room.eventsTo r } key) :
    σ.Reaches arrived key :=
  reaches.step (.work e fun _ => WaitingRoom.not_settles_of_length_le h) rfl

theorem reaches_of_underway (h : key ∈ σ.underway.flatten) : σ.Reaches arrived key := by
  have ⟨e, he, hk⟩ := List.mem_flatten.mp h
  have ⟨before, after, split⟩ := List.append_of_mem he
  exact ⟨_, .single (.deliver before after split), rfl, by simp [hk]⟩

-- The time of a timer comes, and its event is delivered at once.
theorem run_fire {due : Nat} (h : σ.room.manager.refresh.due? = some due) :
    Run arrived σ
      { σ with
        room      := { σ.room with manager := σ.room.manager.advance due }
        delivered := σ.delivered ++ [σ.room.manager.refresh.keys] } := by
  let r : WaitingRoom := { σ.room with manager := σ.room.manager.advance due }
  have passes : WaitingRoom.Step arrived σ.room r := .quiet .advance trivial
  have event : σ.room.eventsTo r = [σ.room.manager.refresh.keys] := by
    simp [WaitingRoom.eventsTo, r, Manager.advance, Refresh.advance, h, Refresh.fire]
  have fires : Step arrived σ { σ with room := r, underway := σ.underway ++ [σ.room.manager.refresh.keys] } :=
    event ▸ .work passes fun _ => WaitingRoom.not_settles_of_length_le (Nat.le_refl _)
  have delivers : Step arrived
      { σ with room := r, underway := σ.underway ++ [σ.room.manager.refresh.keys] } _ :=
    .deliver σ.underway [] rfl
  rw [List.append_nil] at delivers
  exact .head fires (.single delivers)

theorem reaches_of_reported (timed : σ.room.Timed) (h : key ∈ σ.room.manager.refresh.keys) :
    σ.Reaches arrived key := by
  have ⟨_, hd⟩ := Option.ne_none_iff_exists'.mp (timed (List.ne_nil_of_mem h))
  exact ⟨_, run_fire hd, rfl, by simp [h]⟩

theorem reaches_of_report {key? : Option Text} {before after : List Duty}
    (h : σ.room.duties = before ++ .report key? :: after) (hk : key ∈ key?) : σ.Reaches arrived key := by
  refine Reaches.work (.report before after h) (by simp [h]) (reaches_of_reported ?_ ?_)
  case refine_1 => simp [WaitingRoom.Timed, Refresh.schedule]
  case refine_2 =>
    cases hk
    by_cases hm : key ∈ σ.room.manager.refresh.keys <;> simp [Refresh.schedule, hm]

theorem reaches_of_unreported (h : key ∈ σ.room.unreported) : σ.Reaches arrived key := by
  have ⟨d, hd, hk⟩ := List.mem_filterMap.mp h
  have ⟨before, after, split⟩ := List.append_of_mem hd
  cases d
  case report      => exact reaches_of_report split hk
  case notify key? => exact Reaches.work (.notify before after split) (by simp [split]) (reaches_of_report rfl hk)

theorem reaches_of_onTheWay (timed : σ.room.Timed) (h : key ∈ σ.onTheWay) : σ.Reaches arrived key := by
  simp only [onTheWay, List.mem_append] at h
  obtain (h | h) | h := h
  case inl.inl => exact reaches_of_unreported h
  case inl.inr => exact reaches_of_reported timed h
  case inr     => exact reaches_of_underway h

end Delivery

-- A clearing is followed by events that name only what settles later, whatever happens then, exactly if at that
-- moment nothing was on its way: all that had settled was reported, no key was waiting for the timer, and every
-- event that names a key was delivered.
theorem clear_respected_iff {width window : Nat} (r : Run arrived (.new width window) σ) :
    (∀ τ, Run arrived σ.clear τ → ∀ e ∈ τ.delivered, e ⊆ τ.settled) ↔ σ.onTheWay = [] := by
  constructor
  case mp =>
    intro respected
    refine List.eq_nil_iff_forall_not_mem.mpr fun key h => ?_
    have timed : σ.room.Timed := timed_of_run r
    have there : key ∈ σ.clear.onTheWay := by simpa [Named, clear] using named_clear.mpr h
    have reaches : σ.clear.Reaches arrived key := reaches_of_onTheWay timed there
    have ⟨τ, run, settled, mem⟩ := reaches
    have ⟨e, he, hk⟩ := List.mem_flatten.mp mem
    exact List.not_mem_nil (settled ▸ respected τ run e he hk)
  case mpr =>
    intro none τ run e he key hk
    refine (named_of_run run (.inr (List.mem_flatten.mpr ⟨e, he, hk⟩))).resolve_right fun named => ?_
    exact List.not_mem_nil (none ▸ named_clear.mp named)

section Announced

variable {r : WaitingRoom} {n : Manager} {t : Task} {result : Except Compilation.Failure Compilation.Artifacts}

theorem Step.quiet (e : WaitingRoom.Step arrived σ.room r) (h : r.duties.length ≤ σ.room.duties.length)
    (sent : r.manager.refresh.sent = σ.room.manager.refresh.sent) : Step arrived σ { σ with room := r } := by
  have works : Step arrived σ { σ with room := r, underway := σ.underway ++ σ.room.eventsTo r } :=
    .work e fun _ => WaitingRoom.not_settles_of_length_le h
  rwa [WaitingRoom.eventsTo, sent, List.drop_length, List.append_nil] at works

-- The end of a compilation is announced before anything else happens.
theorem run_settle (e : Manager.Step σ.room.manager (.settle t result) n)
    (h : t.epoch = σ.room.manager.ledger.epoch) :
    Run arrived σ
      { σ with
        room    := { σ.room with manager := n, calls := .sendAll :: σ.room.calls }
        settled := t.key :: σ.settled } := by
  let r₁ : WaitingRoom :=
    { σ.room with
      manager := { n with refresh := σ.room.manager.refresh }
      duties  := .notify (some t.key) :: σ.room.duties }
  let r₂ : WaitingRoom :=
    { r₁ with
      duties := .report (some t.key) :: σ.room.duties
      calls  := .sendAll :: σ.room.calls }
  have settles : Step arrived σ { σ with room := r₁, underway := _, settled := t.key :: σ.settled } :=
    .settle (.settle e h) rfl
  rw [WaitingRoom.eventsTo, List.drop_length, List.append_nil] at settles
  have notifies : WaitingRoom.Step arrived r₁ r₂ := .notify [] σ.room.duties rfl
  have reports : WaitingRoom.Step arrived r₂
      { r₂ with manager := { n with refresh := _ }, duties := σ.room.duties } := .report [] σ.room.duties rfl
  have announced := WaitingRoom.refresh_of_settle e h
  have same : { n with refresh := σ.room.manager.refresh.schedule n.now (some t.key) } = n := by
    rw [← announced]
  rw [same] at reports
  have unsent : n.refresh.sent = σ.room.manager.refresh.sent := by rw [announced]; rfl
  exact .head settles <| .head (.quiet notifies (by simp [r₁, r₂]) rfl) <|
    .single (.quiet reports (by simp [r₂]) unsent)

-- A key is asked for, and its compilation fails, which is announced.
theorem exists_run_failed (arrived : Notifier) :
    ∃ σ, Run arrived (.new 2 150) σ ∧ σ.room.duties = [] ∧ σ.underway = [] ∧ σ.delivered = [] ∧
      σ.room.manager.refresh = ⟨150, some 150, [['k']], []⟩ := by
  let s : Settings := .withCacheDirectory "cache".toList
  let t := (Manager.new 2 150).task ['k'] ['x'] s true
  let result : Except Compilation.Failure Compilation.Artifacts :=
    .error (.files .makeDirectory .notADirectory)
  have asks : WaitingRoom.Step arrived (.new 2 150)
      { WaitingRoom.new 2 150 with manager := (Manager.new 2 150).request ['k'] ['x'] s true false } :=
    .quiet .request trivial
  have settles : Manager.Step ((Manager.new 2 150).request ['k'] ['x'] s true false) (.settle t result) _ :=
    .settle [] [] rfl
  have asked : Step arrived (.new 2 150) _ := .quiet asks (Nat.le_refl _) rfl
  exact ⟨_, .head asked (run_settle settles rfl), rfl, rfl, rfl, by decide⟩

end Announced

-- All is cleared after the event with the key was delivered.
theorem clear_respected_after_delivery :
    ∃ σ, Run WaitingRoom.sentSince (.new 2 150) σ ∧ σ.delivered = [[['k']]] ∧
      ∀ τ, Run WaitingRoom.sentSince σ.clear τ → ∀ e ∈ τ.delivered, e ⊆ τ.settled := by
  obtain ⟨σ, r, duties, underway, delivered, refresh⟩ := exists_run_failed WaitingRoom.sentSince
  have fires : Run WaitingRoom.sentSince σ _ := run_fire (congrArg Refresh.due? refresh)
  refine ⟨_, r.trans fires, by simp [delivered, refresh], (clear_respected_iff (r.trans fires)).mpr ?_⟩
  simp [onTheWay, WaitingRoom.unreported, duties, underway, Manager.advance, Refresh.advance, refresh, Refresh.fire]

-- All is cleared while the key waits for the timer.
theorem clear_not_respected :
    ¬∀ arrived width window σ τ, Run arrived (.new width window) σ → Run arrived σ.clear τ →
      ∀ e ∈ τ.delivered, e ⊆ τ.settled := by
  intro h
  obtain ⟨σ, r, _, _, _, refresh⟩ := exists_run_failed WaitingRoom.sentSince
  have fires : Run WaitingRoom.sentSince σ.clear _ := run_fire (congrArg Refresh.due? refresh)
  have named := h _ 2 150 σ _ r fires [['k']] (by simp [clear, WaitingRoom.clear, refresh])
  exact List.not_mem_nil (named (.head _))

end Subscription
end TikzPress
