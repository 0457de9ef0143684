import TikzPress.Refresh

/-!
Reports and firings of refresh events in any order. Callers and the timers that they start share what is
known of the events, but each timer that was started goes on by itself until it fires. Main statement: what
was reported between two firings is one event, and a timer is live exactly as long as something was reported
since the last firing (`debounced_run`).
-/

namespace TikzPress.Refresh

inductive Action where
  | schedule (now : Nat) (key? : Option Text)
  | fire
  deriving DecidableEq

def Action.key? : Action → Option Text
  | schedule _ key? => key?
  | fire            => none

-- The keys that some reports name, each at its first report.
def named (reports : List Action) : RefreshEvent :=
  (reports.filterMap Action.key?).eraseDups

-- What callers and timers share, and the times at which the live timers are due.
structure Clockwork where
  shared : Refresh
  timers : List Nat

namespace Clockwork

def new (window : Nat) : Clockwork :=
  ⟨.new window, []⟩

-- Whether a caller starts a timer depends on what is shared only. Any live timer may fire.
inductive Step (c : Clockwork) : Action → Clockwork → Prop
  | schedule : Step c (.schedule now key?)
      { shared := c.shared.schedule now key?
        timers := if c.shared.due?.isSome then c.timers else (now + c.shared.window) :: c.timers }
  | fire (before after) : c.timers = before ++ due :: after →
      Step c .fire { shared := c.shared.fire, timers := before ++ after }

-- The actions of a run, the first one first.
inductive Run (c : Clockwork) : List Action → Clockwork → Prop
  | refl : Run c [] c
  | step : Run c actions c₁ → Step c₁ a c₂ → Run c (actions ++ [a]) c₂

-- The actions of a run are the reports before each firing, and those since the last one.
structure Cut (actions : List Action) (bursts : List (List Action)) (current : List Action) : Prop where
  eq      : actions = bursts.flatMap (· ++ [.fire]) ++ current
  reports : ∀ b ∈ current :: bursts, .fire ∉ b

namespace Cut

variable {actions current : List Action} {bursts : List (List Action)}

theorem nil : Cut [] [] [] where
  eq      := rfl
  reports := by simp

theorem schedule (x : Cut actions bursts current) (now : Nat) (key? : Option Text) :
    Cut (actions ++ [.schedule now key?]) bursts (current ++ [.schedule now key?]) where
  eq      := by rw [x.eq, List.append_assoc]
  reports := by simpa using x.reports

theorem fire (x : Cut actions bursts current) : Cut (actions ++ [.fire]) (bursts ++ [current]) [] where
  eq      := by simp [x.eq]
  reports := by
    have h := x.reports
    simp only [List.mem_cons, List.mem_append, List.not_mem_nil, or_false] at h ⊢
    rintro b (rfl | hb | rfl)
    case inl => exact List.not_mem_nil
    case inr.inl => exact h b (.inr hb)
    case inr.inr => exact h b (.inl rfl)

-- A report before the last firing is in the burst that the next firing ends.
theorem exists_burst {before after : List Action} {now : Nat} {key? : Option Text}
    (x : Cut (before ++ .schedule now key? :: after) bursts current) (h : .fire ∈ after) :
    ∃ b, bursts[before.count .fire]? = some b ∧ .schedule now key? ∈ b := by
  obtain ⟨eq, reports⟩ := x
  induction bursts generalizing before
  case nil =>
    have hc : .fire ∉ current := reports current (.head _)
    rw [List.flatMap_nil, List.nil_append] at eq
    exact absurd (eq ▸ List.mem_append_right before (.tail _ h)) hc
  case cons b bursts hi =>
    have hb : .fire ∉ b := reports b (.tail _ (.head _))
    rw [List.flatMap_cons, List.append_assoc, List.append_assoc, eq_comm] at eq
    rcases List.append_eq_append_iff.mp eq with ⟨c, hc, rest⟩ | ⟨c, hc, rest⟩
    case inl =>
      cases c
      case nil => cases rest
      case cons =>
        obtain ⟨rfl, hr⟩ := List.cons.inj rest
        have others (b') (h : b' ∈ current :: bursts) : .fire ∉ b' :=
          reports b' (List.mem_cons.mpr ((List.mem_cons.mp h).imp_right (.tail _)))
        obtain ⟨b', hb', mem⟩ := hi hr.symm others
        exact ⟨b', by simpa [hc, List.count_eq_zero_of_not_mem hb] using hb', mem⟩
    case inr =>
      have none : before.count .fire = 0 :=
        List.count_eq_zero_of_not_mem fun hf => hb (hc ▸ List.mem_append_left _ hf)
      cases c
      case nil  => cases rest
      case cons => cases rest; exact ⟨b, by rw [none]; rfl, by simp [hc]⟩

end Cut

-- After reports that come in bursts, each of which a firing has ended but the last one.
structure Debounced (c : Clockwork) (bursts : List (List Action)) (current : List Action) : Prop where
  single : c.timers.length ≤ 1
  live   : c.timers ≠ [] ↔ current ≠ []
  full   : ∀ b ∈ bursts, b ≠ []
  sent   : c.shared.sent = bursts.map named
  keys   : c.shared.keys = named current
  -- The timer that is shared is the live one.
  timers : c.timers = c.shared.due?.toList

-- A further key comes last, unless it is there already.
theorem eraseDups_append_toList (ks : List Text) (key? : Option Text) :
    (ks ++ key?.toList).eraseDups = ks.eraseDups ++ key?.toList.filter (· ∉ ks.eraseDups) := by
  cases key?
  case none => simp
  case some k =>
    rw [List.eraseDups_append]
    by_cases h : k ∈ ks <;> simp [List.removeAll, List.eraseDups_cons, h]

theorem named_append_schedule (reports : List Action) (now : Nat) (key? : Option Text) :
    named (reports ++ [.schedule now key?]) =
      named reports ++ key?.toList.filter (· ∉ named reports) := by
  have last : [Action.schedule now key?].filterMap Action.key? = key?.toList := by cases key? <;> rfl
  rw [named, List.filterMap_append, last]
  exact eraseDups_append_toList ..

theorem mem_named_of_mem {reports : List Action} {now : Nat} {key : Text}
    (h : .schedule now (some key) ∈ reports) : key ∈ named reports :=
  List.mem_eraseDups.mpr (List.mem_filterMap.mpr ⟨_, h, rfl⟩)

namespace Debounced

variable {c c' : Clockwork} {bursts : List (List Action)} {current : List Action}

theorem new (window : Nat) : (new window).Debounced [] [] where
  single := Nat.zero_le 1
  live   := by simp [Clockwork.new]
  full   := nofun
  sent   := rfl
  keys   := rfl
  timers := rfl

theorem schedule {now : Nat} {key? : Option Text} (i : c.Debounced bursts current)
    (e : Step c (.schedule now key?) c') :
    c'.Debounced bursts (current ++ [.schedule now key?]) := by
  cases e
  have timers := i.timers
  refine ⟨?single, ?live, i.full, i.sent, ?keys, ?timers⟩
  case keys => rw [named_append_schedule, ← i.keys]; rfl
  all_goals cases h : c.shared.due? <;> simp_all [Refresh.schedule]

-- Only the live timer fires, and it takes all that was reported since the last firing.
theorem fire (i : c.Debounced bursts current) (e : Step c .fire c') :
    c'.Debounced (bursts ++ [current]) [] := by
  cases e
  case fire due before after h =>
    have single := i.single
    obtain ⟨rfl, rfl⟩ : before = [] ∧ after = [] := by
      simp only [h, List.length_append, List.length_cons] at single
      exact ⟨List.length_eq_zero_iff.mp (by omega), List.length_eq_zero_iff.mp (by omega)⟩
    have full : current ≠ [] := i.live.mp (by simp [h])
    exact {
      single := Nat.zero_le 1
      live   := by simp
      full   := List.forall_mem_append.mpr ⟨i.full, by simpa using full⟩
      sent   := by simp [Refresh.fire, i.sent, i.keys]
      keys   := rfl
      timers := rfl }

end Debounced

theorem exists_debounced {window : Nat} {actions : List Action} {c : Clockwork}
    (r : Run (.new window) actions c) :
    ∃ bursts current, Cut actions bursts current ∧ c.Debounced bursts current := by
  induction r
  case refl => exact ⟨[], [], .nil, .new window⟩
  case step a _ _ e hi =>
    obtain ⟨bursts, current, cut, i⟩ := hi
    cases a
    case schedule now key? => exact ⟨_, _, cut.schedule now key?, i.schedule e⟩
    case fire              => exact ⟨_, _, cut.fire, i.fire e⟩

-- In any order of reports and firings: never is there more than one live timer, there is one exactly if
-- something was reported since the last firing, and the events are those of the bursts that were ended, in
-- which each key is named once, in the order of the first reports. So a key is named by the next event.
theorem debounced_run {window : Nat} {actions : List Action} {c : Clockwork}
    (r : Run (.new window) actions c) :
    (∃ bursts current, Cut actions bursts current ∧ c.Debounced bursts current) ∧
    ∀ before now key after, actions = before ++ .schedule now (some key) :: after → .fire ∈ after →
      ∃ e, c.shared.sent[before.count .fire]? = some e ∧ key ∈ e := by
  have ⟨bursts, current, cut, i⟩ := exists_debounced r
  refine ⟨⟨bursts, current, cut, i⟩, fun before now key after h fired => ?_⟩
  obtain ⟨b, hb, mem⟩ := Cut.exists_burst (h ▸ cut) fired
  exact ⟨named b, by rw [i.sent, List.getElem?_map, hb]; rfl, mem_named_of_mem mem⟩

-- A key is reported twice before another; later all is cleared.
theorem debounced_two_bursts :
    ∃ actions c, Run (.new 150) actions c ∧ c.timers = [] ∧ c.shared.sent = [[['a'], ['b']], []] ∧
      (∃ bursts current, Cut actions bursts current ∧ c.Debounced bursts current) ∧
      ∀ before now key after, actions = before ++ .schedule now (some key) :: after → .fire ∈ after →
        ∃ e, c.shared.sent[before.count .fire]? = some e ∧ key ∈ e := by
  have burst : Run (.new 150)
      [.schedule 0 (some ['a']), .schedule 20 (some ['b']), .schedule 40 (some ['a']), .fire] _ :=
    .step (.step (.step (.step .refl .schedule) .schedule) .schedule) (.fire [] [] rfl)
  have cleared : Run (.new 150) [.schedule 0 (some ['a']), .schedule 20 (some ['b']),
      .schedule 40 (some ['a']), .fire, .schedule 300 none] _ := burst.step .schedule
  have r := cleared.step (.fire [] [] rfl)
  exact ⟨_, _, r, rfl, rfl, debounced_run r⟩

end Clockwork
end TikzPress.Refresh
