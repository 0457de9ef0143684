import TikzPress.Text

/-!
Refresh events. What happens within one window is reported together: the first report starts a timer, and
when the time is up one event names the keys that came in. Subscribers read the events at their own pace;
one that falls far behind loses the oldest.
-/

namespace TikzPress

abbrev RefreshEvent := List Text

structure Refresh where
  window : Nat
  due? : Option Nat
  keys : List Text
  sent : List RefreshEvent
  deriving DecidableEq, Repr

namespace Refresh

def defaultWindow : Nat := 150

def new (window : Nat) : Refresh := ⟨window, none, [], []⟩

-- A timer is started unless one is live.
def schedule (now : Nat) (key? : Option Text) (r : Refresh) : Refresh :=
  let fresh := key?.toList.filter (· ∉ r.keys)
  { r with keys := r.keys ++ fresh, due? := some (r.due?.getD (now + r.window)) }

def fire (r : Refresh) : Refresh :=
  { r with due? := none, keys := [], sent := r.sent ++ [r.keys] }

def advance (now : Nat) (r : Refresh) : Refresh :=
  if r.due?.any (· ≤ now) then r.fire else r

def cancel (r : Refresh) : Refresh := { r with due? := none, keys := [] }

def capacity : Nat := 16

structure Subscriber where
  passed : Nat
  deriving DecidableEq, Repr

def subscribe (r : Refresh) : Subscriber := ⟨r.sent.length⟩

def unread (s : Subscriber) (r : Refresh) : Nat × List RefreshEvent :=
  let first := max s.passed (r.sent.length - capacity)
  (first - s.passed, r.sent.drop first)

end Refresh
end TikzPress
