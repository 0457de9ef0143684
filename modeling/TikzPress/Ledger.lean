import TikzPress.Status
import TikzPress.Table

/-!
What is known about the keys: artifacts, failures, and which compilations run. Clearing it opens a new
epoch; a compilation of an earlier epoch changes nothing when it ends.
-/

namespace TikzPress

structure Ledger where
  artifacts : Table Text
  failures : Table Text
  pending : List Text
  epoch : Nat
  deriving DecidableEq, Repr

namespace Ledger

def empty : Ledger := ⟨[], [], [], 0⟩

instance : Inhabited Ledger := ⟨empty⟩

def artifact? (l : Ledger) (key : Text) : Option Text := Table.get? key l.artifacts

def failure? (l : Ledger) (key : Text) : Option Text := Table.get? key l.failures

def status (l : Ledger) (key : Text) : Status :=
  match Table.get? key l.artifacts with
  | some artifact => .resolved artifact
  | none =>
    match Table.get? key l.failures with
    | some message => .failed message
    | none => if l.pending.contains key then .pending else .absent

def forget (l : Ledger) (key : Text) : Ledger :=
  { l with artifacts := Table.erase key l.artifacts, failures := Table.erase key l.failures }

def isKnown (l : Ledger) (key : Text) : Bool :=
  Table.hasKey key l.artifacts || Table.hasKey key l.failures

-- The ledger after a request, and whether a compilation starts. What is known is asked for again only by force,
-- and a compilation that runs is not started twice.
def request (l : Ledger) (key : Text) (force : Bool) : Ledger × Bool :=
  if ¬force ∧ l.isKnown key then (l, false)
  else
    let l := if force then l.forget key else l
    if l.pending.contains key then (l, false) else ({ l with pending := key :: l.pending }, true)

-- A compilation of an earlier epoch does not count.
def settle? (l : Ledger) (key : Text) (epoch : Nat) (result : Except Text Text) : Option Ledger :=
  if l.epoch ≠ epoch then none
  else
    let pending := l.pending.filter (· ≠ key)
    match result with
    | .ok artifact => some
      { l with
        pending
        failures := Table.erase key l.failures
        artifacts := Table.put key artifact l.artifacts }
    | .error message => some { l with pending, failures := Table.put key message l.failures }

def clear (l : Ledger) : Ledger := { empty with epoch := l.epoch + 1 }

end Ledger
end TikzPress
