/-!
Byte ranges of a text.
-/

namespace TikzPress

-- The bytes from `start` up to, not including, `stop`.
structure Range where
  start : Nat
  stop : Nat
  deriving DecidableEq, Repr, Inhabited

namespace Range

def length (r : Range) : Nat := r.stop - r.start

def isEmpty (r : Range) : Bool := r.start = r.stop

def shift (r : Range) (offset : Nat) : Range := ⟨r.start + offset, r.stop + offset⟩

@[simp] theorem shift_zero (r : Range) : r.shift 0 = r := rfl

end Range
end TikzPress
