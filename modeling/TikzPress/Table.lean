import TikzPress.Text

/-!
Tables: values under different texts. Main statements: an entry that was put is found (`get?_put`), one
that was erased is not (`get?_erase`), and nothing changes elsewhere.
-/

namespace TikzPress

abbrev Table (α : Type) := List (Text × α)

namespace Table

def get? (key : Text) : Table α → Option α
  | [] => none
  | (k, a) :: rest => if key = k then some a else get? key rest

def hasKey (key : Text) (table : Table α) : Bool := (get? key table).isSome

def put (key : Text) (a : α) : Table α → Table α
  | [] => [(key, a)]
  | (k, b) :: rest => if key = k then (key, a) :: rest else (k, b) :: put key a rest

def erase (key : Text) : Table α → Table α
  | [] => []
  | (k, a) :: rest => if key = k then erase key rest else (k, a) :: erase key rest

theorem get?_put (key other : Text) (a : α) (table : Table α) :
    get? other (put key a table) = if other = key then some a else get? other table := by
  induction table
  case nil => simp [put, get?]
  case cons e rest ih =>
    obtain ⟨k, b⟩ := e
    simp only [put]
    split
    case isTrue h =>
      subst h
      by_cases ho : other = key <;> simp [get?, ho]
    case isFalse h =>
      simp only [get?, ih]
      by_cases ho : other = k
      case pos => rw [if_pos ho, if_neg fun e => h (e.symm.trans ho), if_pos ho]
      case neg => simp [ho]

theorem get?_erase (key other : Text) (table : Table α) :
    get? other (erase key table) = if other = key then none else get? other table := by
  induction table
  case nil => simp [erase, get?]
  case cons e rest ih =>
    obtain ⟨k, b⟩ := e
    simp only [erase]
    split
    case isTrue h =>
      rw [ih, ← h]
      by_cases ho : other = key <;> simp [get?, ho]
    case isFalse h =>
      simp only [get?, ih]
      by_cases ho : other = k
      case pos => rw [if_pos ho, if_neg fun e => h (e.symm.trans ho), if_pos ho]
      case neg => simp [ho]

theorem hasKey_put (key other : Text) (a : α) (table : Table α) :
    hasKey other (put key a table) = (other = key || hasKey other table) := by
  by_cases h : other = key <;> simp [hasKey, get?_put, h]

theorem hasKey_erase (key other : Text) (table : Table α) :
    hasKey other (erase key table) = (other ≠ key && hasKey other table) := by
  by_cases h : other = key <;> simp [hasKey, get?_erase, h]

end Table
end TikzPress
