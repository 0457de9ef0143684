import TikzPress.Proofs.Bytewise.Token

/-!
A cursor that moves over a text by the byte: each operation keeps its place, moves ahead to see whether the
construct is there, and goes back if it is not. Main statements: each does what the scanner of that construct
does and stands at its place if the scanner declines (`literal_eq` to `reference_eq`).
-/

namespace TikzPress.Bytewise

open Text

theorem Scanner.lift_bind_apply (x : Checked α) (f : α → Scanner β) (src : Text) (pos : Nat) :
    (Scanner.lift x >>= f) src pos = x >>= fun a => f a src pos := by
  cases x <;> rfl

-- Moves over a text by the byte, and says where it stands whether it has found something or not.
def Cursor (α : Type) : Type :=
  Text → Nat → Checked (α × Nat)

namespace Cursor

instance : Monad Cursor where
  pure a   := fun _ pos => .ok (a, pos)
  bind q f := fun src pos => do
    let (a, pos) ← q src pos
    f a src pos

section Definitions

variable (limit : Nat)

def lift (x : Checked α) : Cursor α :=
  fun _ pos => return (← x, pos)

def stand : Cursor Nat :=
  fun _ pos => .ok (pos, pos)

def goTo (pos : Nat) : Cursor Unit :=
  fun _ _ => .ok ((), pos)

def forward (n : Nat) : Cursor Unit :=
  fun _ pos => return ((), ← sum limit pos n)

def rest : Cursor Text :=
  fun src pos => return (← restAt src pos, pos)

def skipBlanks : Cursor Unit := do
  let t ← rest
  let blanks ← lift (difference (width t) (width (trimStart t)))
  forward limit blanks

def literal (l : Text) : Cursor (Option Unit) := do
  let save ← stand
  skipBlanks limit
  let t ← rest
  if opensWith l t then
    forward limit (width l)
    return some ()
  else
    goTo save
    return none

def keyword (w : Text) : Cursor (Option Unit) := do
  let save ← stand
  skipBlanks limit
  let t ← rest
  if opensWith w t && !(encode t)[width w]?.any isWordByte then
    forward limit (width w)
    return some ()
  else
    goTo save
    return none

-- Moves only when the word is there, so that there is nothing to go back to.
def wordHere (w : Text) : Cursor (Option Unit) := do
  let t ← rest
  if opensWith w t && !(encode t)[width w]?.any isWordByte then
    forward limit (width w)
    return some ()
  else return none

def command (name : Text) : Cursor (Option Unit) := do
  let save ← stand
  match ← literal limit ['\\'] with
  | none    =>
    goTo save
    return none
  | some () =>
    match ← wordHere limit name with
    | none    =>
      goTo save
      return none
    | some () => return some ()

def delimited (o c : Char) : Cursor (Option Text) := do
  let save ← stand
  skipBlanks limit
  let t ← rest
  if (encode t).head? ≠ some (byte o) then
    goTo save
    return none
  else
    match ← lift (closeAt limit o c 0 0 (encode t)) with
    | none   =>
      goTo save
      return none
    | some i =>
      let stop ← lift (sum limit i 1)
      let found ← lift (slice t 0 stop)
      forward limit stop
      return some found

def options : Cursor (Option OptionList) := do
  return (← delimited limit '[' ']').map .mk

def reference : Cursor (Option Reference) := do
  match ← delimited limit '(' ')' with
  | none     => return none
  | some raw =>
    let inner ← lift (inner raw)
    return some ⟨← lift (place inner), raw⟩

def group : Cursor (Option Text) :=
  delimited limit '\x7b' '\x7d'

end Definitions

section Running

variable {limit : Nat} (src : Text) (pos : Nat)

@[simp] theorem pure_apply (a : α) : (pure a : Cursor α) src pos = .ok (a, pos) :=
  rfl

@[simp] theorem bind_apply (q : Cursor α) (f : α → Cursor β) :
    (q >>= f) src pos = q src pos >>= fun x => f x.1 src x.2 :=
  rfl

@[simp] theorem lift_apply (x : Checked α) : lift x src pos = x >>= fun a => .ok (a, pos) :=
  rfl

@[simp] theorem stand_apply : stand src pos = .ok (pos, pos) :=
  rfl

@[simp] theorem goTo_apply (next : Nat) : goTo next src pos = .ok ((), next) :=
  rfl

@[simp] theorem forward_apply (n : Nat) : forward limit n src pos = sum limit pos n >>= fun next => .ok ((), next) :=
  rfl

@[simp] theorem rest_apply : rest src pos = restAt src pos >>= fun t => .ok (t, pos) :=
  rfl

end Running

-- What is found, and where the cursor stands then. It is back at its place if nothing is found.
def settle (pos : Nat) : Option (α × Nat) → Option α × Nat
  | none           => (none, pos)
  | some (a, next) => (some a, next)

def restoring (q : Scanner α) : Cursor (Option α) :=
  fun src pos => return settle pos (← q src pos)

section Restoring

variable {limit : Nat} {src : Text} {pos : Nat}

@[simp] theorem restoring_apply (q : Scanner α) :
    restoring q src pos = q src pos >>= fun found => .ok (settle pos found) :=
  rfl

-- What comes after a value that is found goes back to the same place.
theorem restoring_bind (q : Scanner α) (f : α → Scanner β) :
    restoring (q >>= f) src pos = q src pos >>= fun found =>
      match found with
      | none           => .ok (none, pos)
      | some (a, next) => f a src next >>= fun found => .ok (settle pos found) := by
  show (q src pos >>= _) >>= _ = _
  rw [bind_assoc]
  refine bind_congr fun x => ?_
  cases x <;> rfl

-- There is always something to skip, if only the empty text.
theorem skipBlanks_eq :
    Bytewise.skipBlanks limit src pos = skipBlanks limit src pos >>= fun x => .ok (some x) := by
  simp only [Bytewise.skipBlanks, skipBlanks, bind_apply, rest_apply, lift_apply, forward_apply, bind_assoc, ok_bind]
  rfl

theorem restoring_blanks (q : Scanner α) :
    restoring (do Bytewise.skipBlanks limit; q) src pos =
      skipBlanks limit src pos >>= fun x => q src x.2 >>= fun found => .ok (settle pos found) := by
  rw [restoring_bind, skipBlanks_eq, bind_assoc]
  rfl

theorem literal_eq (l : Text) : literal limit l = restoring (Bytewise.literal limit l) := by
  funext src pos
  rw [Bytewise.literal, restoring_blanks]
  simp only [literal, bind_apply, stand_apply, ok_bind]
  refine bind_congr fun x => ?_
  simp only [literalHere, rest_apply, bind_assoc, ok_bind]
  refine bind_congr fun t => ?_
  split <;> simp [settle]

theorem keyword_eq (w : Text) : keyword limit w = restoring (Bytewise.keyword limit w) := by
  funext src pos
  rw [Bytewise.keyword, restoring_blanks]
  simp only [keyword, bind_apply, stand_apply, ok_bind]
  refine bind_congr fun x => ?_
  simp only [Bytewise.wordHere, rest_apply, bind_assoc, ok_bind]
  refine bind_congr fun t => ?_
  split <;> simp [settle]

theorem wordHere_eq (w : Text) : wordHere limit w = restoring (Bytewise.wordHere limit w) := by
  funext src pos
  simp only [wordHere, restoring, Bytewise.wordHere, bind_apply, rest_apply, bind_assoc, ok_bind]
  refine bind_congr fun t => ?_
  split <;> simp [settle]

theorem command_eq (name : Text) : command limit name = restoring (Bytewise.command limit name) := by
  funext src pos
  rw [Bytewise.command, restoring_bind]
  simp only [command, literal_eq, wordHere_eq, bind_apply, stand_apply, ok_bind, restoring_apply, bind_assoc]
  refine bind_congr fun x => ?_
  cases x
  case none   => rfl
  case some x =>
    simp only [settle, bind_apply, restoring_apply, bind_assoc, ok_bind]
    refine bind_congr fun y => ?_
    cases y <;> rfl

theorem delimited_eq (o c : Char) : delimited limit o c = restoring (Bytewise.group limit o c) := by
  funext src pos
  rw [Bytewise.group, restoring_blanks]
  simp only [delimited, bind_apply, stand_apply, ok_bind]
  refine bind_congr fun x => ?_
  simp only [groupHere, groupWidth, rest_apply, bind_assoc, ok_bind]
  refine bind_congr fun t => ?_
  split
  case isTrue => simp [settle]
  case isFalse =>
    simp only [bind_apply, lift_apply, bind_assoc, ok_bind]
    refine bind_congr fun x => ?_
    cases x <;> simp [settle]

theorem options_eq : options limit = restoring (Bytewise.options limit) := by
  funext src pos
  rw [Bytewise.options, restoring_bind]
  simp only [options, delimited_eq, bind_apply, restoring_apply, bind_assoc, ok_bind]
  refine bind_congr fun x => ?_
  cases x <;> rfl

theorem reference_eq : reference limit = restoring (Bytewise.reference limit) := by
  funext src pos
  rw [Bytewise.reference, restoring_bind]
  simp only [reference, delimited_eq, bind_apply, restoring_apply, bind_assoc, ok_bind]
  refine bind_congr fun x => ?_
  cases x
  case none   => rfl
  case some x =>
    simp only [settle, bind_apply, lift_apply, pure_apply, Scanner.lift_bind_apply, bind_assoc, ok_bind]
    rfl

end Restoring

end Cursor
end TikzPress.Bytewise
