import TikzPress.CommandLine.Switch

/-!
Arguments as items. A switch is written with two hyphens and its name, or with one hyphen and its letter;
letters may stand together. A value follows its switch in the next argument, after an equals sign, or right
after the letter. After two hyphens alone there are only words. Main statement: reading one argument takes
away none but those after it (`length_next?_le`).
-/

namespace TikzPress

inductive UsageError where
  | unknownSwitch (name : Text)
  | missingValue (s : Switch)
  | strayValue (s : Switch)
  | repeated (s : Switch)
  | badValue (s : Switch) (value : Text)
  | strayWord (word : Text)
  | emptyFile
  | missingFile
  | unknownCommand (name : Text)
  | missingCommand
  deriving DecidableEq, Repr

def UsageError.message : UsageError → Text
  | unknownSwitch name => "unknown switch ".toList ++ name
  | missingValue s => "no value for --".toList ++ s.name
  | strayValue s => "no value belongs to --".toList ++ s.name
  | repeated s => "--".toList ++ s.name ++ " is given twice".toList
  | badValue s value => "--".toList ++ s.name ++ " cannot be '".toList ++ value ++ ['\'']
  | strayWord word => "one file is enough, without '".toList ++ word ++ ['\'']
  | emptyFile => "the name of the file is empty".toList
  | missingFile => "no file is given".toList
  | unknownCommand name => "unknown command '".toList ++ name ++ ['\'']
  | missingCommand => "no command is given".toList

inductive Item where
  | switch (s : Switch)
  | setting (s : Switch) (value : Text)
  | word (w : Text)
  | fault (e : UsageError)
  deriving DecidableEq, Repr

namespace Item

inductive Form where
  | word
  | terminator
  | long (name : Text) (value? : Option Text)
  | letters (cs : Text)
  deriving DecidableEq, Repr

-- A hyphen alone is a word.
def Form.of : Text → Form
  | ['-', '-'] => .terminator
  | '-' :: '-' :: t =>
    match Text.cutAtChar? '=' t with
    | some (name, value) => .long name (some value)
    | none => .long t none
  | '-' :: c :: cs => .letters (c :: cs)
  | _ => .word

-- The value is attached to the switch, or else it is the next argument if that is a word.
def ofSwitch (s : Switch) (value? : Option Text) (rest : List Text) : Item × List Text :=
  match s.takesValue, value?, rest with
  | false, none, _ => (.switch s, rest)
  | false, some _, _ => (.fault (.strayValue s), rest)
  | true, some value, _ => (.setting s value, rest)
  | true, none, [] => (.fault (.missingValue s), [])
  | true, none, a :: others =>
    if Form.of a = .word then (.setting s a, others) else (.fault (.missingValue s), rest)

theorem length_ofSwitch_le (s : Switch) (value? : Option Text) (rest : List Text) :
    (ofSwitch s value? rest).2.length ≤ rest.length := by
  unfold ofSwitch
  split
  case h_5 => split <;> simp
  all_goals simp

-- What follows the letter of a switch with a value is its value.
def ofLetters (allowed : List Switch) : Text → List Text → List Item × List Text
  | [], rest => ([], rest)
  | c :: cs, rest =>
    match allowed.find? (·.letter? = some c) with
    | none => ([.fault (.unknownSwitch ['-', c])], rest)
    | some s =>
      if s.takesValue then
        let value? := match cs with
          | [] => none
          | '=' :: value => some value
          | value => some value
        let (item, rest) := ofSwitch s value? rest
        ([item], rest)
      else
        let (items, rest) := ofLetters allowed cs rest
        (.switch s :: items, rest)

theorem length_ofLetters_le (allowed : List Switch) (cs : Text) (rest : List Text) :
    (ofLetters allowed cs rest).2.length ≤ rest.length := by
  induction cs generalizing rest
  case nil => simp [ofLetters]
  case cons c cs ih =>
    unfold ofLetters
    split
    case h_1 => simp
    case h_2 =>
      split
      case isTrue  => exact length_ofSwitch_le ..
      case isFalse => exact ih rest

def ofName (allowed : List Switch) (name : Text) (value? : Option Text) (rest : List Text) :
    Item × List Text :=
  match allowed.find? (·.name = name) with
  | none => (.fault (.unknownSwitch ("--".toList ++ name)), rest)
  | some s => ofSwitch s value? rest

theorem length_ofName_le (allowed : List Switch) (name : Text) (value? : Option Text)
    (rest : List Text) : (ofName allowed name value? rest).2.length ≤ rest.length := by
  unfold ofName
  split
  case h_1 => simp
  case h_2 => exact length_ofSwitch_le ..

def next? (allowed : List Switch) (a : Text) (rest : List Text) :
    Option (List Item × List Text) :=
  match Form.of a with
  | .word | .terminator => none
  | .long name value? =>
    let (item, rest) := ofName allowed name value? rest
    some ([item], rest)
  | .letters cs => some (ofLetters allowed cs rest)

theorem length_next?_le {allowed : List Switch} {a : Text} {rest left : List Text}
    {items : List Item} (h : next? allowed a rest = some (items, left)) :
    left.length ≤ rest.length := by
  unfold next? at h
  split at h
  case h_1 | h_2 => contradiction
  case h_3 =>
    simp only [Option.some.injEq, Prod.mk.injEq] at h
    exact h.2 ▸ length_ofName_le ..
  case h_4 cs _ =>
    have hl := length_ofLetters_le allowed cs rest
    rwa [Option.some.inj h] at hl

def front (allowed : List Switch) : List Text → List Item × List Text
  | [] => ([], [])
  | a :: rest =>
    match _h : next? allowed a rest with
    | none => ([], a :: rest)
    | some (items, left) =>
      let (others, left) := front allowed left
      (items ++ others, left)
termination_by args => args.length
decreasing_by exact Nat.lt_succ_of_le (length_next?_le _h)

def all (allowed : List Switch) : List Text → List Item
  | [] => []
  | a :: rest =>
    match _h : next? allowed a rest with
    | none => if Form.of a = .terminator then rest.map .word else .word a :: all allowed rest
    | some (items, left) => items ++ all allowed left
termination_by args => args.length
decreasing_by
  · simp
  · exact Nat.lt_succ_of_le (length_next?_le _h)

end Item
end TikzPress
