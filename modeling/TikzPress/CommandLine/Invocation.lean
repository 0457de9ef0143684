import TikzPress.CommandLine.Item
import TikzPress.Config
import TikzPress.Decimal.Reading

/-!
What the arguments ask for. They are followed from left to right: the first error ends it, and so does the
first request for help or for the version.
-/

namespace TikzPress

structure Given where
  switches : List Switch := []
  file? : Option Text := none
  config? : Option Text := none
  overrides : Overrides := {}
  deriving DecidableEq, Repr

structure Invocation where
  command : Command
  file : Text
  given : Given
  deriving DecidableEq, Repr

inductive Reply where
  | help
  | version
  | usage (e : UsageError)
  deriving DecidableEq, Repr

namespace Given

def has (g : Given) (s : Switch) : Bool := g.switches.contains s

-- A plus sign may stand in front.
def word? : Text → Option Nat
  | '+' :: t => Decimal.word? t
  | t => Decimal.word? t

def path? (t : Text) : Option Text := if t = [] then none else some t

def put? (g : Given) (value : Text) : Switch → Option Given
  | .config => do return { g with config? := some (← path? value) }
  | .engine => do
    return { g with overrides := { g.overrides with engine? := some (← Engine.ofName? value) } }
  | .enginePath => some { g with overrides := { g.overrides with enginePath? := some value } }
  | .svgTool => do
    return { g with overrides := { g.overrides with svgTool? := some (← SvgTool.ofName? value) } }
  | .svgToolPath => some { g with overrides := { g.overrides with svgToolPath? := some value } }
  | .cacheDirectory => do
    return { g with overrides := { g.overrides with cacheDirectory? := some (← path? value) } }
  | .timeout => do
    return { g with overrides := { g.overrides with timeoutMs? := some (← word? value) } }
  | .help | .version | .verbose | .pdfOnly | .force => none

def note (g : Given) (s : Switch) : Except Reply Given :=
  if g.has s then .error (.usage (.repeated s)) else .ok { g with switches := s :: g.switches }

def putFile (g : Given) (w : Text) : Except Reply Given :=
  if g.file?.isSome then .error (.usage (.strayWord w))
  else if w = [] then .error (.usage .emptyFile)
  else .ok { g with file? := some w }

def add (g : Given) : Item → Except Reply Given
  | .switch .help => .error .help
  | .switch .version => .error .version
  | .switch s => g.note s
  | .setting s value => do
    match (← g.note s).put? value s with
    | some g => .ok g
    | none => .error (.usage (.badValue s value))
  | .word w => g.putFile w
  | .fault e => .error (.usage e)

def ofItems (items : List Item) : Except Reply Given := items.foldlM add {}

def timeoutVariable : Text := "TIKZMD_TIMEOUT_MS".toList

-- A switch goes before the variable.
def addVariables (env : Variables) (c : Command) (g : Given) : Except Reply Given :=
  if c.switches.contains .timeout ∧ ¬g.has .timeout then
    match env.lookup timeoutVariable with
    | none => .ok g
    | some value => g.add (.setting .timeout value)
  else .ok g

end Given

namespace Invocation

def ofArguments (env : Variables) (c : Command) (arguments : List Text) :
    Except Reply Invocation := do
  let g ← Given.ofItems (Item.all c.switches arguments)
  let g ← g.addVariables env c
  match g.file? with
  | some file => return ⟨c, file, g⟩
  | none => throw (.usage .missingFile)

def helpName : Text := "help".toList

def help : List Text → Reply
  | [] => .help
  | [name] =>
    if name = helpName ∨ (Command.ofName? name).isSome then .help
    else .usage (.unknownCommand name)
  | _ :: name :: _ => .usage (.unknownCommand name)

def read (env : Variables) (arguments : List Text) : Except Reply Invocation := do
  let (items, rest) := Item.front Switch.general arguments
  let _ ← Given.ofItems items
  match rest with
  | [] => throw (.usage .missingCommand)
  | name :: arguments =>
    if name = helpName then throw (help arguments)
    match Command.ofName? name with
    | none => throw (.usage (.unknownCommand name))
    | some c => ofArguments env c arguments

end Invocation
end TikzPress
