import TikzPress.Expansion
import TikzPress.FileTree
import TikzPress.Settings
import TikzPress.Toml.Reading

/-!
Loading the settings of a rendering: from a configuration file, named or found in the working directory
or above it, from the overrides of one run, and from the defaults. Overrides win over the file, and the
file over the defaults.
-/

namespace TikzPress

-- The cache directory is taken as it is.
structure Overrides where
  engine? : Option Engine := none
  enginePath? : Option Text := none
  svgTool? : Option SvgTool := none
  svgToolPath? : Option Text := none
  cacheDirectory? : Option Text := none
  timeoutMs? : Option Nat := none
  deriving DecidableEq, Repr

namespace Config

inductive Failure where
  | notFound (path : Text)
  | file (e : FileError)
  | malformed
  | invalid (setting : InvalidSetting)
  | unset (field name : Text)
  deriving DecidableEq, Repr

def Failure.message : Failure → Text
  | notFound path => "Configuration file not found: ".toList ++ path
  | file e => "I/O error: ".toList ++ e.message
  | malformed => "TOML parse error".toList
  | invalid setting => "Configuration error: ".toList ++ setting.message
  | unset field name =>
    "Environment variable error in ".toList ++ field ++ ": $\x7b".toList ++ name ++
      "\x7d not set".toList

structure Section where
  engine? : Option Engine := none
  enginePath? : Option Text := none
  svgTool? : Option SvgTool := none
  svgToolPath? : Option Text := none
  preamble? : Option (List Text) := none
  cacheDirectory? : Option Text := none
  timeoutMs? : Option Nat := none
  deriving DecidableEq, Repr

namespace Section

-- A string, or a table with that name alone and nothing under it.
def choice? (ofName? : Text → Option α) : Toml.Value → Option α
  | .string name => ofName? name
  | .table _ [(name, .table _ [])] => ofName? name
  | .table _ [(name, .array [])] => ofName? name
  | _ => none

def text? : Toml.Value → Option Text
  | .string t => some t
  | _ => none

def texts? (value : Toml.Value) : Option (List Text) := do
  (← value.items?).mapM text?

def word? : Toml.Value → Option Nat
  | .integer n => if 0 ≤ n ∧ n.toNat < Nat.pow 2 64 then some n.toNat else none
  | _ => none

def names : List Text :=
  ["engine".toList, "engine_path".toList, "svg_tool".toList, "svg_tool_path".toList,
    "preamble".toList, "cache_dir".toList, "timeout_ms".toList]

def put? (s : Section) (name : Text) (value : Toml.Value) : Option Section :=
  if name = "engine".toList then do
    return { s with engine? := ← choice? Engine.ofName? value }
  else if name = "engine_path".toList then do
    return { s with enginePath? := ← text? value }
  else if name = "svg_tool".toList then do
    return { s with svgTool? := ← choice? SvgTool.ofName? value }
  else if name = "svg_tool_path".toList then do
    return { s with svgToolPath? := ← text? value }
  else if name = "preamble".toList then do
    return { s with preamble? := ← texts? value }
  else if name = "cache_dir".toList then do
    return { s with cacheDirectory? := ← text? value }
  else if name = "timeout_ms".toList then do
    return { s with timeoutMs? := ← word? value }
  else none

def ofFields? (fields : Toml.Entries) : Option Section :=
  fields.foldlM (fun s (name, value) => s.put? name value) {}

-- The section is a table, or the values of its settings one after another. The other entries do not matter.
def ofEntries? (entries : Toml.Entries) : Option Section :=
  match Table.get? "render".toList entries with
  | none => some {}
  | some (.table _ fields) => ofFields? fields
  | some value => do ofFields? (names.zip (← value.items?))

-- A program that is chosen anew is looked for under its own name, unless its path is given as well.
def override (s : Section) (o : Overrides) : Section :=
  { s with
    engine? := o.engine?.or s.engine?
    enginePath? := o.enginePath?.or (if o.engine?.isSome then none else s.enginePath?)
    svgTool? := o.svgTool?.or s.svgTool?
    svgToolPath? := o.svgToolPath?.or (if o.svgTool?.isSome then none else s.svgToolPath?)
    timeoutMs? := o.timeoutMs?.or s.timeoutMs? }

def expandField (env : Variables) (field : Text) (value : Text) : Except Failure Text :=
  (Expansion.expand env value).mapError (.unset field)

def expandPaths (env : Variables) (s : Section) : Except Failure Section := do
  let enginePath? ← s.enginePath?.mapM (expandField env "render.engine_path".toList)
  let svgToolPath? ← s.svgToolPath?.mapM (expandField env "render.svg_tool_path".toList)
  return { s with enginePath?, svgToolPath? }

def cacheDirectory (env : Variables) (directory : Text) (s : Section) :
    Except Failure Text :=
  match s.cacheDirectory? with
  | none => return Path.join directory ".tikz-cache".toList
  | some path => do
    let path ← expandField env "render.cache_dir".toList path
    return Path.join directory (Expansion.expandTilde env path)

def settings (s : Section) (cacheDirectory : Text) : Settings :=
  let engine := s.engine?.getD .pdflatex
  let svgTool := s.svgTool?.getD .dvisvgm
  { engine
    enginePath := s.enginePath?.getD engine.name
    svgTool
    svgToolPath := s.svgToolPath?.getD svgTool.name
    preamble := s.preamble?.getD []
    cacheDirectory
    timeoutMs := s.timeoutMs?.getD Settings.defaultTimeoutMs }

end Section

def fileName : Text := "tikzmd.toml".toList

def candidates (directory : Location) : List Text :=
  directory.withAncestors.map fun place => Path.join place.path fileName

def discover? (tree : FileTree) (directory : Location) : Option Text :=
  (candidates directory).find? (tree.hasEntry directory)

def readSection (tree : FileTree) (directory : Location) (path : Text) :
    Except Failure Section := do
  let content ← (tree.readText directory path).mapError .file
  match (Toml.parse? content).bind Section.ofEntries? with
  | some s => return s
  | none => throw .malformed

-- A file that is named has to exist.
def source? (tree : FileTree) (directory : Location) (path? : Option Text) :
    Except Failure (Option Text) :=
  match path? with
  | none => return discover? tree directory
  | some path =>
    if tree.hasEntry directory path then return some path else throw (.notFound path)

def userCacheDirectory (env : Variables) : Text :=
  Path.join (Expansion.dataDirectory env) "tikz-cache".toList

end Config

structure Config where
  settings : Settings
  path? : Option Text
  deriving DecidableEq, Repr

-- Without a file the cache directory is that of the user.
def Config.load (env : Variables) (tree : FileTree) (directory : Location)
    (path? : Option Text) (overrides : Overrides) : Except Config.Failure Config := do
  let path? ← source? tree directory path?
  let given ← match path? with
    | none => pure {}
    | some path => readSection tree directory path
  let given ← (given.override overrides).expandPaths env
  let cacheDirectory ← match path? with
    | none => pure (userCacheDirectory env)
    | some path => given.cacheDirectory env ((Path.parent? path).getD ['.'])
  let settings := given.settings (overrides.cacheDirectory?.getD cacheDirectory)
  match settings.invalid? with
  | some setting => throw (.invalid setting)
  | none => return { settings, path? }

end TikzPress
