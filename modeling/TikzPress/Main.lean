import TikzPress.CommandLine

/-!
The program. It takes from the disk what a run looks at, and puts back what the run changed. No other
program is started from here: a compilation that is not up to date ends as if none were installed.
-/

namespace TikzPress

def Entry.fetch? (place : Location) : IO (Option Entry) := do
  try
    let content ← IO.FS.readBinFile (String.ofList place.path)
    return some (.file content.toList)
  catch
    | .inappropriateType .. => return some .directory
    | _ => return none

def FileTree.fetch (directory : Location) (tree : FileTree) (path : Text) : IO FileTree := do
  let start : Location := if Path.isAbsolute path then [] else directory
  let steps := (Path.names path).foldl
    (fun places name =>
      let place := places.headD start
      (if name = "..".toList then place.dropLast else place ++ [name]) :: places)
    start.withAncestors
  steps.foldlM
    (fun tree place => do
      if place = [] then return tree
      match ← Entry.fetch? place with
      | none => return tree
      | some e => return tree.set place e)
    tree

-- Directories come first.
def FileTree.store (old new : FileTree) : IO Unit := do
  let changed := new.entries.filter fun (place, e) => old.get? place ≠ some e
  for (place, e) in changed do
    if e = .directory then IO.FS.createDirAll (String.ofList place.path)
  for (place, e) in changed do
    if let .file content := e then
      IO.FS.writeBinFile (String.ofList place.path) ⟨content.toArray⟩

def Variables.fetch (names : List Text) : IO Variables :=
  names.filterMapM fun name => do
    return (← IO.getEnv (String.ofList name)).map fun value => (name, value.toList)

def FileTree.texts (tree : FileTree) : List Text :=
  tree.entries.filterMap fun
    | (_, .file content) => Text.decode? content
    | (_, .directory) => none

def CommandLine.runOnDisk (arguments : List Text) : IO Outcome := do
  let directory := Path.names (toString (← IO.currentDir)).toList
  let host : Host := ⟨directory, fun _ _ _ => .error .notFound, 1⟩
  let known := ["HOME".toList, "XDG_DATA_HOME".toList, Given.timeoutVariable]
  let env ← Variables.fetch known
  match Invocation.read env arguments with
  | .error reply => return ofReply reply
  | .ok i =>
    let fetchAll (env : Variables) (tree : FileTree) :=
      (paths ⟨env, host⟩ i tree).foldlM (FileTree.fetch directory) tree
    let tree ← fetchAll env .empty
    let env ← Variables.fetch (known ++ tree.texts.flatMap Expansion.mentioned)
    let tree ← fetchAll env tree
    let (outcome, w) := run ⟨env, host⟩ arguments ⟨tree, []⟩
    tree.store w.tree
    return outcome

end TikzPress

def main (arguments : List String) : IO UInt32 := do
  let outcome ← TikzPress.CommandLine.runOnDisk (arguments.map String.toList)
  IO.print (String.ofList (TikzPress.Outcome.lines outcome.results))
  IO.eprint (String.ofList (TikzPress.Outcome.lines outcome.messages))
  return outcome.code.toUInt32
