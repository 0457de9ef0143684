import TikzPress.Path
import TikzPress.Text.Utf8

/-!
Files and directories, and the operations on them that a rendering needs. A path is looked up part by
part: all but its last part have to be directories. Main statement: writing at one place changes what
is found there and nowhere else (`get?_set`).
-/

namespace TikzPress

abbrev Location := List Text

def Location.withAncestors (place : Location) : List Location :=
  (List.range (place.length + 1)).reverse.map fun n => place.take n

def Location.path (place : Location) : Text := '/' :: Text.joinWith ['/'] place

inductive Entry where
  | file (content : Bytes)
  | directory
  deriving DecidableEq, Repr

inductive FileError where
  | notFound
  | permissionDenied
  | alreadyExists
  | notADirectory
  | isADirectory
  | notAFile
  | invalidText
  | emptyPath
  deriving DecidableEq, Repr

def FileError.message : FileError → Text
  | notFound => "No such file or directory (os error 2)".toList
  | permissionDenied => "Permission denied (os error 13)".toList
  | alreadyExists => "File exists (os error 17)".toList
  | notADirectory => "Not a directory (os error 20)".toList
  | isADirectory => "Is a directory (os error 21)".toList
  | notAFile =>
    "the source path is neither a regular file nor a symlink to a regular file".toList
  | invalidText => "stream did not contain valid UTF-8".toList
  | emptyPath => "cannot make an empty path absolute".toList

structure FileTree where
  entries : List (Location × Entry)
  deriving DecidableEq, Repr

namespace FileTree

def empty : FileTree := ⟨[]⟩

instance : Inhabited FileTree := ⟨empty⟩

def get? (tree : FileTree) (place : Location) : Option Entry :=
  if place = [] then some .directory
  else (tree.entries.find? (·.1 = place)).map (·.2)

def set (tree : FileTree) (place : Location) (e : Entry) : FileTree :=
  ⟨(place, e) :: tree.entries.filter (·.1 ≠ place)⟩

theorem get?_set (tree : FileTree) (place other : Location) (e : Entry) (h : place ≠ []) :
    (tree.set place e).get? other = if other = place then some e else tree.get? other := by
  by_cases ho : other = place
  case pos =>
    subst ho
    simp [get?, set, h]
  case neg =>
    simp only [get?, set, if_neg ho]
    split
    case isTrue  => rfl
    case isFalse =>
      rw [List.find?_cons_of_neg (by simpa using Ne.symm ho), List.find?_filter]
      congr 2
      funext x
      by_cases hx : x.1 = other
      case pos => simp [hx, ho]
      case neg => simp [hx]

-- What stands at the last place need not exist.
def walk (tree : FileTree) (place : Location) : List Text → Except FileError Location
  | [] => .ok place
  | part :: parts =>
    match tree.get? place with
    | none => .error .notFound
    | some (.file _) => .error .notADirectory
    | some .directory =>
      if part = [] ∨ part = ['.'] then walk tree place parts
      else if part = "..".toList then walk tree place.dropLast parts
      else walk tree (place ++ [part]) parts

def locate (tree : FileTree) (directory : Location) (path : Text) : Except FileError Location :=
  if path = [] then .error .notFound
  else tree.walk (if Path.isAbsolute path then [] else directory) (Text.piecesAt '/' path)

def lookUp (tree : FileTree) (directory : Location) (path : Text) : Except FileError Entry := do
  match tree.get? (← tree.locate directory path) with
  | some e => .ok e
  | none => .error .notFound

-- An error counts as nothing.
def hasEntry (tree : FileTree) (directory : Location) (path : Text) : Bool :=
  (tree.lookUp directory path).isOk

def tryHasEntry (tree : FileTree) (directory : Location) (path : Text) : Except FileError Bool :=
  match tree.lookUp directory path with
  | .ok _ => .ok true
  | .error .notFound => .ok false
  | .error e => .error e

def read (tree : FileTree) (directory : Location) (path : Text) : Except FileError Bytes := do
  match ← tree.lookUp directory path with
  | .file content => .ok content
  | .directory => .error .isADirectory

def readText (tree : FileTree) (directory : Location) (path : Text) : Except FileError Text := do
  match Text.decode? (← tree.read directory path) with
  | some t => .ok t
  | none => .error .invalidText

def write (tree : FileTree) (directory : Location) (path : Text) (content : Bytes) :
    Except FileError FileTree := do
  let place ← tree.locate directory path
  match tree.get? place with
  | some .directory => .error .isADirectory
  | _ => .ok (tree.set place (.file content))

def copy (tree : FileTree) (directory : Location) (source target : Text) :
    Except FileError FileTree := do
  match ← tree.lookUp directory source with
  | .directory => .error .notAFile
  | .file content => tree.write directory target content

def makeDirectory (tree : FileTree) (directory : Location) (path : Text) :
    Except FileError FileTree := do
  let bare := (path.reverse.dropWhile (· = '/')).reverse
  let place ← tree.locate directory (if bare = [] then path else bare)
  match tree.get? place with
  | some _ => .error .alreadyExists
  | none => .ok (tree.set place .directory)

def isDirectory (tree : FileTree) (directory : Location) (path : Text) : Bool :=
  match tree.lookUp directory path with
  | .ok .directory => true
  | _ => false

def ensureDirectory (tree : FileTree) (directory : Location) (path : Text) :
    Except FileError FileTree :=
  match tree.makeDirectory directory path with
  | .ok tree => .ok tree
  | .error e => if tree.isDirectory directory path then .ok tree else .error e

-- From the last directory that is missing down; the paths come from the longest to the shortest. Directories that
-- were made before one fails stay.
def makeDirectories (tree : FileTree) (directory : Location) :
    List Text → Except FileError Unit × FileTree
  | [] => (.ok (), tree)
  | path :: parents =>
    match tree.ensureDirectory directory path with
    | .ok tree => (.ok (), tree)
    | .error .notFound =>
      match tree.makeDirectories directory parents with
      | (.error e, tree) => (.error e, tree)
      | (.ok (), tree) =>
        match tree.ensureDirectory directory path with
        | .ok tree => (.ok (), tree)
        | .error e => (.error e, tree)
    | .error e => (.error e, tree)

def withParents (path : Text) : List Text :=
  match Path.parent? path with
  | none => [path]
  | some p => if _h : p.length < path.length then path :: withParents p else [path]
termination_by path.length

def makeAll (tree : FileTree) (directory : Location) (path : Text) :
    Except FileError Unit × FileTree :=
  tree.makeDirectories directory (withParents path)

end FileTree
end TikzPress
