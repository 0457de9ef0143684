import TikzPress.Program
import TikzPress.Settings

/-!
One compilation: the source is written, an engine makes a PDF of it, a converter may make an SVG of that,
and what came out is copied to its final place. The first step that fails ends it. A step whose program
hangs fails only when the time is up.
-/

namespace TikzPress.Compilation

structure Job where
  source : Text
  baseName : Text
  cacheDirectory : Text
  svg : Bool
  deriving DecidableEq, Repr

structure Artifacts where
  pdf : Text
  svg? : Option Text
  log : Text
  deriving DecidableEq, Repr

def Artifacts.shown (a : Artifacts) : Text := a.svg?.getD a.pdf

inductive Kind where
  | start
  | exitStatus
  | timeout
  | missingOutput
  | files
  deriving DecidableEq, Repr

def Kind.name : Kind → Text
  | start => "spawn".toList
  | exitStatus => "exit status".toList
  | timeout => "timed out".toList
  | missingOutput => "missing output".toList
  | files => "io".toList

inductive FileStep where
  | resolveDirectory
  | makeDirectory
  | writeSource
  | checkArtifact
  | copyArtifact
  deriving DecidableEq, Repr

def FileStep.message : FileStep → Text
  | resolveDirectory => "Failed to resolve cache directory".toList
  | makeDirectory => "Failed to create cache directory".toList
  | writeSource => "Failed to write TeX source".toList
  | checkArtifact => "Failed to check artifact".toList
  | copyArtifact => "Failed to copy artifact".toList

-- A program that was killed has no exit code.
inductive Failure where
  | files (step : FileStep) (e : FileError)
  | start (program : Text) (e : FileError) (log : Text)
  | exited (program : Text) (code? : Option Nat) (messages : Bytes)
  | timedOut (program : Text) (limit : Nat) (messages : Bytes)
  | missing (program output log : Text)
  deriving DecidableEq, Repr

namespace Failure

def kind : Failure → Kind
  | files .. => .files
  | start .. => .start
  | exited .. => .exitStatus
  | timedOut .. => .timeout
  | missing .. => .missingOutput

def message : Failure → Text
  | files step e => step.message ++ ": ".toList ++ e.message
  | start program e _ => program ++ " failed to start: ".toList ++ e.message
  | exited program code? _ =>
    program ++ " exited with code ".toList ++ (code?.map Text.ofNat).getD "unknown".toList
  | timedOut program limit _ =>
    program ++ " timed out after ".toList ++ Text.ofNat limit ++ "ms".toList
  | missing program output _ => program ++ " did not produce ".toList ++ output

-- What a program said, or the path of the log where it said nothing of its own.
def log? : Failure → Option Text
  | files .. => none
  | start _ _ log | missing _ _ log => some log
  | exited _ _ messages | timedOut _ _ messages => some (Text.decodeLossy messages)

end Failure

inductive Stop where
  | failed (f : Failure)
  | hanging (program : Text) (messages : Bytes)
  deriving DecidableEq, Repr

def Stop.failure? (timeout? : Option Nat) (elapsed : Nat) : Stop → Option Failure
  | failed f => some f
  | hanging program messages =>
    match timeout? with
    | none => none
    | some limit => if limit ≤ elapsed then some (.timedOut program limit messages) else none

abbrev Step := ExceptT Stop (StateM World)

def changing (step : FileStep) (change : FileTree → Except FileError FileTree) : Step Unit :=
  fun w =>
    match change w.tree with
    | .ok tree => (.ok (), { w with tree })
    | .error e => (.error (.failed (.files step e)), w)

def makingDirectory (host : Host) (directory : Text) : Step Unit := fun w =>
  match w.tree.makeAll host.directory directory with
  | (.ok (), tree) => (.ok (), { w with tree })
  | (.error e, tree) => (.error (.failed (.files .makeDirectory e)), { w with tree })

def calling (host : Host) (directory log : Text) (c : Call) : Step Unit := fun w =>
  match (w.tree.locate host.directory directory).bind fun place => host.programs c place w.tree with
  | .error e => (.error (.failed (.start c.program e log)), w)
  | .ok effect =>
    let w : World := ⟨effect.tree, w.calls ++ [c]⟩
    match effect.ending with
    | .exited 0 => (.ok (), w)
    | .exited code => (.error (.failed (.exited c.program (some code) effect.messages)), w)
    | .killed => (.error (.failed (.exited c.program none effect.messages)), w)
    | .hangs => (.error (.hanging c.program effect.messages), w)

def requiring (host : Host) (program output log : Text) : Step Unit := fun w =>
  match w.tree.tryHasEntry host.directory output with
  | .ok true => (.ok (), w)
  | .ok false => (.error (.failed (.missing program output log)), w)
  | .error e => (.error (.failed (.files .checkArtifact e)), w)

def engineCall (s : Settings) (source directory : Text) : Call where
  program := s.enginePath
  arguments := match s.engine with
    | .tectonic =>
      ["-X".toList, "compile".toList, source, "--outdir".toList, directory, "--keep-logs".toList,
        "--keep-intermediates".toList]
    | .pdflatex | .lualatex | .xelatex =>
      ["-interaction=nonstopmode".toList, "-halt-on-error".toList, "-output-directory".toList,
        directory, source]

def converterCall (s : Settings) (pdf svg : Text) : Call where
  program := s.svgToolPath
  arguments := match s.svgTool with
    | .dvisvgm =>
      ["--pdf".toList, "--no-fonts".toList, "--exact".toList, pdf, "-o".toList, svg]
    | .pdftocairo => ["-svg".toList, pdf, svg]

def Job.file (job : Job) (directory : Text) (ending : String) : Text :=
  Path.join directory (job.baseName ++ ending.toList)

def convert (host : Host) (s : Settings) (job : Job) (directory : Text) : Step Unit := do
  let log := job.file directory ".tmp.log"
  let svg := job.file directory ".tmp.svg"
  calling host directory log (converterCall s (job.file directory ".tmp.pdf") svg)
  requiring host s.svgToolPath svg log

def publish (host : Host) (source target : Text) : Step Unit :=
  changing .copyArtifact fun tree => tree.copy host.directory source target

def compile (host : Host) (s : Settings) (job : Job) : Step Artifacts := do
  if job.cacheDirectory = [] then throw (.failed (.files .resolveDirectory .emptyPath))
  let directory := Path.absolute host.directory.path job.cacheDirectory
  makingDirectory host directory
  let source := job.file directory ".tmp.tex"
  let log := job.file directory ".tmp.log"
  changing .writeSource fun tree => tree.write host.directory source (Text.encode job.source)
  calling host directory log (engineCall s source directory)
  requiring host s.enginePath (job.file directory ".tmp.pdf") log
  if job.svg then convert host s job directory
  publish host (job.file directory ".tmp.pdf") (job.file directory ".pdf")
  if job.svg then publish host (job.file directory ".tmp.svg") (job.file directory ".svg")
  return {
    pdf := job.file directory ".pdf"
    svg? := if job.svg then some (job.file directory ".svg") else none
    log }

-- The time for which a program that hangs is waited for is `patience`. Without a timeout it is never stopped.
def run (host : Host) (s : Settings) (patience : Nat) (job : Job) (w : World) :
    Option (Except Failure Artifacts) × World :=
  match (compile host s job).run w with
  | (.ok artifacts, w) => (some (.ok artifacts), w)
  | (.error stop, w) => ((stop.failure? s.timeout? patience).map .error, w)

end TikzPress.Compilation
