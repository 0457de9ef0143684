import TikzPress.CommandLine.Invocation
import TikzPress.Fence
import TikzPress.Manager
import TikzPress.Markup
import TikzPress.Report

/-!
The command line. A run reads a file, prints results and messages, and ends with a code: zero, one after a
failure, two when the arguments cannot be followed. Main statement: a compilation whose artifact is there
already changes nothing (`compile_of_hasEntry`).
-/

namespace TikzPress

-- Results and messages are printed with a line end each.
structure Outcome where
  code : Nat
  results : List Text
  messages : List Text
  deriving DecidableEq, Repr

def Outcome.lines (ts : List Text) : Text := ts.flatMap (· ++ ['\n'])

def Outcome.ofArtifact (label : String) (path : Text) : Outcome :=
  ⟨0, [path], [label.toList ++ ": ".toList ++ path]⟩

namespace CommandLine

inductive Failure where
  | file (e : FileError)
  | config (f : Config.Failure)
  | compilation (message : Text)
  | unsettled (file : Text)
  deriving DecidableEq, Repr

def Failure.message : Failure → Text
  | .file e => e.message
  | .config f => f.message
  | .compilation message => message
  | .unsettled path => "compilation of ".toList ++ path ++ " did not settle".toList

structure Surroundings where
  env : Variables
  host : Host

def report (form : Text → Json) (r : Surroundings) (file : Text) (w : World) :
    Except Failure Outcome := do
  let source ← (w.tree.readText r.host.directory file).mapError .file
  return ⟨0, [(form source).pretty 0], []⟩

def prepare (r : Surroundings) (file : Text) (g : Given) (w : World) :
    Except Failure (Text × Settings) := do
  let content ← (w.tree.readText r.host.directory file).mapError .file
  let config ← (Config.load r.env w.tree r.host.directory g.config? g.overrides).mapError
    .config
  return (content, config.settings)

def artifact (s : Settings) (key : Text) (svg : Bool) : Text :=
  Path.join s.cacheDirectory
    (CacheKey.baseName key ++ (if svg then ".svg".toList else ".pdf".toList))

def ofStatus (file : Text) : Status → Except Failure Outcome
  | .resolved path => .ok (.ofArtifact "Compiled" path)
  | .failed message => .error (.compilation message)
  | .absent | .pending => .error (.unsettled file)

def compile (host : Host) (file content : Text) (s : Settings) (svg force : Bool) (w : World) :
    Except Failure Outcome × World :=
  let key := CacheKey.of content s
  let path := artifact s key svg
  if ¬force ∧ w.tree.hasEntry host.directory path then (.ok (.ofArtifact "Up to date" path), w)
  else
    let m := (Manager.new host.width Refresh.defaultWindow).request key content s svg force
    let (m, w) := m.waitInTime host key w
    (ofStatus file (m.status key), w)

theorem compile_of_hasEntry {host : Host} {file content : Text} {s : Settings} {svg : Bool}
    {w : World}
    (h : w.tree.hasEntry host.directory (artifact s (CacheKey.of content s) svg)) :
    compile host file content s svg false w =
      (.ok (.ofArtifact "Up to date" (artifact s (CacheKey.of content s) svg)), w) := by
  simp [compile, h]

def isFailure : Status → Bool
  | .failed _ => true
  | .absent | .pending | .resolved _ => false

def ofStatuses (s : Settings) (keys : List Text) (statuses : List Status) : Outcome :=
  let summary := Text.ofNat keys.length ++ " fence(s), ".toList ++
    Text.ofNat (statuses.countP isFailure) ++ " failed".toList
  ⟨0, List.zipWith Markup.render keys statuses,
    [summary, "Artifacts in ".toList ++ s.cacheDirectory]⟩

def preview (host : Host) (file content : Text) (s : Settings) (force : Bool) (w : World) :
    Outcome × World :=
  match Fence.all content with
  | [] => (⟨0, [], ["No tikz fences in ".toList ++ file]⟩, w)
  | fences =>
    let keys := fences.map fun f => CacheKey.of f.content s
    let m := fences.foldl
      (fun m f => m.request (CacheKey.of f.content s) f.content s true force)
      (Manager.new host.width Refresh.defaultWindow)
    let (statuses, w) := m.waitEach host keys w
    (ofStatuses s keys statuses, w)

def execute (r : Surroundings) (i : Invocation) (w : World) : Except Failure Outcome × World :=
  let force := i.given.has .force
  match i.command with
  | .parse => (report Report.outline r i.file w, w)
  | .graph => (report Report.graphs r i.file w, w)
  | .compile =>
    match prepare r i.file i.given w with
    | .error f => (.error f, w)
    | .ok (content, s) => compile r.host i.file content s (!i.given.has .pdfOnly) force w
  | .preview =>
    match prepare r i.file i.given w with
    | .error f => (.error f, w)
    | .ok (content, s) =>
      let (outcome, w) := preview r.host i.file content s force w
      (.ok outcome, w)

def version : Text := "tikzmd 0.1.0".toList

def usage : List Text :=
  ["TikZ diagrams for Markdown".toList,
    [],
    "Usage: tikzmd [-v] COMMAND FILE [SWITCHES]".toList,
    [],
    "  parse FILE    print the structure of a document as JSON".toList,
    "  graph FILE    print the graph of every picture as JSON".toList,
    "  compile FILE  compile a file and print the path of the artifact".toList,
    "  preview FILE  compile the fences of a Markdown file and print their HTML".toList,
    [],
    "compile and preview:".toList,
    "  --force  -c, --config PATH  --engine NAME  --engine-path PROGRAM".toList,
    "  --svg-tool NAME  --svg-tool-path PROGRAM  --cache-dir PATH  --timeout-ms MS".toList,
    "compile: --pdf-only".toList]

def ofReply : Reply → Outcome
  | .help => ⟨0, usage, []⟩
  | .version => ⟨0, [version], []⟩
  | .usage e => ⟨2, [], ["error: ".toList ++ e.message]⟩

def ofFailure (f : Failure) : Outcome := ⟨1, [], ["Error: ".toList ++ f.message]⟩

def run (r : Surroundings) (arguments : List Text) (w : World) : Outcome × World :=
  match Invocation.read r.env arguments with
  | .error reply => (ofReply reply, w)
  | .ok i =>
    match execute r i w with
    | (.ok outcome, w) => (outcome, w)
    | (.error f, w) => (ofFailure f, w)

def contents (c : Command) (content : Text) : List Text :=
  match c with
  | .parse | .graph => []
  | .compile => [content]
  | .preview => (Fence.all content).map Fence.content

def products (s : Settings) (content : Text) : List Text :=
  let file (ending : String) :=
    Path.join s.cacheDirectory (CacheKey.baseName (CacheKey.of content s) ++ ending.toList)
  [file ".svg", file ".pdf", file ".tmp.tex"]

def paths (r : Surroundings) (i : Invocation) (tree : FileTree) : List Text :=
  let configs := match i.given.config? with
    | some path => [path]
    | none => Config.candidates r.host.directory
  match prepare r i.file i.given ⟨tree, []⟩ with
  | .error _ => i.file :: configs
  | .ok (content, s) => i.file :: configs ++ (contents i.command content).flatMap (products s)

end CommandLine
end TikzPress
