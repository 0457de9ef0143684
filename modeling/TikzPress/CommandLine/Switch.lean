import TikzPress.Text

/-!
The commands of the command line and the switches that each of them knows.
-/

namespace TikzPress

inductive Command where
  | parse
  | graph
  | compile
  | preview
  deriving DecidableEq, Repr

def Command.all : List Command := [.parse, .graph, .compile, .preview]

def Command.name : Command → Text
  | parse => "parse".toList
  | graph => "graph".toList
  | compile => "compile".toList
  | preview => "preview".toList

def Command.ofName? (name : Text) : Option Command := Command.all.find? (·.name = name)

-- The log of a verbose run is none of its results.
inductive Switch where
  | help
  | version
  | verbose
  | pdfOnly
  | force
  | config
  | engine
  | enginePath
  | svgTool
  | svgToolPath
  | cacheDirectory
  | timeout
  deriving DecidableEq, Repr

namespace Switch

def name : Switch → Text
  | help => "help".toList
  | version => "version".toList
  | verbose => "verbose".toList
  | pdfOnly => "pdf-only".toList
  | force => "force".toList
  | config => "config".toList
  | engine => "engine".toList
  | enginePath => "engine-path".toList
  | svgTool => "svg-tool".toList
  | svgToolPath => "svg-tool-path".toList
  | cacheDirectory => "cache-dir".toList
  | timeout => "timeout-ms".toList

def letter? : Switch → Option Char
  | help => some 'h'
  | version => some 'V'
  | verbose => some 'v'
  | config => some 'c'
  | _ => none

def takesValue : Switch → Bool
  | help | version | verbose | pdfOnly | force => false
  | config | engine | enginePath | svgTool | svgToolPath | cacheDirectory | timeout => true

def general : List Switch := [verbose, help, version]

def rendering : List Switch :=
  [config, engine, enginePath, svgTool, svgToolPath, cacheDirectory, timeout]

end Switch

def Command.switches : Command → List Switch
  | parse | graph => [.verbose, .help]
  | compile => [.verbose, .help, .pdfOnly, .force] ++ Switch.rendering
  | preview => [.verbose, .help, .force] ++ Switch.rendering

end TikzPress
