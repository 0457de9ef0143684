import TikzPress.Json
import TikzPress.Text.Blank

/-!
Settings of a rendering: the engine that makes a PDF, the tool that turns it into an SVG, and where
and how long they run.
-/

namespace TikzPress

inductive Engine where
  | pdflatex
  | lualatex
  | xelatex
  | tectonic
  deriving DecidableEq, Repr

def Engine.all : List Engine := [.pdflatex, .lualatex, .xelatex, .tectonic]

def Engine.name : Engine → Text
  | pdflatex => "pdflatex".toList
  | lualatex => "lualatex".toList
  | xelatex => "xelatex".toList
  | tectonic => "tectonic".toList

def Engine.ofName? (name : Text) : Option Engine := Engine.all.find? (·.name = name)

inductive SvgTool where
  | dvisvgm
  | pdftocairo
  deriving DecidableEq, Repr

def SvgTool.all : List SvgTool := [.dvisvgm, .pdftocairo]

def SvgTool.name : SvgTool → Text
  | dvisvgm => "dvisvgm".toList
  | pdftocairo => "pdftocairo".toList

def SvgTool.ofName? (name : Text) : Option SvgTool := SvgTool.all.find? (·.name = name)

inductive UnknownName where
  | engine (name : Text)
  | svgTool (name : Text)
  deriving DecidableEq, Repr

def UnknownName.message : UnknownName → Text
  | engine name =>
    "unknown engine '".toList ++ name ++ "', expected one of: ".toList ++
      Text.joinWith ", ".toList (Engine.all.map Engine.name)
  | svgTool name =>
    "unknown SVG tool '".toList ++ name ++ "', expected one of: ".toList ++
      Text.joinWith ", ".toList (SvgTool.all.map SvgTool.name)

-- A timeout of zero stands for none.
structure Settings where
  engine : Engine
  enginePath : Text
  svgTool : SvgTool
  svgToolPath : Text
  preamble : List Text
  cacheDirectory : Text
  timeoutMs : Nat
  deriving DecidableEq, Repr

inductive InvalidSetting where
  | blankPath (field : Text)
  | emptyCacheDirectory
  | longTimeout
  deriving DecidableEq, Repr

namespace Settings

def defaultTimeoutMs : Nat := 30000

def maxTimeoutMs : Nat := 10 * 60 * 1000

def withCacheDirectory (directory : Text) : Settings where
  engine := .pdflatex
  enginePath := Engine.pdflatex.name
  svgTool := .dvisvgm
  svgToolPath := SvgTool.dvisvgm.name
  preamble := []
  cacheDirectory := directory
  timeoutMs := defaultTimeoutMs

def timeout? (s : Settings) : Option Nat := if s.timeoutMs = 0 then none else some s.timeoutMs

-- The cache directory and the timeout do not change what is rendered.
def signature (s : Settings) : Text :=
  (Json.ofFields
    [("engine", .text s.engine.name),
     ("engine_path", .text s.enginePath),
     ("svg_tool", .text s.svgTool.name),
     ("svg_tool_path", .text s.svgToolPath),
     ("preamble", .array (s.preamble.map .text))]).compact

def invalid? (s : Settings) : Option InvalidSetting :=
  if Text.isBlankOnly s.enginePath then some (.blankPath "render.engine_path".toList)
  else if Text.isBlankOnly s.svgToolPath then some (.blankPath "render.svg_tool_path".toList)
  else if s.cacheDirectory = [] then some .emptyCacheDirectory
  else if maxTimeoutMs < s.timeoutMs then some .longTimeout
  else none

end Settings

def InvalidSetting.message : InvalidSetting → Text
  | blankPath field => field ++ " cannot be empty".toList
  | emptyCacheDirectory => "render.cache_dir cannot be empty".toList
  | longTimeout => "render.timeout_ms cannot exceed ".toList ++ Text.ofNat Settings.maxTimeoutMs

end TikzPress
