import TikzPress.Document
import TikzPress.Graph.OfPicture
import TikzPress.Json

/-!
The JSON forms of documents, pictures, circuits and graphs, and the two reports about a source.
-/

namespace TikzPress

namespace Json

def ofText? : Option Text → Json := ofOption text

-- Fields are left out where there is no value.
def present (fields : List (String × Option Json)) : List (String × Json) :=
  fields.filterMap fun (k, v) => v.map (k, ·)

end Json

def Range.toJson (r : Range) : Json :=
  .ofFields [("start", .natural r.start), ("end", .natural r.stop)]

def OptionList.toJson (o : OptionList) : Json := .ofFields [("raw", .text o.raw)]

def Coordinate.toJson (c : Coordinate) : Json := .ofFields [("x", .real c.x), ("y", .real c.y)]

def Reference.toJson (r : Reference) : Json :=
  .ofFields <| [("is_empty", .bool r.isAnonymous), ("raw", .text r.raw)] ++
    Json.present [("name", r.name?.map .text), ("anchor", r.anchor?.map .text)]

namespace Picture

def EdgeNode.toJson (n : EdgeNode) : Json :=
  .ofFields [("options", .ofOption OptionList.toJson n.options), ("label_raw", .ofText? n.label)]

def Segment.toJson : Segment → Json
  | line options node target => .ofFields
    [("kind", .text "To".toList),
     ("options", .ofOption OptionList.toJson options),
     ("edge_node", .ofOption EdgeNode.toJson node),
     ("target", target.toJson)]
  | curve control₁ control₂ target => .ofFields
    [("kind", .text "Bezier".toList),
     ("options", .null),
     ("control1", control₁.toJson),
     ("control2", .ofOption Reference.toJson control₂),
     ("target", target.toJson)]

def Chain.toJson (c : Chain) : Json := .ofFields
  [("options", .ofOption OptionList.toJson c.options),
   ("source", c.source.toJson),
   ("segments", .array (c.segments.map Segment.toJson)),
   ("range", c.range.toJson)]

def Node.toJson (n : Node) : Json := .ofFields
  [("options", .ofOption OptionList.toJson n.options),
   ("name", .ofText? n.name),
   ("coord", .ofOption Coordinate.toJson n.coordinate),
   ("label_raw", .ofText? n.label),
   ("range", n.range.toJson)]

def NamedCoordinate.toJson (c : NamedCoordinate) : Json := .ofFields
  [("options", .ofOption OptionList.toJson c.options),
   ("name", .ofText? c.name),
   ("coord", .ofOption Coordinate.toJson c.coordinate),
   ("range", c.range.toJson)]

def Statement.toJson (s : Statement) : Json :=
  let (kind, content) := match s with
    | node n => ("Node", n.toJson)
    | coordinate c => ("Coordinate", c.toJson)
    | draw c => ("Draw", c.toJson)
    | path c => ("Path", c.toJson)
  .ofFields [("kind", .text kind.toList), ("stmt", content)]

def Layer.toJson (l : Layer) : Json := .ofFields
  [("name", .text l.name),
   ("stmts", .array (l.statements.map Statement.toJson)),
   ("raw", .text l.raw)]

def toJson (p : Picture) : Json := .ofFields
  [("options_raw", .ofText? p.options),
   ("layers", .array (p.layers.map Layer.toJson)),
   ("stmts", .array (p.statements.map Statement.toJson))]

end Picture

namespace Circuit

def Segment.toJson (s : Segment) : Json :=
  match s.link with
  | .wire => .ofFields
    [("kind", .text "Wire".toList), ("target", s.target.toJson), ("range", s.range.toJson)]
  | .component name options => .ofFields
    [("kind", .text "Component".toList),
     ("comp", .text name),
     ("options", .ofOption OptionList.toJson options),
     ("target", s.target.toJson),
     ("range", s.range.toJson)]

def Chain.toJson (c : Chain) : Json := .ofFields
  [("options", .ofOption OptionList.toJson c.options),
   ("source", c.source.toJson),
   ("segments", .array (c.segments.map Segment.toJson)),
   ("range", c.range.toJson)]

def toJson (c : Circuit) : Json := .ofFields [("stmts", .array (c.chains.map Chain.toJson))]

end Circuit

def Drawing.toJson (d : Drawing) : Json :=
  let (name, content) := match d with
    | picture p => ("tikzpicture", p.toJson)
    | circuit c => ("circuitikz", c.toJson)
  .ofFields [("env", .text name.toList), ("picture", content)]

namespace Document

def Segment.toJson : Segment → Json
  | raw t r => .ofFields
    [("kind", .text "RawText".toList), ("text", .text t), ("range", r.toJson)]
  | command name t r => .ofFields
    [("kind", .text "Command".toList), ("name", .text name), ("raw", .text t),
     ("range", r.toJson)]
  | environment b => .ofFields
    [("kind", .text "Environment".toList), ("env", .text b.name), ("header", .text b.header),
     ("body", .text b.body), ("footer", .text b.footer), ("range", b.range.toJson)]

def Segment.summary : Segment → Json
  | raw _ r => .ofFields [("kind", .text "RawText".toList), ("range", r.toJson)]
  | command name _ r => .ofFields
    [("kind", .text "Command".toList), ("name", .text name), ("range", r.toJson)]
  | environment b => .ofFields
    [("kind", .text "Environment".toList), ("env", .text b.name),
     ("options", .ofText? b.options?), ("range", b.range.toJson)]

end Document

namespace Graph

def Node.toJson (n : Node) : Json :=
  .ofFields <| [("id", .natural n.id), ("coord", n.coordinate.toJson), ("label", .text n.label)] ++
    Json.present [("name", n.name.map .text)]

def Edge.toJson (e : Edge) : Json := .ofFields
  [("id", .natural e.id), ("source", .natural e.source), ("target", .natural e.target),
   ("path", .natural e.path)]

def Path.toJson (p : Path) : Json := .ofFields
  [("id", .natural p.id), ("edges", .array (p.edges.map .natural))]

end Graph

def Arena.toJson (f : α → Json) (m : Arena α) : Json :=
  .ofEntries (m.entries.map fun (id, a) => (Text.ofNat id, f a))

def Graph.toJson (g : Graph) : Json := .ofFields
  [("nodes", g.nodes.toJson Node.toJson),
   ("edges", g.edges.toJson Edge.toJson),
   ("paths", g.paths.toJson Path.toJson)]

namespace Report

def outline (source : Text) : Json :=
  let d := Document.parse source
  let error (e : Diagnostic) := Json.ofFields
    [("message", .text e.message), ("offset", .natural e.offset)]
  .ofFields
    [("segments", .array (d.segments.map Document.Segment.summary)),
     ("pictures", .array (d.drawings.map Drawing.toJson)),
     ("errors", .array (d.diagnostics.map error))]

def graphs (source : Text) : Json :=
  .array <| (Document.parse source).drawings.zipIdx.filterMap fun
    | (.picture p, i) => some <| .ofFields
      [("picture", .natural i), ("graph", (Graph.ofPicture p).toJson)]
    | (.circuit _, _) => none

end Report
end TikzPress
