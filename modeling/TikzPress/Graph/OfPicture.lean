import TikzPress.Graph
import TikzPress.Picture

/-!
The graph of a picture. A node whose name is a number has that number; other names get a number of
their own, which no name anywhere in the picture claims. A path with steps becomes one path and one
edge per step.
-/

namespace TikzPress
namespace Graph

def literalId? (name : Text) : Option Nat := Decimal.word? name

def labelText (label : Option Text) : Text :=
  match label with
  | some ('\x7b' :: t) =>
    match t.getLast? with
    | some '\x7d' => t.dropLast
    | _ => []
  | _ => []

def endpoints (c : Picture.Chain) : List Reference :=
  c.source :: c.segments.map Picture.Segment.target

def namesIn : Picture.Statement → List Text
  | .node n => n.name.toList
  | .draw c => (endpoints c).filterMap Reference.name?
  | .coordinate _ | .path _ => []

def reserved (statements : List Picture.Statement) : List Nat :=
  (statements.flatMap namesIn).filterMap literalId?

def firstNotIn (used : List Nat) (n : Nat) : Nat :=
  if n ∈ used then firstNotIn (used.erase n) (n + 1) else n
termination_by used.length
decreasing_by
  have := List.length_pos_of_mem ‹n ∈ used›
  rw [List.length_erase_of_mem ‹n ∈ used›]
  omega

theorem le_firstNotIn (used : List Nat) (n : Nat) : n ≤ firstNotIn used n := by
  fun_induction firstNotIn used n
  case case1 used n _ ih => omega
  case case2 => exact Nat.le_refl _

-- The numbers that are erased are behind: only greater ones are looked at from then on.
theorem firstNotIn_not_mem (used : List Nat) (n : Nat) : firstNotIn used n ∉ used := by
  fun_induction firstNotIn used n
  case case2 _ _ h => exact h
  case case1 used n _ ih =>
    have := le_firstNotIn (used.erase n) (n + 1)
    rwa [List.mem_erase_of_ne (by omega)] at ih

structure Draft where
  graph : Graph
  ids : List (Text × Nat)
  reserved : List Nat

namespace Draft

def start (reserved : List Nat) : Draft := ⟨.empty, [], reserved⟩

def freshId (d : Draft) : Nat := firstNotIn d.reserved d.graph.nodes.fresh

def idOf (d : Draft) : Option Text → Nat × Draft
  | none => (d.freshId, d)
  | some name =>
    match d.ids.lookup name with
    | some id => (id, d)
    | none =>
      let id := (literalId? name).getD d.freshId
      (id, { d with ids := (name, id) :: d.ids })

def addNode (d : Draft) (n : Picture.Node) : Draft :=
  let (id, d) := d.idOf n.name
  let node := ⟨id, n.coordinate.getD .origin, labelText n.label, n.name⟩
  { d with graph := d.graph.withNode node }

def resolve (d : Draft) (r : Reference) : Nat × Draft :=
  let (id, d) := d.idOf r.name?
  if d.graph.nodes.contains id then (id, d)
  else
    let node := ⟨id, r.coordinate?.getD .origin, [], r.name?⟩
    (id, { d with graph := d.graph.withNode node })

def addEdges (d : Draft) (path source : Nat) : List Reference → List Nat × Draft
  | [] => ([], d)
  | target :: rest =>
    let (target, d) := d.resolve target
    let edge := d.graph.edges.fresh
    let d := { d with graph := d.graph.withEdge ⟨edge, source, target, path⟩ }
    let (edges, d) := d.addEdges path target rest
    (edge :: edges, d)

-- Without steps only the source comes in.
def addChain (d : Draft) (c : Picture.Chain) : Draft :=
  let path := d.graph.paths.fresh
  let (source, d) := d.resolve c.source
  match c.segments with
  | [] => d
  | segments =>
    let (edges, d) := d.addEdges path source (segments.map Picture.Segment.target)
    { d with graph := d.graph.withPath ⟨path, edges⟩ }

-- Named coordinates and undrawn paths add nothing.
def addStatement (d : Draft) : Picture.Statement → Draft
  | .node n => d.addNode n
  | .draw c => d.addChain c
  | .coordinate _ | .path _ => d

end Draft

def ofPicture (p : Picture) : Graph :=
  (p.allStatements.foldl Draft.addStatement (.start (reserved p.allStatements))).graph

end Graph
end TikzPress
