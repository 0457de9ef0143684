import TikzPress.Graph.OfPicture
import TikzPress.Proofs.Bytewise.Value

/-!
Graphs of pictures with numbers that have a greatest one. Main statement: the only fault that there can be is a
number above the greatest one, and without it the graph is the one of the picture (`counts_graph`).
-/

namespace TikzPress.Bytewise

open TikzPress.Graph

-- For each greatest number the result is the given one, or a number is above the greatest one. The latter
-- does not happen if the greatest number is great enough.
structure Counts (x : Nat → Checked α) (a : α) : Prop where
  only : ∀ limit, x limit = .ok a ∨ x limit = .error .overflow
  room : ∃ bound, ∀ limit, bound ≤ limit → x limit = .ok a

section Definitions

variable (limit : Nat)

def fresh (m : Arena α) : Checked Nat :=
  match m.entries.getLast? with
  | none         => return 0
  | some (id, _) => sum limit id 1

def firstNotIn (used : List Nat) (n : Nat) : Checked Nat := do
  if n ∈ used then firstNotIn (used.erase n) (← sum limit n 1) else return n
termination_by used.length
decreasing_by
  have := List.length_pos_of_mem ‹n ∈ used›
  rw [List.length_erase_of_mem ‹n ∈ used›]
  omega

def freshId (d : Draft) : Checked Nat := do
  firstNotIn limit d.reserved (← fresh limit d.graph.nodes)

def idOf (d : Draft) : Option Text → Checked (Nat × Draft)
  | none      => return (← freshId limit d, d)
  | some name =>
    match d.ids.lookup name with
    | some id => return (id, d)
    | none    => do
      let id ← (literalId? name).elim (freshId limit d) pure
      return (id, { d with ids := (name, id) :: d.ids })

def addNode (d : Draft) (n : Picture.Node) : Checked Draft := do
  let (id, d) ← idOf limit d n.name
  let node := ⟨id, n.coordinate.getD .origin, labelText n.label, n.name⟩
  return { d with graph := d.graph.withNode node }

def resolve (d : Draft) (r : Reference) : Checked (Nat × Draft) := do
  let (id, d) ← idOf limit d r.name?
  if d.graph.nodes.contains id then return (id, d)
  let node := ⟨id, (← coordinate r.raw).getD .origin, [], r.name?⟩
  return (id, { d with graph := d.graph.withNode node })

def addEdges (path : Nat) (d : Draft) (source : Nat) : List Reference → Checked (List Nat × Draft)
  | []             => return ([], d)
  | target :: rest => do
    let (target, d) ← resolve limit d target
    let edge ← fresh limit d.graph.edges
    let d := { d with graph := d.graph.withEdge ⟨edge, source, target, path⟩ }
    let (edges, d) ← addEdges path d target rest
    return (edge :: edges, d)

def addChain (d : Draft) (c : Picture.Chain) : Checked Draft := do
  if c.segments = [] then return (← resolve limit d c.source).2
  let path ← fresh limit d.graph.paths
  let (source, d) ← resolve limit d c.source
  let (edges, d) ← addEdges limit path d source (c.segments.map Picture.Segment.target)
  return { d with graph := d.graph.withPath ⟨path, edges⟩ }

def addStatement (d : Draft) : Picture.Statement → Checked Draft
  | .node n                 => addNode limit d n
  | .draw c                 => addChain limit d c
  | .coordinate _ | .path _ => return d

def graph (p : Picture) : Checked Graph := do
  return (← p.allStatements.foldlM (addStatement limit) (.start (reserved p.allStatements))).graph

end Definitions

namespace Counts

variable {x : Nat → Checked α} {a : α} {b : β}

theorem pure (a : α) : Counts (fun _ => .ok a) a where
  only _ := .inl rfl
  room   := ⟨0, fun _ _ => rfl⟩

theorem sum (m n : Nat) : Counts (fun limit => sum limit m n) (m + n) where
  only limit := by
    rw [Bytewise.sum]
    split
    case isTrue  => exact .inl rfl
    case isFalse => exact .inr rfl
  room := ⟨m + n, fun _ => sum_of_le⟩

theorem bind {f : Nat → α → Checked β} (hx : Counts x a) (hf : Counts (fun limit => f limit a) b) :
    Counts (fun limit => x limit >>= f limit) b where
  only limit := by
    rcases hx.only limit with h | h
    case inl => exact h ▸ hf.only limit
    case inr => exact h ▸ .inr rfl
  room := by
    obtain ⟨m, hm⟩ := hx.room
    obtain ⟨n, hn⟩ := hf.room
    refine ⟨max m n, fun limit h => ?_⟩
    rw [hm limit (Nat.le_trans (Nat.le_max_left m n) h), ok_bind]
    exact hn limit (Nat.le_trans (Nat.le_max_right m n) h)

end Counts

theorem counts_fresh (m : Arena α) : Counts (fun limit => fresh limit m) m.fresh := by
  unfold fresh Arena.fresh
  cases m.entries.getLast?
  case none   => exact .pure 0
  case some x => exact .sum x.1 1

theorem counts_firstNotIn (used : List Nat) (n : Nat) :
    Counts (fun limit => firstNotIn limit used n) (Graph.firstNotIn used n) := by
  fun_induction Graph.firstNotIn used n
  case case1 used n h ih =>
    unfold firstNotIn
    simp only [if_pos h]
    exact (Counts.sum n 1).bind ih
  case case2 used n h =>
    unfold firstNotIn
    simp only [if_neg h]
    exact .pure n

theorem counts_freshId (d : Draft) : Counts (fun limit => freshId limit d) d.freshId :=
  (counts_fresh _).bind (counts_firstNotIn _ _)

theorem counts_idOf (d : Draft) (name : Option Text) :
    Counts (fun limit => idOf limit d name) (d.idOf name) := by
  cases name
  case none      => exact (counts_freshId d).bind (.pure _)
  case some name =>
    have id : Counts (fun limit => (literalId? name).elim (freshId limit d) pure)
        ((literalId? name).getD d.freshId) := by
      cases literalId? name
      case none   => exact counts_freshId d
      case some i => exact .pure i
    simp only [idOf, Draft.idOf]
    cases d.ids.lookup name
    case none   => exact id.bind (.pure _)
    case some i => exact .pure _

theorem counts_addNode (d : Draft) (n : Picture.Node) : Counts (fun limit => addNode limit d n) (d.addNode n) :=
  (counts_idOf d n.name).bind (.pure _)

theorem counts_resolve (d : Draft) (r : Reference) : Counts (fun limit => resolve limit d r) (d.resolve r) := by
  refine (counts_idOf d r.name?).bind ?_
  rw [Draft.resolve]
  simp only [coordinate_eq, ok_bind]
  split
  case isTrue  => exact .pure _
  case isFalse => exact .pure _

theorem counts_addEdges (path : Nat) (d : Draft) (source : Nat) (rs : List Reference) :
    Counts (fun limit => addEdges limit path d source rs) (d.addEdges path source rs) := by
  induction rs generalizing d source
  case nil => exact .pure _
  case cons r rs ih =>
    exact (counts_resolve d r).bind ((counts_fresh _).bind ((ih _ _).bind (.pure _)))

theorem counts_addChain (d : Draft) (c : Picture.Chain) :
    Counts (fun limit => addChain limit d c) (d.addChain c) := by
  unfold addChain Draft.addChain
  cases c.segments
  case nil => exact (counts_resolve d c.source).bind (.pure _)
  case cons s ss =>
    refine (counts_fresh _).bind ?_
    refine (counts_resolve d c.source).bind ?_
    exact (counts_addEdges _ _ _ _).bind (.pure _)

theorem counts_addStatement (d : Draft) (s : Picture.Statement) :
    Counts (fun limit => addStatement limit d s) (d.addStatement s) := by
  cases s
  case node n       => exact counts_addNode d n
  case draw c       => exact counts_addChain d c
  case coordinate _ => exact .pure d
  case path _       => exact .pure d

theorem counts_foldlM (d : Draft) (ss : List Picture.Statement) :
    Counts (fun limit => ss.foldlM (addStatement limit) d) (ss.foldl Draft.addStatement d) := by
  induction ss generalizing d
  case nil          => exact .pure d
  case cons s ss ih => exact (counts_addStatement d s).bind (ih _)

theorem counts_graph (p : Picture) : Counts (fun limit => graph limit p) (Graph.ofPicture p) :=
  (counts_foldlM _ _).bind (.pure _)

end TikzPress.Bytewise
