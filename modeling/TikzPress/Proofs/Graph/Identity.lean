import TikzPress.Proofs.Graph.Numbering

/-!
Which occurrences of nodes in a picture become one node of its graph. The occurrences are taken statement by
statement, each with the number that it gets there. Main statement: two of them have one number exactly if
they carry one name or two numerals of one value, and the nodes and edges of the graph are those of the
numbers (`identity_ofPicture`).
-/

namespace TikzPress.Graph

-- The nodes that the edges of a graph join, in the order of the edges.
def joins (g : Graph) : List (Nat × Nat) :=
  g.edges.values.map fun e => (e.source, e.target)

namespace Draft

-- The references of a path one after another.
def resolved (d : Draft) : List Reference → List Occurrence
  | []      => []
  | r :: rs => ⟨r.name?, (d.resolve r).1⟩ :: (d.resolve r).2.resolved rs

def occurrencesIn (d : Draft) : Picture.Statement → List Occurrence
  | .node n                 => [⟨n.name, (d.idOf n.name).1⟩]
  | .draw c                 => d.resolved (endpoints c)
  | .coordinate _ | .path _ => []

def occurrences (d : Draft) : List Picture.Statement → List (List Occurrence)
  | []      => []
  | s :: ss => d.occurrencesIn s :: (d.addStatement s).occurrences ss

-- The nodes of a path are joined in turn.
def links (os : List Occurrence) : List (Nat × Nat) :=
  (os.map Occurrence.id).zip (os.map Occurrence.id).tail

section Edges

-- The edges and paths of a draft play no part in the numbers of its nodes.
def withEdges (d : Draft) (edges : Arena Edge) (paths : Arena Path) : Draft :=
  { d with graph := { d.graph with edges, paths } }

variable {d : Draft} {edges : Arena Edge} {paths : Arena Path}

theorem idOf_withEdges (name : Option Text) :
    (d.withEdges edges paths).idOf name = ((d.idOf name).1, (d.idOf name).2.withEdges edges paths) := by
  cases name
  case none => rfl
  case some n =>
    simp only [idOf, withEdges]
    split <;> rfl

theorem resolve_withEdges (r : Reference) :
    (d.withEdges edges paths).resolve r = ((d.resolve r).1, (d.resolve r).2.withEdges edges paths) := by
  simp only [Draft.resolve, idOf_withEdges]
  by_cases h : (d.idOf r.name?).2.graph.nodes.contains (d.idOf r.name?).1
  all_goals simp [withEdges, Graph.withNode, h]

theorem resolved_withEdges (rs : List Reference) :
    (d.withEdges edges paths).resolved rs = d.resolved rs := by
  induction rs generalizing d
  case nil        => rfl
  case cons r _ hi => simp only [resolved, resolve_withEdges, hi]

theorem Numbered.withEdges {seen : List Occurrence} (i : d.Numbered seen) :
    (d.withEdges edges paths).Numbered seen :=
  ⟨i.nodes, i.carried, i.ids, i.pairs, i.literal, i.fresh⟩

-- A draft with one more edge.
def withLink (d : Draft) (path source target : Nat) : Draft :=
  let edge := d.graph.edges.fresh
  d.withEdges (d.graph.edges.insert edge ⟨edge, source, target, path⟩) d.graph.paths

-- Between two nodes that are there already, an edge changes no node.
theorem withLink_eq {path source target : Nat} (hs : d.graph.nodes.contains source)
    (ht : d.graph.nodes.contains target) :
    { d with graph := d.graph.withEdge (⟨d.graph.edges.fresh, source, target, path⟩) } =
      d.withLink path source target := by
  simp [Graph.withEdge, withEndpoint, hs, ht, withLink, withEdges]

theorem joins_withLink (d : Draft) (path source target : Nat) :
    (d.withLink path source target).graph.joins = d.graph.joins ++ [(source, target)] := by
  simp [withLink, withEdges, joins, Arena.values, Arena.entries_insert_fresh]

theorem contains_resolve (d : Draft) (r : Reference) (v : Nat) :
    (d.resolve r).2.graph.nodes.contains v ↔ d.graph.nodes.contains v ∨ v = (d.resolve r).1 := by
  simp only [Draft.resolve, graph_idOf]
  split
  case isTrue hc => rw [graph_idOf]; exact ⟨.inl, fun h => h.elim (fun h => h) fun h => h ▸ hc⟩
  case isFalse   => simp [Graph.withNode, Arena.contains_insert, or_comm]

theorem snd_addEdges_cons {path source : Nat} {r : Reference} (rs : List Reference)
    (hs : d.graph.nodes.contains source) :
    (d.addEdges path source (r :: rs)).2 =
      (((d.resolve r).2.withLink path source (d.resolve r).1).addEdges path (d.resolve r).1 rs).2 := by
  rw [← withLink_eq ((d.contains_resolve r source).mpr (.inl hs))
    ((d.contains_resolve r (d.resolve r).1).mpr (.inr rfl))]
  rfl

end Edges

-- What numbering some occurrences makes of a draft. The edges that come in join certain numbers.
structure Follows (d : Draft) (os : List Occurrence) (joins : List (Nat × Nat)) (d' : Draft) : Prop where
  numbered : ∀ seen, d.Numbered seen → d'.Numbered (seen ++ os)
  reserved : d'.reserved = d.reserved
  joins    : d'.graph.joins = d.graph.joins ++ joins

namespace Follows

variable {d d₁ d₂ : Draft}

theorem refl (d : Draft) : d.Follows [] [] d where
  numbered _ i := by simpa using i
  reserved     := rfl
  joins        := by simp

theorem trans {os₁ os₂ : List Occurrence} {js₁ js₂ : List (Nat × Nat)} (f : d.Follows os₁ js₁ d₁)
    (g : d₁.Follows os₂ js₂ d₂) : d.Follows (os₁ ++ os₂) (js₁ ++ js₂) d₂ where
  numbered _ i := List.append_assoc .. ▸ g.numbered _ (f.numbered _ i)
  reserved     := g.reserved.trans f.reserved
  joins        := by rw [g.joins, f.joins, List.append_assoc]

theorem covers {os : List Occurrence} {js : List (Nat × Nat)} {name : Option Text}
    (f : d.Follows os js d₁) (h : d.Covers name) : d₁.Covers name := fun n v hn hv =>
  f.reserved ▸ h n v hn hv

variable {name : Option Text}

theorem withNode (h : d.Covers name) {x : Node} (hi : x.id = (d.idOf name).1) (hn : x.name = name) :
    d.Follows [⟨name, (d.idOf name).1⟩] [] { (d.idOf name).2 with graph := d.graph.withNode x } where
  reserved := reserved_idOf ..
  joins    := by simp [Graph.withNode, Graph.joins]
  numbered _ i := by
    refine i.append h rfl (reserved_idOf ..) (fun v => ?contains) (fun v y hy => ?get)
    case contains => simp [Graph.withNode, Arena.contains_insert, hi, or_comm]
    case get =>
      simp only [Graph.withNode, Arena.get?_insert] at hy
      split at hy
      case isTrue hv => cases hy; exact .inr ⟨hn, hv.trans hi⟩
      case isFalse   => exact .inl hy

-- A node that is there already keeps its place.
theorem known (h : d.Covers name) (hc : d.graph.nodes.contains (d.idOf name).1) :
    d.Follows [⟨name, (d.idOf name).1⟩] [] (d.idOf name).2 where
  reserved := reserved_idOf ..
  joins    := by rw [graph_idOf, List.append_nil]
  numbered _ i := by
    refine i.append h rfl (reserved_idOf ..) (fun v => ?contains) (fun v y hy => ?get)
    case contains => rw [graph_idOf]; exact ⟨.inl, fun hv => hv.elim (fun hv => hv) fun hv => hv ▸ hc⟩
    case get      => rw [graph_idOf] at hy; exact .inl hy

theorem addNode (n : Picture.Node) (h : d.Covers n.name) :
    d.Follows [⟨n.name, (d.idOf n.name).1⟩] [] (d.addNode n) := by
  simp only [Draft.addNode, graph_idOf]
  exact withNode h rfl rfl

theorem resolve (r : Reference) (h : d.Covers r.name?) :
    d.Follows [⟨r.name?, (d.resolve r).1⟩] [] (d.resolve r).2 := by
  simp only [Draft.resolve, graph_idOf]
  split
  case isTrue hc => exact known h hc
  case isFalse   => exact withNode h rfl rfl

theorem withLink (path source target : Nat) :
    d.Follows [] [(source, target)] (d.withLink path source target) where
  numbered _ i := by rw [List.append_nil]; exact i.withEdges
  reserved     := rfl
  joins        := d.joins_withLink path source target

theorem withPath (p : Path) : d.Follows [] [] { d with graph := d.graph.withPath p } where
  numbered _ i := by rw [List.append_nil]; exact i.withEdges
  reserved     := rfl
  joins        := (List.append_nil _).symm

theorem addEdges (path : Nat) (source : Occurrence) (rs : List Reference) (h : ∀ r ∈ rs, d.Covers r.name?)
    (hs : d.graph.nodes.contains source.id) :
    d.Follows (d.resolved rs) (links (source :: d.resolved rs)) (d.addEdges path source.id rs).2 := by
  induction rs generalizing d source
  case nil => exact .refl d
  case cons r rs hi =>
    have f := (resolve r (h r (.head _))).trans (withLink path source.id (d.resolve r).1)
    have target : (d.resolve r).2.graph.nodes.contains (d.resolve r).1 :=
      (d.contains_resolve r _).mpr (.inr rfl)
    have rest := hi ⟨r.name?, (d.resolve r).1⟩ (fun r' hr => f.covers (h r' (.tail _ hr))) target
    rw [snd_addEdges_cons rs hs]
    rw [Draft.withLink, resolved_withEdges] at rest
    exact f.trans rest

theorem addChain (c : Picture.Chain) (h : ∀ r ∈ endpoints c, d.Covers r.name?) :
    d.Follows (d.resolved (endpoints c)) (links (d.resolved (endpoints c))) (d.addChain c) := by
  have source := resolve c.source (h _ (.head _))
  simp only [Draft.addChain]
  split
  case h_1 hs => simpa [endpoints, resolved, hs, links] using source
  case h_2 =>
    have targets := addEdges d.graph.paths.fresh ⟨c.source.name?, (d.resolve c.source).1⟩
      (c.segments.map Picture.Segment.target) (fun r hr => source.covers (h r (.tail _ hr)))
      ((d.contains_resolve c.source _).mpr (.inr rfl))
    simpa [endpoints, resolved] using (source.trans targets).trans (withPath _)

theorem addStatement (s : Picture.Statement) (h : ∀ n ∈ namesIn s, d.Covers (some n)) :
    d.Follows (d.occurrencesIn s) (links (d.occurrencesIn s)) (d.addStatement s) := by
  have covers {o : Option Text} (hn : ∀ n ∈ o, n ∈ namesIn s) : d.Covers o := fun n v ho =>
    h n (hn n ho) n v rfl
  cases s
  case node n => exact addNode n (covers fun m hm => by simpa [namesIn] using hm)
  case draw c =>
    exact addChain c fun r hr => covers fun m hm => List.mem_filterMap.mpr ⟨r, hr, hm⟩
  case coordinate => exact .refl d
  case path       => exact .refl d

theorem addStatements (ss : List Picture.Statement) (h : ∀ n ∈ ss.flatMap namesIn, d.Covers (some n)) :
    d.Follows (d.occurrences ss).flatten ((d.occurrences ss).flatMap links)
      (ss.foldl Draft.addStatement d) := by
  induction ss generalizing d
  case nil => exact .refl d
  case cons s ss hi =>
    have first := addStatement s fun n hn => h n (List.mem_append_left _ hn)
    exact first.trans <| hi fun n hn => first.covers (h n (List.mem_append_right _ hn))

end Follows
end Draft

-- The occurrences of nodes in the statements of a picture, with the numbers that they get.
def occurrences (p : Picture) : List (List Occurrence) :=
  (Draft.start (reserved p.allStatements)).occurrences p.allStatements

-- The names with which nodes occur in a statement.
def occurringNames : Picture.Statement → List (Option Text)
  | .node n                 => [n.name]
  | .draw c                 => c.source.name? :: c.segments.map (·.target.name?)
  | .coordinate _ | .path _ => []

theorem Draft.names_resolved (d : Draft) (rs : List Reference) :
    (d.resolved rs).map Occurrence.name = rs.map Reference.name? := by
  induction rs generalizing d
  case nil => rfl
  case cons hi => simp only [resolved, List.map_cons, hi]

theorem Draft.names_occurrences (d : Draft) (ss : List Picture.Statement) :
    (d.occurrences ss).map (·.map Occurrence.name) = ss.map occurringNames := by
  induction ss generalizing d
  case nil => rfl
  case cons s ss hi =>
    simp only [occurrences, List.map_cons, hi]
    congr 1
    cases s <;> simp [occurrencesIn, occurringNames, names_resolved, endpoints]

theorem mem_reserved {ss : List Picture.Statement} {n : Text} {i : Nat} (h : n ∈ ss.flatMap namesIn)
    (hi : Numeral n i) : i ∈ reserved ss :=
  List.mem_filterMap.mpr ⟨n, h, literalId?_eq_some_iff.mpr hi⟩

-- What the numbers of occurrences in a picture are.
structure Identity (p : Picture) (os : List (List Occurrence)) : Prop where
  names      : os.map (·.map Occurrence.name) = p.allStatements.map occurringNames
  nodes      : ∀ i, (ofPicture p).nodes.contains i ↔ ∃ a ∈ os.flatten, a.id = i
  carried    : ∀ i x, (ofPicture p).nodes.get? i = some x → ⟨x.name, i⟩ ∈ os.flatten
  joins      : (ofPicture p).joins = os.flatMap Draft.links
  identified : os.flatten.Pairwise Occurrence.Identified
  literal    : ∀ a ∈ os.flatten, ∀ i, a.IsLiteral i → a.id = i
  fresh      : ∀ a ∈ os.flatten, (∀ i, ¬a.IsLiteral i) → ∀ b ∈ os.flatten, ¬b.IsLiteral a.id

theorem identity_ofPicture (p : Picture) : Identity p (occurrences p) := by
  have names := Draft.names_occurrences (.start (reserved p.allStatements)) p.allStatements
  have follows := Draft.Follows.addStatements (d := .start (reserved p.allStatements)) p.allStatements
    fun n hn m i hm hi => mem_reserved (Option.some.inj hm ▸ hn) hi
  have numbered := follows.numbered [] (.start _)
  exact {
    names
    nodes := numbered.nodes
    carried := numbered.carried
    joins := follows.joins
    identified := numbered.pairs
    literal := numbered.literal
    fresh := fun a ha hf b hb => numbered.not_isLiteral_id ha hf hb }

end TikzPress.Graph
