import TikzPress.Proofs.Graph.Identity

/-!
The edges and paths of the graph of a picture. A path that is drawn with a step takes the next number of a
path, and each of its steps the next number of an edge. Main statement: the paths of the graph are those that
are drawn with a step, in order, and their edges join the nodes of each path in turn (`traced_ofPicture`).
-/

namespace TikzPress

namespace Arena

variable {m : Arena α}

theorem get?_eq_some_iff {i : Nat} {a : α} : m.get? i = some a ↔ (i, a) ∈ m.entries := by
  refine ⟨mem_of_findEntry, fun h => ?_⟩
  have increasing := m.increasing
  unfold get?
  generalize m.entries = l at h increasing
  induction l
  case nil => contradiction
  case cons x l hi =>
    obtain ⟨first, rest⟩ := List.pairwise_cons.mp increasing
    cases h
    case head   => simp [findEntry]
    case tail h => simpa [findEntry, Nat.ne_of_gt (first _ h)] using hi h rest

-- When the numbers in use are the first ones, the next number is their count.
theorem fresh_eq_of_ids {n : Nat} (h : m.ids = List.range n) : m.fresh = n := by
  have last : m.entries.getLast?.map (·.1) = (List.range n).getLast? := by
    rw [← h, ids, List.getLast?_map]
  unfold fresh
  cases n
  case zero   => rw [show m.entries.getLast? = none by simpa using last]
  case succ n =>
    obtain ⟨x, hx, hn⟩ := Option.map_eq_some_iff.mp (last.trans List.getLast?_range)
    rw [hx]
    exact congrArg (· + 1) hn

end Arena

namespace Graph

-- The paths with a step among some statements, each with the occurrences of nodes on it.
def trails (ss : List Picture.Statement) (os : List (List Occurrence)) :
    List (Picture.Chain × List Occurrence) :=
  (ss.zip os).filterMap fun
    | (.draw c, os) => if c.segments = [] then none else some (c, os)
    | _             => none

-- The paths take the numbers from `path` on, in their order, and the edges of each path those that follow
-- the edges of the path before it. There are no other paths and edges.
inductive Drawn (g : Graph) : (path edge : Nat) → List (Picture.Chain × List Occurrence) → Prop
  | nil  : g.paths.ids = List.range path → g.edges.ids = List.range edge → Drawn g path edge []
  | cons : os.map Occurrence.name = (endpoints c).map Reference.name? →
           g.paths.get? path = some ⟨path, List.range' edge c.segments.length⟩ →
           (∀ k a b, os[k]? = some a → os[k + 1]? = some b →
             g.edges.get? (edge + k) = some ⟨edge + k, a.id, b.id, path⟩) →
           Drawn g (path + 1) (edge + c.segments.length) ts → Drawn g path edge ((c, os) :: ts)

namespace Draft

-- The edges through nodes in turn, the first of them with the number `first`.
def edgesAlong (path first : Nat) (os : List Occurrence) : List Edge :=
  ((links os).zipIdx first).map fun (⟨source, target⟩, i) => ⟨i, source, target, path⟩

theorem mem_edgesAlong (path first : Nat) {os : List Occurrence} {k : Nat} {a b : Occurrence}
    (ha : os[k]? = some a) (hb : os[k + 1]? = some b) :
    ⟨first + k, a.id, b.id, path⟩ ∈ edgesAlong path first os := by
  have link : (links os)[k]? = some (a.id, b.id) := by
    simp [links, List.getElem?_zip_eq_some, ha, hb]
  exact List.mem_map.mpr ⟨_, List.mk_add_mem_zipIdx_iff_getElem?.mpr link, rfl⟩

theorem ids_edgesAlong (path first : Nat) (os : List Occurrence) :
    (edgesAlong path first os).map Edge.id = List.range' first (links os).length := by
  rw [edgesAlong, List.map_map]
  exact List.zipIdx_map_snd ..

theorem range_append_range' (n m : Nat) : List.range n ++ List.range' n m = List.range (n + m) := by
  rw [List.range_eq_range', List.range_eq_range', ← List.range'_append_1, Nat.zero_add]

-- The paths and the edges have the first numbers.
structure Counted (d : Draft) (path edge : Nat) : Prop where
  paths : d.graph.paths.ids = List.range path
  edges : d.graph.edges.ids = List.range edge

-- A draft with further edges and paths behind those that it had.
structure Extends (d : Draft) (es : List Edge) (ps : List Path) (d' : Draft) : Prop where
  edges : d'.graph.edges.entries = d.graph.edges.entries ++ es.map fun e => (e.id, e)
  paths : d'.graph.paths.entries = d.graph.paths.entries ++ ps.map fun p => (p.id, p)

variable {d d₁ d₂ : Draft} {path edge : Nat}

namespace Extends

variable {es es₁ es₂ : List Edge} {ps ps₁ ps₂ : List Path}

theorem refl (d : Draft) : d.Extends [] [] d where
  edges := (List.append_nil _).symm
  paths := (List.append_nil _).symm

theorem trans (x : d.Extends es₁ ps₁ d₁) (y : d₁.Extends es₂ ps₂ d₂) :
    d.Extends (es₁ ++ es₂) (ps₁ ++ ps₂) d₂ where
  edges := by rw [y.edges, x.edges, List.map_append, List.append_assoc]
  paths := by rw [y.paths, x.paths, List.map_append, List.append_assoc]

theorem get?_edges (x : d.Extends es ps d₁) {e : Edge} (h : e ∈ es) :
    d₁.graph.edges.get? e.id = some e := by
  rw [Arena.get?_eq_some_iff, x.edges]
  exact List.mem_append_right _ (List.mem_map_of_mem h)

theorem get?_paths (x : d.Extends es ps d₁) {p : Path} (h : p ∈ ps) :
    d₁.graph.paths.get? p.id = some p := by
  rw [Arena.get?_eq_some_iff, x.paths]
  exact List.mem_append_right _ (List.mem_map_of_mem h)

theorem counted (x : d.Extends es ps d₁) (c : d.Counted path edge) {n m : Nat}
    (hp : ps.map Path.id = List.range' path n) (he : es.map Edge.id = List.range' edge m) :
    d₁.Counted (path + n) (edge + m) where
  paths := by
    rw [Arena.ids, x.paths, List.map_append, ← Arena.ids, c.paths, List.map_map]
    exact (congrArg _ hp).trans (range_append_range' path n)
  edges := by
    rw [Arena.ids, x.edges, List.map_append, ← Arena.ids, c.edges, List.map_map]
    exact (congrArg _ he).trans (range_append_range' edge m)

theorem resolve (d : Draft) (r : Reference) : d.Extends [] [] (d.resolve r).2 := by
  simp only [Draft.resolve, graph_idOf]
  split
  case isTrue  => constructor <;> simp [graph_idOf]
  case isFalse => constructor <;> simp [Graph.withNode]

theorem addNode (d : Draft) (n : Picture.Node) : d.Extends [] [] (d.addNode n) := by
  constructor <;> simp [Draft.addNode, graph_idOf, Graph.withNode]

theorem withLink (c : d.Counted path edge) (path' source target : Nat) :
    d.Extends [⟨edge, source, target, path'⟩] [] (d.withLink path' source target) where
  edges := by
    rw [← Arena.fresh_eq_of_ids c.edges]
    exact Arena.entries_insert_fresh ..
  paths := (List.append_nil _).symm

theorem withPath (c : d.Counted path edge) (edges : List Nat) :
    d.Extends [] [⟨path, edges⟩] { d with graph := d.graph.withPath ⟨path, edges⟩ } where
  edges := (List.append_nil _).symm
  paths := by
    rw [← Arena.fresh_eq_of_ids c.paths]
    exact Arena.entries_insert_fresh ..

end Extends

theorem fst_addEdges_cons {source : Nat} {r : Reference} (rs : List Reference)
    (hs : d.graph.nodes.contains source) :
    (d.addEdges path source (r :: rs)).1 = (d.resolve r).2.graph.edges.fresh ::
      (((d.resolve r).2.withLink path source (d.resolve r).1).addEdges path (d.resolve r).1 rs).1 := by
  rw [← withLink_eq ((d.contains_resolve r source).mpr (.inl hs))
    ((d.contains_resolve r (d.resolve r).1).mpr (.inr rfl))]
  rfl

-- The edges of a path lie one behind another.
theorem extends_addEdges (c : d.Counted path edge) (path' : Nat) (source : Occurrence) (rs : List Reference)
    (hs : d.graph.nodes.contains source.id) :
    d.Extends (edgesAlong path' edge (source :: d.resolved rs)) [] (d.addEdges path' source.id rs).2 ∧
    (d.addEdges path' source.id rs).1 = List.range' edge rs.length := by
  induction rs generalizing d source edge
  case nil => exact ⟨.refl d, rfl⟩
  case cons r rs hi =>
    have resolved := Extends.resolve d r
    have counted := resolved.counted c (n := 0) (m := 0) rfl rfl
    have link := Extends.withLink counted path' source.id (d.resolve r).1
    have target : ((d.resolve r).2.withLink path' source.id (d.resolve r).1).graph.nodes.contains
        (d.resolve r).1 := (d.contains_resolve r _).mpr (.inr rfl)
    have ⟨rest, numbers⟩ := hi (link.counted counted (n := 0) (m := 1) rfl rfl)
      ⟨r.name?, (d.resolve r).1⟩ target
    rw [fst_addEdges_cons rs hs, snd_addEdges_cons rs hs, numbers, Arena.fresh_eq_of_ids counted.edges]
    rw [Draft.withLink, resolved_withEdges] at rest
    exact ⟨(resolved.trans link).trans rest, rfl⟩

theorem extends_addChain (c : d.Counted path edge) (p : Picture.Chain) (h : p.segments ≠ []) :
    d.Extends (edgesAlong path edge (d.resolved (endpoints p)))
      [⟨path, List.range' edge p.segments.length⟩] (d.addChain p) := by
  have source := Extends.resolve d p.source
  have counted := source.counted c (n := 0) (m := 0) rfl rfl
  have contained := (d.contains_resolve p.source _).mpr (.inr rfl)
  have ⟨targets, numbers⟩ := extends_addEdges counted path ⟨p.source.name?, (d.resolve p.source).1⟩
    (p.segments.map Picture.Segment.target) contained
  have path' := Extends.withPath (targets.counted counted (n := 0) rfl (ids_edgesAlong ..))
    (List.range' edge p.segments.length)
  rw [List.length_map] at numbers
  simp only [Draft.addChain, Arena.fresh_eq_of_ids c.paths]
  rw [numbers]
  simpa [endpoints, resolved] using (source.trans targets).trans path'

-- A statement without a step adds no edge and no path.
theorem extends_addStatement (c : d.Counted path edge) (s : Picture.Statement) :
    (∃ p, s = .draw p ∧ p.segments ≠ [] ∧
      d.Extends (edgesAlong path edge (d.occurrencesIn s)) [⟨path, List.range' edge p.segments.length⟩]
        (d.addStatement s)) ∨
    (∀ p, s = .draw p → p.segments = []) ∧ d.Extends [] [] (d.addStatement s) := by
  cases s
  case node n     => exact .inr ⟨nofun, .addNode d n⟩
  case coordinate => exact .inr ⟨nofun, .refl d⟩
  case path       => exact .inr ⟨nofun, .refl d⟩
  case draw p =>
    by_cases h : p.segments = []
    case neg => exact .inl ⟨p, rfl, h, extends_addChain c p h⟩
    case pos =>
      refine .inr ⟨fun _ hp => by cases hp; exact h, ?_⟩
      simpa [Draft.addStatement, Draft.addChain, h] using Extends.resolve d p.source

theorem exists_extends_addStatements (c : d.Counted path edge) (ss : List Picture.Statement) :
    ∃ es ps, d.Extends es ps (ss.foldl Draft.addStatement d) := by
  induction ss generalizing d path edge
  case nil => exact ⟨_, _, .refl d⟩
  case cons s ss hi =>
    rcases extends_addStatement c s with ⟨p, -, -, x⟩ | ⟨-, x⟩
    case inl =>
      have ⟨_, _, y⟩ := hi (x.counted c (n := 1) rfl (ids_edgesAlong ..))
      exact ⟨_, _, x.trans y⟩
    case inr =>
      have ⟨_, _, y⟩ := hi (x.counted c (n := 0) (m := 0) rfl rfl)
      exact ⟨_, _, x.trans y⟩

theorem length_links_resolved (d : Draft) (p : Picture.Chain) :
    (links (d.resolved (endpoints p))).length = p.segments.length := by
  have names := congrArg List.length (d.names_resolved (endpoints p))
  simp [links, endpoints] at names ⊢
  omega

-- The statements that are still to come number on from those that are in the draft.
theorem drawn_addStatements (c : d.Counted path edge) (ss : List Picture.Statement) :
    Drawn (ss.foldl Draft.addStatement d).graph path edge (trails ss (d.occurrences ss)) := by
  induction ss generalizing d path edge
  case nil => exact .nil c.paths c.edges
  case cons s ss hi =>
    rcases extends_addStatement c s with ⟨p, rfl, hp, x⟩ | ⟨hs, x⟩
    case inr =>
      have := hi (x.counted c (n := 0) (m := 0) rfl rfl)
      cases s <;> simp_all [trails, occurrences]
    case inl =>
      have counted := x.counted c (n := 1) rfl (ids_edgesAlong ..)
      obtain ⟨_, _, y⟩ := exists_extends_addStatements counted ss
      have all := x.trans y
      simp only [trails, occurrences, List.zip_cons_cons, List.filterMap_cons, hp, if_false]
      refine .cons (d.names_resolved _) (all.get?_paths (List.mem_append_left _ (.head _))) (fun k a b ha hb => ?_) ?_
      case refine_1 => exact all.get?_edges (List.mem_append_left _ (mem_edgesAlong path edge ha hb))
      case refine_2 =>
        have := hi counted
        rwa [occurrencesIn, length_links_resolved] at this

end Draft

-- What the edges and paths of a picture are, for the occurrences of nodes in its statements.
structure Traced (p : Picture) (os : List (List Occurrence)) : Prop where
  names      : os.map (·.map Occurrence.name) = p.allStatements.map occurringNames
  identified : os.flatten.Pairwise Occurrence.Identified
  nodes      : ∀ a ∈ os.flatten, (ofPicture p).nodes.contains a.id
  carried    : ∀ i x, (ofPicture p).nodes.get? i = some x → ⟨x.name, i⟩ ∈ os.flatten
  ends       : ∀ e ∈ (ofPicture p).edges.values,
    (ofPicture p).nodes.contains e.source ∧ (ofPicture p).nodes.contains e.target
  drawn      : Drawn (ofPicture p) 0 0 (trails p.allStatements os)

theorem traced_ofPicture (p : Picture) : Traced p (occurrences p) := by
  have follows := Draft.Follows.addStatements (d := .start (reserved p.allStatements)) p.allStatements
    fun n hn m i hm hi => mem_reserved (Option.some.inj hm ▸ hn) hi
  have numbered := follows.numbered [] (.start _)
  have nodes (a : Occurrence) (ha : a ∈ (occurrences p).flatten) : (ofPicture p).nodes.contains a.id :=
    (numbered.nodes a.id).mpr ⟨a, ha, rfl⟩
  exact {
    names := Draft.names_occurrences ..
    identified := numbered.pairs
    nodes
    carried := numbered.carried
    drawn := Draft.drawn_addStatements ⟨rfl, rfl⟩ _
    ends := fun e he => by
      have link : (e.source, e.target) ∈ (ofPicture p).joins := List.mem_map_of_mem he
      obtain ⟨os, hos, hl⟩ := List.mem_flatMap.mp (follows.joins ▸ link)
      obtain ⟨a, ha, hs⟩ := List.mem_map.mp (List.of_mem_zip hl).left
      obtain ⟨b, hb, ht⟩ := List.mem_map.mp (List.mem_of_mem_tail (List.of_mem_zip hl).right)
      exact ⟨hs ▸ nodes a (List.mem_flatten_of_mem hos ha), ht ▸ nodes b (List.mem_flatten_of_mem hos hb)⟩ }

end Graph
end TikzPress
