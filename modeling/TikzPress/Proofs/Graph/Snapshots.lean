import TikzPress.Proofs.Graph.Payloads

/-!
Graphs that are grown change by change. Each change is made to some graph that is there already, and all of them
stay. Main statement: every graph has the ends of its edges and numbers that are told apart by the fresh ones, and
a change puts in its own entry and the missing ends of an edge, and nothing else (`grown_sound`).
-/

namespace TikzPress

-- The entries of an arena bear their numbers, and the fresh number is the least one above all of them.
structure Arena.Sound (id : α → Nat) (m : Arena α) : Prop where
  own   : ∀ i a, m.get? i = some a → id a = i
  fresh : ∀ n, m.fresh ≤ n ↔ ∀ i, m.contains i → i < n

-- One entry is put under a number.
def Arena.Puts (m m' : Arena α) (i : Nat) (a : α) : Prop :=
  ∀ j, m'.get? j = if j = i then some a else m.get? j

namespace Graph

inductive Change
  | node (n : Node)
  | edge (e : Edge)
  | path (p : Path)

def apply (g : Graph) : Change → Graph
  | .node n => g.withNode n
  | .edge e => g.withEdge e
  | .path p => g.withPath p

-- The graphs that there are after some changes.
inductive Grown : List Graph → Prop
  | start  : Grown [empty]
  | change : Grown gs → g ∈ gs → (c : Change) → Grown (gs ++ [g.apply c])

structure WellFormed (g : Graph) : Prop where
  ends  : ∀ i e, g.edges.get? i = some e → g.nodes.contains e.source ∧ g.nodes.contains e.target
  nodes : g.nodes.Sound Node.id
  edges : g.edges.Sound Edge.id
  paths : g.paths.Sound Path.id

-- An edge comes in with those of its ends that are missing.
structure Connects (g g' : Graph) (e : Edge) : Prop where
  kept  : ∀ i n, g.nodes.get? i = some n → g'.nodes.get? i = some n
  added : ∀ i, ¬g.nodes.contains i →
    g'.nodes.get? i = if i = e.source ∨ i = e.target then some (.blank i) else none
  edges : g.edges.Puts g'.edges e.id e
  paths : g'.paths = g.paths

def Changes (g g' : Graph) : Change → Prop
  | .node n => g.nodes.Puts g'.nodes n.id n ∧ g'.edges = g.edges ∧ g'.paths = g.paths
  | .edge e => g.Connects g' e
  | .path p => g.paths.Puts g'.paths p.id p ∧ g'.nodes = g.nodes ∧ g'.edges = g.edges

end Graph

namespace Arena

variable {m : Arena α} {id : α → Nat} {i : Nat} {a : α}

theorem fresh_le_iff (m : Arena α) (n : Nat) : m.fresh ≤ n ↔ ∀ i, m.contains i → i < n := by
  constructor
  case mp => exact fun h i hi => Nat.lt_of_lt_of_le (lt_fresh_of_contains hi) h
  case mpr =>
    intro h
    cases hf : m.fresh
    case zero   => exact Nat.zero_le n
    case succ i => exact h i (contains_of_fresh hf)

theorem sound_empty (id : α → Nat) : (empty : Arena α).Sound id where
  own   := nofun
  fresh := fresh_le_iff empty

theorem Sound.insert (s : m.Sound id) (a : α) : (m.insert (id a) a).Sound id where
  fresh := fresh_le_iff _
  own   := by
    intro j b h
    rw [get?_insert] at h
    split at h
    case isTrue hj  => cases h; exact hj.symm
    case isFalse    => exact s.own j b h

end Arena

namespace Graph

variable {g : Graph} {i j : Nat}

-- An end is found as it is if it is there, and blank otherwise.
theorem get?_nodes_withEndpoint (g : Graph) (i j : Nat) :
    (g.withEndpoint i).nodes.get? j = (g.nodes.get? j).or (if j = i then some (.blank j) else none) := by
  unfold withEndpoint
  split
  case isTrue h =>
    by_cases hj : j = i
    case neg => rw [if_neg hj, Option.or_none]
    case pos =>
      obtain ⟨n, hn⟩ := Option.isSome_iff_exists.mp h
      rw [hj, hn, Option.some_or]
  case isFalse h =>
    rw [withNode, Arena.get?_insert]
    by_cases hj : j = i
    case neg => simp [Node.blank, hj]
    case pos =>
      subst hj
      simp_all [Arena.contains, Node.blank]

theorem get?_nodes_withEdge (g : Graph) (e : Edge) (j : Nat) : (g.withEdge e).nodes.get? j =
    (g.nodes.get? j).or (if j = e.source ∨ j = e.target then some (.blank j) else none) := by
  rw [withEdge, get?_nodes_withEndpoint, get?_nodes_withEndpoint, Option.or_assoc]
  congr 1
  by_cases hs : j = e.source <;> simp [hs]

theorem contains_nodes_withEdge (g : Graph) (e : Edge) (j : Nat) :
    (g.withEdge e).nodes.contains j ↔ g.nodes.contains j ∨ j = e.source ∨ j = e.target := by
  rw [Arena.contains, get?_nodes_withEdge, Option.isSome_or, Bool.or_eq_true, Arena.contains]
  split <;> simp_all

theorem edges_withEndpoint (g : Graph) (i : Nat) : (g.withEndpoint i).edges = g.edges := by
  unfold withEndpoint
  split <;> rfl

theorem paths_withEndpoint (g : Graph) (i : Nat) : (g.withEndpoint i).paths = g.paths := by
  unfold withEndpoint
  split <;> rfl

theorem edges_withEdge (g : Graph) (e : Edge) : (g.withEdge e).edges = g.edges.insert e.id e := by
  rw [withEdge, edges_withEndpoint, edges_withEndpoint]

theorem paths_withEdge (g : Graph) (e : Edge) : (g.withEdge e).paths = g.paths := by
  rw [withEdge, paths_withEndpoint, paths_withEndpoint]

theorem connects_withEdge (g : Graph) (e : Edge) : g.Connects (g.withEdge e) e where
  kept i n h := by rw [get?_nodes_withEdge, h, Option.some_or]
  added i h  := by
    have none : g.nodes.get? i = none := by simpa [Arena.contains] using h
    rw [get?_nodes_withEdge, none, Option.none_or]
  edges j    := by rw [edges_withEdge, Arena.get?_insert]
  paths      := paths_withEdge g e

theorem changes_apply (g : Graph) (c : Change) : g.Changes (g.apply c) c := by
  cases c
  case node n => exact ⟨fun j => Arena.get?_insert g.nodes n.id j n, rfl, rfl⟩
  case edge e => exact connects_withEdge g e
  case path p => exact ⟨fun j => Arena.get?_insert g.paths p.id j p, rfl, rfl⟩

namespace WellFormed

theorem empty : Graph.empty.WellFormed where
  ends  := nofun
  nodes := Arena.sound_empty Node.id
  edges := Arena.sound_empty Edge.id
  paths := Arena.sound_empty Path.id

theorem withNode (w : g.WellFormed) (n : Node) : (g.withNode n).WellFormed where
  nodes := w.nodes.insert n
  edges := w.edges
  paths := w.paths
  ends i e h := by
    have ⟨hs, ht⟩ := w.ends i e h
    simp [Graph.withNode, Arena.contains_insert, hs, ht]

theorem withEndpoint (w : g.WellFormed) (i : Nat) : (g.withEndpoint i).WellFormed := by
  unfold Graph.withEndpoint
  split
  case isTrue  => exact w
  case isFalse => exact w.withNode (.blank i)

theorem withEdge (w : g.WellFormed) (e : Edge) : (g.withEdge e).WellFormed where
  nodes := ((w.withEndpoint e.source).withEndpoint e.target).nodes
  edges := edges_withEdge g e ▸ w.edges.insert e
  paths := paths_withEdge g e ▸ w.paths
  ends i d h := by
    rw [edges_withEdge, Arena.get?_insert] at h
    rw [contains_nodes_withEdge, contains_nodes_withEdge]
    split at h
    case isTrue  =>
      cases h
      exact ⟨.inr (.inl rfl), .inr (.inr rfl)⟩
    case isFalse => exact (w.ends i d h).imp .inl .inl

theorem withPath (w : g.WellFormed) (p : Path) : (g.withPath p).WellFormed where
  ends  := w.ends
  nodes := w.nodes
  edges := w.edges
  paths := w.paths.insert p

theorem apply (w : g.WellFormed) (c : Change) : (g.apply c).WellFormed :=
  match c with
  | .node n => w.withNode n
  | .edge e => w.withEdge e
  | .path p => w.withPath p

end WellFormed

theorem Grown.wellFormed {gs : List Graph} (h : Grown gs) : ∀ g ∈ gs, g.WellFormed := by
  induction h
  case start => exact List.forall_mem_singleton.mpr .empty
  case change hg c hi =>
    exact List.forall_mem_append.mpr ⟨hi, List.forall_mem_singleton.mpr ((hi _ hg).apply c)⟩

theorem grown_sound {gs : List Graph} (h : Grown gs) :
    ∀ g ∈ gs, g.WellFormed ∧ ∀ c, g.Changes (g.apply c) c :=
  fun g hg => ⟨h.wellFormed g hg, changes_apply g⟩

-- An edge from a node to itself; to this graph twice a change, of its node and of its edge.
def loop : Graph :=
  empty.apply (.edge ⟨0, 3, 3, 5⟩)

def named : Graph :=
  loop.apply (.node ⟨3, .origin, "a".toList, some "a".toList⟩)

def redirected : Graph :=
  loop.apply (.edge ⟨0, 7, 3, 5⟩)

theorem sound_redirected : Grown [empty, loop, named, redirected] ∧ redirected.WellFormed ∧
    loop.Changes redirected (.edge ⟨0, 7, 3, 5⟩) := by
  have grown : Grown [empty, loop, named, redirected] :=
    .change (.change (.change .start (.head _) _) (.tail _ (.head _)) _) (.tail _ (.head _)) _
  exact ⟨grown, (grown_sound grown redirected (by simp)).left, (grown_sound grown loop (by simp)).right _⟩

end Graph
end TikzPress
