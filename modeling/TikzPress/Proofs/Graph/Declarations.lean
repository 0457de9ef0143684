import TikzPress.Proofs.Graph.Identity

/-!
What becomes of the nodes that a picture declares. A declaration puts its node under the number of its name,
and only another declaration with that number takes it away again: references and edges leave the nodes that
are there as they are. Main statement: every declaration has a node of its own exactly if no two of them have
one name or two numerals of one value (`declarations_kept_iff`).
-/

namespace TikzPress

theorem Arena.get?_insert_of_not_contains {m : Arena α} {i j : Nat} {a b : α} (hi : ¬m.contains i)
    (h : m.get? j = some b) : (m.insert i a).get? j = some b := by
  have hn : j ≠ i := by
    rintro rfl
    exact hi (by rw [contains, h]; rfl)
  rw [get?_insert, if_neg hn, h]

namespace Graph

def declared (ss : List Picture.Statement) : List Picture.Node :=
  ss.filterMap fun
    | .node n => some n
    | _       => none

-- The node with a number that a declaration stands for. Its label is what stands between the braces, if
-- there are braces.
structure Carries (n : Picture.Node) (i : Nat) (x : Node) : Prop where
  id         : x.id = i
  coordinate : x.coordinate = n.coordinate.getD .origin
  name       : x.name = n.name
  label      : ∀ t, n.label = some ('\x7b' :: t ++ ['\x7d']) → x.label = t
  blank      : (∀ t, n.label ≠ some ('\x7b' :: t ++ ['\x7d'])) → x.label = []

-- A graph has the node of a declaration under a number.
def Keeps (g : Graph) (n : Picture.Node) (i : Nat) : Prop :=
  ∃ x, g.nodes.get? i = some x ∧ Carries n i x

section Label

theorem labelText_braced (t : Text) : labelText (some ('\x7b' :: t ++ ['\x7d'])) = t := by
  simp [labelText]

theorem labelText_of_ne {label : Option Text} (h : ∀ t, label ≠ some ('\x7b' :: t ++ ['\x7d'])) :
    labelText label = [] := by
  unfold labelText
  split
  case h_1 t =>
    split
    case h_1 hl =>
      obtain ⟨inner, rfl⟩ := List.getLast?_eq_some_iff.mp hl
      exact absurd rfl (h inner)
    case h_2 => rfl
  case h_2 => rfl

end Label

namespace Draft

-- The nodes of a draft are nodes of a later one.
def Remains (d d' : Draft) : Prop :=
  ∀ i x, d.graph.nodes.get? i = some x → d'.graph.nodes.get? i = some x

namespace Remains

variable {d d₁ d₂ : Draft}

theorem refl (d : Draft) : d.Remains d :=
  fun _ _ h => h

theorem trans (r₁ : d.Remains d₁) (r₂ : d₁.Remains d₂) : d.Remains d₂ :=
  fun i x h => r₂ i x (r₁ i x h)

theorem resolve (d : Draft) (r : Reference) : d.Remains (d.resolve r).2 := by
  intro i x h
  simp only [Draft.resolve, graph_idOf]
  split
  case isTrue       => rwa [graph_idOf]
  case isFalse hc   => exact Arena.get?_insert_of_not_contains hc h

theorem get?_withEndpoint {g : Graph} {i j : Nat} {x : Node} (h : g.nodes.get? j = some x) :
    (g.withEndpoint i).nodes.get? j = some x := by
  unfold Graph.withEndpoint
  split
  case isTrue     => exact h
  case isFalse hc => exact Arena.get?_insert_of_not_contains hc h

theorem withEdge (d : Draft) (e : Edge) : d.Remains { d with graph := d.graph.withEdge e } :=
  fun _ _ h => get?_withEndpoint (get?_withEndpoint h)

theorem addEdges (d : Draft) (path source : Nat) (rs : List Reference) :
    d.Remains (d.addEdges path source rs).2 := by
  induction rs generalizing d source
  case nil         => exact .refl d
  case cons r _ hi => exact ((resolve d r).trans (withEdge _ _)).trans (hi _ _)

theorem addChain (d : Draft) (c : Picture.Chain) : d.Remains (d.addChain c) := by
  have source := resolve d c.source
  simp only [Draft.addChain]
  split
  case h_1 => exact source
  case h_2 => exact source.trans (addEdges _ _ _ _)

end Remains

variable {d : Draft}

theorem get?_addNode (d : Draft) (n : Picture.Node) (i : Nat) :
    (d.addNode n).graph.nodes.get? i =
      if i = (d.idOf n.name).1
      then some ⟨(d.idOf n.name).1, n.coordinate.getD .origin, labelText n.label, n.name⟩
      else d.graph.nodes.get? i := by
  simp only [addNode, graph_idOf]
  exact Arena.get?_insert ..

theorem keeps_addNode (d : Draft) (n : Picture.Node) :
    (d.addNode n).graph.Keeps n (d.idOf n.name).1 := by
  refine ⟨_, by rw [get?_addNode, if_pos rfl], rfl, rfl, rfl, fun t ht => ?_, labelText_of_ne⟩
  exact ht ▸ labelText_braced t

-- The declarations in some statements, each with the number that its node gets.
def declarationsIn (d : Draft) : Picture.Statement → List (Picture.Node × Nat)
  | .node n => [(n, (d.idOf n.name).1)]
  | _       => []

def declarations (d : Draft) : List Picture.Statement → List (Picture.Node × Nat)
  | []      => []
  | s :: ss => d.declarationsIn s ++ (d.addStatement s).declarations ss

theorem map_fst_declarations (d : Draft) (ss : List Picture.Statement) :
    (d.declarations ss).map Prod.fst = declared ss := by
  induction ss generalizing d
  case nil         => rfl
  case cons s ss hi =>
    rw [declarations, List.map_append, hi]
    cases s <;> rfl

-- A declaration is an occurrence of its node.
theorem declarations_sublist (d : Draft) (ss : List Picture.Statement) :
    ((d.declarations ss).map fun (n, i) => ⟨n.name, i⟩).Sublist (d.occurrences ss).flatten := by
  induction ss generalizing d
  case nil         => exact .slnil
  case cons s ss hi =>
    rw [declarations, List.map_append, occurrences, List.flatten_cons]
    refine .append ?_ (hi _)
    cases s
    case node => exact .refl _
    all_goals exact List.nil_sublist _

theorem get?_addStatement {i : Nat} {x : Node} (s : Picture.Statement)
    (hn : ∀ p ∈ d.declarationsIn s, p.2 ≠ i) (h : d.graph.nodes.get? i = some x) :
    (d.addStatement s).graph.nodes.get? i = some x := by
  cases s
  case node n =>
    have hi : i ≠ (d.idOf n.name).1 := (hn _ (.head _)).symm
    exact (get?_addNode d n i).trans ((if_neg hi).trans h)
  case draw c     => exact Remains.addChain d c i x h
  case coordinate => exact h
  case path       => exact h

-- What no later declaration takes away is there at the end.
theorem get?_addStatements {i : Nat} {x : Node} (ss : List Picture.Statement)
    (hn : ∀ p ∈ d.declarations ss, p.2 ≠ i) (h : d.graph.nodes.get? i = some x) :
    (ss.foldl addStatement d).graph.nodes.get? i = some x := by
  induction ss generalizing d
  case nil => exact h
  case cons s ss hi =>
    rw [declarations] at hn
    have ⟨here, later⟩ := List.forall_mem_append.mp hn
    exact hi later (get?_addStatement s here h)

theorem keeps_addStatements (ss : List Picture.Statement)
    (distinct : ((d.declarations ss).map Prod.snd).Nodup) :
    ∀ p ∈ d.declarations ss, (ss.foldl addStatement d).graph.Keeps p.1 p.2 := by
  induction ss generalizing d
  case nil => exact nofun
  case cons s ss hi =>
    rw [declarations, List.map_append] at distinct
    have ⟨_, rest, apart⟩ := List.nodup_append.mp distinct
    intro p hp
    rcases List.mem_append.mp hp with hp | hp
    case inr => exact hi rest p hp
    case inl =>
      cases s with
      | node n =>
        cases List.mem_singleton.mp hp
        obtain ⟨x, hx, carries⟩ := keeps_addNode d n
        have later (q) (hq : q ∈ (d.addNode n).declarations ss) : q.2 ≠ (d.idOf n.name).1 :=
          (apart _ (.head _) _ (List.mem_map_of_mem hq)).symm
        exact ⟨x, get?_addStatements ss later hx, carries⟩
      | _ => contradiction

end Draft

-- The declarations of a picture, each with the number that its node gets.
def declarations (p : Picture) : List (Picture.Node × Nat) :=
  (Draft.start (reserved p.allStatements)).declarations p.allStatements

variable {p : Picture}

theorem numbered_ofPicture (p : Picture) :
    (p.allStatements.foldl Draft.addStatement (.start (reserved p.allStatements))).Numbered
      (occurrences p).flatten :=
  (Draft.Follows.addStatements p.allStatements fun _ hn _ _ hm hi =>
    mem_reserved (Option.some.inj hm ▸ hn) hi).numbered [] (.start _)

-- Two declarations get one number exactly if they have one name or two numerals of one value.
theorem pairwise_declarations (p : Picture) :
    (declarations p).Pairwise fun a b => a.2 = b.2 ↔ SameNode a.1.name b.1.name :=
  List.pairwise_map.mp ((numbered_ofPicture p).pairs.sublist (Draft.declarations_sublist _ _))

-- Nodes with different numbers do not have the names of one node.
theorem not_sameNode_of_keeps {m n : Picture.Node} {i j : Nat} (hm : (ofPicture p).Keeps m i)
    (hn : (ofPicture p).Keeps n j) (h : i ≠ j) : ¬SameNode m.name n.name := by
  have numbered := numbered_ofPicture p
  obtain ⟨x, hx, carriesₓ⟩ := hm
  obtain ⟨y, hy, carries⟩ := hn
  have ha := numbered.carried i x hx
  have hb := numbered.carried j y hy
  have identified := numbered.pairs.forall ha hb fun he => h (congrArg Occurrence.id he)
  rw [← carriesₓ.name, ← carries.name]
  exact fun same => h (identified.mpr same)

theorem pairwise_not_sameNode {ds : List (Picture.Node × Nat)} (declared : ds.map Prod.fst = ns)
    (distinct : (ds.map Prod.snd).Nodup) (kept : ∀ d ∈ ds, (ofPicture p).Keeps d.1 d.2) :
    ns.Pairwise fun m n => ¬SameNode m.name n.name := by
  rw [← declared, List.pairwise_map]
  refine (List.pairwise_map.mp distinct).imp_of_mem fun ha hb h => ?_
  exact not_sameNode_of_keeps (kept _ ha) (kept _ hb) h

-- Every declaration has a node of its own that carries what it says, unless two of them have one name or two
-- numerals of one value.
theorem declarations_kept_iff (p : Picture) :
    (∃ ds : List (Picture.Node × Nat), ds.map Prod.fst = declared p.allStatements ∧
      (ds.map Prod.snd).Nodup ∧ ∀ d ∈ ds, (ofPicture p).Keeps d.1 d.2) ↔
    (declared p.allStatements).Pairwise fun m n => ¬SameNode m.name n.name := by
  constructor
  case mp => exact fun ⟨_, declared, distinct, kept⟩ => pairwise_not_sameNode declared distinct kept
  case mpr =>
    intro h
    have names := Draft.map_fst_declarations (.start (reserved p.allStatements)) p.allStatements
    rw [← names, List.pairwise_map] at h
    have distinct : ((declarations p).map Prod.snd).Nodup :=
      List.pairwise_map.mpr (((pairwise_declarations p).and h).imp fun ⟨same, apart⟩ => mt same.mp apart)
    exact ⟨declarations p, names, distinct, Draft.keeps_addStatements _ distinct⟩

-- The names `1` and `01` are different, but as numerals they stand for one node.
theorem declaration_lost_to_numeral :
    ¬∀ p : Picture,
      ((declared p.allStatements).Pairwise fun m n => m.name = none ∨ m.name ≠ n.name) →
      ∃ ds : List (Picture.Node × Nat), ds.map Prod.fst = declared p.allStatements ∧
        (ds.map Prod.snd).Nodup ∧ ∀ d ∈ ds, (ofPicture p).Keeps d.1 d.2 := by
  intro h
  let node (name label : Text) (range : Range) : Picture.Node := ⟨none, some name, none, some label, range⟩
  let m := node ['1'] "\x7bA\x7d".toList ⟨0, 14⟩
  let n := node ['0', '1'] "\x7bB\x7d".toList ⟨14, 30⟩
  obtain ⟨ds, names, distinct, kept⟩ := h ⟨none, [], [.node m, .node n]⟩ (by decide)
  have same : SameNode m.name n.name :=
    .numeral (i := 1) (literalId?_eq_some_iff.mp rfl) (literalId?_eq_some_iff.mp rfl)
  have apart := pairwise_not_sameNode names distinct kept
  exact List.rel_of_pairwise_cons apart (.head _) same

end Graph
end TikzPress
