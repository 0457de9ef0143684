import TikzPress.Proofs.Graph.Declarations
import TikzPress.Proofs.Graph.Trails

/-!
What the nodes in the graph of a picture carry. A node is mentioned where it is declared, and where a drawn
path refers to it; edges and paths apart, the graph is made of these mentions one after another. Main
statement: a node carries what its last declaration says, wherever paths refer to it, and without a
declaration what its first reference says (`described_ofPicture`).
-/

namespace TikzPress

namespace Arena

variable {m : Arena α}

theorem contains_of_fresh {i : Nat} (h : m.fresh = i + 1) : m.contains i := by
  unfold fresh at h
  split at h
  case h_1 => contradiction
  case h_2 j a hl =>
    obtain rfl : j = i := Nat.succ.inj h
    exact Option.isSome_iff_exists.mpr ⟨a, get?_eq_some_iff.mpr (List.mem_of_getLast? hl)⟩

-- The fresh number tells nothing but which numbers are in use.
theorem fresh_le_of_contains {m' : Arena β} (h : ∀ i, m.contains i → m'.contains i) :
    m.fresh ≤ m'.fresh := by
  cases hf : m.fresh
  case zero   => exact Nat.zero_le _
  case succ i => exact lt_fresh_of_contains (h i (contains_of_fresh hf))

end Arena

namespace Graph

inductive Mention where
  | declaration (n : Picture.Node)
  | reference (r : Reference)

def Mention.name : Mention → Option Text
  | declaration n => n.name
  | reference r   => r.name?

def Mention.declared? : Mention → Option Picture.Node
  | declaration n => some n
  | reference _   => none

def mentionsIn : Picture.Statement → List Mention
  | .node n                 => [.declaration n]
  | .draw c                 => (endpoints c).map .reference
  | .coordinate _ | .path _ => []

-- Among mentions of nodes with their numbers, those of one number.
def mentionsOf (xs : List (Mention × Nat)) (i : Nat) : List Mention :=
  (xs.filter (·.2 = i)).map Prod.fst

-- A graph has the nodes that are mentioned: with what the last declaration says, or else with what the first
-- reference says.
structure Carried (g : Graph) (xs : List (Mention × Nat)) : Prop where
  nodes    : ∀ i, g.nodes.contains i ↔ mentionsOf xs i ≠ []
  declared : ∀ i n, ((mentionsOf xs i).filterMap Mention.declared?).getLast? = some n → g.Keeps n i
  referred : ∀ i r, (mentionsOf xs i).filterMap Mention.declared? = [] →
    (mentionsOf xs i).head? = some (.reference r) →
    g.nodes.get? i = some ⟨i, r.coordinate?.getD .origin, [], r.name?⟩

theorem mentionsOf_append (xs : List (Mention × Nat)) (m : Mention) (i j : Nat) :
    mentionsOf (xs ++ [(m, j)]) i = mentionsOf xs i ++ if i = j then [m] else [] := by
  by_cases h : i = j
  case pos => simp [mentionsOf, h]
  case neg => simp [mentionsOf, h, Ne.symm h]

namespace Draft

-- A draft with one more mention, and the number of its node.
def meet (d : Draft) : Mention → Nat × Draft
  | .declaration n => ((d.idOf n.name).1, d.addNode n)
  | .reference r   => d.resolve r

def meetAll (d : Draft) (ms : List Mention) : Draft :=
  ms.foldl (fun d m => (d.meet m).2) d

def numbers (d : Draft) : List Mention → List (Mention × Nat)
  | []      => []
  | m :: ms => (m, (d.meet m).1) :: (d.meet m).2.numbers ms

variable {d d' : Draft}

theorem map_fst_numbers (d : Draft) (ms : List Mention) : (d.numbers ms).map Prod.fst = ms := by
  induction ms generalizing d
  case nil     => rfl
  case cons hi => rw [numbers, List.map_cons, hi]

section Edges

variable {edges : Arena Edge} {paths : Arena Path}

theorem meet_withEdges (m : Mention) :
    (d.withEdges edges paths).meet m = ((d.meet m).1, (d.meet m).2.withEdges edges paths) := by
  cases m
  case declaration n => simp only [meet, addNode, idOf_withEdges]; rfl
  case reference r   => exact resolve_withEdges r

theorem meetAll_withEdges (ms : List Mention) :
    (d.withEdges edges paths).meetAll ms = (d.meetAll ms).withEdges edges paths := by
  induction ms generalizing d
  case nil       => rfl
  case cons m ms hi =>
    have first : (d.withEdges edges paths).meetAll (m :: ms) = _ :=
      congrArg (fun x : Nat × Draft => x.2.meetAll ms) (meet_withEdges m)
    exact first.trans hi

theorem numbers_withEdges (ms : List Mention) :
    (d.withEdges edges paths).numbers ms = d.numbers ms := by
  induction ms generalizing d
  case nil     => rfl
  case cons hi => simp only [numbers, meet_withEdges, hi]

-- Two drafts that differ in their edges and paths at most.
def UpToEdges (d d' : Draft) : Prop :=
  ∃ edges paths, d = d'.withEdges edges paths

theorem UpToEdges.refl (d : Draft) : d.UpToEdges d :=
  ⟨d.graph.edges, d.graph.paths, rfl⟩

theorem UpToEdges.meetAll (u : d.UpToEdges d') (ms : List Mention) :
    (d.meetAll ms).UpToEdges (d'.meetAll ms) := by
  obtain ⟨_, _, rfl⟩ := u
  exact ⟨_, _, meetAll_withEdges ms⟩

theorem UpToEdges.trans {d'' : Draft} (u : d.UpToEdges d') (v : d'.UpToEdges d'') : d.UpToEdges d'' := by
  obtain ⟨edges, paths, rfl⟩ := u
  obtain ⟨_, _, rfl⟩ := v
  exact ⟨edges, paths, rfl⟩

theorem upToEdges_addEdges (path : Nat) {source : Nat} (rs : List Reference)
    (hs : d.graph.nodes.contains source) :
    (d.addEdges path source rs).2.UpToEdges (d.meetAll (rs.map .reference)) := by
  induction rs generalizing d source
  case nil => exact .refl d
  case cons r rs hi =>
    rw [snd_addEdges_cons rs hs]
    let linked := (d.resolve r).2.withLink path source (d.resolve r).1
    have target : linked.graph.nodes.contains (d.resolve r).1 :=
      (d.contains_resolve r _).mpr (.inr rfl)
    have link : linked.UpToEdges (d.resolve r).2 := ⟨_, _, rfl⟩
    exact (hi target).trans (link.meetAll _)

theorem upToEdges_addChain (c : Picture.Chain) :
    (d.addChain c).UpToEdges (d.meetAll ((endpoints c).map .reference)) := by
  have targets := upToEdges_addEdges d.graph.paths.fresh (c.segments.map Picture.Segment.target)
    ((d.contains_resolve c.source _).mpr (.inr rfl))
  simp only [addChain]
  split
  case h_1 h => rw [endpoints, h]; exact .refl _
  case h_2 =>
    exact UpToEdges.trans ⟨_, _, rfl⟩ targets

theorem upToEdges_addStatement (d : Draft) (s : Picture.Statement) :
    (d.addStatement s).UpToEdges (d.meetAll (mentionsIn s)) := by
  cases s
  case draw c => exact upToEdges_addChain c
  all_goals exact .refl _

theorem upToEdges_addStatements (d : Draft) (ss : List Picture.Statement) :
    (ss.foldl addStatement d).UpToEdges (d.meetAll (ss.flatMap mentionsIn)) := by
  induction ss generalizing d
  case nil => exact .refl d
  case cons s ss hi =>
    rw [List.flatMap_cons, meetAll, List.foldl_append]
    exact (hi _).trans ((upToEdges_addStatement d s).meetAll _)

end Edges

section Occurrences

def occurrence : Mention × Nat → Occurrence
  | (m, i) => ⟨m.name, i⟩

theorem numbers_append (ms ns : List Mention) :
    d.numbers (ms ++ ns) = d.numbers ms ++ (d.meetAll ms).numbers ns := by
  induction ms generalizing d
  case nil     => rfl
  case cons hi => exact congrArg (_ :: ·) hi

theorem resolved_eq (rs : List Reference) :
    d.resolved rs = (d.numbers (rs.map .reference)).map occurrence := by
  induction rs generalizing d
  case nil     => rfl
  case cons hi => exact congrArg (_ :: ·) hi

theorem occurrencesIn_eq (s : Picture.Statement) :
    d.occurrencesIn s = (d.numbers (mentionsIn s)).map occurrence := by
  cases s
  case draw c => exact resolved_eq (endpoints c)
  all_goals rfl

theorem flatten_occurrences (ss : List Picture.Statement) :
    (d.occurrences ss).flatten = (d.numbers (ss.flatMap mentionsIn)).map occurrence := by
  induction ss generalizing d
  case nil => rfl
  case cons s ss hi =>
    have ⟨_, _, later⟩ := upToEdges_addStatement d s
    rw [occurrences, List.flatten_cons, hi, occurrencesIn_eq, later, numbers_withEdges,
      List.flatMap_cons, numbers_append, List.map_append]

end Occurrences

section Carried

variable {xs : List (Mention × Nat)}

theorem get?_resolve (d : Draft) (r : Reference) (i : Nat) :
    (d.resolve r).2.graph.nodes.get? i =
      if i = (d.resolve r).1 ∧ ¬d.graph.nodes.contains i
      then some ⟨i, r.coordinate?.getD .origin, [], r.name?⟩ else d.graph.nodes.get? i := by
  simp only [Draft.resolve, graph_idOf]
  by_cases hc : d.graph.nodes.contains (d.idOf r.name?).1
  case pos =>
    rw [if_pos hc, if_neg fun h => h.right (h.left ▸ hc), graph_idOf]
  case neg =>
    rw [if_neg hc]
    refine (Arena.get?_insert ..).trans ?_
    by_cases hi : i = (d.idOf r.name?).1
    case pos => subst hi; simp [hc]
    case neg => simp [hi]

theorem contains_addNode (d : Draft) (n : Picture.Node) (i : Nat) :
    (d.addNode n).graph.nodes.contains i ↔ d.graph.nodes.contains i ∨ i = (d.idOf n.name).1 := by
  rw [Arena.contains, get?_addNode]
  split
  case isTrue h  => simp [h]
  case isFalse h => simp [h, Arena.contains]

theorem contains_meet (d : Draft) (m : Mention) (i : Nat) :
    (d.meet m).2.graph.nodes.contains i ↔ d.graph.nodes.contains i ∨ i = (d.meet m).1 := by
  cases m
  case declaration n => exact contains_addNode d n i
  case reference r   => exact contains_resolve d r i

-- A declaration is the last one of its number so far.
theorem carried_addNode (c : d.graph.Carried xs) (n : Picture.Node) :
    (d.addNode n).graph.Carried (xs ++ [(.declaration n, (d.idOf n.name).1)]) where
  nodes i := by
    rw [contains_addNode, c.nodes, mentionsOf_append]
    split <;> simp_all
  declared i k h := by
    rw [mentionsOf_append] at h
    by_cases hi : i = (d.idOf n.name).1
    case pos =>
      obtain rfl : n = k := by simpa [hi, Mention.declared?] using h
      exact hi ▸ keeps_addNode d n
    case neg =>
      rw [if_neg hi, List.append_nil] at h
      rw [Keeps, get?_addNode, if_neg hi]
      exact c.declared i k h
  referred i r hn hr := by
    rw [mentionsOf_append] at hn hr
    by_cases hi : i = (d.idOf n.name).1
    case pos => simp [hi, Mention.declared?] at hn
    case neg =>
      rw [if_neg hi, List.append_nil] at hn hr
      rw [get?_addNode, if_neg hi]
      exact c.referred i r hn hr

-- A reference is the first mention of its number, or else it changes no node.
theorem carried_resolve (c : d.graph.Carried xs) (r : Reference) :
    (d.resolve r).2.graph.Carried (xs ++ [(.reference r, (d.resolve r).1)]) where
  nodes i := by
    rw [contains_resolve, c.nodes, mentionsOf_append]
    split <;> simp_all
  declared i k h := by
    have old : ((mentionsOf xs i).filterMap Mention.declared?).getLast? = some k := by
      rw [mentionsOf_append, List.filterMap_append] at h
      split at h <;> simpa [Mention.declared?] using h
    have known : d.graph.nodes.contains i := (c.nodes i).mpr (by rintro hx; simp [hx] at old)
    rw [Keeps, get?_resolve, if_neg fun h => h.right known]
    exact c.declared i k old
  referred i r' hn hr := by
    rw [mentionsOf_append] at hn hr
    rw [List.filterMap_append, List.append_eq_nil_iff] at hn
    rw [get?_resolve]
    by_cases known : d.graph.nodes.contains i
    case pos =>
      obtain ⟨_, _, hm⟩ := List.exists_cons_of_ne_nil ((c.nodes i).mp known)
      rw [if_neg fun h => h.right known]
      exact c.referred i r' hn.left (by simpa [hm] using hr)
    case neg =>
      have first : mentionsOf xs i = [] := by simpa using mt (c.nodes i).mpr known
      rw [first, List.nil_append] at hr
      split at hr
      case isFalse   => contradiction
      case isTrue hi => cases hr; exact if_pos ⟨hi, known⟩

theorem carried_meet (c : d.graph.Carried xs) (m : Mention) :
    (d.meet m).2.graph.Carried (xs ++ [(m, (d.meet m).1)]) := by
  cases m
  case declaration n => exact carried_addNode c n
  case reference r   => exact carried_resolve c r

theorem carried_meetAll (c : d.graph.Carried xs) (ms : List Mention) :
    (d.meetAll ms).graph.Carried (xs ++ d.numbers ms) := by
  induction ms generalizing d xs
  case nil          => rwa [numbers, List.append_nil]
  case cons m ms hi => simpa [numbers, meetAll] using hi (carried_meet c m)

theorem carried_start (reserved : List Nat) : (start reserved).graph.Carried [] where
  nodes _    := by simp [start, Graph.empty, Arena.empty, Arena.contains, Arena.get?, Arena.findEntry,
    mentionsOf]
  declared   := nofun
  referred   := nofun

end Carried

section Names

-- Two drafts give the same numbers to what comes next.
structure Agrees (d d' : Draft) : Prop where
  nodes    : ∀ i, d.graph.nodes.contains i ↔ d'.graph.nodes.contains i
  ids      : d.ids = d'.ids
  reserved : d.reserved = d'.reserved

theorem Agrees.freshId_eq (a : d.Agrees d') : d.freshId = d'.freshId := by
  have fresh : d.graph.nodes.fresh = d'.graph.nodes.fresh :=
    Nat.le_antisymm (Arena.fresh_le_of_contains fun i => (a.nodes i).mp)
      (Arena.fresh_le_of_contains fun i => (a.nodes i).mpr)
  rw [freshId, freshId, fresh, a.reserved]

theorem Agrees.idOf (a : d.Agrees d') (name : Option Text) :
    (d.idOf name).1 = (d'.idOf name).1 ∧ (d.idOf name).2.ids = (d'.idOf name).2.ids := by
  cases name
  case none   => exact ⟨a.freshId_eq, a.ids⟩
  case some n =>
    simp only [Draft.idOf, a.ids, a.freshId_eq]
    split
    case h_1 => exact ⟨rfl, a.ids⟩
    case h_2 => exact ⟨rfl, rfl⟩

-- Apart from the graph, a mention does what looking up its name does.
theorem exists_meet_eq (d : Draft) (m : Mention) :
    ∃ graph, d.meet m = ((d.idOf m.name).1, { (d.idOf m.name).2 with graph }) := by
  cases m
  case declaration => exact ⟨_, rfl⟩
  case reference r =>
    simp only [meet, Draft.resolve]
    split
    case isTrue  => exact ⟨_, rfl⟩
    case isFalse => exact ⟨_, rfl⟩

theorem Agrees.meet (a : d.Agrees d') {m m' : Mention} (h : m.name = m'.name) :
    (d.meet m).1 = (d'.meet m').1 ∧ (d.meet m).2.Agrees (d'.meet m').2 := by
  have ⟨number, ids⟩ := a.idOf m.name
  have ⟨g, hg⟩ := d.exists_meet_eq m
  have ⟨g', hg'⟩ := d'.exists_meet_eq m'
  rw [← h] at hg'
  have numbers : (d.meet m).1 = (d'.meet m').1 := by rw [hg, hg']; exact number
  refine ⟨numbers, fun i => ?nodes, ?ids, ?reserved⟩
  case nodes    => rw [contains_meet, contains_meet, a.nodes, numbers]
  case ids      => rw [hg, hg']; exact ids
  case reserved =>
    rw [hg, hg']
    exact (reserved_idOf ..).trans (a.reserved.trans (reserved_idOf ..).symm)

-- The numbers depend on the names, and on nothing else that is said in a mention.
theorem Agrees.numbers_eq (a : d.Agrees d') {ms ms' : List Mention}
    (h : ms.map Mention.name = ms'.map Mention.name) :
    (d.numbers ms).map Prod.snd = (d'.numbers ms').map Prod.snd := by
  induction ms generalizing d d' ms'
  case nil =>
    rw [List.map_nil, eq_comm, List.map_eq_nil_iff] at h
    rw [h]
    rfl
  case cons m ms hi =>
    cases ms'
    case nil => contradiction
    case cons m' ms' =>
      obtain ⟨first, rest⟩ := List.cons.inj h
      have ⟨number, later⟩ := a.meet first
      simp only [numbers, List.map_cons, number, hi later rest]

end Names
end Draft

theorem namesIn_eq (s : Picture.Statement) : namesIn s = (mentionsIn s).filterMap Mention.name := by
  cases s
  case node n     => simp only [namesIn, mentionsIn]; cases h : n.name <;> simp [Mention.name, h]
  case draw c     => simp only [namesIn, mentionsIn, List.filterMap_map]; rfl
  case coordinate => rfl
  case path       => rfl

theorem reserved_eq (ss : List Picture.Statement) :
    reserved ss = (((ss.flatMap mentionsIn).map Mention.name).reduceOption).filterMap literalId? := by
  have names : ss.flatMap namesIn = (ss.flatMap mentionsIn).filterMap Mention.name := by
    rw [List.filterMap_flatMap]
    exact congrArg ss.flatMap (funext namesIn_eq)
  have given (ms : List Mention) : (ms.map Mention.name).reduceOption = ms.filterMap Mention.name :=
    List.filterMap_map
  rw [reserved, names, given]

-- The mentions of nodes in a picture, in the order of its statements.
def mentions (p : Picture) : List Mention :=
  p.allStatements.flatMap mentionsIn

-- The mentions, each with the number of its node.
def numbered (p : Picture) : List (Mention × Nat) :=
  (Draft.start (reserved p.allStatements)).numbers (mentions p)

-- The numbers of the mentions in a picture tell which of them are of one node, and the nodes of the graph are
-- described by the mentions of their numbers. No more than the names matters to the numbers.
structure Described (p : Picture) (xs : List (Mention × Nat)) : Prop where
  mentions   : xs.map Prod.fst = mentions p
  identified : xs.Pairwise fun a b => a.2 = b.2 ↔ SameNode a.1.name b.1.name
  carried    : (ofPicture p).Carried xs
  names      : ∀ q, (Graph.mentions q).map Mention.name = (Graph.mentions p).map Mention.name →
    (numbered q).map Prod.snd = xs.map Prod.snd

theorem described_ofPicture (p : Picture) : Described p (numbered p) where
  mentions := Draft.map_fst_numbers ..
  identified := by
    have pairs := (numbered_ofPicture p).pairs
    rw [occurrences, Draft.flatten_occurrences] at pairs
    exact List.pairwise_map.mp pairs
  carried := by
    have ⟨_, _, h⟩ := Draft.upToEdges_addStatements (.start (reserved p.allStatements)) p.allStatements
    have carried := Draft.carried_meetAll (Draft.carried_start (reserved p.allStatements)) (mentions p)
    rw [ofPicture, h]
    exact ⟨carried.nodes, carried.declared, carried.referred⟩
  names q h := by
    have same : reserved q.allStatements = reserved p.allStatements := by
      rw [reserved_eq, reserved_eq]
      exact congrArg (fun ns : List (Option Text) => ns.reduceOption.filterMap literalId?) h
    rw [numbered, same]
    exact Draft.Agrees.numbers_eq ⟨fun _ => .rfl, rfl, rfl⟩ h

end Graph
end TikzPress
