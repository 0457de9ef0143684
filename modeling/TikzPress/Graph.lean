import TikzPress.Reference

/-!
Graphs of nodes, edges and paths under numbers. A graph is a value: each operation gives a new one.
Main statements: an arena finds what was put under a number and nothing else changes
(`Arena.get?_insert`), and the fresh number of an arena is greater than every number in use
(`Arena.lt_fresh`).
-/

namespace TikzPress

structure Arena (α : Type) where
  entries : List (Nat × α)
  increasing : entries.Pairwise (·.1 < ·.1)

namespace Arena

variable {α : Type}

def empty : Arena α := ⟨[], .nil⟩

instance : Inhabited (Arena α) := ⟨empty⟩

def insertEntry (id : Nat) (a : α) : List (Nat × α) → List (Nat × α)
  | [] => [(id, a)]
  | (i, b) :: rest =>
    if id < i then (id, a) :: (i, b) :: rest
    else if id = i then (id, a) :: rest
    else (i, b) :: insertEntry id a rest

theorem mem_insertEntry {id : Nat} {a : α} {l : List (Nat × α)} {x : Nat × α}
    (h : x ∈ insertEntry id a l) : x = (id, a) ∨ x ∈ l := by
  induction l
  case nil => simpa [insertEntry] using h
  case cons y l ih =>
    obtain ⟨i, b⟩ := y
    simp only [insertEntry] at h
    split at h
    case isTrue  => simpa using h
    case isFalse =>
      split at h
      case isTrue =>
        rcases List.mem_cons.mp h with h | h
        case inl => exact .inl h
        case inr => exact .inr (.tail _ h)
      case isFalse =>
        rcases List.mem_cons.mp h with h | h
        case inl => exact .inr (h ▸ .head _)
        case inr => exact (ih h).imp_right (.tail _)

theorem increasing_insertEntry (id : Nat) (a : α) {l : List (Nat × α)}
    (h : l.Pairwise (·.1 < ·.1)) : (insertEntry id a l).Pairwise (·.1 < ·.1) := by
  induction l
  case nil => simp [insertEntry]
  case cons y l ih =>
    obtain ⟨i, b⟩ := y
    have ⟨h₁, h₂⟩ := List.pairwise_cons.mp h
    simp only [insertEntry]
    split
    case isTrue hlt =>
      refine List.pairwise_cons.mpr ⟨fun x hx => ?_, h⟩
      rcases List.mem_cons.mp hx with rfl | hx
      case inl => exact hlt
      case inr => exact Nat.lt_trans hlt (h₁ x hx)
    case isFalse hle =>
      split
      case isTrue heq => exact List.pairwise_cons.mpr ⟨fun x hx => heq ▸ h₁ x hx, h₂⟩
      case isFalse hne =>
        refine List.pairwise_cons.mpr ⟨fun x hx => ?_, ih h₂⟩
        rcases mem_insertEntry hx with rfl | hx
        case inl =>
          show i < id
          omega
        case inr => exact h₁ x hx

def insert (m : Arena α) (id : Nat) (a : α) : Arena α :=
  ⟨insertEntry id a m.entries, increasing_insertEntry id a m.increasing⟩

def findEntry (j : Nat) : List (Nat × α) → Option α
  | [] => none
  | (i, b) :: rest => if j = i then some b else findEntry j rest

def get? (m : Arena α) (id : Nat) : Option α := findEntry id m.entries

def contains (m : Arena α) (id : Nat) : Bool := (m.get? id).isSome

def size (m : Arena α) : Nat := m.entries.length

def ids (m : Arena α) : List Nat := m.entries.map (·.1)

def values (m : Arena α) : List α := m.entries.map (·.2)

def fresh (m : Arena α) : Nat :=
  match m.entries.getLast? with
  | none => 0
  | some (id, _) => id + 1

theorem findEntry_insertEntry (id j : Nat) (a : α) (l : List (Nat × α)) :
    findEntry j (insertEntry id a l) = if j = id then some a else findEntry j l := by
  induction l
  case nil => rfl
  case cons y l ih =>
    obtain ⟨i, b⟩ := y
    simp only [insertEntry]
    split
    case isTrue  => rfl
    case isFalse =>
      split
      case isTrue heq =>
        subst heq
        by_cases hj : j = id <;> simp [findEntry, hj]
      case isFalse hne =>
        simp only [findEntry, ih]
        by_cases hj : j = i
        case pos => rw [if_pos hj, if_neg fun e => hne (e.symm.trans hj), if_pos hj]
        case neg => simp [hj]

theorem get?_insert (m : Arena α) (id j : Nat) (a : α) :
    (m.insert id a).get? j = if j = id then some a else m.get? j :=
  findEntry_insertEntry id j a m.entries

theorem contains_insert (m : Arena α) (id j : Nat) (a : α) :
    (m.insert id a).contains j = (j = id || m.contains j) := by
  by_cases h : j = id <;> simp [contains, get?_insert, h]

theorem mem_of_findEntry {j : Nat} {a : α} {l : List (Nat × α)} (h : findEntry j l = some a) :
    (j, a) ∈ l := by
  induction l
  case nil => simp [findEntry] at h
  case cons y l ih =>
    obtain ⟨i, b⟩ := y
    simp only [findEntry] at h
    split at h
    case isTrue hj =>
      cases h
      exact hj ▸ .head _
    case isFalse => exact .tail _ (ih h)

theorem lt_fresh {m : Arena α} {x : Nat × α} (h : x ∈ m.entries) : x.1 < m.fresh := by
  obtain ⟨l, y, hl⟩ := (List.eq_nil_or_concat m.entries).resolve_left (List.ne_nil_of_mem h)
  have hf : m.fresh = y.1 + 1 := by simp [fresh, hl]
  have hi := m.increasing
  rw [hl, List.concat_eq_append] at h hi
  rcases List.mem_append.mp h with h | h
  case inl =>
    have := (List.pairwise_append.mp hi).2.2 x h y (.head _)
    omega
  case inr =>
    rw [List.mem_singleton.mp h, hf]
    exact Nat.lt_succ_self _

theorem lt_fresh_of_contains {m : Arena α} {id : Nat} (h : m.contains id) : id < m.fresh :=
  have ⟨_, ha⟩ := Option.isSome_iff_exists.mp h
  lt_fresh (mem_of_findEntry ha)

theorem insertEntry_of_lt {id : Nat} {l : List (Nat × α)} (h : ∀ x ∈ l, x.1 < id) (a : α) :
    insertEntry id a l = l ++ [(id, a)] := by
  induction l
  case nil => rfl
  case cons y l ih =>
    obtain ⟨i, b⟩ := y
    have hi : i < id := h _ (.head _)
    rw [insertEntry, if_neg (by omega), if_neg (by omega), ih fun x hx => h x (.tail _ hx)]
    rfl

theorem entries_insert_fresh (m : Arena α) (a : α) :
    (m.insert m.fresh a).entries = m.entries ++ [(m.fresh, a)] :=
  insertEntry_of_lt (fun _ => lt_fresh) a

end Arena

namespace Graph

-- The label has no braces around it.
structure Node where
  id : Nat
  coordinate : Coordinate
  label : Text
  name : Option Text
  deriving DecidableEq, Repr

def Node.blank (id : Nat) : Node := ⟨id, .origin, [], none⟩

structure Edge where
  id : Nat
  source : Nat
  target : Nat
  path : Nat
  deriving DecidableEq, Repr

structure Path where
  id : Nat
  edges : List Nat
  deriving DecidableEq, Repr

end Graph

structure Graph where
  nodes : Arena Graph.Node
  edges : Arena Graph.Edge
  paths : Arena Graph.Path

namespace Graph

def empty : Graph := ⟨.empty, .empty, .empty⟩

instance : Inhabited Graph := ⟨empty⟩

def withNode (g : Graph) (n : Node) : Graph := { g with nodes := g.nodes.insert n.id n }

def withEndpoint (g : Graph) (id : Nat) : Graph :=
  if g.nodes.contains id then g else g.withNode (.blank id)

def withEdge (g : Graph) (e : Edge) : Graph :=
  let g := (g.withEndpoint e.source).withEndpoint e.target
  { g with edges := g.edges.insert e.id e }

def withPath (g : Graph) (p : Path) : Graph := { g with paths := g.paths.insert p.id p }

end Graph
end TikzPress
