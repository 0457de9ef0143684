import Mathlib.Data.List.Pairwise
import TikzPress.Graph.OfPicture

/-!
The numbers that a draft of a graph gives to the occurrences of nodes. A name that is a numeral stands for
its value, and any other occurrence with a new name, or without one, gets a number that is neither in use
nor claimed by a numeral. Main statement: the numbers given so far tell which occurrences are of one node,
and they go on doing so with one more occurrence (`Numbered.append`).
-/

namespace TikzPress.Graph

-- A name of digits alone, and the number of 64 bits that it stands for.
structure Numeral (name : Text) (id : Nat) : Prop where
  ne_nil : name ≠ []
  digits : ∀ c ∈ name, c.isDigit
  value  : Decimal.valueOf name = id
  lt     : id < UInt64.size

theorem literalId?_eq_some_iff {name : Text} {id : Nat} :
    literalId? name = some id ↔ Numeral name id := by
  simp only [literalId?, Decimal.word?, Decimal.natural?, Option.filter_eq_some_iff, decide_eq_true_eq]
  constructor
  case mp =>
    rintro ⟨h, hlt⟩
    split at h
    case isTrue hn => exact ⟨hn.left, List.all_eq_true.mp hn.right, Option.some.inj h, hlt⟩
    case isFalse   => contradiction
  case mpr =>
    rintro ⟨hn, hd, hv, hlt⟩
    exact ⟨by rw [if_pos ⟨hn, List.all_eq_true.mpr hd⟩, hv], hlt⟩

theorem Numeral.unique {name : Text} {i j : Nat} (hi : Numeral name i) (hj : Numeral name j) : i = j :=
  hi.value.symm.trans hj.value

-- When two different occurrences with these names are of one node.
inductive SameNode : Option Text → Option Text → Prop
  | name (n : Text) : SameNode (some n) (some n)
  | numeral {i : Nat} : Numeral a i → Numeral b i → SameNode (some a) (some b)

theorem SameNode.symm {a b : Option Text} : SameNode a b → SameNode b a
  | .name n        => .name n
  | .numeral ha hb => .numeral hb ha

theorem SameNode.not_none (a : Option Text) : ¬SameNode a none :=
  nofun

-- A place in a picture where a node occurs: the name there, and the number that the node has.
structure Occurrence where
  name : Option Text
  id : Nat

-- The numbers of two different occurrences tell whether they are of one node.
def Occurrence.Identified (a b : Occurrence) : Prop :=
  a.id = b.id ↔ SameNode a.name b.name

instance : Std.Symm Occurrence.Identified where
  symm _ _ h := ⟨fun e => (h.mp e.symm).symm, fun e => (h.mpr e.symm).symm⟩

def Occurrence.IsLiteral (a : Occurrence) (i : Nat) : Prop :=
  ∃ n, a.name = some n ∧ Numeral n i

namespace Draft

section IdOf

theorem freshId_not_mem_reserved (d : Draft) : d.freshId ∉ d.reserved := by
  unfold freshId
  exact firstNotIn_not_mem _ _

theorem not_contains_freshId (d : Draft) : ¬d.graph.nodes.contains d.freshId := fun h =>
  absurd (le_firstNotIn d.reserved d.graph.nodes.fresh) (Nat.not_le_of_lt (Arena.lt_fresh_of_contains h))

-- Where the number of an occurrence comes from.
inductive Given (d : Draft) : Option Text → Nat × Draft → Prop
  | anonymous : Given d none (d.freshId, d)
  | known {i : Nat} : d.ids.lookup n = some i → Given d (some n) (i, d)
  | literal {i : Nat} : d.ids.lookup n = none → Numeral n i →
      Given d (some n) (i, { d with ids := (n, i) :: d.ids })
  | fresh : d.ids.lookup n = none → (∀ i, ¬Numeral n i) →
      Given d (some n) (d.freshId, { d with ids := (n, d.freshId) :: d.ids })

theorem given_idOf (d : Draft) (name : Option Text) : Given d name (d.idOf name) := by
  unfold idOf
  split
  case h_1 => exact .anonymous
  case h_2 n =>
    split
    case h_1 h => exact .known h
    case h_2 h =>
      cases hl : literalId? n
      case none   => exact .fresh h fun i hn => by simp [literalId?_eq_some_iff.mpr hn] at hl
      case some i => exact .literal h (literalId?_eq_some_iff.mp hl)

theorem graph_idOf (d : Draft) (name : Option Text) : (d.idOf name).2.graph = d.graph := by
  have h := d.given_idOf name
  generalize d.idOf name = given at h
  cases h <;> rfl

theorem reserved_idOf (d : Draft) (name : Option Text) : (d.idOf name).2.reserved = d.reserved := by
  have h := d.given_idOf name
  generalize d.idOf name = given at h
  cases h <;> rfl

end IdOf

-- The numbers that a name may claim are reserved.
def Covers (d : Draft) (name : Option Text) : Prop :=
  ∀ n v, name = some n → Numeral n v → v ∈ d.reserved

-- What a draft has made of the occurrences met so far.
structure Numbered (d : Draft) (seen : List Occurrence) : Prop where
  nodes   : ∀ i, d.graph.nodes.contains i ↔ ∃ a ∈ seen, a.id = i
  carried : ∀ i x, d.graph.nodes.get? i = some x → ⟨x.name, i⟩ ∈ seen
  ids     : ∀ n i, d.ids.lookup n = some i ↔ ⟨some n, i⟩ ∈ seen
  pairs   : seen.Pairwise Occurrence.Identified
  literal : ∀ a ∈ seen, ∀ i, a.IsLiteral i → a.id = i
  fresh   : ∀ a ∈ seen, (∀ i, ¬a.IsLiteral i) → a.id ∉ d.reserved

namespace Numbered

variable {d : Draft} {seen : List Occurrence} {name : Option Text}

theorem start (reserved : List Nat) : (start reserved).Numbered [] where
  nodes _   := by simp [Draft.start, Graph.empty, Arena.empty, Arena.contains, Arena.get?, Arena.findEntry]
  carried   := nofun
  ids _ _   := by simp [Draft.start]
  pairs     := .nil
  literal   := nofun
  fresh     := nofun

theorem id_eq_iff_of_mem (i : Numbered d seen) {a b : Occurrence} {n : Text} (ha : a ∈ seen)
    (hb : b ∈ seen) (hn : b.name = some n) : a.id = b.id ↔ SameNode a.name b.name := by
  by_cases h : a = b
  case pos => rw [h, hn]; exact iff_of_true rfl (.name n)
  case neg => exact i.pairs.forall ha hb h

-- The number of a further occurrence is that of the same nodes only.
theorem id_eq_iff (i : Numbered d seen) (hr : d.Covers name)
    {a : Occurrence} (ha : a ∈ seen) : a.id = (d.idOf name).1 ↔ SameNode a.name name := by
  have unused : a.id ≠ d.freshId := fun h =>
    d.not_contains_freshId ((i.nodes _).mpr ⟨a, ha, h⟩)
  have unknown {n : Text} (h : d.ids.lookup n = none) : a.name ≠ some n := fun hn => by
    have := (i.ids n a.id).mpr (hn ▸ ha)
    simp [h] at this
  have given := d.given_idOf name
  generalize d.idOf name = x at given
  cases given
  case anonymous => exact iff_of_false unused (SameNode.not_none _)
  case known n v h => exact i.id_eq_iff_of_mem ha ((i.ids n v).mp h) rfl
  case fresh n h hn =>
    refine iff_of_false unused fun hs => ?_
    generalize hm : a.name = m at hs
    cases hs
    case name         => exact unknown h hm
    case numeral _ hv => exact hn _ hv
  case literal n v h hn =>
    constructor
    case mpr =>
      intro hs
      generalize hm : a.name = m at hs
      cases hs
      case name            => exact absurd hm (unknown h)
      case numeral hm' hv  => exact (i.literal a ha _ ⟨_, hm, hm'⟩).trans (hv.unique hn)
    case mp =>
      intro hv
      by_cases hl : ∃ w, a.IsLiteral w
      case pos =>
        obtain ⟨w, m, hm, hw⟩ := hl
        have : w = v := (i.literal a ha w ⟨m, hm, hw⟩).symm.trans hv
        exact hm ▸ .numeral hw (this ▸ hn)
      case neg =>
        have hf := i.fresh a ha fun w hw => hl ⟨w, hw⟩
        exact absurd (hv ▸ hr n v rfl hn) hf

theorem lookup_cons_iff (i : Numbered d seen) {m : Text} (h : d.ids.lookup m = none) (w : Nat) (n : Text)
    (v : Nat) :
    ((m, w) :: d.ids).lookup n = some v ↔ ⟨some n, v⟩ ∈ seen ++ [⟨some m, w⟩] := by
  have unseen (v : Nat) : ⟨some m, v⟩ ∉ seen := fun hv => by simp [(i.ids m v).mpr hv] at h
  by_cases hn : n = m
  case pos => subst hn; simp [unseen, eq_comm]
  case neg => simp [List.lookup_cons, beq_false_of_ne hn, i.ids, hn]

theorem lookup_idOf (i : Numbered d seen) (name : Option Text) (n : Text) (v : Nat) :
    (d.idOf name).2.ids.lookup n = some v ↔ ⟨some n, v⟩ ∈ seen ++ [⟨name, (d.idOf name).1⟩] := by
  have given := d.given_idOf name
  generalize d.idOf name = x at given
  cases given
  case anonymous     => simp [i.ids]
  case literal h _   => exact i.lookup_cons_iff h ..
  case fresh h _     => exact i.lookup_cons_iff h ..
  case known m w h   =>
    rw [i.ids, List.mem_append, List.mem_singleton]
    refine ⟨.inl, fun hv => hv.elim id fun he => ?_⟩
    exact he ▸ (i.ids m w).mp h

theorem id_eq_of_isLiteral (i : Numbered d seen) {v : Nat}
    (h : Occurrence.IsLiteral ⟨name, (d.idOf name).1⟩ v) : (d.idOf name).1 = v := by
  obtain ⟨n, rfl, hn⟩ := h
  have given := d.given_idOf (some n)
  generalize d.idOf (some n) = x at given
  cases given
  case known h     => exact i.literal _ ((i.ids ..).mp h) v ⟨n, rfl, hn⟩
  case literal h   => exact h.unique hn
  case fresh _ h   => exact absurd hn (h v)

theorem not_mem_reserved (i : Numbered d seen)
    (h : ∀ v, ¬Occurrence.IsLiteral ⟨name, (d.idOf name).1⟩ v) : (d.idOf name).1 ∉ d.reserved := by
  have given := d.given_idOf name
  generalize d.idOf name = x at given h
  cases given
  case anonymous      => exact d.freshId_not_mem_reserved
  case fresh          => exact d.freshId_not_mem_reserved
  case known hk       => exact i.fresh _ ((i.ids ..).mp hk) h
  case literal _ hn   => exact absurd ⟨_, rfl, hn⟩ (h _)

-- A further occurrence is numbered when its name is looked up and a node comes in under the number, unless
-- there is one that keeps its place.
theorem append (i : Numbered d seen) (hr : d.Covers name)
    {d' : Draft} (hi : d'.ids = (d.idOf name).2.ids) (he : d'.reserved = d.reserved)
    (hn : ∀ v, d'.graph.nodes.contains v ↔ d.graph.nodes.contains v ∨ v = (d.idOf name).1)
    (hc : ∀ v x, d'.graph.nodes.get? v = some x →
      d.graph.nodes.get? v = some x ∨ x.name = name ∧ v = (d.idOf name).1) :
    d'.Numbered (seen ++ [⟨name, (d.idOf name).1⟩]) where
  nodes v := by simp only [hn, i.nodes, List.mem_append, List.mem_singleton, or_and_right, exists_or,
    exists_eq_left, eq_comm]
  carried v x hx := by
    rcases hc v x hx with h | ⟨hn, hv⟩
    case inl => exact List.mem_append_left _ (i.carried v x h)
    case inr => simp [hn, hv]
  ids n v := by rw [hi, i.lookup_idOf]
  pairs := by
    refine List.pairwise_append.mpr ⟨i.pairs, List.pairwise_singleton .., fun a ha b hb => ?_⟩
    rw [List.mem_singleton.mp hb]
    exact i.id_eq_iff hr ha
  literal a ha v hv := by
    rcases List.mem_append.mp ha with ha | ha
    case inl => exact i.literal a ha v hv
    case inr => cases List.mem_singleton.mp ha; exact i.id_eq_of_isLiteral hv
  fresh a ha hv := by
    rw [he]
    rcases List.mem_append.mp ha with ha | ha
    case inl => exact i.fresh a ha hv
    case inr => cases List.mem_singleton.mp ha; exact i.not_mem_reserved hv

-- Only an occurrence whose name is a numeral has a number that some name stands for.
theorem not_isLiteral_id (i : Numbered d seen) {a b : Occurrence} (ha : a ∈ seen)
    (hf : ∀ v, ¬a.IsLiteral v) (hb : b ∈ seen) : ¬b.IsLiteral a.id := by
  intro hl
  have hne : a ≠ b := by
    rintro rfl
    exact hf _ hl
  have same := (i.pairs.forall ha hb hne).mp (i.literal b hb _ hl).symm
  obtain ⟨n, hn, hi⟩ := hl
  rw [hn] at same
  generalize hm : a.name = m at same
  cases same
  case name          => exact hf _ ⟨n, hm, hi⟩
  case numeral ha' _ => exact hf _ ⟨_, hm, ha'⟩

end Numbered

end Draft
end TikzPress.Graph
