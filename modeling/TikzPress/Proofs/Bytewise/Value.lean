import TikzPress.Circuit
import TikzPress.Proofs.Bytewise.Checked
import TikzPress.Proofs.OptionList
import TikzPress.Proofs.Reader

/-!
What is read out of option lists and references, by the byte. Main statements: none of it faults for a text
between brackets, and it is what the reading by characters gives (`items_eq`, `place_eq`, `coordinate_eq`,
`kind_eq`).
-/

namespace TikzPress.Bytewise

open Text

-- A text between brackets.
structure Wrapped (o c : Char) (t : Text) : Prop where
  long   : 2 ≤ width t
  opens  : t.head? = some o
  closes : t.getLast? = some c

-- The text between the brackets.
def inner (raw : Text) : Checked Text := do
  slice raw 1 (← difference (width raw) 1)

-- The pieces of a text from `start` on. The next byte has the index `i`, and `depth` brackets are open there.
def piecesFrom (limit : Nat) (t : Text) (depth start i : Nat) : Bytes → Checked (List Text)
  | []      => return [← restAt t start]
  | b :: bs =>
    if b = byte '\x7b' ∨ b = byte '(' then do
      piecesFrom limit t (← sum limit depth 1) start (i + 1) bs
    else if b = byte '\x7d' ∨ b = byte ')' then
      piecesFrom limit t (depth - 1) start (i + 1) bs
    else if b = byte ',' ∧ depth = 0 then do
      let piece ← slice t start i
      let start ← sum limit i 1
      return piece :: (← piecesFrom limit t depth start (i + 1) bs)
    else piecesFrom limit t depth start (i + 1) bs

def items (limit : Nat) (o : OptionList) : Checked (List Text) := do
  let inner ← inner o.raw
  let pieces ← piecesFrom limit inner 0 0 0 (encode inner)
  return (pieces.map trim).filter (· ≠ [])

-- The component that an option list names.
def componentName (limit : Nat) (options : Option OptionList) : Checked Text := do
  match options with
  | none   => return Circuit.defaultComponent
  | some o => return (← items limit o).headD Circuit.defaultComponent

def kind (s : Circuit.Segment) : Checked (Option Text) := do
  match s.link with
  | .wire             => return none
  | .component name _ =>
    match ← splitOnce '=' name with
    | some (kind, _) => return some (trim kind)
    | none           => return some name

-- The place that the text between the parentheses stands for.
def place (inner : Text) : Checked Place := do
  let inner := trim inner
  if inner = [] then return .anonymous
  match ← splitOnce '.' inner with
  | some (name, anchor) => return if ',' ∈ inner then .named inner none else .named name (some anchor)
  | none                => return .named inner none

-- A cut that is not possible gives no coordinate.
def coordinate (raw : Text) : Checked (Option Coordinate) := do
  match if raw = [] then none else slice? raw 1 (width raw - 1) with
  | none       => return none
  | some inner =>
    match ← splitOnce ',' inner with
    | none        => return none
    | some (x, y) => return do return ⟨← Binary64.read? (trim x), ← Binary64.read? (trim y)⟩

def length (r : Range) : Checked Nat :=
  difference r.stop r.start

-- What a drawing is made of.
inductive Product
  | options (o : OptionList)
  | reference (r : Reference)
  | step (s : Circuit.Segment)
  | range (r : Range)

-- What a drawing is made of has the shape that its functions rely on, and they give what they should.
def Product.Sound (limit : Nat) : Product → Prop
  | options o   => Wrapped '[' ']' o.raw ∧ items limit o = .ok o.items
  | reference r => Wrapped '(' ')' r.raw ∧ coordinate r.raw = .ok r.coordinate?
  | step s      => kind s = .ok s.kind?
  | range r     => length r = .ok r.length

def AllSound (limit : Nat) (xs : List Product) : Prop :=
  ∀ x ∈ xs, x.Sound limit

def ofOptions (o : Option OptionList) : List Product :=
  o.toList.map .options

variable {limit : Nat} {o c : Char} {t raw : Text}

section Wrapping

theorem wrapped_append (o c : Char) (t : Text) : Wrapped o c ([o] ++ t ++ [c]) where
  long   := by
    have := o.utf8Size_pos
    have := c.utf8Size_pos
    simp
    omega
  opens  := rfl
  closes := List.getLast?_concat

theorem inner_append (ho : IsAscii o) (hc : IsAscii c) (t : Text) : inner ([o] ++ t ++ [c]) = .ok t := by
  have all : width ([o] ++ t ++ [c]) = 1 + width t + 1 := by
    simp [utf8Size_of_ascii ho, utf8Size_of_ascii hc, Nat.add_assoc]
  have front : width [o] = 1 := utf8Size_of_ascii ho
  have cut := slice_append [o] t [c]
  rw [inner, all, difference_of_le (by omega), ok_bind, Nat.add_sub_cancel, ← front, cut]

end Wrapping

section Items

open OptionList

theorem depthAfter_le (d : Nat) (c : Char) : depthAfter d c ≤ d + 1 := by
  unfold depthAfter
  split_ifs <;> omega

theorem piecesFrom_cons {x : Char} {d : Nat} (hx : ¬(x = ',' ∧ d = 0)) (hd : d < limit) (u : Text)
    (start i : Nat) :
    piecesFrom limit u d start i (encode (x :: t)) =
      piecesFrom limit u (depthAfter d x) start (i + x.utf8Size) (encode t) := by
  by_cases ha : IsAscii x
  case pos =>
    have deeper : sum limit d 1 = .ok (d + 1) := sum_of_le hd
    simp (disch := first | assumption | decide) only [encode_cons_of_ascii, piecesFrom, depthAfter,
      utf8Size_of_ascii, byte_inj, deeper, ok_bind, if_neg hx]
    split_ifs <;> rfl
  case neg =>
    have other {c : Char} (hc : IsAscii c) : x ≠ c := fun h => ha (h ▸ hc)
    have passes (i : Nat) (b : UInt8) (bs : Bytes) (hb : 0x80 ≤ b) :
        piecesFrom limit u d start i (b :: bs) = piecesFrom limit u d start (i + 1) bs := by
      have other {c : Char} (hc : IsAscii c) : b ≠ byte c := byte_ne hc hb
      simp (disch := decide) only [piecesFrom, other, or_self, false_and, if_false]
    simp (disch := decide) only [skip_encode passes ha, depthAfter, other, or_self, if_false]

-- The piece that the byte `start` opens holds `cur` so far.
theorem piecesFrom_encode (lead cur : Text) {d : Nat} (hd : d ≤ width (lead ++ cur))
    (hl : width (lead ++ cur ++ t) ≤ limit) :
    ∃ p ps, pieces d t = p :: ps ∧
      piecesFrom limit (lead ++ cur ++ t) d (width lead) (width (lead ++ cur)) (encode t) =
        .ok ((cur ++ p) :: ps) := by
  induction t generalizing lead cur d
  case nil =>
    refine ⟨[], [], rfl, ?_⟩
    have := restAt_append lead cur
    simp [encode, piecesFrom, this]
  case cons x t ih =>
    have hx := x.utf8Size_pos
    have whole : lead ++ cur ++ x :: t = lead ++ (cur ++ [x]) ++ t := by simp
    have behind : width (lead ++ (cur ++ [x])) = width (lead ++ cur) + x.utf8Size := by simp [Nat.add_assoc]
    have room : width (lead ++ cur) + x.utf8Size + width t ≤ limit := by
      rwa [whole, width_append, behind] at hl
    by_cases hcut : x = ',' ∧ d = 0
    case pos =>
      obtain ⟨rfl, rfl⟩ := hcut
      have next : lead ++ cur ++ ',' :: t = lead ++ cur ++ [','] ++ [] ++ t := by simp
      obtain ⟨p, ps, hp, hr⟩ := ih (lead ++ cur ++ [',']) [] (Nat.zero_le _) (next ▸ hl)
      refine ⟨[], p :: ps, by simp [pieces, hp], ?_⟩
      have piece := slice_append lead cur (',' :: t)
      have comma : width (lead ++ cur ++ [',']) = width (lead ++ cur) + 1 := by simp; rfl
      have step : ','.utf8Size = 1 := rfl
      rw [← next, List.append_nil, comma] at hr
      rw [← width_append] at piece
      rw [encode_cons_of_ascii (by decide), piecesFrom, if_neg (by decide), if_neg (by decide),
        if_pos (by decide), piece, ok_bind, sum_of_le (by omega), ok_bind, hr]
      simp
    case neg =>
      have := depthAfter_le d x
      obtain ⟨p, ps, hp, hr⟩ := ih lead (cur ++ [x]) (d := depthAfter d x) (by omega) (whole ▸ hl)
      refine ⟨x :: p, ps, by simp [pieces, if_neg hcut, hp], ?_⟩
      rw [← whole, behind] at hr
      rw [piecesFrom_cons hcut (by omega), hr, List.append_assoc]
      rfl

theorem items_eq {o : OptionList} (ho : o.raw = ['['] ++ t ++ [']']) (hl : width o.raw ≤ limit) :
    items limit o = .ok o.items := by
  have hin : o.inner = t := by
    have := inner_mk t
    rwa [← ho] at this
  have ht : width t ≤ limit := by
    rw [ho, width_append, width_append] at hl
    omega
  obtain ⟨p, ps, hp, hr⟩ := piecesFrom_encode [] [] (t := t) (Nat.zero_le _) ht
  have found : piecesFrom limit t 0 0 0 (encode t) = .ok (pieces 0 t) := by
    rw [hp]
    exact hr
  rw [items, ho, inner_append (by decide) (by decide), ok_bind, found, ok_bind, OptionList.items, hin]
  rfl

theorem componentName_eq {options : Option OptionList} (h : ∀ o ∈ options, items limit o = .ok o.items) :
    componentName limit options = .ok (Circuit.componentName options) := by
  cases options
  case none   => rfl
  case some o =>
    rw [componentName, h o rfl, ok_bind, Circuit.componentName]
    cases ho : o.items <;> simp [ho]

end Items

theorem kind_eq (s : Circuit.Segment) : kind s = .ok s.kind? := by
  rw [kind, Circuit.Segment.kind?]
  cases s.link
  case wire => rfl
  case component name _ =>
    simp only
    rw [splitOnce_eq (by decide), ok_bind]
    cases cutAtChar? '=' name <;> rfl

theorem place_eq (t : Text) : place t = .ok (Place.ofInner t) := by
  simp only [place, Place.ofInner]
  split
  case isTrue  => rfl
  case isFalse =>
    rw [splitOnce_eq (by decide), ok_bind]
    cases cutAtChar? '.' (trim t)
    case none => exact congrArg Except.ok (ite_self _).symm
    case some => rfl

theorem coordinate_eq (raw : Text) : coordinate raw = .ok (Coordinate.ofRaw? raw) := by
  rw [coordinate, Coordinate.ofRaw?]
  by_cases hn : raw = []
  case pos =>
    rw [if_pos hn, guard, if_neg (not_not.mpr hn)]
    rfl
  case neg =>
    rw [if_neg hn, guard, if_pos hn]
    cases slice? raw 1 (width raw - 1)
    case none       => rfl
    case some inner =>
      simp only
      rw [splitOnce_eq (by decide), ok_bind]
      cases hc : cutAtChar? ',' inner
      case none => simp [hc]
      case some => simp [hc]

section Soundness

variable {xs ys : List Product} {r : Range}

@[simp] theorem allSound_nil : AllSound limit [] :=
  nofun

@[simp] theorem allSound_append : AllSound limit (xs ++ ys) ↔ AllSound limit xs ∧ AllSound limit ys :=
  List.forall_mem_append

@[simp] theorem allSound_cons {x : Product} : AllSound limit (x :: xs) ↔ x.Sound limit ∧ AllSound limit xs :=
  List.forall_mem_cons

@[simp] theorem allSound_flatMap {f : α → List Product} {l : List α} :
    AllSound limit (l.flatMap f) ↔ ∀ a ∈ l, AllSound limit (f a) :=
  List.forall_mem_flatMap

theorem sound_range (h : r.start ≤ r.stop) : (Product.range r).Sound limit :=
  difference_of_le h

theorem sound_step (s : Circuit.Segment) : (Product.step s).Sound limit :=
  kind_eq s

theorem allSound_ofOptions {o : Option OptionList} (h : ∀ a ∈ o, (Product.options a).Sound limit) :
    AllSound limit (ofOptions o) := by
  cases o
  case none   => exact allSound_nil
  case some o => exact allSound_cons.mpr ⟨h o rfl, allSound_nil⟩

end Soundness

end TikzPress.Bytewise
