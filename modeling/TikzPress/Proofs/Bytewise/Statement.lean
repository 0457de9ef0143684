import TikzPress.Proofs.Bytewise.Scanner
import TikzPress.Proofs.Statement.Slices

/-!
A body cut into statements by the byte, and scanners run on them. Main statements: the cuts are those of the
reading by characters (`split_eq`), and what is scanned statement by statement is what is read so
(`scanned_eq`).
-/

namespace TikzPress.Bytewise

open Text

-- The statements of a body from `start` on. The next byte has the index `i`, and `depth` braces are open there.
def splitFrom (limit : Nat) (body : Text) (depth start i : Nat) : Bytes → Checked (List Slice)
  | []      => do
    let tail ← restAt body start
    return if trim tail = [] then [] else [⟨tail, start⟩]
  | b :: bs =>
    if b = byte '\x7b' then do
      splitFrom limit body (← sum limit depth 1) start (i + 1) bs
    else if b = byte '\x7d' then
      splitFrom limit body (depth - 1) start (i + 1) bs
    else if b = byte ';' ∧ depth = 0 then do
      let next ← sum limit i 1
      let text ← slice body start next
      return ⟨text, start⟩ :: (← splitFrom limit body depth next (i + 1) bs)
    else splitFrom limit body depth start (i + 1) bs

def split (limit : Nat) (body : Text) : Checked (List Slice) :=
  splitFrom limit body 0 0 0 (encode body)

variable {limit : Nat} {t : Text}

section Split

theorem braceAfter_le (d : Nat) (c : Char) : Statement.braceAfter d c ≤ d + 1 := by
  unfold Statement.braceAfter
  split_ifs <;> omega

-- The statements of a text from the byte `start` on, when `cur` is read already and `d` braces are open.
def resumed (d start : Nat) (cur t : Text) : List Slice :=
  match Statement.take? d t with
  | none        => if isBlankOnly (cur ++ t) then [] else [⟨cur ++ t, start⟩]
  | some (s, r) => ⟨cur ++ s, start⟩ :: Statement.splitFrom (start + width (cur ++ s)) r

theorem resumed_start (start : Nat) (t : Text) : resumed 0 start [] t = Statement.splitFrom start t := by
  rw [resumed]
  cases h : Statement.take? 0 t
  case none => exact (Statement.splitFrom_of_none h start).symm
  case some => exact (Statement.splitFrom_of_some h start).symm

theorem resumed_semicolon (start : Nat) (cur t : Text) : resumed 0 start cur (';' :: t) =
    ⟨cur ++ [';'], start⟩ :: Statement.splitFrom (start + width (cur ++ [';'])) t :=
  rfl

theorem resumed_cons {c : Char} {d : Nat} (hc : ¬(c = ';' ∧ d = 0)) (start : Nat) (cur t : Text) :
    resumed d start cur (c :: t) = resumed (Statement.braceAfter d c) start (cur ++ [c]) t := by
  rw [resumed, resumed, Statement.take?_cons hc]
  cases Statement.take? (Statement.braceAfter d c) t <;> simp

theorem splitFrom_cons {c : Char} {d : Nat} (hc : ¬(c = ';' ∧ d = 0)) (hd : d < limit) (body : Text)
    (start i : Nat) :
    splitFrom limit body d start i (encode (c :: t)) =
      splitFrom limit body (Statement.braceAfter d c) start (i + c.utf8Size) (encode t) := by
  by_cases ha : IsAscii c
  case pos =>
    have deeper : sum limit d 1 = .ok (d + 1) := sum_of_le hd
    simp (disch := first | assumption | decide) only [encode_cons_of_ascii, splitFrom, Statement.braceAfter,
      utf8Size_of_ascii, byte_inj, deeper, ok_bind, if_neg hc]
    split_ifs <;> rfl
  case neg =>
    have other {x : Char} (hx : IsAscii x) : c ≠ x := fun h => ha (h ▸ hx)
    have passes (i : Nat) (b : UInt8) (bs : Bytes) (hb : 0x80 ≤ b) :
        splitFrom limit body d start i (b :: bs) = splitFrom limit body d start (i + 1) bs := by
      have other {x : Char} (hx : IsAscii x) : b ≠ byte x := byte_ne hx hb
      simp (disch := decide) only [splitFrom, other, false_and, if_false]
    simp (disch := decide) only [skip_encode passes ha, Statement.braceAfter, other, if_false]

-- The statement that starts at the end of `lead` holds `cur` so far.
theorem splitFrom_encode (lead cur : Text) {d : Nat} (hd : d ≤ width (lead ++ cur))
    (hl : width (lead ++ cur ++ t) ≤ limit) :
    splitFrom limit (lead ++ cur ++ t) d (width lead) (width (lead ++ cur)) (encode t) =
      .ok (resumed d (width lead) cur t) := by
  induction t generalizing lead cur d
  case nil =>
    have tail := restAt_append lead cur
    simp [encode, splitFrom, resumed, Statement.take?, tail, Text.trim_eq_nil_iff]
  case cons c t ih =>
    have hc := c.utf8Size_pos
    have whole : lead ++ cur ++ c :: t = lead ++ (cur ++ [c]) ++ t := by simp
    have behind : width (lead ++ (cur ++ [c])) = width (lead ++ cur) + c.utf8Size := by simp [Nat.add_assoc]
    have room : width (lead ++ cur) + c.utf8Size + width t ≤ limit := by
      rwa [whole, width_append, behind] at hl
    by_cases hcut : c = ';' ∧ d = 0
    case pos =>
      obtain ⟨rfl, rfl⟩ := hcut
      have later := ih (lead ++ (cur ++ [';'])) [] (Nat.zero_le _) (by simpa using hl)
      have text := slice_append lead (cur ++ [';']) t
      have step : ';'.utf8Size = 1 := rfl
      rw [step] at behind room
      rw [← width_append, behind, ← whole] at text
      rw [List.append_nil, resumed_start, behind, ← whole] at later
      rw [encode_cons_of_ascii (by decide), splitFrom, if_neg (by decide), if_neg (by decide),
        if_pos (by decide), sum_of_le (by omega), ok_bind, text, ok_bind, later, resumed_semicolon,
        ← width_append, behind]
      rfl
    case neg =>
      have := braceAfter_le d c
      have later := ih lead (cur ++ [c]) (d := Statement.braceAfter d c) (by omega) (whole ▸ hl)
      rw [← whole, behind] at later
      rw [splitFrom_cons hcut (by omega), later, resumed_cons hcut]

theorem split_eq (hl : width t ≤ limit) : split limit t = .ok (Statement.split t) := by
  have := splitFrom_encode [] [] (Nat.zero_le _) hl
  rwa [resumed_start] at this

theorem stop_le_of_mem_split {s : Slice} (h : s ∈ Statement.split t) : s.range.stop ≤ width t := by
  obtain ⟨lead, rest, rfl, hs⟩ := (Statement.cut_of_mem h).placed
  simp only [Slice.range, hs, width_append]
  omega

end Split

section Scanned

variable {w base : Nat} {P : α → Prop}

theorem filterMapM_eq {f : α → Checked (Option β)} {g : α → Option β} {l : List α}
    (h : ∀ a ∈ l, f a = .ok (g a)) :
    l.filterMapM f = .ok (l.filterMap g) := by
  induction l
  case nil => rfl
  case cons a l ih =>
    obtain ⟨ha, hl⟩ := List.forall_mem_cons.mp h
    rw [List.filterMapM_cons, ha, ok_bind, ih hl, List.filterMap_cons]
    cases g a <;> rfl

theorem filterMapM_sound {f : α → Checked (Option β)} {g : α → Option β} {l : List α} {P : β → Prop}
    (h : ∀ a ∈ l, f a = .ok (g a) ∧ ∀ b ∈ g a, P b) :
    l.filterMapM f = .ok (l.filterMap g) ∧ ∀ b ∈ l.filterMap g, P b := by
  refine ⟨filterMapM_eq fun a ha => (h a ha).left, fun b hb => ?_⟩
  obtain ⟨a, ha, hb⟩ := List.mem_filterMap.mp hb
  exact (h a ha).right b hb

-- The value that a scanner takes at the start of a text.
def scanned (q : Scanner α) (t : Text) : Checked (Option α) := do
  return (← q t 0).map Prod.fst

theorem scanned_eq {q : Scanner α} {p : Reader α} (hq : Follows (width t) P q p) :
    scanned q t = .ok ((p.run t).map Prod.fst) ∧ ∀ a ∈ (p.run t).map Prod.fst, P a := by
  have := hq [] t rfl
  rw [scanned]
  show (q ([] ++ t) (width []) >>= _) = .ok ((p t).map _) ∧ ∀ a ∈ (p t).map Prod.fst, P a
  generalize p t = x, q ([] ++ t) (width []) = y at this
  cases this
  case declined => exact ⟨rfl, nofun⟩
  case taken ht ha => exact ⟨rfl, by simpa using ha⟩

end Scanned

end TikzPress.Bytewise
