/-!
Text and its byte offsets. A text is a list of characters; every offset, range and length of the
library counts the bytes of the UTF-8 form, so a cut is possible only between two characters.
Main statements: widths add up (`width_append`), and cutting a text where a part of it ends gives
back exactly the rest (`dropBytes?_width_append`).
-/

namespace TikzPress

abbrev Text := List Char

namespace Text

def width : Text → Nat
  | [] => 0
  | c :: t => c.utf8Size + width t

@[simp] theorem width_nil : width [] = 0 := rfl

@[simp] theorem width_cons (c : Char) (t : Text) : width (c :: t) = c.utf8Size + width t := rfl

@[simp] theorem width_append (a b : Text) : width (a ++ b) = width a + width b := by
  induction a
  case nil => simp
  case cons c a ih => simp [ih, Nat.add_assoc]

theorem length_le_width (t : Text) : t.length ≤ width t := by
  induction t
  case nil => simp
  case cons c t ih =>
    have := c.utf8Size_pos
    simp
    omega

theorem width_eq_length {t : Text} (h : ∀ c ∈ t, c.utf8Size = 1) : width t = t.length := by
  induction t
  case nil => rfl
  case cons c t ih =>
    rw [width_cons, h c (.head _), ih fun c hc => h c (.tail _ hc), List.length_cons, Nat.add_comm]

theorem width_eq_zero_iff {t : Text} : width t = 0 ↔ t = [] := by
  cases t
  case nil => simp
  case cons c t =>
    have := c.utf8Size_pos
    simp
    omega

def dropBytes? : Nat → Text → Option Text
  | 0, t => some t
  | _ + 1, [] => none
  | n + 1, c :: t => if c.utf8Size ≤ n + 1 then dropBytes? (n + 1 - c.utf8Size) t else none
termination_by structural _ t => t

def takeBytes? : Nat → Text → Option Text
  | 0, _ => some []
  | _ + 1, [] => none
  | n + 1, c :: t =>
    if c.utf8Size ≤ n + 1 then (takeBytes? (n + 1 - c.utf8Size) t).map (c :: ·) else none
termination_by structural _ t => t

def slice? (t : Text) (start stop : Nat) : Option Text :=
  if start ≤ stop then (dropBytes? start t).bind (takeBytes? (stop - start)) else none

@[simp] theorem dropBytes?_zero (t : Text) : dropBytes? 0 t = some t := by
  cases t <;> rfl

theorem dropBytes?_cons (n : Nat) (c : Char) (t : Text) :
    dropBytes? (c.utf8Size + n) (c :: t) = dropBytes? n t := by
  have := c.utf8Size_pos
  obtain ⟨m, hm⟩ : ∃ m, c.utf8Size + n = m + 1 := ⟨c.utf8Size + n - 1, by omega⟩
  rw [hm, dropBytes?, if_pos (by omega)]
  congr 1
  omega

@[simp] theorem dropBytes?_width_append (a b : Text) : dropBytes? (width a) (a ++ b) = some b := by
  induction a
  case nil => simp
  case cons c a ih => simpa [dropBytes?_cons] using ih

@[simp] theorem takeBytes?_zero (t : Text) : takeBytes? 0 t = some [] := by
  cases t <;> rfl

theorem takeBytes?_cons (n : Nat) (c : Char) (t : Text) :
    takeBytes? (c.utf8Size + n) (c :: t) = (takeBytes? n t).map (c :: ·) := by
  have := c.utf8Size_pos
  obtain ⟨m, hm⟩ : ∃ m, c.utf8Size + n = m + 1 := ⟨c.utf8Size + n - 1, by omega⟩
  rw [hm, takeBytes?, if_pos (by omega)]
  congr 2
  omega

@[simp] theorem takeBytes?_width_append (a b : Text) : takeBytes? (width a) (a ++ b) = some a := by
  induction a
  case nil => simp
  case cons c a ih => simp [takeBytes?_cons, ih]

theorem slice?_append (a b c : Text) :
    slice? (a ++ b ++ c) (width a) (width a + width b) = some b := by
  simp [slice?, List.append_assoc]

def ofNat (n : Nat) : Text := Nat.toDigits 10 n

theorem ofNat_eq_toString (n : Nat) : ofNat n = (toString n).toList := by
  simp [ofNat]

def dropLiteral? : Text → Text → Option Text
  | [], t => some t
  | _ :: _, [] => none
  | l :: literal, c :: t => if l = c then dropLiteral? literal t else none

theorem dropLiteral?_eq_some_iff {literal t rest : Text} :
    dropLiteral? literal t = some rest ↔ t = literal ++ rest := by
  induction literal generalizing t
  case nil => simp [dropLiteral?]
  case cons l literal ih =>
    cases t
    case nil => simp [dropLiteral?]
    case cons c t =>
      by_cases h : l = c
      case pos => simp [dropLiteral?, h, ih]
      case neg => simp [dropLiteral?, h, Ne.symm h]

@[simp] theorem dropLiteral?_append (literal rest : Text) :
    dropLiteral? literal (literal ++ rest) = some rest :=
  dropLiteral?_eq_some_iff.mpr rfl

def opensWith (literal t : Text) : Bool := (dropLiteral? literal t).isSome

def closesWith (literal t : Text) : Bool := opensWith literal.reverse t.reverse

def cutAtChar? (c : Char) (t : Text) : Option (Text × Text) :=
  match t.dropWhile (· ≠ c) with
  | [] => none
  | _ :: rest => some (t.takeWhile (· ≠ c), rest)

theorem length_lt_of_cutAtChar? {c : Char} {t before after : Text}
    (h : cutAtChar? c t = some (before, after)) : after.length < t.length := by
  have hl := (List.dropWhile_sublist (· ≠ c) (l := t)).length_le
  unfold cutAtChar? at h
  split at h
  case h_1 => contradiction
  case h_2 hd =>
    simp only [Option.some.injEq, Prod.mk.injEq] at h
    rw [hd, h.2, List.length_cons] at hl
    exact hl

theorem cutAtChar?_cons (c x : Char) (t : Text) : cutAtChar? c (x :: t) =
    if x = c then some ([], t) else (cutAtChar? c t).map fun (a, b) => (x :: a, b) := by
  by_cases h : x = c
  case pos => simp [cutAtChar?, h]
  case neg =>
    simp only [cutAtChar?, List.dropWhile_cons, List.takeWhile_cons, decide_eq_true h, if_true, if_neg h]
    split <;> rfl

theorem cutAtChar?_eq_some_iff {c : Char} {t a b : Text} :
    cutAtChar? c t = some (a, b) ↔ t = a ++ [c] ++ b ∧ c ∉ a := by
  induction t generalizing a
  case nil => simp [cutAtChar?]
  case cons x t hi =>
    rw [cutAtChar?_cons]
    split
    case isTrue hx =>
      cases a
      case nil  => simp [hx, eq_comm]
      case cons =>
        simp only [hx, List.cons_append, List.cons.injEq, List.mem_cons, not_or]
        grind
    case isFalse hx =>
      cases a
      case nil  => simp [hx]
      case cons =>
        simp only [Option.map_eq_some_iff, Prod.exists, Prod.mk.injEq, List.cons_append, List.cons.injEq,
          List.mem_cons, not_or]
        grind

theorem cutAtChar?_eq_none_iff {c : Char} {t : Text} : cutAtChar? c t = none ↔ c ∉ t := by
  induction t
  case nil => simp [cutAtChar?]
  case cons x t hi =>
    rw [cutAtChar?_cons]
    split
    case isTrue hx  => simp [hx]
    case isFalse hx => simp [hi, Ne.symm hx]

theorem append_of_cutAtChar? {c : Char} {t a b : Text} (h : cutAtChar? c t = some (a, b)) : a ++ [c] ++ b = t :=
  (cutAtChar?_eq_some_iff.mp h).left.symm

def piecesAt (c : Char) : Text → List Text
  | [] => [[]]
  | x :: t =>
    if x = c then [] :: piecesAt c t
    else match piecesAt c t with
      | [] => [[x]]
      | p :: ps => (x :: p) :: ps

def joinWith (between : Text) : List Text → Text
  | [] => []
  | [t] => t
  | t :: u :: ts => t ++ between ++ joinWith between (u :: ts)

theorem joinWith_cons {b t : Text} {ts : List Text} (h : ts ≠ []) :
    joinWith b (t :: ts) = t ++ b ++ joinWith b ts := by
  cases ts
  case nil => contradiction
  case cons => rfl

theorem joinWith_cons_cons (b : Text) (c : Char) (t : Text) (ts : List Text) :
    joinWith b ((c :: t) :: ts) = c :: joinWith b (t :: ts) := by
  cases ts <;> rfl

theorem joinWith_eq_nil_iff {b : Text} {ts : List Text} (h : ∀ t ∈ ts, t ≠ []) :
    joinWith b ts = [] ↔ ts = [] := by
  cases ts
  case nil => simp [joinWith]
  case cons t ts =>
    have := h t (.head _)
    cases ts <;> simp [joinWith, this]

theorem mem_of_mem_joinWith {b : Text} {ts : List Text} {c : Char} (h : c ∈ joinWith b ts) :
    c ∈ b ∨ ∃ t ∈ ts, c ∈ t := by
  induction ts
  case nil => simp [joinWith] at h
  case cons t ts ih =>
    by_cases hn : ts = []
    case pos => exact .inr ⟨t, .head _, by rwa [hn, joinWith] at h⟩
    case neg =>
      rw [joinWith_cons hn, List.mem_append, List.mem_append] at h
      obtain (h | h) | h := h
      case inl.inl => exact .inr ⟨t, .head _, h⟩
      case inl.inr => exact .inl h
      case inr     => exact (ih h).imp_right fun ⟨u, hu, hc⟩ => ⟨u, .tail _ hu, hc⟩

-- By code point, which is also the order of the UTF-8 forms.
def before : Text → Text → Bool
  | [], [] => false
  | [], _ :: _ => true
  | _ :: _, [] => false
  | a :: s, b :: t => if a = b then before s t else a.toNat < b.toNat

end Text
end TikzPress
