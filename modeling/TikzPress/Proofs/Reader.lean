import TikzPress.Reference
import TikzPress.OptionList

/-!
What readers leave of a text, and what they owe to its end. A reader that counts from the end of a text reads
the same in a longer text, with its places moved (`Moves`), because what it leaves is never wider than what it
was given (`Narrows`).
-/

namespace TikzPress

open Text

namespace Reader

-- What a reader leaves is not wider than the text.
def Narrows (p : Reader α) : Prop :=
  ∀ t, ∀ x ∈ p t, width x.2 ≤ width t

-- What a reader leaves is narrower than the text.
def Shortens (p : Reader α) : Prop :=
  ∀ t, ∀ x ∈ p t, width x.2 < width t

-- Of a text of at most `w` bytes both readers take the same, and one gives `g` of what the other gives.
def Moves (w : Nat) (g : α → β) (p : Reader α) (q : Reader β) : Prop :=
  ∀ t, width t ≤ w → q t = (p t).map fun (a, u) => (g a, u)

variable {p : Reader α} {q : Reader β} {g : α → β} {w : Nat}

namespace Narrows

theorem pure (a : α) : Narrows (pure a : Reader α) := by
  rintro t _ ⟨⟩
  exact Nat.le_refl _

theorem bind {f : α → Reader β} (hp : Narrows p) (hf : ∀ a, Narrows (f a)) : Narrows (p >>= f) := by
  intro t x hx
  obtain ⟨⟨a, u⟩, ha, hx⟩ := Option.bind_eq_some_iff.mp hx
  exact Nat.le_trans (hf a u x hx) (hp t _ ha)

theorem map (g : α → β) (hp : Narrows p) : Narrows (g <$> p) := by
  rw [map_eq_pure_bind]
  exact hp.bind fun _ => .pure _

theorem orElse {p q : Reader α} (hp : Narrows p) (hq : Narrows q) : Narrows (p <|> q) := by
  intro t x hx
  have hx : (p t <|> q t) = some x := hx
  cases h : p t
  case none =>
    rw [h] at hx
    exact hq t x hx
  case some =>
    rw [h] at hx
    cases hx
    exact hp t x h

theorem optional (hp : Narrows p) : Narrows (optional p) :=
  (hp.map some).orElse (.pure none)

end Narrows

namespace Shortens

theorem after {f : α → Reader β} (hp : Narrows p) (hf : ∀ a, Shortens (f a)) : Shortens (p >>= f) := by
  intro t x hx
  obtain ⟨⟨a, u⟩, ha, hx⟩ := Option.bind_eq_some_iff.mp hx
  exact Nat.lt_of_lt_of_le (hf a u x hx) (hp t _ ha)

theorem bind {f : α → Reader β} (hp : Shortens p) (hf : ∀ a, Narrows (f a)) : Shortens (p >>= f) := by
  intro t x hx
  obtain ⟨⟨a, u⟩, ha, hx⟩ := Option.bind_eq_some_iff.mp hx
  exact Nat.lt_of_le_of_lt (hf a u x hx) (hp t _ ha)

theorem orElse {p q : Reader α} (hp : Shortens p) (hq : Shortens q) : Shortens (p <|> q) := by
  intro t x hx
  have hx : (p t <|> q t) = some x := hx
  cases h : p t
  case none =>
    rw [h] at hx
    exact hq t x hx
  case some =>
    rw [h] at hx
    cases hx
    exact hp t x h

end Shortens

namespace Moves

theorem refl (w : Nat) (p : Reader α) : Moves w id p p := fun t _ => by
  simp

theorem bind {f : α → Reader γ} {f' : β → Reader δ} {h : γ → δ} (hm : Moves w g p q) (hp : Narrows p)
    (hf : ∀ a, Moves w h (f a) (f' (g a))) : Moves w h (p >>= f) (q >>= f') := by
  intro t ht
  show (q t).bind _ = ((p t).bind _).map _
  rw [hm t ht]
  cases hx : p t
  case none => rfl
  case some x => exact hf x.1 x.2 (Nat.le_trans (hp t x hx) ht)

theorem bind_pure {f : α → γ} {f' : β → δ} {h : γ → δ} (hm : Moves w g p q) (hf : ∀ a, f' (g a) = h (f a)) :
    Moves w h (p >>= fun a => pure (f a)) (q >>= fun b => pure (f' b)) := by
  intro t ht
  show (q t).bind _ = ((p t).bind _).map _
  rw [hm t ht]
  cases p t
  case none   => rfl
  case some x => exact congrArg (fun y => some (y, x.2)) (hf x.1)

theorem many_eq (hm : Moves w g p q) (hp : Narrows p) {t : Text} (ht : width t ≤ w) :
    q.many t = ((p.many t).1.map g, (p.many t).2) := by
  fun_induction Reader.many p t
  case case1 t hn =>
    rw [Reader.many, hm t ht, hn]
    rfl
  case case2 t a u hx hl as v hs hi =>
    have later := hi (Nat.le_trans (hp t _ hx) ht)
    rw [Reader.many, hm t ht, hx]
    simp [hl, later, hs]
  case case3 t a u hx hl =>
    rw [Reader.many, hm t ht, hx]
    simp [hl]

theorem many (hm : Moves w g p q) (hp : Narrows p) :
    Moves w (List.map g) (fun t => some (p.many t)) (fun t => some (q.many t)) := fun _ ht =>
  congrArg some (many_eq hm hp ht)

end Moves
end Reader

namespace Token

open Reader

theorem width_trimStart_le (t : Text) : width (trimStart t) ≤ width t := by
  have := congrArg width (takeWhile_append_trimStart t)
  rw [width_append] at this
  omega

theorem width_le_of_dropLiteral? {l t u : Text} (h : dropLiteral? l t = some u) : width u ≤ width t := by
  rw [dropLiteral?_eq_some_iff.mp h, width_append]
  omega

theorem width_le_of_wordHere? {w t u : Text} (h : wordHere? w t = some u) : width u ≤ width t := by
  unfold wordHere? at h
  split at h
  case h_1 hd =>
    split at h
    case isTrue  => contradiction
    case isFalse => cases h; exact width_le_of_dropLiteral? hd
  case h_2 => exact width_le_of_dropLiteral? h

theorem narrows_literal (l : Text) : Narrows (literal l) := by
  intro t x hx
  obtain ⟨u, hu, rfl⟩ := Option.map_eq_some_iff.mp hx
  exact Nat.le_trans (width_le_of_dropLiteral? hu) (width_trimStart_le t)

theorem narrows_keyword (w : Text) : Narrows (keyword w) := by
  intro t x hx
  obtain ⟨u, hu, rfl⟩ := Option.map_eq_some_iff.mp hx
  exact Nat.le_trans (width_le_of_wordHere? hu) (width_trimStart_le t)

theorem narrows_command (name : Text) : Narrows (command name) := by
  refine (narrows_literal _).bind fun _ t x hx => ?_
  obtain ⟨u, hu, rfl⟩ := Option.map_eq_some_iff.mp hx
  exact width_le_of_wordHere? hu

theorem narrows_group (o c : Char) : Narrows (group o c) := by
  rintro t ⟨s, u⟩ hx
  have := congrArg width (Bracket.append_of_take? hx)
  have := width_trimStart_le t
  simp only [width_append] at *
  omega

theorem shortens_group (o c : Char) : Shortens (group o c) := by
  rintro t ⟨s, u⟩ hx
  have := congrArg width (Bracket.append_of_take? hx)
  have := width_trimStart_le t
  obtain ⟨inner, rfl⟩ := Bracket.take?_eq_append hx
  have := o.utf8Size_pos
  simp only [width_append, width_cons] at *
  omega

theorem narrows_ranged {p : Reader α} (hp : Narrows p) (stop : Nat) : Narrows (ranged stop p) := by
  intro t x hx
  obtain ⟨y, hy, rfl⟩ := Option.map_eq_some_iff.mp hx
  exact Nat.le_trans (hp _ y hy) (width_trimStart_le t)

theorem shortens_ranged {p : Reader α} (hp : Shortens p) (stop : Nat) : Shortens (ranged stop p) := by
  intro t x hx
  obtain ⟨y, hy, rfl⟩ := Option.map_eq_some_iff.mp hx
  exact Nat.lt_of_lt_of_le (hp _ y hy) (width_trimStart_le t)

-- Both ends of a range are counted from the end of the text.
theorem moves_ranged {p : Reader α} (hp : Narrows p) (stop n : Nat) :
    Moves stop (fun (a, r) => (a, r.shift n)) (ranged stop p) (ranged (stop + n) p) := by
  intro t ht
  have htrim := width_trimStart_le t
  simp only [ranged, Option.map_map]
  refine Option.map_congr fun x hx => ?_
  have := hp _ x hx
  have starts : stop + n - width (trimStart t) = stop - width (trimStart t) + n := by omega
  have stops : stop + n - width x.2 = stop - width x.2 + n := by omega
  simp [Range.shift, starts, stops]

end Token

theorem OptionList.narrows_read : Reader.Narrows OptionList.read :=
  (Token.narrows_group _ _).map _

theorem Reference.narrows_read : Reader.Narrows Reference.read :=
  (Token.narrows_group _ _).map _

theorem Reference.shortens_read : Reader.Shortens Reference.read := by
  rw [Reference.read, map_eq_pure_bind]
  exact (Token.shortens_group _ _).bind fun _ => .pure _

end TikzPress
