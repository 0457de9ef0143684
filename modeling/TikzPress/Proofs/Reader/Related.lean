import Mathlib.Data.List.Forall2
import TikzPress.Proofs.Reader
import TikzPress.Proofs.Token

/-!
Readers that do alike. Two readers are related if of related texts both take something, or neither of them does;
what they take and what they leave is related then. Main statements: readers that are made alike of related ones
are related (`Related.bind`, `Related.orElse`), and so are those that read as often as they can (`Related.many`).
-/

namespace TikzPress

namespace Reader

-- What a reader leaves is a rear part of the text.
def Leaves (p : Reader α) : Prop :=
  ∀ t, ∀ x ∈ p t, x.2 <:+ t

def Related (Q : Text → Text → Prop) (R : α → β → Prop) (p : Reader α) (q : Reader β) : Prop :=
  ∀ t u, Q t u → Option.Rel (fun x y => R x.1 y.1 ∧ Q x.2 y.2) (p t) (q u)

namespace Leaves

variable {p : Reader α}

theorem pure (a : α) : Leaves (pure a : Reader α) := by
  rintro t _ ⟨⟩
  exact List.suffix_rfl

theorem bind {f : α → Reader β} (hp : Leaves p) (hf : ∀ a, Leaves (f a)) : Leaves (p >>= f) := by
  intro t x hx
  obtain ⟨⟨a, u⟩, ha, hx⟩ := Option.bind_eq_some_iff.mp hx
  exact (hf a u x hx).trans (hp t _ ha)

theorem map (g : α → β) (hp : Leaves p) : Leaves (g <$> p) := by
  rw [map_eq_pure_bind]
  exact hp.bind fun _ => .pure _

theorem orElse {p q : Reader α} (hp : Leaves p) (hq : Leaves q) : Leaves (p <|> q) := by
  intro t x hx
  have hx : (p t <|> q t) = some x := hx
  cases h : p t
  case none => exact hq t x (by rwa [h] at hx)
  case some =>
    rw [h] at hx
    exact hp t x (h.trans hx)

theorem optional (hp : Leaves p) : Leaves (optional p) :=
  (hp.map some).orElse (.pure none)

end Leaves

namespace Related

variable {Q : Text → Text → Prop} {R : α → β → Prop} {p : Reader α} {q : Reader β} {t u : Text}

theorem pure {a : α} {b : β} (h : R a b) : Related Q R (pure a) (pure b) :=
  fun _ _ hq => .some ⟨h, hq⟩

theorem congr {p' : Reader α} {q' : Reader β} (hp : Related Q R p q)
    (h : ∀ t u, Q t u → p' t = p t ∧ q' u = q u) : Related Q R p' q' := by
  intro t u hq
  rw [(h t u hq).left, (h t u hq).right]
  exact hp t u hq

theorem bind {S : γ → δ → Prop} {f : α → Reader γ} {g : β → Reader δ} (hp : Related Q R p q)
    (hf : ∀ a b, R a b → Related Q S (f a) (g b)) : Related Q S (p >>= f) (q >>= g) := by
  intro t u hq
  have := hp t u hq
  show Option.Rel _ ((p t).bind _) ((q u).bind _)
  generalize p t = x, q u = y at this
  cases this
  case none    => exact .none
  case some h  => exact hf _ _ h.left _ _ h.right

theorem map {S : γ → δ → Prop} {f : α → γ} {g : β → δ} (hp : Related Q R p q)
    (h : ∀ a b, R a b → S (f a) (g b)) : Related Q S (f <$> p) (g <$> q) := by
  rw [map_eq_pure_bind, map_eq_pure_bind]
  exact hp.bind fun a b hr => .pure (h a b hr)

theorem orElse {p' : Reader α} {q' : Reader β} (hp : Related Q R p q) (hp' : Related Q R p' q') :
    Related Q R (p <|> p') (q <|> q') := by
  intro t u hq
  have := hp t u hq
  show Option.Rel _ (p t <|> p' t) (q u <|> q' u)
  generalize p t = x, q u = y at this
  cases this
  case none    => exact hp' t u hq
  case some h  => exact .some h

theorem bind_same {p q : Reader α} (hp : Related Q Eq p q) {S : γ → δ → Prop} {f : α → Reader γ}
    {g : α → Reader δ} (hf : ∀ a, Related Q S (f a) (g a)) : Related Q S (p >>= f) (q >>= g) :=
  hp.bind fun a _ he => he ▸ hf a

theorem map_same {p q : Reader α} (hp : Related Q Eq p q) (f : α → γ) : Related Q Eq (f <$> p) (f <$> q) :=
  hp.map fun _ _ => congrArg f

theorem optional_same {p q : Reader α} (hp : Related Q Eq p q) : Related Q Eq (optional p) (optional q) :=
  (hp.map_same some).orElse (.pure rfl)

theorem optional (hp : Related Q R p q) : Related Q (Option.Rel R) (optional p) (optional q) :=
  (hp.map (S := Option.Rel R) fun _ _ => .some).orElse (.pure .none)

-- The one reading makes its text shorter if the other one does.
theorem many (hp : Related Q R p q)
    (hs : ∀ t u, Q t u → ∀ x ∈ p t, ∀ y ∈ q u, Q x.2 y.2 → (x.2.length < t.length ↔ y.2.length < u.length)) :
    Related Q (List.Forall₂ R) (fun t => some (p.many t)) (fun t => some (q.many t)) := by
  intro t u hq
  suffices h : List.Forall₂ R (p.many t).1 (q.many u).1 ∧ Q (p.many t).2 (q.many u).2 from .some h
  fun_induction Reader.many p t generalizing u
  case case1 t hn =>
    have := hp t u hq
    rw [hn] at this
    rw [Reader.many]
    generalize q u = y at this
    cases this
    exact ⟨.nil, hq⟩
  case case2 t a t' hx hl as v hm ih =>
    have := hp t u hq
    have short := hs t u hq _ hx
    rw [hx] at this
    rw [Reader.many]
    generalize q u = y at this short
    cases this
    case some y h =>
      have later := ih _ h.right
      simp only [if_pos ((short y rfl h.right).mp hl), hm] at later ⊢
      exact ⟨.cons h.left later.left, later.right⟩
  case case3 t a t' hx hl =>
    have := hp t u hq
    have short := hs t u hq _ hx
    rw [hx] at this
    rw [Reader.many]
    generalize q u = y at this short
    cases this
    case some y h =>
      simp only [if_neg (mt (short y rfl h.right).mpr hl)]
      exact ⟨.nil, hq⟩

end Related
end Reader

namespace Token

open Text Reader

theorem trimStart_suffix (t : Text) : trimStart t <:+ t :=
  List.dropWhile_suffix _

theorem trimStart_trimStart (t : Text) : trimStart (trimStart t) = trimStart t := by
  refine trimStart_of_head? fun c hc => ?_
  obtain ⟨u, hu⟩ := List.head?_eq_some_iff.mp hc
  exact trimStart_cons_not_isBlank hu

theorem append_of_literal {l t u : Text} (h : literal l t = some ((), u)) : l ++ u = trimStart t :=
  literal_eq_some_iff.mp h

theorem append_of_keyword {w t u : Text} (h : keyword w t = some ((), u)) : w ++ u = trimStart t :=
  (keyword_eq_some_iff.mp h).left

theorem append_of_command {name t u : Text} (h : command name t = some ((), u)) :
    '\\' :: name ++ u = trimStart t :=
  (command_eq_some_iff.mp h).left

theorem leaves_keyword (w : Text) : Leaves (keyword w) := fun _ _ h =>
  (List.suffix_append w _).trans (append_of_keyword h ▸ trimStart_suffix _)

theorem leaves_command (name : Text) : Leaves (command name) := fun _ _ h =>
  (List.suffix_append _ _).trans (append_of_command h ▸ trimStart_suffix _)

theorem leaves_group (o c : Char) : Leaves (group o c) := fun _ _ h =>
  (List.suffix_append _ _).trans (Bracket.append_of_take? h ▸ trimStart_suffix _)

end Token

theorem OptionList.leaves_read : Reader.Leaves OptionList.read :=
  (Token.leaves_group _ _).map _

theorem Reference.leaves_read : Reader.Leaves Reference.read :=
  (Token.leaves_group _ _).map _

end TikzPress
