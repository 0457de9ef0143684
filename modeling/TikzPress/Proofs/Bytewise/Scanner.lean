import TikzPress.Proofs.Bytewise.Value
import TikzPress.Proofs.Token

/-!
Scanners: functions that take a value at a byte of a text. A scanner follows a reader if, at each place of a
text, it takes what the reader takes off the rest of the text and stops where the reader does, without a
fault (`Follows`). Main statements: scanners in sequence follow readers in sequence (`Follows.bind`), and each
scanner of a token follows the reader of that token.
-/

namespace TikzPress.Bytewise

open Text

-- Takes a value at a byte of a text and moves behind it, or declines and moves nothing.
def Scanner (α : Type) : Type :=
  Text → Nat → Checked (Option (α × Nat))

namespace Scanner

instance : Monad Scanner where
  pure a   := fun _ pos => .ok (some (a, pos))
  bind q f := fun src pos => do
    match ← q src pos with
    | none          => return none
    | some (a, pos) => f a src pos

def decline : Scanner α :=
  fun _ _ => .ok none

-- What is computed without looking at the text.
def lift (x : Checked α) : Scanner α :=
  fun _ pos => return some (← x, pos)

def orElse (q r : Scanner α) : Scanner α := fun src pos => do
  match ← q src pos with
  | none       => r src pos
  | some found => return some found

def attempt (q : Scanner α) : Scanner (Option α) :=
  orElse (do return some (← q)) (pure none)

def atEnd : Scanner Bool :=
  fun src pos => .ok (some (decide (width src ≤ pos), pos))

-- The place in a text in which the scanned one stands at the byte `base`.
def here (limit base : Nat) : Scanner Nat :=
  fun _ pos => return some (← sum limit base pos, pos)

-- Takes values until the scanner declines.
def many (q : Scanner α) (src : Text) (pos : Nat) : Checked (Option (List α × Nat)) := do
  match ← q src pos with
  | none           => return some ([], pos)
  | some (a, next) =>
    let ⟨_, _⟩ ← advance (width src) pos next
    match ← many q src next with
    | none            => return none
    | some (as, last) => return some (a :: as, last)
termination_by width src - pos

end Scanner

-- What a scanner makes at the end of `lead`, in front of `t`, when a reader makes `x` of `t`.
inductive Matches (P : α → Prop) (lead t : Text) : (x : Option (α × Text)) → Checked (Option (α × Nat)) → Prop
  | declined : Matches P lead t none (.ok none)
  | taken    : s ++ u = t → P a → Matches P lead t (some (a, u)) (.ok (some (a, width (lead ++ s))))

-- In texts of `w` bytes the scanner does what the reader does, and what is taken has the property.
def Follows (w : Nat) (P : α → Prop) (q : Scanner α) (p : Reader α) : Prop :=
  ∀ lead t, width (lead ++ t) = w → Matches P lead t (p t) (q (lead ++ t) (width lead))

theorem Matches.behind {P : α → Prop} {lead s t : Text} {x : Option (α × Text)} {y : Checked (Option (α × Nat))}
    (h : Matches P (lead ++ s) t x y) : Matches P lead (s ++ t) x y := by
  cases h
  case declined => exact .declined
  case taken s' u a ht ha =>
    rw [List.append_assoc]
    exact .taken (by rw [List.append_assoc, ht]) ha

namespace Follows

open Scanner

variable {w limit base : Nat} {P : α → Prop} {Q : β → Prop} {q : Scanner α} {p : Reader α}

theorem pure {a : α} (h : P a) : Follows w P (Pure.pure a) (Pure.pure a) := by
  intro lead t _
  have : Matches P lead t (some (a, t)) _ := .taken (s := []) rfl h
  rwa [List.append_nil] at this

theorem lift {x : Checked α} {a : α} (hx : x = .ok a) (h : P a) :
    Follows w P (Scanner.lift x) (Pure.pure a) := by
  subst hx
  exact Follows.pure h

theorem bind {g : α → Scanner β} {f : α → Reader β} (hq : Follows w P q p)
    (hf : ∀ a, P a → Follows w Q (g a) (f a)) :
    Follows w Q (q >>= g) (p >>= f) := by
  intro lead t hw
  have := hq lead t hw
  show Matches Q lead t ((p t).bind _) (q (lead ++ t) (width lead) >>= _)
  generalize p t = x, q (lead ++ t) (width lead) = y at this
  cases this
  case declined => exact .declined
  case taken s u a ht ha =>
    subst ht
    rw [← List.append_assoc] at hw ⊢
    exact (hf a ha _ u hw).behind

-- A value that is known beforehand.
theorem known_bind {b : β} {q : Scanner β} {g : β → Scanner α} (hq : Follows w (· = b) q (Pure.pure b))
    (h : Follows w P (g b) p) : Follows w P (q >>= g) p := by
  show Follows w P (q >>= g) (Pure.pure b >>= fun _ => p)
  exact hq.bind fun _ hb => hb ▸ h

theorem lift_bind {x : Checked β} {b : β} {g : β → Scanner α} (hx : x = .ok b) (h : Follows w P (g b) p) :
    Follows w P (Scanner.lift x >>= g) p :=
  (Follows.lift (P := (· = b)) hx rfl).known_bind h

theorem mono {P' : α → Prop} (hq : Follows w P q p) (h : ∀ a, P a → P' a) : Follows w P' q p := by
  intro lead t hw
  have := hq lead t hw
  generalize p t = x, q (lead ++ t) (width lead) = y at this
  cases this
  case declined       => exact .declined
  case taken a ht ha  => exact .taken ht (h a ha)

-- A value that is taken is not forgotten by a reader that maps it.
theorem map {g : α → β} (hq : Follows w P q p) (h : ∀ a, P a → Q (g a)) :
    Follows w Q (do return g (← q)) (g <$> p) := by
  rw [map_eq_pure_bind]
  exact hq.bind fun a ha => .pure (h a ha)

theorem orElse {r : Scanner α} {p' : Reader α} (hq : Follows w P q p) (hr : Follows w P r p') :
    Follows w P (orElse q r) (p <|> p') := by
  intro lead t hw
  have := hq lead t hw
  show Matches _ lead t (p t <|> p' t) (q (lead ++ t) (width lead) >>= _)
  generalize p t = x, q (lead ++ t) (width lead) = y at this
  cases this
  case declined      => exact hr lead t hw
  case taken a ht ha => exact .taken ht ha

theorem attempt (hq : Follows w P q p) : Follows w (fun o => ∀ a ∈ o, P a) (attempt q) (optional p) :=
  (hq.map (g := some) fun _ ha _ h => Option.some.inj h ▸ ha).orElse (.pure nofun)

theorem many (hq : Follows w P q p) (hs : p.Shortens) :
    Follows w (fun as => ∀ a ∈ as, P a) (many q) (fun t => some (p.many t)) := by
  intro lead t hw
  show Matches _ lead t (some (p.many t)) (Scanner.many q (lead ++ t) (width lead))
  fun_induction Reader.many p t generalizing lead
  case case1 t hn =>
    have := hq lead t hw
    rw [hn] at this
    rw [Scanner.many]
    generalize q (lead ++ t) (width lead) = y at this
    cases this
    exact Follows.pure (w := w) (P := fun as : List α => ∀ a ∈ as, P a) (by simp) lead t hw
  case case2 t a u hp hl as v hm ih =>
    have := hq lead t hw
    rw [hp] at this
    rw [Scanner.many]
    generalize q (lead ++ t) (width lead) = y at this
    cases this
    case taken s ha ht =>
      subst ht
      have less : width u < width (s ++ u) := hs _ _ hp
      rw [width_append] at less
      rw [← List.append_assoc] at hw
      have later := (ih (lead ++ s) hw).behind
      have gained : width lead < width (lead ++ s) := by
        rw [width_append]
        omega
      have inside : width (lead ++ s) ≤ width (lead ++ (s ++ u)) := by simp
      simp only [ok_bind, advance_of_lt gained inside]
      rw [hm, List.append_assoc] at later
      generalize Scanner.many q (lead ++ (s ++ u)) (width (lead ++ s)) = z at later
      cases later
      case taken s' has ht' => exact .taken ht' (List.forall_mem_cons.mpr ⟨ha, has⟩)
  case case3 t a u hp hl =>
    have := hq lead t hw
    have less : width u < width t := hs t _ hp
    rw [hp] at this
    generalize q (lead ++ t) (width lead) = y at this
    cases this
    case taken s ha ht =>
      subst ht
      have none : s = [] := by
        rw [List.length_append] at hl
        exact List.length_eq_zero_iff.mp (by omega)
      simp [none] at less

end Follows

end TikzPress.Bytewise
