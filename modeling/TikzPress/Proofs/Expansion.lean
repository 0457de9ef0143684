import Mathlib.Data.List.Chain
import Mathlib.Data.List.Forall2
import TikzPress.Expansion
import TikzPress.Proofs.Text.Occurrence

/-!
What becomes of the references in a value. The documented expansion replaces the references that stand in
braces and copies everything else. Main statement: it is what happens to a value in every environment
exactly if the value holds no opening `${`, or no dollar sign that stands for itself is followed by another
one, by a reference, or by a character of a name (`expanded_iff`).
-/

namespace TikzPress.Expansion

-- A character that stands for itself, or a reference by what stands between its braces.
inductive Part where
  | char (c : Char)
  | reference (inner : Text)
  deriving DecidableEq

def Part.source : Part → Text
  | char c          => [c]
  | reference inner => '$' :: '\x7b' :: inner ++ ['\x7d']

-- The references of a text, each up to the first closing brace, and the characters between them.
def parts : Text → List Part
  | [] => []
  | '$' :: '\x7b' :: t =>
    match _h : Text.cutAtChar? '\x7d' t with
    | some (inner, rest) => .reference inner :: parts rest
    | none               => .char '$' :: parts ('\x7b' :: t)
  | c :: t => .char c :: parts t
termination_by t => t.length
decreasing_by
  all_goals simp only [List.length_cons]
  · have := Text.length_lt_of_cutAtChar? _h
    omega
  all_goals omega

-- The name and the default of a reference; a `:-` in front belongs to the name.
inductive Refers : Text → Text → Option Text → Prop
  | plain {inner : Text} :
      ¬":-".toList <:+: inner ∨ ":-".toList <+: inner → Refers inner inner none
  | default {name value : Text} :
      name ≠ [] → ¬":-".toList <:+: name → Refers (name ++ ":-".toList ++ value) name (some value)

-- What a part is replaced by.
inductive Becomes (env : Variables) : Part → Text → Prop
  | char (c : Char) : Becomes env (.char c) [c]
  | set {inner name value : Text} {default? : Option Text} :
      Refers inner name default? → env.lookup name = some value → Becomes env (.reference inner) value
  | default {inner name value : Text} :
      Refers inner name (some value) → env.lookup name = none → Becomes env (.reference inner) value

-- Names a variable that is not set, and has no default.
def Unset (env : Variables) (inner : Text) : Prop :=
  ∃ name, Refers inner name none ∧ env.lookup name = none

-- The documented expansion of a value.
structure Expanded (env : Variables) (value : Text) : Prop where
  fails   : (∃ name, expand env value = .error name) ↔
              ∃ inner, .reference inner ∈ parts value ∧ Unset env inner
  returns : ∀ t, expand env value = .ok t ↔
              ∃ ts, List.Forall₂ (Becomes env) (parts value) ts ∧ ts.flatten = t

-- A dollar sign that stands for itself is followed by a character that leaves it alone.
def Part.Clear (p q : Part) : Prop :=
  p = char '$' → ∃ c, q = char c ∧ c ≠ '$' ∧ isNameChar c = false

-- Nothing but the references is looked at.
def Undisturbed (value : Text) : Prop :=
  "$\x7b".toList <:+: value → (parts value).IsChain Part.Clear

section Parts

theorem parts_of_cutAtChar? {t inner rest : Text} (h : Text.cutAtChar? '\x7d' t = some (inner, rest)) :
    parts ('$' :: '\x7b' :: t) = .reference inner :: parts rest := by
  rw [parts]
  split
  case h_1 h' => cases h.symm.trans h'; rfl
  case h_2 h' => cases h.symm.trans h'

theorem parts_cons {c : Char} {t : Text}
    (h : c = '$' → ∀ u, t = '\x7b' :: u → Text.cutAtChar? '\x7d' u = none) :
    parts (c :: t) = .char c :: parts t := by
  by_cases opens : c = '$' ∧ ∃ u, t = '\x7b' :: u
  case pos =>
    obtain ⟨rfl, u, rfl⟩ := opens
    rw [parts]
    split
    case h_1 hc => cases (h rfl u rfl).symm.trans hc
    case h_2    => rfl
  case neg =>
    rw [parts]
    rintro u rfl rfl
    exact opens ⟨rfl, u, rfl⟩

-- No character is lost.
theorem source_parts (t : Text) : (parts t).flatMap Part.source = t := by
  fun_induction parts t
  case case1      => rfl
  case case2 h hi => simp [hi, Part.source, ← Text.append_of_cutAtChar? h]
  case case3 hi   => simp [hi, Part.source]
  case case4 hi   => simp [hi, Part.source]

end Parts

section Refers

theorem splitReference_eq_of_refers {inner name : Text} {default? : Option Text}
    (h : Refers inner name default?) : splitReference inner = (name, default?) := by
  cases h
  case plain h =>
    rcases h with h | ⟨t, rfl⟩
    case inl =>
      have : Text.cut? ":-".toList inner = none := by
        refine Option.eq_none_iff_forall_ne_some.mpr fun ⟨lead, rest⟩ hc => h ⟨lead, rest, ?_⟩
        exact Text.append_of_cut? hc
      simp only [splitReference, this]
    case inr => simp only [splitReference, Text.cut?_append_self]
  case default value hn hi =>
    obtain ⟨lead, rest, hc, hw⟩ := Text.exists_cut?_of_occurs (l := ":-".toList) ⟨name, value, rfl, rfl⟩
    -- What is cut off ends where the name does, since the name holds no `:-` and cannot end in half of one.
    obtain ⟨w, rfl, hr⟩ : ∃ w, name = lead ++ w ∧ ':' :: '-' :: rest = w ++ ':' :: '-' :: value :=
      Text.exists_append_of_width_le (by simpa using Text.append_of_cut? hc) hw
    obtain ⟨rfl, rfl⟩ : w = [] ∧ rest = value := by
      rcases w with _ | ⟨x, _ | ⟨y, w⟩⟩
      case nil      => simpa using hr
      case cons.nil => simp at hr
      case cons.cons =>
        obtain ⟨rfl, rfl, -⟩ : ':' = x ∧ '-' = y ∧ rest = w ++ ':' :: '-' :: value := by simpa using hr
        exact absurd ⟨lead, w, by simp⟩ hi
    obtain ⟨c, lead, rfl⟩ := List.exists_cons_of_ne_nil (List.append_nil lead ▸ hn)
    rw [List.append_nil] at hc ⊢
    simp only [splitReference, hc]

theorem refers_splitReference (inner : Text) :
    Refers inner (splitReference inner).1 (splitReference inner).2 := by
  unfold splitReference
  split
  case h_1 c name value hc =>
    have := Text.append_of_cut? hc
    exact this ▸ .default (List.cons_ne_nil _ _) (Text.not_infix_of_cut? (by decide) hc)
  case h_2 h =>
    refine .plain (or_iff_not_imp_left.mpr fun hi => ?_)
    obtain ⟨u, v, heq⟩ := not_not.mp hi
    obtain ⟨lead, rest, hc, -⟩ := Text.exists_cut?_of_occurs ⟨u, v, heq, rfl⟩
    cases lead
    case nil  => exact ⟨rest, Text.append_of_cut? hc⟩
    case cons => exact absurd hc (h _ _ _)

theorem refers_iff {inner name : Text} {default? : Option Text} :
    Refers inner name default? ↔ splitReference inner = (name, default?) :=
  ⟨splitReference_eq_of_refers, fun h => by simpa [h] using refers_splitReference inner⟩

end Refers

section Substitute

variable {env : Variables}

theorem unset_iff {inner : Text} : Unset env inner ↔ ∃ name, resolve env inner = .error name := by
  simp only [Unset, refers_iff, resolve]
  rcases splitReference inner with ⟨name, _ | value⟩
  all_goals cases h : env.lookup name <;> simp [h, -List.lookup_eq_none_iff]

theorem becomes_reference_iff {inner t : Text} :
    Becomes env (.reference inner) t ↔ resolve env inner = .ok t := by
  constructor
  case mp =>
    intro h
    cases h
    case set hr hl     => simp only [resolve, refers_iff.mp hr, hl]
    case default hl hr => simp only [resolve, refers_iff.mp hr, hl]
  case mpr =>
    have hr := refers_splitReference inner
    simp only [resolve]
    split
    case h_1 hl    => rintro ⟨⟩; exact .set hr hl
    case h_2 hl hd => rintro ⟨⟩; exact .default (hd ▸ hr) hl
    case h_3       => rintro ⟨⟩

-- The parts with what they become, or the first variable that is missed.
def substitute (env : Variables) : List Part → Except Text Text
  | [] => .ok []
  | .char c :: ps => do return c :: (← substitute env ps)
  | .reference inner :: ps => do
    let value ← resolve env inner
    return value ++ (← substitute env ps)

theorem substitute_eq_ok_iff {ps : List Part} {t : Text} :
    substitute env ps = .ok t ↔ ∃ ts, List.Forall₂ (Becomes env) ps ts ∧ ts.flatten = t := by
  induction ps generalizing t
  case nil => simp [substitute, eq_comm]
  case cons p ps hi =>
    have step : substitute env (p :: ps) = .ok t ↔
        ∃ s u, Becomes env p s ∧ substitute env ps = .ok u ∧ s ++ u = t := by
      cases p
      case char c =>
        have (s : Text) : Becomes env (.char c) s ↔ s = [c] :=
          ⟨fun h => by cases h; rfl, fun h => h ▸ .char c⟩
        cases h : substitute env ps <;> simp [substitute, h, this, bind, Except.bind, pure, Except.pure]
      case reference inner =>
        simp only [substitute, becomes_reference_iff]
        cases resolve env inner <;> cases substitute env ps <;>
          simp [bind, Except.bind, pure, Except.pure]
    rw [step]
    constructor
    case mp =>
      rintro ⟨s, u, hs, hu, rfl⟩
      obtain ⟨ts, hf, rfl⟩ := hi.mp hu
      exact ⟨s :: ts, .cons hs hf, rfl⟩
    case mpr =>
      rintro ⟨_, hf, rfl⟩
      obtain ⟨s, ts, hs, hts, rfl⟩ := List.forall₂_cons_left_iff.mp hf
      exact ⟨s, ts.flatten, hs, hi.mpr ⟨ts, hts, rfl⟩, rfl⟩

theorem substitute_eq_error_iff {ps : List Part} :
    (∃ name, substitute env ps = .error name) ↔ ∃ inner, .reference inner ∈ ps ∧ Unset env inner := by
  induction ps
  case nil => simp [substitute]
  case cons p ps hi =>
    cases p
    case char c =>
      rw [substitute]
      cases h : substitute env ps <;> simp [h, bind, Except.bind, pure, Except.pure, ← hi]
    case reference inner =>
      have here : Unset env inner ↔ ∃ name, resolve env inner = .error name := unset_iff
      simp only [List.mem_cons, Part.reference.injEq, or_and_right, exists_or, exists_eq_left, ← hi, here, substitute]
      cases resolve env inner <;> cases substitute env ps <;>
        simp [bind, Except.bind, pure, Except.pure]

theorem Expanded.of_eq {value : Text} (h : expand env value = substitute env (parts value)) :
    Expanded env value where
  fails     := h ▸ substitute_eq_error_iff
  returns _ := h ▸ substitute_eq_ok_iff

end Substitute

section Undisturbed

variable {env : Variables}

-- Without an opening `${` no reference is found.
theorem substitute_parts_of_unmarked {t : Text} (h : ¬"$\x7b".toList <:+: t) :
    substitute env (parts t) = .ok t := by
  fun_induction parts t
  case case1           => rfl
  case case2 t _ _ _ _ => exact absurd ⟨[], t, rfl⟩ h
  case case3 t _ _     => exact absurd ⟨[], t, rfl⟩ h
  case case4 hi        =>
    simp [substitute, hi fun hl => h (List.infix_cons hl), bind, Except.bind, pure, Except.pure]

-- What stands behind a dollar sign that stands for itself and is left alone.
theorem head?_of_isChain {t : Text} (hb : ∀ u, t ≠ '\x7b' :: u)
    (h : (parts ('$' :: t)).IsChain Part.Clear) : ∀ c ∈ t.head?, c ≠ '$' ∧ isNameChar c = false := by
  intro c hc
  obtain ⟨t, rfl⟩ := List.head?_eq_some_iff.mp hc
  rw [parts_cons fun _ u hu => absurd hu (hb u), List.isChain_cons] at h
  have source := source_parts (c :: t)
  cases hp : parts (c :: t)
  case nil => simp [hp] at source
  case cons p ps =>
    obtain ⟨c', rfl, clear⟩ := h.left p (by simp [hp]) rfl
    obtain ⟨rfl, -⟩ : c' = c ∧ _ := by simpa [hp, Part.source] using source
    exact clear

theorem head?_of_takeWhile {t name : Text} {c : Char} (h : t.takeWhile isNameChar = c :: name) :
    t.head? = some c ∧ isNameChar c = true := by
  have head : (t.takeWhile isNameChar).head? = some c := by rw [h, List.head?_cons]
  rwa [List.head?_takeWhile, Option.filter_eq_some_iff] at head

-- Where every dollar sign is left alone the two expansions are the same.
theorem expandAll_eq_substitute {t : Text} (h : (parts t).IsChain Part.Clear) :
    expandAll env t = substitute env (parts t) := by
  fun_induction expandAll env t
  case case1 => simp [parts, substitute]
  case case2 t inner rest hc hi =>
    rw [parts_of_cutAtChar? hc] at h ⊢
    rw [hi h.tail, substitute]
  case case3 t hc hi =>
    rw [parts_cons (by simp [hc]), parts_cons (by simp)] at h ⊢
    simp [hi h.tail.tail, substitute]
  case case4 t hi =>
    exact absurd rfl (head?_of_isChain (by simp) h '$' rfl).left
  case case5 t hb hd hn hi =>
    rw [parts_cons fun _ u hu => absurd hu (hb u)] at h ⊢
    rw [hi h.tail, substitute]
  case case6 hb _ _ _ hn _ _ _ =>
    obtain ⟨hc, named⟩ := head?_of_takeWhile hn
    cases (head?_of_isChain hb h _ hc).right.symm.trans named
  case case7 hb _ _ _ hn _ =>
    obtain ⟨hc, named⟩ := head?_of_takeWhile hn
    cases (head?_of_isChain hb h _ hc).right.symm.trans named
  case case8 c t _ _ hc hi =>
    rw [parts_cons fun h => absurd h hc] at h ⊢
    rw [hi h.tail, substitute]

end Undisturbed

section Disturbed

-- Every name that a text may hold is set to the same value.
def AllSet (env : Variables) (t : Text) : Prop :=
  ∀ name, name <:+: t → env.lookup name = some ['x']

theorem lookup_map_const {names : List Text} {name value : Text} (h : name ∈ names) :
    (names.map (·, value)).lookup name = some value := by
  induction names
  case nil => contradiction
  case cons n names hi =>
    by_cases hn : name = n
    case pos => simp [hn]
    case neg => simp [List.lookup_cons, beq_eq_false_iff_ne.mpr hn, hi ((List.mem_cons.mp h).resolve_left hn)]

theorem exists_allSet (t : Text) : ∃ env, AllSet env t := by
  refine ⟨(t.tails.flatMap List.inits).map (·, ['x']), fun name hn => lookup_map_const ?_⟩
  obtain ⟨u, hp, hs⟩ := List.infix_iff_prefix_suffix.mp hn
  exact List.mem_flatMap.mpr ⟨u, List.mem_tails _ _ |>.mpr hs, List.mem_inits _ _ |>.mpr hp⟩

namespace AllSet

variable {env : Variables} {t u : Text}

theorem of_infix (h : AllSet env t) (hu : u <:+: t) : AllSet env u :=
  fun name hn => h name (hn.trans hu)

theorem tail {c : Char} (h : AllSet env (c :: t)) : AllSet env t :=
  h.of_infix (List.suffix_cons c t).isInfix

theorem resolve_eq (h : AllSet env t) : resolve env t = .ok ['x'] := by
  have name : (splitReference t).1 <:+: t := by
    cases hr : splitReference t
    cases refers_iff.mpr hr
    case plain        => exact List.infix_rfl
    case default hv _ => exact (List.prefix_append_of_prefix (List.prefix_append _ _)).isInfix
  simp only [resolve, h _ name]

theorem lookup_takeWhile (h : AllSet env t) (p : Char → Bool) : env.lookup (t.takeWhile p) = some ['x'] :=
  h _ (List.takeWhile_prefix p).isInfix

theorem of_cutAtChar? {inner rest : Text} (h : AllSet env t)
    (hc : Text.cutAtChar? '\x7d' t = some (inner, rest)) : AllSet env inner ∧ AllSet env rest := by
  obtain rfl := Text.append_of_cutAtChar? hc
  exact ⟨h.of_infix ⟨[], _, (List.append_assoc _ _ _).symm⟩, h.of_infix (List.suffix_append _ _).isInfix⟩

end AllSet

variable {env : Variables}

theorem return_eq_ok_iff {a : Except Text Text} {f : Text → Text} {t : Text} :
    (do return f (← a)) = Except.ok t ↔ ∃ u, a = .ok u ∧ f u = t := by
  cases a <;> simp [bind, Except.bind, pure, Except.pure]

theorem substitute_cons_eq_ok {c : Char} {t u : Text} (h : substitute env (parts (c :: t)) = .ok u)
    (ho : c = '$' → ∀ r, t = '\x7b' :: r → Text.cutAtChar? '\x7d' r = none) :
    ∃ v, substitute env (parts t) = .ok v ∧ c :: v = u := by
  rw [parts_cons ho, substitute] at h
  exact return_eq_ok_iff.mp h

theorem replicate_append_cons (k : Nat) (c : Char) (t : Text) :
    List.replicate k c ++ c :: t = List.replicate (k + 1) c ++ t := by
  simp [List.replicate_succ']

-- Dollar signs in front of what opens no reference with them.
theorem substitute_dollars_eq_ok {k : Nat} {t u : Text}
    (h : substitute env (parts (List.replicate (k + 1) '$' ++ t)) = .ok u)
    (ho : k = 0 → ∀ r, t = '\x7b' :: r → Text.cutAtChar? '\x7d' r = none) :
    ∃ v, substitute env (parts (List.replicate k '$' ++ t)) = .ok v ∧ '$' :: v = u := by
  refine substitute_cons_eq_ok h fun _ => ?_
  cases k
  case zero => exact ho rfl
  case succ => simp [List.replicate_succ]

-- A dollar sign too many never comes out: behind it the two expansions stay apart. Of two dollar signs only one
-- is put out by one side and both by the other, so that the number of those that are ahead is general.
theorem expandAll_ne_substitute {r s u : Text} (k : Nat) (hs : AllSet env r) (h : expandAll env r = .ok s)
    (h' : substitute env (parts (List.replicate (k + 1) '$' ++ r)) = .ok u) : s ≠ u := by
  fun_induction expandAll env r generalizing k s u
  case case1 =>
    obtain ⟨v, -, rfl⟩ := substitute_dollars_eq_ok h' (by simp)
    cases h
    exact (List.cons_ne_nil _ _).symm
  case case2 hc hi =>
    obtain ⟨v, -, rfl⟩ := substitute_dollars_eq_ok h' (by simp)
    rw [(hs.tail.tail.of_cutAtChar? hc).left.resolve_eq] at h
    obtain ⟨_, -, rfl⟩ := return_eq_ok_iff.mp h
    simp
  case case3 t hc hi =>
    obtain ⟨v, hv, rfl⟩ := substitute_dollars_eq_ok h' (by simp)
    obtain ⟨_, -, rfl⟩ := return_eq_ok_iff.mp h
    rw [replicate_append_cons] at hv
    obtain ⟨_, -, rfl⟩ := substitute_dollars_eq_ok hv (by simp [hc])
    simp
  case case4 t hi =>
    obtain ⟨v, hv, rfl⟩ := substitute_dollars_eq_ok h' (by simp)
    obtain ⟨_, ht, rfl⟩ := return_eq_ok_iff.mp h
    rw [replicate_append_cons, replicate_append_cons] at hv
    exact fun heq => hi (k + 1) hs.tail.tail ht hv (List.cons.inj heq).right
  case case5 t hb _ _ hi =>
    obtain ⟨v, hv, rfl⟩ := substitute_dollars_eq_ok h' (by simp)
    obtain ⟨_, ht, rfl⟩ := return_eq_ok_iff.mp h
    rw [replicate_append_cons] at hv
    exact fun heq => hi k hs.tail ht hv (List.cons.inj heq).right
  case case6 hn _ hl _ =>
    obtain ⟨v, -, rfl⟩ := substitute_dollars_eq_ok h' (by simp)
    obtain ⟨_, -, rfl⟩ := return_eq_ok_iff.mp h
    obtain rfl := Option.some.inj (hl.symm.trans (hn ▸ hs.tail.lookup_takeWhile isNameChar))
    simp
  case case7 => contradiction
  case case8 c t _ _ hc hi =>
    obtain ⟨_, -, rfl⟩ := return_eq_ok_iff.mp h
    by_cases opens : k = 0 ∧ c = '\x7b' ∧ ∃ x, Text.cutAtChar? '\x7d' t = some x
    case pos =>
      obtain ⟨rfl, rfl, ⟨inner, rest⟩, ht⟩ := opens
      rw [List.replicate_one, List.singleton_append, parts_of_cutAtChar? ht, substitute,
        (hs.tail.of_cutAtChar? ht).left.resolve_eq] at h'
      obtain ⟨_, -, rfl⟩ := return_eq_ok_iff.mp h'
      simp
    case neg =>
      obtain ⟨v, -, rfl⟩ := substitute_dollars_eq_ok h' (by
        rintro rfl r ⟨⟩
        exact Option.eq_none_iff_forall_ne_some.mpr fun x hx => opens ⟨rfl, rfl, x, hx⟩)
      exact fun heq => hc (List.cons.inj heq).left

theorem isChain_of_expandAll_eq {t s : Text} (hs : AllSet env t) (h : expandAll env t = .ok s)
    (h' : substitute env (parts t) = .ok s) : (parts t).IsChain Part.Clear := by
  fun_induction expandAll env t generalizing s
  case case1 => rw [parts]; exact .nil
  case case2 t inner rest hc hi =>
    obtain ⟨hsi, hsr⟩ := hs.tail.tail.of_cutAtChar? hc
    rw [parts_of_cutAtChar? hc] at h' ⊢
    rw [hsi.resolve_eq] at h
    rw [substitute, hsi.resolve_eq] at h'
    obtain ⟨v, hv, rfl⟩ := return_eq_ok_iff.mp h
    obtain ⟨v', hv', heq⟩ := return_eq_ok_iff.mp h'
    cases List.append_cancel_left heq
    exact List.isChain_cons.mpr ⟨fun _ _ h => (nomatch h), hi hsr hv hv'⟩
  case case3 t hc hi =>
    obtain ⟨u, hu, heq⟩ := substitute_cons_eq_ok h' (by simp [hc])
    obtain ⟨u, hu', rfl⟩ := substitute_cons_eq_ok hu (by simp)
    obtain ⟨v, hv, rfl⟩ := return_eq_ok_iff.mp h
    obtain rfl : u = v := by simpa using heq
    rw [parts_cons (by simp [hc]), parts_cons (by simp)]
    refine .cons_cons (fun _ => ⟨'\x7b', rfl, by decide, by decide⟩) ?_
    exact List.isChain_cons.mpr ⟨fun _ _ h => (nomatch h), hi hs.tail.tail hv hu'⟩
  case case4 t hi =>
    obtain ⟨u, hu, heq⟩ := substitute_cons_eq_ok h' (by simp)
    obtain ⟨v, hv, rfl⟩ := return_eq_ok_iff.mp h
    exact absurd (List.cons.inj heq).right.symm (expandAll_ne_substitute 0 hs.tail.tail hv hu)
  case case5 t hb hd hn hi =>
    have alone : ∀ r, t = '\x7b' :: r → Text.cutAtChar? '\x7d' r = none := fun r hr => absurd hr (hb r)
    obtain ⟨u, hu, heq⟩ := substitute_cons_eq_ok h' fun _ => alone
    obtain ⟨v, hv, rfl⟩ := return_eq_ok_iff.mp h
    obtain rfl := (List.cons.inj heq).right
    rw [parts_cons fun _ => alone]
    refine List.isChain_cons.mpr ⟨?_, hi hs.tail hv hu⟩
    cases t
    case nil => simp [parts]
    case cons c t =>
      have hc : c ≠ '$' := by
        rintro rfl
        exact hd t rfl
      have plain : isNameChar c = false := by
        by_contra h
        simp [List.takeWhile_cons, h] at hn
      rw [parts_cons fun h => absurd h hc]
      rintro _ ⟨⟩ -
      exact ⟨c, rfl, hc, plain⟩
  case case6 t hb _ c name hn _ hl _ =>
    obtain ⟨u, hu, heq⟩ := substitute_cons_eq_ok h' fun _ r hr => absurd hr (hb r)
    obtain ⟨v, hv, rfl⟩ := return_eq_ok_iff.mp h
    obtain rfl := Option.some.inj (hl.symm.trans (hn ▸ hs.tail.lookup_takeWhile isNameChar))
    simp at heq
  case case7 => contradiction
  case case8 c t _ _ hc hi =>
    obtain ⟨u, hu, heq⟩ := substitute_cons_eq_ok h' fun h => absurd h hc
    obtain ⟨v, hv, rfl⟩ := return_eq_ok_iff.mp h
    obtain rfl := (List.cons.inj heq).right
    rw [parts_cons fun h => absurd h hc]
    exact List.isChain_cons.mpr ⟨fun _ _ h => absurd (Part.char.inj h) hc, hi hs.tail hv hu⟩

theorem inner_isInfix {t inner : Text} (h : .reference inner ∈ parts t) : inner <:+: t := by
  obtain ⟨ps, qs, hp⟩ := List.append_of_mem h
  rw [← source_parts t, hp]
  exact ⟨ps.flatMap Part.source ++ ['$', '\x7b'], '\x7d' :: qs.flatMap Part.source, by simp [Part.source]⟩

theorem AllSet.exists_substitute_eq_ok {t : Text} (h : AllSet env t) :
    ∃ u, substitute env (parts t) = .ok u := by
  cases hs : substitute env (parts t)
  case ok u => exact ⟨u, rfl⟩
  case error name =>
    obtain ⟨inner, hm, hu⟩ := substitute_eq_error_iff.mp ⟨name, hs⟩
    obtain ⟨_, hn⟩ := unset_iff.mp hu
    cases (h.of_infix (inner_isInfix hm)).resolve_eq.symm.trans hn

end Disturbed

-- The documented expansion is what happens to a value exactly if nothing but its references is looked at.
theorem expanded_iff (value : Text) : (∀ env, Expanded env value) ↔ Undisturbed value := by
  constructor
  case mp =>
    intro h hi
    obtain ⟨env, hs⟩ := exists_allSet value
    obtain ⟨u, hu⟩ := hs.exists_substitute_eq_ok
    have := (h env).returns u |>.mpr (substitute_eq_ok_iff.mp hu)
    rw [expand, if_pos (Text.occursIn_iff.mpr hi)] at this
    exact isChain_of_expandAll_eq hs this hu
  case mpr =>
    intro h env
    refine .of_eq ?_
    unfold expand
    split
    case isTrue hi  => exact expandAll_eq_substitute (h (Text.occursIn_iff.mp hi))
    case isFalse hi => exact (substitute_parts_of_unmarked fun h => hi (Text.occursIn_iff.mpr h)).symm

-- A bare name beside a reference is looked up as well, and here it is missed.
theorem not_expanded_of_bare : ¬Expanded [("A".toList, "a".toList)] "$\x7bA\x7d$B".toList := by
  intro h
  have missed : expand [("A".toList, "a".toList)] "$\x7bA\x7d$B".toList = .error ['B'] := by decide +kernel
  have found : parts "$\x7bA\x7d$B".toList = [.reference ['A'], .char '$', .char 'B'] := by decide +kernel
  have set : Becomes [("A".toList, "a".toList)] (.reference ['A']) ['a'] :=
    .set (.plain (.inl (by decide))) rfl
  have documented := h.returns "a$B".toList |>.mpr
    ⟨[['a'], ['$'], ['B']], found ▸ .cons set (.cons (.char '$') (.cons (.char 'B') .nil)), rfl⟩
  cases missed.symm.trans documented

end TikzPress.Expansion
