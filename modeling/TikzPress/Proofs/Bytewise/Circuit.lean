import TikzPress.Proofs.Bytewise.Statement
import TikzPress.Proofs.Bytewise.Token
import TikzPress.Proofs.Circuit

/-!
Circuits by the byte. Main statement: the scan of a body makes the circuit that is read from it, without a
fault, and all that the circuit is made of is sound (`circuit_eq`).
-/

namespace TikzPress.Bytewise

open Text Scanner

section Definitions

variable (limit : Nat)

def link : Scanner Circuit.Link :=
  orElse (do literal limit "--".toList; return .wire) do
    keyword limit "to".toList
    let options ← attempt (options limit)
    return .component (← lift (componentName limit options)) options

-- One step, in a text at the byte `base`.
def segment (base : Nat) : Scanner Circuit.Segment := do
  if ← atEnd then decline else do
    let ((link, target), range) ← ranged limit base do
      let link ← link limit
      let _ ← attempt (literal limit "++".toList)
      return (link, ← reference limit)
    return ⟨link, target, range⟩

-- The range of a text at the byte `base`.
def extent (base : Nat) : Scanner Range :=
  fun src pos => return some (⟨base, ← sum limit base (width src)⟩, pos)

def chain (base : Nat) : Scanner Circuit.Chain := do
  command limit "draw".toList
  let options ← attempt (options limit)
  let source ← reference limit
  let segments ← many (segment limit base)
  return ⟨options, source, segments, ← extent limit base⟩

def circuit (body : Text) : Checked Circuit := do
  return ⟨← (← split limit body).filterMapM fun s => scanned (chain limit s.start) s.text⟩

end Definitions

section Products

def ofLink : Circuit.Link → List Product
  | .wire                => []
  | .component _ options => ofOptions options

def ofCircuitSegment (s : Circuit.Segment) : List Product :=
  ofLink s.link ++ [.reference s.target, .step s, .range s.range]

def ofChain (c : Circuit.Chain) : List Product :=
  ofOptions c.options ++ [.reference c.source] ++ c.segments.flatMap ofCircuitSegment ++ [.range c.range]

-- What a circuit is made of.
def ofCircuit (c : Circuit) : List Product :=
  c.chains.flatMap ofChain

end Products

section Reading

open Circuit

variable {w limit base : Nat}

theorem follows_link (hl : w ≤ limit) :
    Follows w (fun l => AllSound limit (ofLink l)) (link limit) Link.read := by
  refine Follows.orElse ?_ ?_
  case refine_1 => exact (follows_literal hl _).bind fun _ _ => .pure allSound_nil
  case refine_2 =>
    refine (follows_keyword hl _).bind fun _ _ => ?_
    refine (follows_options hl).attempt.bind fun o ho => ?_
    exact .lift_bind (componentName_eq fun a ha => (ho a ha).right) (.pure (allSound_ofOptions ho))

theorem follows_segment (hl : base + w ≤ limit) :
    Follows w (fun s => AllSound limit (ofCircuitSegment s)) (segment limit base)
      (Segment.read (base + w)) := by
  have fits : w ≤ limit := by omega
  refine follows_unless_atEnd ?_ rfl
  have parts : Follows w (fun x => AllSound limit (ofLink x.1) ∧ (Product.reference x.2).Sound limit) (do
      let link ← link limit
      let _ ← attempt (literal limit "++".toList)
      return (link, ← reference limit)) do
      let link ← Link.read
      let _ ← optional (Token.literal "++".toList)
      return (link, ← Reference.read) := by
    refine (follows_link fits).bind fun l hl => ?_
    refine (follows_literal fits _).attempt.bind fun _ _ => ?_
    exact (follows_reference fits).bind fun r hr => .pure ⟨hl, hr⟩
  refine (follows_ranged hl parts).bind ?_
  rintro ⟨⟨link, target⟩, range⟩ ⟨⟨hl, ht⟩, hr⟩
  refine .pure ?_
  simp [ofCircuitSegment, hl, ht, sound_step, sound_range hr]

theorem shortens_segment (stop : Nat) : Reader.Shortens (Segment.read stop) := by
  refine (Token.shortens_ranged ?_ stop).bind fun _ => .pure _
  refine .after Link.narrows_read fun _ => ?_
  refine .after (Token.narrows_literal _).optional fun _ => ?_
  exact Reference.shortens_read.bind fun _ => .pure _

theorem follows_extent (hl : base + w ≤ limit) :
    Follows w (· = ⟨base, base + w⟩) (extent limit base) (pure ⟨base, base + w⟩) := by
  intro lead t hw
  rw [extent, hw, sum_of_le hl]
  exact Follows.pure (w := w) (P := (· = (⟨base, base + w⟩ : Range))) rfl lead t hw

theorem follows_chain (hl : base + w ≤ limit) :
    Follows w (fun c => AllSound limit (ofChain c)) (chain limit base) (Chain.read ⟨base, base + w⟩) := by
  have fits : w ≤ limit := by omega
  refine (follows_command fits _).bind fun _ _ => ?_
  refine (follows_options fits).attempt.bind fun o ho => ?_
  refine (follows_reference fits).bind fun s hs => ?_
  refine ((follows_segment hl).many (shortens_segment _)).bind fun ss hss => ?_
  refine (follows_extent hl).known_bind (.pure ?_)
  have range : (Product.range ⟨base, base + w⟩).Sound limit := sound_range (Nat.le_add_right ..)
  simpa [ofChain, allSound_ofOptions ho, hs, range] using hss

theorem circuit_eq {body : Text} (hl : width body ≤ limit) :
    circuit limit body = .ok (Circuit.parse body) ∧ AllSound limit (ofCircuit (Circuit.parse body)) := by
  have each : ∀ s ∈ Statement.split body,
      scanned (chain limit s.start) s.text = .ok (((Chain.read s.range).run s.text).map Prod.fst) ∧
      ∀ c ∈ ((Chain.read s.range).run s.text).map Prod.fst, AllSound limit (ofChain c) := fun s hs =>
    scanned_eq (follows_chain (Nat.le_trans (stop_le_of_mem_split hs) hl))
  obtain ⟨scans, sound⟩ := filterMapM_sound each
  rw [circuit, split_eq hl, ok_bind, scans]
  exact ⟨rfl, allSound_flatMap.mpr sound⟩

end Reading

end TikzPress.Bytewise
