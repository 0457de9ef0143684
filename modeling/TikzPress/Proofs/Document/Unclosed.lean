import Mathlib.Data.List.Forall2
import Mathlib.Data.Set.Card
import TikzPress.Proofs.Document.Tiling
import TikzPress.Proofs.Environment

/-!
The regions of a document that are reported as not closed. Each raw text has one report for each environment
that begins there. Main statement: no begin marker is lost, none is reported in vain, no region begins at a
place that is reported, and each message says which environment begins there and how many of its markers are in
the same raw text (`diagnosed_parse`).
-/

namespace TikzPress

open Text Environment

-- The places of the begin markers of an environment in a text that stands at the byte `start`.
def markers (name t : Text) (start : Nat) : Set Nat :=
  { n | ∃ m, Occurs (opening name) t m ∧ n = start + m }

namespace Unclosed

-- What is reported about an environment that begins in a raw text: its first marker there, and the number
-- of the others.
structure Reports (u : Unclosed) (t : Text) (start : Nat) : Prop where
  supported : u.name ∈ Region.supported
  first     : IsLeast (markers u.name t start) u.offset
  swallowed : (markers u.name t start \ {u.offset}).ncard = u.swallowed

variable {name t : Text} {start : Nat}

theorem mem_markers_iff {n : Nat} :
    n ∈ markers name t start ↔ n ∈ (offsets (opening name) t).map (start + ·) := by
  simp [markers, mem_offsets_iff, eq_comm]

-- The offsets come in increasing order.
theorem reports_of_offsets {first : Nat} {later : List Nat} (hn : name ∈ Region.supported)
    (h : offsets (opening name) t = first :: later) :
    Reports ⟨name, later.length, start + first⟩ t start := by
  have increasing := pairwise_offsets (opening name) t
  rw [h] at increasing
  obtain ⟨hl, increasing⟩ := List.pairwise_cons.mp increasing
  have mem (n : Nat) : n ∈ markers name t start ↔ n = start + first ∨ n ∈ later.map (start + ·) := by
    rw [mem_markers_iff, h, List.map_cons, List.mem_cons]
  have behind {n : Nat} (hn : n ∈ later.map (start + ·)) : start + first < n := by
    obtain ⟨m, hm, rfl⟩ := List.mem_map.mp hn
    exact Nat.add_lt_add_left (hl m hm) start
  have others : markers name t start \ {start + first} = (later.map (start + ·)).toFinset := by
    ext n
    rw [Set.mem_sdiff, mem, Set.mem_singleton_iff, Finset.mem_coe, List.mem_toFinset]
    exact ⟨fun ⟨hn, hne⟩ => hn.resolve_left hne, fun hn => ⟨.inr hn, (behind hn).ne'⟩⟩
  refine ⟨hn, ⟨(mem _).mpr (.inl rfl), fun n hn => ?_⟩, ?_⟩
  case refine_1 => exact ((mem n).mp hn).elim Eq.ge fun hn => (behind hn).le
  case refine_2 =>
    rw [others, Set.ncard_coe_finset, List.toFinset_card_of_nodup, List.length_map]
    exact increasing.map _ fun _ _ hne he => Nat.ne_of_lt hne (Nat.add_left_cancel he)

theorem exists_offsets {n : Nat} (h : n ∈ markers name t start) :
    ∃ first later, offsets (opening name) t = first :: later := by
  rw [mem_markers_iff] at h
  exact List.exists_cons_of_ne_nil fun ho => by simp [ho] at h

theorem Reports.unique {u v : Unclosed} (hu : u.Reports t start) (hv : v.Reports t start)
    (hn : u.name = v.name) : u = v := by
  obtain ⟨name, count, offset⟩ := u
  obtain ⟨_, count', offset'⟩ := v
  obtain rfl : name = _ := hn
  obtain rfl : offset = offset' := hu.first.unique hv.first
  obtain rfl : count = count' := hu.swallowed.symm.trans hv.swallowed
  rfl

theorem mem_unclosed_raw_iff {u : Unclosed} {r : Range} :
    u ∈ (Document.Segment.raw t r).unclosed ↔ u.Reports t r.start := by
  simp only [Document.Segment.unclosed, List.mem_filterMap]
  constructor
  case mp =>
    rintro ⟨name, hn, h⟩
    split at h
    case h_1 => contradiction
    case h_2 ho => cases h; exact reports_of_offsets hn ho
  case mpr =>
    intro h
    obtain ⟨first, later, ho⟩ := exists_offsets h.first.left
    refine ⟨u.name, h.supported, ?_⟩
    rw [ho]
    exact congrArg some ((reports_of_offsets h.supported ho).unique h rfl)

end Unclosed

-- What is said about an environment that begins in a raw text, and where.
inductive Tells : Unclosed → Diagnostic → Prop
  | alone {name : Text} {offset : Nat} :
      Tells ⟨name, 0, offset⟩ ⟨"unterminated ".toList ++ opening name, offset⟩
  | swallowed {name : Text} {n offset : Nat} : 0 < n → Tells ⟨name, n, offset⟩
      ⟨"unterminated ".toList ++ opening name ++ ("; ".toList ++ (toString n).toList ++ " later ".toList ++
        opening name ++ " swallowed as raw text".toList), offset⟩

theorem tells_diagnostic (u : Unclosed) : Tells u u.diagnostic := by
  obtain ⟨name, n, offset⟩ := u
  cases n
  case zero =>
    have alone : Tells ⟨name, 0, offset⟩ _ := .alone
    rwa [← List.append_nil ("unterminated ".toList ++ opening name)] at alone
  case succ n =>
    have swallowed : Tells ⟨name, n + 1, offset⟩ _ := .swallowed n.succ_pos
    rwa [← ofNat_eq_toString] at swallowed

namespace Document

-- A range holds a begin marker from end to end.
def Covers (r : Range) (name : Text) (n : Nat) : Prop :=
  r.start ≤ n ∧ n + width (opening name) ≤ r.stop

structure Diagnosed (source : Text) : Prop where
  within    : ∀ name ∈ Region.supported, ∀ n ∈ markers name source 0,
    ∃ s ∈ (parse source).segments, Covers s.range name n
  ordered   : (parse source).unclosed.Pairwise (·.offset < ·.offset)
  reported  : ∀ u, u ∈ (parse source).unclosed ↔
    ∃ t r, .raw t r ∈ (parse source).segments ∧ u.Reports t r.start
  told      : List.Forall₂ Tells (parse source).unclosed (parse source).diagnostics
  unbounded : ∀ u ∈ (parse source).unclosed, bounds? source u.name u.offset = none
  counted   : ∀ name ∈ Region.supported, ∀ n ∈ markers name source 0,
    (∃ b, .environment b ∈ (parse source).segments ∧ Covers b.range name n) ∨
    ∃ t r u, .raw t r ∈ (parse source).segments ∧ u ∈ (parse source).unclosed ∧ u.name = name ∧
      u.Reports t r.start ∧ n ∈ markers name t r.start

namespace Laid

variable {ss : List Segment} {t : Text} {n : Nat}

theorem range_eq (l : Laid n ss t) {s : Segment} (h : s ∈ ss) :
    n ≤ s.range.start ∧ s.range.stop = s.range.start + width s.text := by
  obtain ⟨lead, rest, -, hr⟩ := l.exists_append h
  exact ⟨hr ▸ Nat.le_add_right .., hr ▸ rfl⟩

theorem pairwise (l : Laid n ss t) : ss.Pairwise fun s t => s.range.stop ≤ t.range.start := by
  induction l
  case nil => exact .nil
  case cons hr _ l hi => exact .cons (fun s hs => hr ▸ (l.range_eq hs).left) hi

end Laid

section Scan

variable {name : Text}

theorem border_text (r : Region) (t : Text) : Border r.text t :=
  .inl fun c hc => by
    rw [Region.text, List.getLast?_append_of_ne_nil _ (closing_ne_nil _), getLast?_closing] at hc
    cases hc
    rfl

theorem exists_ofRaw_of_occurs {start n : Nat} {t : Text} (h : Occurs (opening name) t n) :
    .raw t ⟨start, start + width t⟩ ∈ Segment.ofRaw start t := by
  cases t
  case cons => exact .head _
  case nil =>
    obtain ⟨lead, rest, h, -⟩ := h
    have hl := (List.append_eq_nil_iff.mp h).left
    exact absurd (List.append_eq_nil_iff.mp hl).right (opening_ne_nil name)

-- A begin marker stands in a segment.
theorem exists_segment_of_occurs (hn : name ∈ Region.supported) (start : Nat) (t : Text) {n : Nat}
    (h : Occurs (opening name) t n) :
    ∃ s ∈ segmentsFrom start t, start + n ∈ markers name s.text s.range.start := by
  fun_induction segmentsFrom start t generalizing n
  case case1 start t _ => exact ⟨_, exists_ofRaw_of_occurs h, n, h, rfl⟩
  case case2 start t r hr at' hi =>
    rw [← Region.append_of_next? hr, List.append_assoc] at h
    rcases ((delimited_opening hn).occurs_append_iff (r.border_lead _)).mp h with h | ⟨m, ho, rfl⟩
    case inl => exact ⟨_, List.mem_append_left _ (exists_ofRaw_of_occurs h), n, h, rfl⟩
    case inr =>
      rcases ((delimited_opening hn).occurs_append_iff (border_text r _)).mp ho with h | ⟨k, hk, rfl⟩
      case inl =>
        refine ⟨.environment (.ofRegion at' r), List.mem_append_right _ (.head _), m, ?_, ?_⟩
        case refine_1 => simpa [Segment.text] using h
        case refine_2 => exact (Nat.add_assoc ..).symm
      case inr =>
        obtain ⟨s, hs, hm⟩ := hi hk
        refine ⟨s, List.mem_append_right _ (.tail _ hs), ?_⟩
        rwa [← Nat.add_assoc, ← Nat.add_assoc]

theorem mem_ofRaw_iff {start : Nat} {t u : Text} {r : Range} :
    .raw t r ∈ Segment.ofRaw start u ↔ u ≠ [] ∧ t = u ∧ r = ⟨start, start + width u⟩ := by
  cases u <;> simp [Segment.ofRaw]

theorem not_command_mem (start : Nat) (t : Text) {u v : Text} {r : Range} :
    .command u v r ∉ segmentsFrom start t := by
  have raw (start : Nat) (t : Text) : .command u v r ∉ Segment.ofRaw start t := by
    cases t <;> simp [Segment.ofRaw]
  fun_induction segmentsFrom start t
  case case1 start t _ => exact raw start t
  case case2 start t x _ at' hi => simp [raw, hi]

-- No region begins at the first marker of a raw text, whatever follows there.
theorem exists_append_of_raw_mem {start : Nat} {source t : Text} {r : Range}
    (h : .raw t r ∈ segmentsFrom start source) :
    ∃ front rest, source = front ++ (t ++ rest) ∧ r.start = start + width front ∧
      ∀ name ∈ Region.supported, ∀ lead rest', cut? (opening name) t = some (lead, rest') →
        find? name (t ++ rest) = none := by
  fun_induction segmentsFrom start source
  case case1 start source hn =>
    obtain ⟨-, rfl, rfl⟩ := mem_ofRaw_iff.mp h
    refine ⟨[], [], by simp, rfl, fun name hs lead rest _ => ?_⟩
    rw [List.append_nil]
    exact Region.find?_eq_none_of_next? hn hs
  case case2 start source x hx at' hi =>
    have whole := Region.append_of_next? hx
    rcases List.mem_append.mp h with h | h
    case inl =>
      obtain ⟨-, rfl, rfl⟩ := mem_ofRaw_iff.mp h
      refine ⟨[], x.text ++ x.rest, by simpa using whole.symm, rfl, fun name hs lead rest hc => ?_⟩
      rw [← List.append_assoc, whole]
      exact Region.find?_eq_none_of_lead hx hs hc
    case inr =>
      cases h
      case tail h =>
        obtain ⟨front, rest, hr, hs, hf⟩ := hi h
        refine ⟨x.lead ++ x.text ++ front, rest, ?_, ?_, hf⟩
        case refine_1 => rw [← whole, hr, List.append_assoc _ front]
        case refine_2 => rw [hs, width_append, width_append, ← Nat.add_assoc, ← Nat.add_assoc]

end Scan

variable {source : Text}

theorem mem_unclosed_iff {u : Unclosed} : u ∈ (parse source).unclosed ↔
    ∃ t r, .raw t r ∈ (parse source).segments ∧ u.Reports t r.start := by
  simp only [unclosed, List.mem_mergeSort, List.mem_flatMap]
  constructor
  case mp =>
    rintro ⟨s, hs, hu⟩
    cases s
    case raw t r => exact ⟨t, r, hs, Unclosed.mem_unclosed_raw_iff.mp hu⟩
    all_goals contradiction
  case mpr =>
    rintro ⟨t, r, hs, hu⟩
    exact ⟨_, hs, Unclosed.mem_unclosed_raw_iff.mpr hu⟩

theorem bounds?_eq_none_of_reports {t : Text} {r : Range} {u : Unclosed}
    (h : .raw t r ∈ (parse source).segments) (hu : u.Reports t r.start) :
    bounds? source u.name u.offset = none := by
  obtain ⟨front, rest, rfl, hr, hf⟩ := exists_append_of_raw_mem h
  obtain ⟨n, ho, hn⟩ := hu.first.left
  obtain ⟨lead, rest', hc, hle⟩ := exists_cut?_of_occurs ho
  -- The marker where the text is cut is not behind the one that is reported.
  have least := hu.first.right ⟨_, occurs_of_cut? hc, rfl⟩
  have place : u.offset = width (front ++ lead) := by
    rw [width_append]
    omega
  have none := find?_opening (cut?_append hc rest) (hf _ hu.supported _ _ hc)
  have drop : dropBytes? u.offset (front ++ (t ++ rest)) = some (opening u.name ++ (rest' ++ rest)) := by
    rw [place, ← append_of_cut? hc, ← dropBytes?_width_append (front ++ lead)]
    simp only [List.append_assoc]
  rw [bounds?, drop]
  exact congrArg (Option.bind · _) none

theorem bounds_of_mem_markers {name t : Text} {start n : Nat} (h : n ∈ markers name t start) :
    start ≤ n ∧ n + width (opening name) ≤ start + width t := by
  obtain ⟨_, ⟨lead, rest, rfl, rfl⟩, rfl⟩ := h
  simp only [width_append]
  omega

-- Different markers do not stand at one place.
theorem name_eq_of_offset_eq {t : Text} {start : Nat} {u v : Unclosed} (hu : u.Reports t start)
    (hv : v.Reports t start) (h : u.offset = v.offset) : u.name = v.name := by
  obtain ⟨n, hn, he⟩ := hu.first.left
  obtain ⟨m, hm, he'⟩ := hv.first.left
  obtain rfl : n = m := by omega
  obtain ⟨rest, hp, hp'⟩ := hn.exists_prefix hm
  exact eq_of_openings hu.supported hv.supported hp hp'

theorem nodup_names_unclosed (t : Text) (r : Range) :
    ((Segment.raw t r).unclosed.map Unclosed.name).Nodup := by
  have sublist : ((Segment.raw t r).unclosed.map Unclosed.name).Sublist Region.supported := by
    unfold Segment.unclosed
    generalize Region.supported = names
    induction names
    case nil => exact .slnil
    case cons name names hi =>
      cases ho : offsets (opening name) t
      case nil  => simpa [List.filterMap_cons, ho] using hi.cons name
      case cons => simpa [List.filterMap_cons, ho] using hi
  exact sublist.nodup (by decide)

theorem pairwise_unclosed (s : Segment) : s.unclosed.Pairwise fun u v => u.offset ≠ v.offset := by
  cases s
  case command     => exact .nil
  case environment => exact .nil
  case raw t r =>
    refine (List.pairwise_map.mp (nodup_names_unclosed t r)).imp_of_mem fun hu hv hn he => hn ?_
    rw [Unclosed.mem_unclosed_raw_iff] at hu hv
    exact name_eq_of_offset_eq hu hv he

theorem offset_lt_of_mem {source : Text} {s : Segment} (h : s ∈ (parse source).segments) {u : Unclosed}
    (hu : u ∈ s.unclosed) : s.range.start ≤ u.offset ∧ u.offset < s.range.stop := by
  have range := ((laid_segmentsFrom 0 source).range_eq h).right
  cases s
  case raw t r =>
    have bounds := bounds_of_mem_markers (Unclosed.mem_unclosed_raw_iff.mp hu).first.left
    have := mt width_eq_zero_iff.mp (opening_ne_nil u.name)
    simp only [Segment.range, Segment.text] at range ⊢
    omega
  all_goals contradiction

theorem pairwise_flatMap_unclosed (source : Text) :
    ((parse source).segments.flatMap Segment.unclosed).Pairwise fun u v => u.offset ≠ v.offset := by
  refine List.pairwise_flatMap.mpr ⟨fun s _ => pairwise_unclosed s, ?_⟩
  refine (laid_segmentsFrom 0 source).pairwise.imp_of_mem fun hs hs' h u hu v hv => ?_
  have := offset_lt_of_mem hs hu
  have := offset_lt_of_mem hs' hv
  omega

theorem pairwise_offset_lt (source : Text) : (parse source).unclosed.Pairwise (·.offset < ·.offset) := by
  have sorted : (parse source).unclosed.Pairwise (·.offset ≤ ·.offset) := by
    refine (List.pairwise_mergeSort (fun _ _ _ => ?_) (fun _ _ => ?_) _).imp of_decide_eq_true
    case refine_1 => simpa using Nat.le_trans
    case refine_2 => simpa using Nat.le_total _ _
  have distinct := (List.mergeSort_perm _ (fun u v : Unclosed => decide (u.offset ≤ v.offset))).symm.pairwise
    (pairwise_flatMap_unclosed source) Ne.symm
  exact (sorted.and distinct).imp fun ⟨hle, hne⟩ => Nat.lt_of_le_of_ne hle hne

theorem exists_covers {name : Text} (hn : name ∈ Region.supported) {n : Nat} (h : n ∈ markers name source 0) :
    ∃ s ∈ (parse source).segments, n ∈ markers name s.text s.range.start ∧ Covers s.range name n := by
  obtain ⟨m, ho, rfl⟩ := h
  obtain ⟨s, hs, hm⟩ := exists_segment_of_occurs hn 0 source ho
  have range := ((laid_segmentsFrom 0 source).range_eq hs).right
  refine ⟨s, hs, hm, ?_⟩
  rw [Covers, range]
  exact bounds_of_mem_markers hm

theorem diagnosed_parse (source : Text) : Diagnosed source where
  ordered    := pairwise_offset_lt source
  reported _ := mem_unclosed_iff
  told       := List.forall₂_map_right_iff.mpr (List.forall₂_same.mpr fun u _ => tells_diagnostic u)
  within name hn n h := by
    obtain ⟨s, hs, -, hc⟩ := exists_covers hn h
    exact ⟨s, hs, hc⟩
  unbounded u hu := by
    obtain ⟨t, r, h, hu⟩ := mem_unclosed_iff.mp hu
    exact bounds?_eq_none_of_reports h hu
  counted name hn n h := by
    obtain ⟨s, hs, hm, hc⟩ := exists_covers hn h
    cases s
    case environment b => exact .inl ⟨b, hs, hc⟩
    case command => exact absurd hs (not_command_mem 0 source)
    case raw t r =>
      obtain ⟨first, later, ho⟩ := Unclosed.exists_offsets hm
      have reports : Unclosed.Reports _ t r.start := Unclosed.reports_of_offsets hn ho
      exact .inr ⟨t, r, _, hs, mem_unclosed_iff.mpr ⟨t, r, hs, reports⟩, rfl, reports, hm⟩

-- The one end belongs to the second of two markers.
example :
    (parse "\\begin\x7btikzpicture\x7d\\begin\x7btikzpicture\x7d\\end\x7btikzpicture\x7d".toList).unclosed =
      [⟨"tikzpicture".toList, 1, 0⟩] := by
  decide +kernel

end Document
end TikzPress
