import TikzPress.CacheKey
import TikzPress.Proofs.Json.Quoted

/-!
What is digested into a cache key. The content stands right in front of the signature, and a content may
well end like a signature; still no signature ends in another one, because each has its only brace in front
of a quote and a letter at its very start. Main statement: the digested bytes are those of one content and
of one choice of the settings that change the result (`input_signature_eq_iff`).
-/

namespace TikzPress

open Json

theorem Engine.name_injective {a b : Engine} (h : a.name = b.name) : a = b := by
  revert h
  cases a <;> cases b <;> decide

theorem SvgTool.name_injective {a b : SvgTool} (h : a.name = b.name) : a = b := by
  revert h
  cases a <;> cases b <;> decide

namespace Settings

theorem signature_eq (s : Settings) :
    s.signature = '\x7b' ::
      (quote "engine".toList ++ ':' :: (quote s.engine.name ++ ',' ::
      (quote "engine_path".toList ++ ':' :: (quote s.enginePath ++ ',' ::
      (quote "preamble".toList ++ ':' :: '[' :: (compactItems (s.preamble.map .text) ++ ']' :: ',' ::
      (quote "svg_tool".toList ++ ':' :: (quote s.svgTool.name ++ ',' ::
      (quote "svg_tool_path".toList ++ ':' :: (quote s.svgToolPath ++ ['\x7d'])))))))))) := by
  simp [signature, ofFields, List.mergeSort, Text.before, compact, compactFields]

theorem strung_signature (s : Settings) : ∃ t, s.signature = '\x7b' :: t ∧ Strung t := by
  refine ⟨_, s.signature_eq, ?_⟩
  have named {s t} (h : Strung t) : Strung (quote s ++ ':' :: t) :=
    .string (by decide) (.mark (by decide) h)
  have valued {s t} (h : Strung t) : Strung (quote s ++ ',' :: t) :=
    .string (by decide) (.mark (by decide) h)
  have last {s} : Strung (quote s ++ ['\x7d']) :=
    .string (by decide) (.mark (by decide) .nil)
  refine named <| valued <| named <| valued <| named <| .mark (by decide) <| .items ?_ s.preamble
  exact .mark (by decide) <| .mark (by decide) <| named <| valued <| named last

-- A signature opens like no text inside another signature does.
theorem signature_suffix {s t : Settings} {lead : Text} (h : s.signature = lead ++ t.signature) :
    lead = [] := by
  obtain ⟨rest, hs, hr⟩ := s.strung_signature
  cases lead
  case nil => rfl
  case cons c lead =>
    rw [hs] at h
    have opens : ['\x7b', '"', 'e'] <+: t.signature := by
      rw [signature_eq, quote_append]
      exact ⟨_, rfl⟩
    have inside : ['\x7b', '"', 'e'] <:+: rest := by
      rw [(List.cons.inj h).right]
      exact opens.isInfix.trans (List.suffix_append lead _).isInfix
    exact absurd (hr.mem_marks inside) (by decide)

theorem signature_eq_iff {s t : Settings} :
    s.signature = t.signature ↔
      s.engine = t.engine ∧ s.enginePath = t.enginePath ∧ s.svgTool = t.svgTool ∧
      s.svgToolPath = t.svgToolPath ∧ s.preamble = t.preamble := by
  constructor
  case mpr =>
    rintro ⟨h₁, h₂, h₃, h₄, h₅⟩
    simp only [signature, h₁, h₂, h₃, h₄, h₅]
  case mp =>
    intro h
    simp only [signature_eq, List.cons.injEq, List.append_cancel_left_eq, true_and] at h
    have ⟨engine, h⟩ := quote_append_inj h
    simp only [List.cons.injEq, List.append_cancel_left_eq, true_and] at h
    have ⟨enginePath, h⟩ := quote_append_inj h
    simp only [List.cons.injEq, List.append_cancel_left_eq, true_and] at h
    have ⟨preamble, h⟩ := compactItems_append_inj h
    simp only [List.cons.injEq, List.append_cancel_left_eq, true_and] at h
    have ⟨svgTool, h⟩ := quote_append_inj h
    simp only [List.cons.injEq, List.append_cancel_left_eq, true_and] at h
    have ⟨svgToolPath, _⟩ := quote_append_inj h
    exact ⟨Engine.name_injective engine, enginePath, SvgTool.name_injective svgTool, svgToolPath,
      preamble⟩

end Settings

namespace CacheKey

theorem append_signature_inj {c d : Text} {s t : Settings}
    (h : c ++ s.signature = d ++ t.signature) : c = d ∧ s.signature = t.signature := by
  rcases List.append_eq_append_iff.mp h with ⟨lead, hd, hs⟩ | ⟨lead, hc, ht⟩
  case inl =>
    cases Settings.signature_suffix hs
    exact ⟨by simpa using hd.symm, hs⟩
  case inr =>
    cases Settings.signature_suffix ht
    exact ⟨by simpa using hc, ht.symm⟩

-- What is digested tells the content from the settings, though nothing stands between them. The cache
-- directory and the timeout are not told.
theorem input_signature_eq_iff (c d : Text) (s t : Settings) :
    input c s.signature = input d t.signature ↔
      c = d ∧ s.engine = t.engine ∧ s.enginePath = t.enginePath ∧ s.svgTool = t.svgTool ∧
      s.svgToolPath = t.svgToolPath ∧ s.preamble = t.preamble := by
  rw [← Settings.signature_eq_iff]
  constructor
  case mp  => exact fun h => append_signature_inj (Text.encode_injective h)
  case mpr => exact fun ⟨hc, hs⟩ => by rw [hc, hs]

section Names

-- Sixty-four lower-case hexadecimal digits.
structure IsKey (key : Text) : Prop where
  length : key.length = 64
  digits : ∀ c ∈ key, ∃ n < 16, c = Digest.hexDigit n

variable {key : Text}

theorem IsKey.width_take (h : IsKey key) : Text.width (key.take shownWidth) = shownWidth := by
  have narrow : ∀ n < 16, (Digest.hexDigit n).utf8Size = 1 := by decide
  have single : ∀ c ∈ key.take shownWidth, c.utf8Size = 1 := by
    intro c hc
    obtain ⟨n, hn, rfl⟩ := h.digits c (List.mem_of_mem_take hc)
    exact narrow n hn
  rw [Text.width_eq_length single, List.length_take, h.length]
  rfl

theorem IsKey.baseName_eq (h : IsKey key) : baseName key = nameStart ++ key.take shownWidth := by
  have whole := Text.takeBytes?_width_append (key.take shownWidth) (key.drop shownWidth)
  rw [h.width_take, List.take_append_drop] at whole
  rw [baseName, whole]
  rfl

theorem IsKey.slash_not_mem (h : IsKey key) : '/' ∉ baseName key := by
  have digits : ∀ n < 16, '/' ≠ Digest.hexDigit n := by decide
  rw [h.baseName_eq, List.mem_append, not_or]
  refine ⟨by decide, fun hm => ?_⟩
  obtain ⟨n, hn, same⟩ := h.digits _ (List.mem_of_mem_take hm)
  exact digits n hn same

end Names

theorem baseName_of_x (directory : Text) :
    baseName (of ['x'] (.withCacheDirectory directory)) = "tikzmd-9ef32df959eaf587".toList := by
  have same : of ['x'] (.withCacheDirectory directory) = of ['x'] (.withCacheDirectory []) := rfl
  rw [same, of, hash, Digest.sha256, Settings.signature_eq]
  rw [Digest.run, if_pos (by decide +kernel), Digest.run, if_pos (by decide +kernel), Digest.run,
    if_neg (by decide +kernel)]
  decide +kernel

end CacheKey
end TikzPress
