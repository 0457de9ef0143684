import TikzPress.CommandLine
import TikzPress.Proofs.Manager.InTime

/-!
What a preview prints. Main statement: one fragment for each fence, all of them of compilations that are over,
in whatever order they came to their ends; nor does a compilation of a single file end with nothing said about
its key (`preview_complete`).
-/

namespace TikzPress

namespace Markup

-- What a block of a kind begins with.
def opening (kind : String) : Text :=
  "<div class=\"tikzmd-block".toList ++ kind.toList ++ "\" data-tikz-key=\"".toList

def isError (fragment : Text) : Bool :=
  (opening " tikzmd-error").isPrefixOf fragment

def isPlaceholder (fragment : Text) : Bool :=
  (opening " tikzmd-pending").isPrefixOf fragment

theorem isError_render (key : Text) (x : Status) : isError (render key x) = CommandLine.isFailure x := by
  cases x <;> rfl

theorem isPlaceholder_render (key : Text) (x : Status) : isPlaceholder (render key x) = !x.isSettled := by
  cases x <;> rfl

end Markup

namespace CommandLine

def key (s : Settings) (f : Fence) : Text :=
  CacheKey.of f.content s

-- An outcome has one fragment for each fence, which says how the compilation of its key ended.
structure Previewed (s : Settings) (fences : List Fence) (o : Outcome) : Prop where
  code      : o.code = 0
  fragments : ∃ known : Text → Status, (∀ f ∈ fences, (known (key s f)).isSettled) ∧
    o.results = fences.map fun f => Markup.render (key s f) (known (key s f))
  finished  : ∀ x ∈ o.results, ¬Markup.isPlaceholder x
  same      : ∀ i j : Nat, ∀ f ∈ fences[i]?, ∀ g ∈ fences[j]?, f.content = g.content →
    o.results[i]? = o.results[j]?
  messages  : o.messages =
    [Text.ofNat fences.length ++ " fence(s), ".toList ++ Text.ofNat (o.results.countP Markup.isError) ++
      " failed".toList, "Artifacts in ".toList ++ s.cacheDirectory]

theorem previewed_of_known (s : Settings) (fences : List Fence) {known : Text → Status}
    (h : ∀ f ∈ fences, (known (key s f)).isSettled) :
    Previewed s fences (ofStatuses s (fences.map (key s)) (fences.map fun f => known (key s f))) := by
  have results : List.zipWith Markup.render (fences.map (key s)) (fences.map fun f => known (key s f)) =
      fences.map fun f => Markup.render (key s f) (known (key s f)) := by
    simp [List.zipWith_map, List.zipWith_self]
  refine ⟨rfl, ⟨known, h, results⟩, ?_, ?_, ?_⟩
  case refine_1 =>
    intro x hx
    rw [ofStatuses, results] at hx
    have ⟨f, hf, he⟩ := List.mem_map.mp hx
    simp [← he, Markup.isPlaceholder_render, h f hf]
  case refine_2 =>
    intro i j f hf g hg he
    have same : key s f = key s g := by rw [key, he, key]
    rw [ofStatuses, results, List.getElem?_map, List.getElem?_map, hf, hg, Option.map_some, same]
    rfl
  case refine_3 =>
    simp [ofStatuses, results, List.countP_map, Function.comp_def, Markup.isError_render]

section Session

variable {host : Host} {s : Settings} {svg force : Bool} {width window : Nat} {σ : Session}

theorem endsWith_previewed {fences : List Fence}
    (r : Session.Run s true force (.start width window (fences.map Fence.content)) σ) :
    σ.EndsWith s true force fun found => Previewed s fences (ofStatuses s (fences.map (key s)) found) := by
  refine Session.endsWith_of_settled r fun known h => ?_
  have settled (f) (hf : f ∈ fences) : (known (key s f)).isSettled := h f.content (List.mem_map_of_mem hf)
  rw [List.map_map]
  exact previewed_of_known s fences settled

theorem ofStatus_ne_unsettled {file file' : Text} {x : Status} (h : x.isSettled) :
    ofStatus file x ≠ .error (.unsettled file') := by
  cases x
  case absent   => contradiction
  case pending  => contradiction
  case resolved => nofun
  case failed   => nofun

-- Somebody who waits for one content only finds what its compilation came to.
theorem endsWith_ofStatus {content : Text} (file : Text)
    (r : Session.Run s svg force (.start width window [content]) σ) :
    σ.EndsWith s svg force fun found =>
      ∃ x, found = [x] ∧ ∀ file', ofStatus file x ≠ .error (.unsettled file') :=
  Session.endsWith_of_settled r fun known h =>
    ⟨known (CacheKey.of content s), rfl, fun _ => ofStatus_ne_unsettled (h content (.head _))⟩

-- What a preview prints is what is found in a session that has come to its end.
structure Found (host : Host) (s : Settings) (force : Bool) (content : Text) (o : Outcome) (σ : Session) : Prop where
  run     : Session.Run s true force (.start host.width Refresh.defaultWindow (contents .preview content)) σ
  ended   : σ.waiting = []
  printed : o = ofStatuses s ((Fence.all content).map (key s)) σ.found

theorem Found.previewed {content : Text} {o : Outcome} (f : Found host s force content o σ) :
    Previewed s (Fence.all content) o :=
  f.printed ▸ (endsWith_previewed f.run).right f.ended

theorem found_preview (b : host.Bounded s) {content : Text} (h : Fence.all content ≠ []) (file : Text)
    (force : Bool) (w : World) : ∃ σ, Found host s force content (preview host file content s force w).1 σ := by
  obtain ⟨m, run⟩ := Session.exists_run_inTime b true force Refresh.defaultWindow (contents .preview content) w
  refine ⟨_, run, rfl, ?_⟩
  unfold preview
  split
  case h_1 none => exact absurd none h
  case h_2 =>
    simp only [contents, Manager.requests, List.foldl_map, List.map_map]
    rfl

theorem compile_ne_unsettled (b : host.Bounded s) (file file' content : Text) (svg force : Bool) (w : World) :
    (compile host file content s svg force w).1 ≠ .error (.unsettled file') := by
  unfold compile
  dsimp only
  split
  case isTrue => nofun
  case isFalse =>
    have ⟨m, r⟩ := Session.exists_run_inTime b svg force Refresh.defaultWindow [content] w
    have ⟨x, hx, settled⟩ := (endsWith_ofStatus file r).right rfl
    exact List.head_eq_of_cons_eq hx ▸ settled file'

end Session

-- Each preview of a text with fences, and each compilation of a file: whatever the order in which requests are
-- served and compilations end, nothing gets stuck, and what is found in the end has been settled. So does the
-- command itself end, unless there is no timeout and a program hangs for good, and it prints what is found in such
-- a session.
theorem preview_complete {content : Text} (h : Fence.all content ≠ []) (s : Settings) :
    (∀ force width window σ, Session.Run s true force (.start width window (contents .preview content)) σ →
      σ.EndsWith s true force fun found =>
        Previewed s (Fence.all content) (ofStatuses s ((Fence.all content).map (key s)) found)) ∧
    (∀ r i w, i.command = .preview → prepare r i.file i.given w = .ok (content, s) → r.host.Bounded s →
      ∃ o v, execute r i w = (.ok o, v) ∧ Previewed s (Fence.all content) o ∧
        ∃ σ, Found r.host s (i.given.has .force) content o σ) ∧
    (∀ file text svg force width window σ,
      Session.Run s svg force (.start width window (contents .compile text)) σ →
      σ.EndsWith s svg force fun found =>
        ∃ x, found = [x] ∧ ∀ file', ofStatus file x ≠ .error (.unsettled file')) ∧
    (∀ r i w text, i.command = .compile → prepare r i.file i.given w = .ok (text, s) → r.host.Bounded s →
      ∀ file, (execute r i w).1 ≠ .error (.unsettled file)) := by
  refine ⟨fun force width window σ r => ?_, fun r i w hc hp b => ?_,
    fun file text svg force width window σ r => ?_, fun r i w text hc hp b file => ?_⟩
  case refine_1 => exact endsWith_previewed r
  case refine_2 =>
    obtain ⟨σ, found⟩ := found_preview b h i.file (i.given.has .force) w
    refine ⟨_, (preview r.host i.file content s (i.given.has .force) w).2, ?_, found.previewed, σ, found⟩
    simp only [execute, hc, hp]
  case refine_3 => exact endsWith_ofStatus file r
  case refine_4 =>
    simp only [execute, hc, hp]
    exact compile_ne_unsettled b i.file file text (!i.given.has .pdfOnly) (i.given.has .force) w

-- The same fence stands twice in a document, and the engine is killed.
theorem preview_complete_of_two_fences :
    ∃ r i w content s o v, (Fence.all content).map Fence.content = ["x\n".toList, "x\n".toList] ∧
      i.command = .preview ∧ prepare r i.file i.given w = .ok (content, s) ∧ r.host.Bounded s ∧
      execute r i w = (.ok o, v) ∧ Previewed s (Fence.all content) o ∧
      ∃ σ, Found r.host s (i.given.has .force) content o σ := by
  let content := "```tikz\nx\n```\n```tikz\nx\n```\n".toList
  let s : Settings := .withCacheDirectory "cache".toList
  let r : Surroundings := ⟨[], ⟨[], fun _ _ tree => .ok ⟨tree, [], .killed⟩, 2⟩⟩
  let i : Invocation :=
    ⟨.preview, "d.md".toList, { overrides := { cacheDirectory? := some "cache".toList } }⟩
  let w : World := ⟨⟨[(["d.md".toList], .file (Text.encode content))]⟩, []⟩
  have fences : Fence.all content ≠ [] := by decide +kernel
  have prepared : prepare r i.file i.given w = .ok (content, s) := by decide +kernel
  have bounded : r.host.Bounded s := nofun
  have ⟨_, previews, _⟩ := preview_complete fences s
  have ⟨o, v, ends, previewed, found⟩ := previews r i w rfl prepared bounded
  exact ⟨r, i, w, content, s, o, v, by decide +kernel, rfl, prepared, bounded, ends, previewed, found⟩

end CommandLine
end TikzPress
