import TikzPress.CommandLine
import TikzPress.Proofs.Manager.InTime
import TikzPress.Proofs.Manager.Origin

/-!
Compiling a file again. What a compilation has published under the absolute form of the cache directory is found
by the next run under the directory as it is configured, so that nothing is done again. Main statement: the second
run does nothing and succeeds, and it prints the same path exactly if the first run did nothing either or the
path as it is configured is absolute already (`run_again`).
-/

namespace TikzPress

namespace Manager

variable {host : Host} {m n : Manager} {key content p : Text} {s : Settings} {svg : Bool} {w v : World}

-- Nothing is found any more once the queue is empty.
theorem artifact?_of_step? (key p : Text) (h : m.step? host w = some (n, v)) (hq : m.queue = []) :
    n.queue = [] ∧ (n.artifact? key = some p → m.artifact? key = some p) := by
  obtain ⟨before, x, after, f, _, rfl⟩ | ⟨t, queue, full, _⟩ := step?_cases h
  case inr => exact nomatch hq.symm.trans full
  case inl =>
    refine ⟨(queue_finish ..).trans hq, fun hp => ?_⟩
    obtain hp | ⟨_, _, _, failed, _⟩ := artifact?_of_finish hp
    case inl => exact hp
    case inr => contradiction

theorem artifact?_of_waitInTime (k : Text) (w : World) (hq : m.queue = [])
    (h : (m.waitInTime host k w).1.artifact? key = some p) : m.artifact? key = some p := by
  fun_induction Manager.waitInTime host k m w
  case case1 => exact h
  case case2 => exact h
  case case3 m _ _ _ _ next hi =>
    obtain ⟨ms, step | step⟩ := stepInTime?_cases next
    all_goals
      obtain ⟨empty, found⟩ := artifact?_of_step? key p step hq
      exact found (hi empty h)

theorem status_finish_ok {t : Task} (current : t.epoch = m.ledger.epoch) (artifacts : Compilation.Artifacts) :
    (m.finish t (.ok artifacts)).status t.key = .resolved artifacts.shown := by
  simp [finish, current, Ledger.settle?, status, Ledger.status, Table.get?_put]

-- The last task of a queue finds an artifact exactly if its compilation succeeds.
theorem resolved_of_start_iff {t : Task} (hq : m.queue = []) (unknown : m.artifact? t.key = none)
    (current : t.epoch = m.ledger.epoch) :
    (∃ n, (m.start host t w).1.waitInTime host t.key (m.start host t w).2 = (n, v) ∧
      n.status t.key = .resolved p) ↔
    ∃ artifacts, (Compilation.compile host t.settings t.job).outcome w = (.ok artifacts, v) ∧
      p = artifacts.shown := by
  have unresolved {k : Manager} {u : World} (empty : k.queue = []) (kept : k.artifact? t.key = some p →
      m.artifact? t.key = some p) : ¬∃ n, k.waitInTime host t.key u = (n, v) ∧ n.status t.key = .resolved p := by
    intro ⟨n, ends, resolved⟩
    have known : (k.waitInTime host t.key u).1.artifact? t.key = some p :=
      ends ▸ Ledger.status_eq_resolved_iff.mp resolved
    exact nomatch unknown.symm.trans (kept (artifact?_of_waitInTime t.key u empty known))
  unfold start Compilation.Step.outcome
  split
  case h_1 artifacts u h =>
    have found := status_finish_ok current artifacts
    rw [waitInTime, if_pos (by simp [found]), h]
    constructor
    case mp =>
      intro ⟨n, ends, resolved⟩
      cases ends
      exact ⟨artifacts, rfl, Status.resolved.inj (resolved.symm.trans found)⟩
    case mpr =>
      intro ⟨_, ends, shown⟩
      cases ends
      exact ⟨_, rfl, shown ▸ found⟩
  case h_2 f u h =>
    refine iff_of_false (unresolved ((queue_finish ..).trans hq) fun known => ?_) fun ⟨_, ends, _⟩ =>
      nomatch h.symm.trans ends
    obtain known | ⟨_, _, _, failed, _⟩ := artifact?_of_finish known
    case inl => exact known
    case inr => contradiction
  case h_3 u h =>
    exact iff_of_false (unresolved hq id) fun ⟨_, ends, _⟩ => nomatch h.symm.trans ends

section Single

variable (width window : Nat) (host : Host) (key content : Text) (s : Settings) (svg : Bool) (w : World)

theorem stepInTime?_request_new :
    ((new width window).request key content s svg false).stepInTime? host w =
      some (({ (new width window).request key content s svg false with queue := [] } : Manager).start host
        ((new width window).task key content s svg) w) := by
  have place : 0 < max width 1 := Nat.lt_of_lt_of_le Nat.zero_lt_one (Nat.le_max_right width 1)
  have step : ((new width window).request key content s svg false).step? host w = some _ := if_pos place
  rw [stepInTime?, step]

-- A manager with one request finds an artifact exactly if its compilation succeeds.
theorem resolved_waitInTime_iff :
    (∃ n, ((new width window).request key content s svg false).waitInTime host key w = (n, v) ∧
      n.status key = .resolved p) ↔
    ∃ artifacts, (Compilation.compile host s ((new width window).task key content s svg).job).outcome w =
      (.ok artifacts, v) ∧ p = artifacts.shown := by
  have pending : ((new width window).request key content s svg false).status key = .pending :=
    Ledger.status_eq_pending_iff.mpr ⟨rfl, rfl, .head _⟩
  rw [waitInTime, if_neg (Decidable.not_not.mpr pending)]
  split
  case h_1 h =>
    rw [stepInTime?_request_new] at h
    contradiction
  case h_2 h =>
    obtain ⟨rfl, rfl⟩ := Prod.mk.inj (Option.some.inj ((stepInTime?_request_new ..).symm.trans h))
    exact resolved_of_start_iff (t := (new width window).task key content s svg) rfl rfl rfl

end Single
end Manager

-- What a compilation shows is there when it is over.
theorem Compilation.hasEntry_shown {host : Host} {s : Settings} {job : Job} {artifacts : Artifacts}
    {w v : World} (h : (compile host s job).outcome w = (.ok artifacts, v)) :
    v.tree.hasEntry host.directory artifacts.shown := by
  obtain ⟨_, _, published, made⟩ := compile_eq_ok_iff.mp h
  obtain ⟨⟨_, _, pdf⟩, svg⟩ := reads_of_publishAll published
  rw [made]
  cases hs : job.svg
  case false =>
    have there := FileTree.read_eq_ok_iff.mp pdf
    simp [Job.artifacts, Artifacts.shown, hs, FileTree.hasEntry, there, Except.isOk, Except.toBool]
  case true =>
    obtain ⟨_, _, svg⟩ := svg hs
    have there := FileTree.read_eq_ok_iff.mp svg
    simp [Job.artifacts, Artifacts.shown, hs, FileTree.hasEntry, there, Except.isOk, Except.toBool]

section Items

variable {allowed : List Switch} {a : Text} {rest left : List Text} {items : List Item}

theorem Item.all_of_next? (h : next? allowed a rest = some (items, left)) :
    all allowed (a :: rest) = items ++ all allowed left := by
  rw [all]
  split <;> simp_all

theorem Item.next?_of_word (h : Form.of a = .word) : next? allowed a rest = none := by
  rw [next?, h]

theorem Item.all_of_word (h : Form.of a = .word) : all allowed (a :: rest) = .word a :: all allowed rest := by
  rw [all]
  split <;> simp_all [next?_of_word h]

theorem Item.front_of_word (h : Form.of a = .word) : front allowed (a :: rest) = ([], a :: rest) := by
  rw [front]
  split <;> simp_all [next?_of_word h]

end Items

namespace CommandLine

variable {r : Surroundings} {i : Invocation} {arguments : List Text} {host : Host} {file content : Text}
variable {s : Settings} {svg : Bool} {w v : World} {o : Outcome}

theorem ofStatus_eq_ok_iff {x : Status} :
    ofStatus file x = .ok o ↔ ∃ p, x = .resolved p ∧ o = .ofArtifact "Compiled" p := by
  cases x <;> simp [ofStatus, eq_comm]

-- A compilation that nothing forces succeeds if there is nothing to do, or else if the compiler does.
theorem compile_eq_ok_iff :
    compile host file content s svg false w = (.ok o, v) ↔
      if w.tree.hasEntry host.directory (artifact s (CacheKey.of content s) svg) then
        o = .ofArtifact "Up to date" (artifact s (CacheKey.of content s) svg) ∧ v = w
      else ∃ artifacts, (Compilation.compile host s ((Manager.new host.width Refresh.defaultWindow).task
          (CacheKey.of content s) content s svg).job).outcome w = (.ok artifacts, v) ∧
        o = .ofArtifact "Compiled" artifacts.shown := by
  unfold compile
  simp only [Bool.false_eq_true, not_false_eq_true, true_and]
  split
  case isTrue => simp [eq_comm]
  case isFalse =>
    have found (p : Text) := Manager.resolved_waitInTime_iff host.width Refresh.defaultWindow host
      (CacheKey.of content s) content s svg w (v := v) (p := p)
    constructor
    case mp =>
      intro h
      have ⟨ends, there⟩ := Prod.mk.inj h
      have ⟨p, resolved, shown⟩ := ofStatus_eq_ok_iff.mp ends
      have ⟨artifacts, compiles, same⟩ := (found p).mp ⟨_, Prod.ext rfl there, resolved⟩
      exact ⟨artifacts, compiles, same ▸ shown⟩
    case mpr =>
      intro ⟨artifacts, compiles, shown⟩
      have ⟨n, waits, resolved⟩ := (found artifacts.shown).mpr ⟨artifacts, compiles, rfl⟩
      simp only [waits, resolved, ofStatus, shown]

-- What a compilation that succeeds prints, and that its artifact is there afterwards.
theorem compile_again (proper : host.directory.Proper) (h : compile host file content s svg false w = (.ok o, v)) :
    v.tree.hasEntry host.directory (artifact s (CacheKey.of content s) svg) ∧
      o.results = [if w.tree.hasEntry host.directory (artifact s (CacheKey.of content s) svg) then
        artifact s (CacheKey.of content s) svg
      else Demand.path ⟨s, svg⟩ host.directory (CacheKey.of content s)] := by
  have first := compile_eq_ok_iff.mp h
  split at first
  case isTrue there =>
    obtain ⟨rfl, rfl⟩ := first
    exact ⟨there, by rw [if_pos there]; rfl⟩
  case isFalse absent =>
    obtain ⟨artifacts, compiles, rfl⟩ := first
    have there := Compilation.hasEntry_shown compiles
    have shown := Manager.shown_of_compile (d := ⟨s, svg⟩) compiles
    rw [shown] at there
    refine ⟨FileTree.hasEntry_join_of_absolute proper ?_ rfl there, by rw [if_neg absent, ← shown]; rfl⟩
    have named : CacheKey.nameStart ≠ [] := by decide
    exact List.append_ne_nil_of_left_ne_nil (List.append_ne_nil_of_left_ne_nil named _) _

section Run

variable (read : Invocation.read r.env arguments = .ok i) (command : i.command = .compile)
variable (unforced : i.given.has .force = false)

include read command unforced

theorem run_of_compile (prepared : prepare r i.file i.given w = .ok (content, s))
    (compiles : compile r.host i.file content s (!i.given.has .pdfOnly) false w = (.ok o, v)) :
    run r arguments w = (o, v) := by
  simp only [run, read, execute, command, prepared, unforced, compiles]

-- A run that succeeds has compiled something.
theorem exists_compile_of_run (first : run r arguments w = (o, v)) (succeeds : o.code = 0) :
    ∃ content s, prepare r i.file i.given w = .ok (content, s) ∧
      compile r.host i.file content s (!i.given.has .pdfOnly) false w = (.ok o, v) := by
  match prepared : prepare r i.file i.given w with
  | .error f =>
    simp only [run, read, execute, command, prepared] at first
    cases first
    contradiction
  | .ok (content, s) =>
    match compiles : compile r.host i.file content s (!i.given.has .pdfOnly) false w with
    | (.ok _, _) =>
      cases (run_of_compile read command unforced prepared compiles).symm.trans first
      exact ⟨content, s, rfl, compiles⟩
    | (.error f, _) =>
      simp only [run, read, execute, command, prepared, unforced, compiles] at first
      cases first
      contradiction

end Run

-- After a run that has succeeded, a second one does nothing and succeeds. It prints what the first one has printed
-- exactly if that did nothing either, or if the path of the artifact is absolute as it is configured. A run may
-- happen to write over its input, or over a file that configures it; here it finds the same content and settings.
theorem run_again (proper : r.host.directory.Proper) (read : Invocation.read r.env arguments = .ok i)
    (command : i.command = .compile) (unforced : i.given.has .force = false) (first : run r arguments w = (o, v))
    (succeeds : o.code = 0) (same : prepare r i.file i.given v = prepare r i.file i.given w) :
    ∃ content s path, prepare r i.file i.given w = .ok (content, s) ∧
      path = artifact s (CacheKey.of content s) (!i.given.has .pdfOnly) ∧
      run r arguments v = (.ofArtifact "Up to date" path, v) ∧
      (o.results = [path] ↔ w.tree.hasEntry r.host.directory path ∨
        Demand.path ⟨s, !i.given.has .pdfOnly⟩ r.host.directory (CacheKey.of content s) = path) := by
  have ⟨content, s, prepared, compiles⟩ := exists_compile_of_run read command unforced first succeeds
  have ⟨there, prints⟩ := compile_again proper compiles
  refine ⟨content, s, _, prepared, rfl, ?_, ?_⟩
  case refine_1 =>
    exact run_of_compile read command unforced (same.trans prepared) (compile_of_hasEntry there)
  case refine_2 =>
    rw [prints]
    split
    case isTrue h  => exact iff_of_true rfl (.inl h)
    case isFalse h => rw [List.singleton_inj, or_iff_right h]

section Workshop

-- A host at the root whose programs always leave the same files: the outputs for the content "x" in a directory.
def workshop : Host where
  directory := []
  width     := 1
  programs _ _ _ :=
    .ok ⟨⟨[(["d.tex".toList], .file (Text.encode ['x'])), (["out".toList], .directory),
      (["out".toList, "tikzmd-9ef32df959eaf587.tmp.pdf".toList], .file []),
      (["out".toList, "tikzmd-9ef32df959eaf587.tmp.svg".toList], .file [])]⟩, [], .exited 0⟩

theorem proper_workshop : workshop.directory.Proper :=
  nofun

def drawing : World :=
  ⟨⟨[(["d.tex".toList], .file (Text.encode ['x']))]⟩, []⟩

-- The tree after a run.
def drawn : FileTree :=
  ⟨[(["out".toList, "tikzmd-9ef32df959eaf587.svg".toList], .file []),
    (["out".toList, "tikzmd-9ef32df959eaf587.pdf".toList], .file []),
    (["d.tex".toList], .file (Text.encode ['x'])), (["out".toList], .directory),
    (["out".toList, "tikzmd-9ef32df959eaf587.tmp.pdf".toList], .file []),
    (["out".toList, "tikzmd-9ef32df959eaf587.tmp.svg".toList], .file [])]⟩

def order (cache : Text) : List Text :=
  ["compile".toList, "d.tex".toList, "--cache-dir".toList, cache]

def invocation (cache : Text) : Invocation where
  command := .compile
  file    := "d.tex".toList
  given   :=
    { switches  := [.cacheDirectory]
      file?     := some "d.tex".toList
      overrides := { cacheDirectory? := some cache } }

def caches : List Text :=
  ["out".toList, "/out".toList]

variable {cache : Text}

theorem read_order (h : cache ∈ caches) : Invocation.read [] (order cache) = .ok (invocation cache) := by
  have next : ∀ c ∈ caches, Item.next? Command.compile.switches "--cache-dir".toList [c] =
      some ([.setting .cacheDirectory c], []) := by decide +kernel
  have given : ∀ c ∈ caches, Given.ofItems [.word "d.tex".toList, .setting .cacheDirectory c] =
      .ok (invocation c).given := by decide +kernel
  have items : Item.all Command.compile.switches ["d.tex".toList, "--cache-dir".toList, cache] =
      [.word "d.tex".toList, .setting .cacheDirectory cache] := by
    rw [Item.all_of_word (by decide), Item.all_of_next? (next cache h), Item.all]
    rfl
  have front : Item.front Switch.general (order cache) = ([], order cache) := Item.front_of_word (by decide)
  have named : Command.ofName? "compile".toList = some .compile := by decide
  have reads : Invocation.ofArguments [] .compile ["d.tex".toList, "--cache-dir".toList, cache] =
      .ok (invocation cache) := by
    rw [Invocation.ofArguments, items, given cache h]
    rfl
  rw [Invocation.read, front, ← reads]
  simp only [order, named]
  rw [if_neg (by decide)]
  rfl

theorem prepare_drawing (h : cache ∈ caches) :
    prepare ⟨[], workshop⟩ "d.tex".toList (invocation cache).given drawing =
      .ok (['x'], .withCacheDirectory cache) := by
  have all : ∀ c ∈ caches, prepare ⟨[], workshop⟩ "d.tex".toList (invocation c).given drawing =
    .ok (['x'], .withCacheDirectory c) := by decide +kernel
  exact all cache h

theorem prepare_drawn (h : cache ∈ caches) (calls : List Call) :
    prepare ⟨[], workshop⟩ "d.tex".toList (invocation cache).given ⟨drawn, calls⟩ =
      .ok (['x'], .withCacheDirectory cache) := by
  have all : ∀ c ∈ caches, prepare ⟨[], workshop⟩ "d.tex".toList (invocation c).given ⟨drawn, []⟩ =
    .ok (['x'], .withCacheDirectory c) := by decide +kernel
  exact all cache h

def job (cache : Text) : Compilation.Job :=
  ⟨Standalone.wrap ['x'] [], "tikzmd-9ef32df959eaf587".toList, cache, true⟩

theorem exists_compile_job (h : cache ∈ caches) :
    ∃ artifacts calls, (Compilation.compile workshop (.withCacheDirectory cache) (job cache)).outcome drawing =
      (.ok artifacts, ⟨drawn, calls⟩) := by
  have ends : ∀ c ∈ caches,
      ((Compilation.compile workshop (.withCacheDirectory c) (job c)).outcome drawing).1.isOk = true ∧
      ((Compilation.compile workshop (.withCacheDirectory c) (job c)).outcome drawing).2.tree = drawn := by
    decide +kernel
  match (Compilation.compile workshop (.withCacheDirectory cache) (job cache)).outcome drawing, ends cache h with
  | (.ok artifacts, ⟨_, calls⟩), ⟨_, rfl⟩ => exact ⟨artifacts, calls, rfl⟩

-- A run that finds nothing where the artifact is to be.
theorem exists_run_drawing (h : cache ∈ caches) :
    have s : Settings := .withCacheDirectory cache
    ∃ o calls, run ⟨[], workshop⟩ (order cache) drawing = (o, ⟨drawn, calls⟩) ∧ o.code = 0 ∧
      o.results = [Demand.path ⟨s, true⟩ [] (CacheKey.of ['x'] s)] ∧
      drawn.hasEntry [] (artifact s (CacheKey.of ['x'] s) true) := by
  let s := Settings.withCacheDirectory cache
  have ⟨artifacts, calls, compiles⟩ := exists_compile_job h
  have named : ((Manager.new workshop.width Refresh.defaultWindow).task (CacheKey.of ['x'] s) ['x'] s true).job =
      job cache := congrArg (Compilation.Job.mk _ · _ _) (CacheKey.baseName_of_x cache)
  have absent : ¬drawing.tree.hasEntry workshop.directory (artifact s (CacheKey.of ['x'] s) true) := by
    have all : ∀ c ∈ caches, ¬drawing.tree.hasEntry workshop.directory
      (Path.join c ("tikzmd-9ef32df959eaf587".toList ++ ".svg".toList)) := by decide +kernel
    rw [artifact, CacheKey.baseName_of_x]
    exact all cache h
  have first : compile workshop "d.tex".toList ['x'] s true false drawing =
      (.ok (.ofArtifact "Compiled" artifacts.shown), ⟨drawn, calls⟩) :=
    compile_eq_ok_iff.mpr (by rw [if_neg absent, named]; exact ⟨artifacts, compiles, rfl⟩)
  have ⟨there, prints⟩ := compile_again proper_workshop first
  rw [if_neg absent] at prints
  have runs : run ⟨[], workshop⟩ (order cache) drawing = _ :=
    run_of_compile (read_order h) rfl rfl (prepare_drawing h) first
  exact ⟨_, calls, runs, rfl, prints, there⟩

theorem run_again_absolute :
    ∃ r arguments w i o v, r.host.directory.Proper ∧ Invocation.read r.env arguments = .ok i ∧
      i.command = .compile ∧ i.given.has .force = false ∧ run r arguments w = (o, v) ∧ o.code = 0 ∧
      prepare r i.file i.given v = prepare r i.file i.given w ∧
      ∃ o', run r arguments v = (o', v) ∧ o'.code = 0 ∧ o'.results = o.results := by
  have h : "/out".toList ∈ caches := .tail _ (.head _)
  obtain ⟨o, calls, first, succeeds, prints, _⟩ := exists_run_drawing h
  have same := (prepare_drawn h calls).trans (prepare_drawing h).symm
  obtain ⟨content, s, path, prepared, rfl, second, again⟩ :=
    run_again (r := ⟨[], workshop⟩) proper_workshop (read_order h) rfl rfl first succeeds same
  cases (prepare_drawing h).symm.trans prepared
  have prints := again.mpr (.inr (congrArg (Path.join · _) (by decide)))
  exact ⟨⟨[], workshop⟩, _, _, _, o, _, proper_workshop, read_order h, rfl, rfl, first, succeeds, same, _, second,
    rfl, prints.symm⟩

-- The directory is given relative to the working directory.
theorem run_again_relative :
    ¬∀ r arguments w i o v, r.host.directory.Proper → Invocation.read r.env arguments = .ok i →
      i.command = .compile → i.given.has .force = false → run r arguments w = (o, v) → o.code = 0 →
      prepare r i.file i.given v = prepare r i.file i.given w → (run r arguments v).1.results = o.results := by
  intro all
  have h : "out".toList ∈ caches := .head _
  obtain ⟨o, calls, first, succeeds, prints, there⟩ := exists_run_drawing h
  have same := (prepare_drawn h calls).trans (prepare_drawing h).symm
  have second := run_of_compile (r := ⟨[], workshop⟩) (read_order h) rfl rfl (prepare_drawn h calls)
    (compile_of_hasEntry there)
  have equal := all ⟨[], workshop⟩ _ _ _ o _ proper_workshop (read_order h) rfl rfl first succeeds same
  rw [second, prints, Demand.path, CacheKey.baseName_of_x] at equal
  have printed := List.singleton_inj.mp equal
  rw [artifact, CacheKey.baseName_of_x] at printed
  exact absurd printed (by decide)

end Workshop
end CommandLine
end TikzPress
