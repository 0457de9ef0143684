import TikzPress.Proofs.CacheKey
import TikzPress.Proofs.Compilation.Stages
import TikzPress.Proofs.Manager.Settled

/-!
Where an artifact comes from. A key tells neither the cache directory nor whether an SVG is wanted, and all
handles to a manager share what is known, so that whoever asks for a key may be given what was made for somebody
else.
Main statement: an artifact is what was asked for by the latest request that started a compilation of its key
(`resolved_from_lastStart`).
-/

namespace TikzPress

-- What the path of an artifact depends on, besides its key and the working directory.
structure Demand where
  settings : Settings
  svg : Bool

def Demand.path (d : Demand) (directory : Location) (key : Text) : Text :=
  Path.join (Path.absolute directory.path d.settings.cacheDirectory)
    (CacheKey.baseName key ++ if d.svg then ".svg".toList else ".pdf".toList)

-- A result that a compilation of a task can have in a working directory.
def Task.Yields (t : Task) (directory : Location)
    (result : Except Compilation.Failure Compilation.Artifacts) : Prop :=
  ∃ host patience w v, host.directory = directory ∧
    Compilation.run host t.settings patience t.job w = (some result, v)

namespace Manager

variable {m n : Manager} {a : Action} {t : Task} {key k content p : Text} {directory : Location} {d : Demand}
variable {force : Bool} {history : History} {result : Except Compilation.Failure Compilation.Artifacts}

-- Compilations come to results that they can have.
def Action.Genuine (directory : Location) : Action → Prop
  | .settle t result => t.Yields directory result
  | _                => True

def Action.demand? : Action → Option Demand
  | .request _ _ settings svg _ => some ⟨settings, svg⟩
  | _                           => none

-- What the latest request asked for that started a compilation of a key.
def lastStart? (history : History) (key : Text) : Option Demand :=
  history.findSome? fun x => if x.1.Starts key x.2 then x.2.demand? else none

theorem lastStart?_cons_of_starts (h : m.Starts key a) :
    lastStart? ((m, a) :: history) key = (a.demand?).or (lastStart? history key) := by
  simp only [lastStart?, List.findSome?_cons, if_pos h]
  cases a.demand? <;> rfl

theorem lastStart?_cons_of_not_starts (h : ¬m.Starts key a) :
    lastStart? ((m, a) :: history) key = lastStart? history key := by
  simp only [lastStart?, List.findSome?_cons, if_neg h]

theorem exists_start_of_lastStart? (h : lastStart? history key = some d) :
    ∃ n content force, (n, .request key content d.settings d.svg force) ∈ history ∧
      n.Starts key (.request key content d.settings d.svg force) := by
  have ⟨⟨n, a⟩, mem, found⟩ := List.exists_of_findSome?_eq_some h
  have starts : n.Starts key a := by
    by_contra idle
    simp [idle] at found
  rw [if_pos starts] at found
  cases a
  case request =>
    have same := starts.left
    cases same
    cases found
    exact ⟨n, _, _, mem, starts⟩
  all_goals contradiction

-- What a compilation shows is what was asked for.
theorem shown_of_compile {host : Host} {artifacts : Compilation.Artifacts} {w v : World}
    (h : (Compilation.compile host d.settings (n.task key content d.settings d.svg).job).outcome w =
      (.ok artifacts, v)) : artifacts.shown = d.path host.directory key := by
  have ⟨_, _, _, made⟩ := Compilation.compile_eq_ok_iff.mp h
  rw [made]
  cases hs : d.svg <;>
    simp [Compilation.Job.artifacts, Compilation.Artifacts.shown, Compilation.Job.path, Compilation.Job.file,
      Compilation.Job.directory, Manager.task, Demand.path, hs]

theorem Step.tasks_subset_of_settle (e : Step m (.settle t result) n) : n.tasks ⊆ m.tasks := by
  intro u hu
  cases e
  case settle before after h => exact (tasks_perm_of_queue h).mem_iff.mpr (.tail _ (tasks_finish .. ▸ hu))
  case stop before after h   => exact (tasks_perm_of_hanging h).mem_iff.mpr (.tail _ (tasks_finish .. ▸ hu))

theorem Step.epoch_eq_of_settle (e : Step m (.settle t result) n) : n.ledger.epoch = m.ledger.epoch := by
  obtain ⟨_, l, hl, _, rfl⟩ := e.exists_finish
  have ⟨r, hr⟩ := l.ledger_finish t result
  rw [hr, ← hl]
  cases hs : l.ledger.settle? t.key t.epoch r
  case none => rfl
  case some =>
    have ⟨before, after⟩ := Ledger.epoch_of_settle? hs
    exact after.trans before.symm

-- A key has a new artifact if its compilation succeeds, and not otherwise.
theorem artifact?_of_finish (h : (m.finish t result).artifact? key = some p) :
    m.artifact? key = some p ∨ t.key = key ∧ t.epoch = m.ledger.epoch ∧
      ∃ artifacts, result = .ok artifacts ∧ p = artifacts.shown := by
  unfold finish artifact? at h
  dsimp only at h
  split at h
  case h_1 => exact .inl h
  case h_2 hs =>
    refine (Ledger.artifact?_of_settle? hs h).imp_right fun ⟨hk, hr⟩ => ?_
    refine ⟨hk, (Ledger.epoch_of_settle? hs).left.symm, ?_⟩
    match result, hr with
    | .ok artifacts, hr => exact ⟨artifacts, rfl, (Except.ok.inj hr).symm⟩

-- The compilation of a key that still counts is the one that was asked for last, and so is its artifact.
structure Sourced (directory : Location) (key : Text) (history : History) (m : Manager) : Prop where
  task : ∀ t ∈ m.tasks, t.key = key → t.epoch = m.ledger.epoch →
    ∃ (n : Manager) (content : Text) (d : Demand),
      lastStart? history key = some d ∧ t = n.task key content d.settings d.svg
  artifact : ∀ p, m.artifact? key = some p →
    ∃ d, lastStart? history key = some d ∧ p = d.path directory key

namespace Sourced

theorem new (directory : Location) (key : Text) (width window : Nat) :
    Sourced directory key [] (.new width window) where
  task _     := nofun
  artifact _ := nofun

-- The key was not pending, so that no other compilation of it counts, and it is pending now.
theorem of_starts (i : Tracked m) (x : m.ledger.Exclusive key)
    (h : m.Starts key (.request key content d.settings d.svg force)) :
    Sourced directory key ((m, .request key content d.settings d.svg force) :: history)
      (m.request key content d.settings d.svg force) := by
  have started : lastStart? ((m, .request key content d.settings d.svg force) :: history) key = some d :=
    lastStart?_cons_of_starts h
  have unpending : key ∉ m.ledger.pending := Ledger.not_mem_pending_of_request h.right
  refine ⟨fun t ht hk he => ?_, fun p hp => ?_⟩
  case refine_1 =>
    have mem := (m.tasks_request_perm key content d.settings d.svg force).mem_iff.mp ht
    rw [if_pos h.right] at mem
    cases mem
    case head => exact ⟨m, content, d, started, rfl⟩
    case tail mem =>
      have current : t.epoch = m.ledger.epoch := he.trans (m.ledger.epoch_request key force)
      exact absurd (hk ▸ i.mem_pending mem current) unpending
  case refine_2 =>
    have pending : key ∈ (m.ledger.request key force).1.pending := by
      rw [Ledger.pending_request, if_pos h.right]
      exact .head _
    have status := (x.request key force).status_of_mem_pending pending
    have ⟨unresolved, _, _⟩ := Ledger.status_eq_pending_iff.mp status
    exact nomatch hp.symm.trans unresolved

-- Nothing else brings forth a compilation of the key that counts.
theorem of_not_starts (s : Sourced directory key history m) (h : ¬m.Starts key a)
    (tasks : ∀ t ∈ n.tasks, t.key = key → t.epoch = n.ledger.epoch → t ∈ m.tasks ∧ t.epoch = m.ledger.epoch)
    (artifact : ∀ p, n.artifact? key = some p → m.artifact? key = some p ∨
      ∃ d, lastStart? history key = some d ∧ p = d.path directory key) :
    Sourced directory key ((m, a) :: history) n where
  task t ht hk he := by
    have ⟨ht, he⟩ := tasks t ht hk he
    rw [lastStart?_cons_of_not_starts h]
    exact s.task t ht hk he
  artifact p hp := by
    rw [lastStart?_cons_of_not_starts h]
    exact (artifact p hp).elim (s.artifact p) id

theorem settle (s : Sourced directory key history m) (g : t.Yields directory result)
    (e : Step m (.settle t result) n) : Sourced directory key ((m, .settle t result) :: history) n := by
  refine s.of_not_starts nofun (fun u hu _ he => ?_) (fun p hp => ?_)
  case refine_1 => exact ⟨e.tasks_subset_of_settle hu, he.trans e.epoch_eq_of_settle⟩
  case refine_2 =>
    obtain ⟨mem, l, hl, _, rfl⟩ := e.exists_finish
    obtain hp | ⟨rfl, current, artifacts, rfl, rfl⟩ := artifact?_of_finish hp
    case inl => exact .inl (hl ▸ hp : m.ledger.artifact? key = some p)
    case inr =>
      rw [hl] at current
      have ⟨_, _, d, started, asked⟩ := s.task t mem rfl current
      rw [asked] at g
      obtain ⟨host, _, _, _, rfl, ran⟩ := g
      exact .inr ⟨d, started, shown_of_compile (Compilation.run_eq_ok_iff.mp ran)⟩

theorem step (i : Tracked m) (x : m.ledger.Exclusive key) (s : Sourced directory key history m)
    (g : a.Genuine directory) (e : Step m a n) : Sourced directory key ((m, a) :: history) n := by
  cases a
  case request k content settings svg force =>
    cases e
    by_cases h : m.Starts key (.request k content settings svg force)
    case pos =>
      cases h.left
      exact of_starts (d := ⟨settings, svg⟩) i x h
    case neg =>
      refine s.of_not_starts h (fun t ht hk he => ?_) fun p hp => .inl (Ledger.artifact?_of_request hp)
      have mem := (m.tasks_request_perm k content settings svg force).mem_iff.mp ht
      have old : t ∈ m.tasks := by
        split at mem
        case isFalse => exact mem
        case isTrue starts =>
          cases mem
          case head     => exact absurd ⟨hk, starts⟩ h
          case tail mem => exact mem
      exact ⟨old, he.trans (m.ledger.epoch_request k force)⟩
  case settle => exact s.settle g e
  case hang =>
    cases e
    case hang before after h =>
      exact s.of_not_starts nofun (fun t ht _ he => ⟨(tasks_hang_perm h).mem_iff.mp ht, he⟩) fun _ => .inl
  case clear =>
    cases e
    refine s.of_not_starts nofun (fun t ht _ he => ?_) nofun
    -- What is in flight has been let go of.
    have le := i.epoch_le t ht
    have current : t.epoch = m.ledger.epoch + 1 := he
    omega
  case advance =>
    cases e
    exact s.of_not_starts nofun (fun t ht _ he => ⟨ht, he⟩) fun _ => .inl

theorem run {width window : Nat} (r : Run (.new width window) history m)
    (g : ∀ x ∈ history, x.2.Genuine directory) : Sourced directory key history m := by
  induction r
  case refl => exact new directory key width window
  case step r e hi =>
    have tracked := (Tracked.new width window).run r
    have exclusive := exclusive_run (.new width window) (exclusive_new width window key) r
    exact (hi fun x hx => g x (.tail _ hx)).step tracked exclusive (g _ (.head _)) e

end Sourced

-- What is given for a key is what the latest request asked for that started a compilation of it. It is what a
-- request has asked for itself if all requests for the key agree on the directory and on the kind of output.
theorem resolved_from_lastStart {width window : Nat} (r : Run (.new width window) history m)
    (g : ∀ x ∈ history, x.2.Genuine directory) (resolved : m.status key = .resolved p) :
    (∃ d, lastStart? history key = some d ∧ p = d.path directory key) ∧
    ∀ n content s svg force, (n, .request key content s svg force) ∈ history →
      (∀ n' content' s' svg' force', (n', .request key content' s' svg' force') ∈ history →
        svg' = svg ∧ Path.absolute directory.path s'.cacheDirectory =
          Path.absolute directory.path s.cacheDirectory) →
      p = Demand.path ⟨s, svg⟩ directory key := by
  have known : m.artifact? key = some p := Ledger.status_eq_resolved_iff.mp resolved
  have ⟨d, started, source⟩ := (Sourced.run r g).artifact p known
  refine ⟨⟨d, started, source⟩, fun _ _ s svg _ _ agree => ?_⟩
  have ⟨_, _, _, asked, _⟩ := exists_start_of_lastStart? started
  have ⟨kind, place⟩ := agree _ _ _ _ _ asked
  rw [source, Demand.path, Demand.path, kind, place]

section Directories

-- A host whose programs make the outputs for the content "x" wherever they are called.
def printer : Host where
  directory := []
  width     := 1
  programs _ place tree :=
    .ok ⟨(tree.set (place ++ ["tikzmd-9ef32df959eaf587.tmp.pdf".toList]) (.file [])).set
      (place ++ ["tikzmd-9ef32df959eaf587.tmp.svg".toList]) (.file []), [], .exited 0⟩

def printed : Compilation.Artifacts where
  pdf  := "/a/tikzmd-9ef32df959eaf587.pdf".toList
  svg? := some "/a/tikzmd-9ef32df959eaf587.svg".toList
  log  := "/a/tikzmd-9ef32df959eaf587.tmp.log".toList

theorem run_printer :
    (Compilation.run printer (.withCacheDirectory ['a']) 0
      ⟨Standalone.wrap ['x'] [], "tikzmd-9ef32df959eaf587".toList, ['a'], true⟩ ⟨.empty, []⟩).1 =
        some (.ok printed) := by
  decide +kernel

-- A content is asked for, and its compilation succeeds.
theorem exists_run_printed :
    ∃ history m, Run (new 2 0) history m ∧ (∀ x ∈ history, x.2.Genuine []) ∧
      m.status (CacheKey.of ['x'] (.withCacheDirectory ['a'])) = .resolved printed.shown := by
  let s : Settings := .withCacheDirectory ['a']
  let key := CacheKey.of ['x'] s
  let t := (new 2 0).task key ['x'] s true
  have asks : Step (new 2 0) (.request key ['x'] s true false) _ := .request
  have settles : Step ((new 2 0).request key ['x'] s true false) (.settle t (.ok printed)) _ :=
    .settle [] [] rfl
  have yields : t.Yields [] (.ok printed) := by
    have job : t.job = ⟨_, "tikzmd-9ef32df959eaf587".toList, ['a'], true⟩ :=
      congrArg (Compilation.Job.mk _ · _ _) (CacheKey.baseName_of_x ['a'])
    exact ⟨printer, 0, ⟨.empty, []⟩, _, rfl, Prod.ext (job ▸ run_printer) rfl⟩
  refine ⟨_, _, .step (.step .refl asks) settles, ?_, ?_⟩
  case refine_1 => exact List.forall_mem_cons.mpr ⟨yields, List.forall_mem_singleton.mpr trivial⟩
  case refine_2 => exact Ledger.status_eq_resolved_iff.mpr (if_pos rfl)

-- The same content is asked for again, with another directory.
def reprinting : Action :=
  .request (CacheKey.of ['x'] (.withCacheDirectory ['b'])) ['x'] (.withCacheDirectory ['b']) true false

theorem exists_run_reprinted :
    ∃ history m n, Run (new 2 0) ((m, reprinting) :: history) n ∧
      (∀ x ∈ (m, reprinting) :: history, x.2.Genuine []) ∧
      n.status (CacheKey.of ['x'] (.withCacheDirectory ['b'])) = .resolved printed.shown := by
  have ⟨history, m, run, genuine, resolved⟩ := exists_run_printed
  let s : Settings := .withCacheDirectory ['b']
  have unforced : false = true → CacheKey.of ['x'] s ≠ CacheKey.of ['x'] s := nofun
  have ⟨same, _⟩ := Ledger.known_request (l := m.ledger) unforced
  have known := same.trans (Ledger.status_eq_resolved_iff.mp resolved)
  refine ⟨history, m, _, run.step .request, ?_, Ledger.status_eq_resolved_iff.mpr known⟩
  exact List.forall_mem_cons.mpr ⟨trivial, genuine⟩

theorem resolved_reprinted :
    ∃ history m n d, Run (new 2 0) ((m, reprinting) :: history) n ∧
      n.status (CacheKey.of ['x'] (.withCacheDirectory ['b'])) = .resolved "/a/tikzmd-9ef32df959eaf587.svg".toList ∧
      lastStart? ((m, reprinting) :: history) (CacheKey.of ['x'] (.withCacheDirectory ['b'])) = some d ∧
      "/a/tikzmd-9ef32df959eaf587.svg".toList = d.path [] (CacheKey.of ['x'] (.withCacheDirectory ['b'])) := by
  have ⟨history, m, n, run, genuine, resolved⟩ := exists_run_reprinted
  have ⟨⟨d, started, path⟩, _⟩ := resolved_from_lastStart run genuine resolved
  exact ⟨history, m, n, d, run, resolved, started, path⟩

theorem resolved_elsewhere :
    ¬∀ directory width window history m n content s svg force p, Run (new width window) history m →
      (∀ x ∈ history, x.2.Genuine directory) →
      (n, .request (CacheKey.of content s) content s svg force) ∈ history →
      m.status (CacheKey.of content s) = .resolved p →
      p = Demand.path ⟨s, svg⟩ directory (CacheKey.of content s) := by
  intro h
  have ⟨_, m, _, run, genuine, resolved⟩ := exists_run_reprinted
  have own := h [] 2 0 _ _ m ['x'] _ true false _ run genuine (.head _) resolved
  rw [Demand.path, CacheKey.baseName_of_x] at own
  exact absurd own (by decide)

end Directories
end Manager
end TikzPress
