import AgentBenchX.Examination
import AgentBenchX.SyncHistory

/-!
# What a commit does to its synchronization

Discovery notes why it skips a folder, but only for the exceptions it
handles, and storing is one transaction. `Harmless` says in terms of the
files of a commit when neither gives way: no `task.toml` raises what
discovery does not handle, and every task fits its columns. Then, with git
and the database at work, every task of the commit gets its version;
otherwise one folder keeps all the others from theirs.
-/

namespace AgentBenchX

open ProblemDiscoveryService ProblemSourceManager

/-! ## Tasks that can be stored -/

/-- The task fits the columns of its problem and its version. -/
structure Task.Storable (py : Python) (task : Task) : Prop where
  name : Varchar 250 task.name
  type : ∃ s, task.type = .string s ∧ Varchar 50 s
  category : Varchar 50 task.category
  difficulty : Varchar 30 task.difficulty
  timeout : 1 ≤ task.timeout ∧ task.timeout ≤ 86400
  metadata : task.metadata.storable py.recursionLimit = true

namespace Commit

variable (py : Python) (c : Commit) (names : List String)

/-- The table of a `task.toml`. -/
abbrev table (filename : String) : Except SyncError (List (String × Toml)) :=
  tableOf py (c.repository py) filename

/-- The instruction of a task. -/
abbrev instruction (folder : String) : Except SyncError String :=
  instructionOf py (c.repository py) folder

/-- What `examine` makes of a file. -/
abbrev outcome (filename : String) : Except SyncError Found :=
  outcomeOf py (c.repository py) names filename

/-- What else is asked of a task before it is returned. -/
structure Accepted (folder : String) (raw metadata : List (String × Toml))
    (difficulty : String) (timeout : ℤ) (instruction : String) : Prop where
  graded : ProblemDiscoveryService.upper py (getD metadata "difficulty" (.string "medium"))
    = .ok difficulty
  grade : difficulty ∈ ["EASY", "MEDIUM", "HARD", "EXPERT"]
  timed : timeoutOf py raw = .ok timeout
  range : 1 ≤ timeout ∧ timeout ≤ 86400
  instructed : c.instruction py folder = .ok instruction
  safe : ¬((purePath folder).IsAbsolute ∨ ['.', '.'] ∈ (purePath folder).parts)

/-- A `task.toml` that neither ends the discovery nor becomes a task that
cannot be stored. -/
structure HarmlessFile (filename : String) : Prop where
  read : ∀ e, c.table py filename = .error e → e.Caught
  handled : ∀ {raw metadata category tags normalized kind}, c.table py filename = .ok raw →
    Mapped py names (folderOf filename) raw metadata category tags normalized kind →
    Handled raw metadata
  stored : ∀ {raw metadata category tags normalized kind difficulty timeout instruction},
    c.table py filename = .ok raw →
    Mapped py names (folderOf filename) raw metadata category tags normalized kind →
    Accepted py c (folderOf filename) raw metadata difficulty timeout instruction →
    Varchar 250 (String.ofList (purePath (folderOf filename)).name)
      ∧ (∃ s, kind = .string s ∧ Varchar 50 s)
      ∧ Toml.storable py.recursionLimit (.table [("source", .table raw)]) = true

/-- The names are text and every `task.toml` is harmless. -/
def Harmless : Prop :=
  ∃ names, c.names py = .ok names ∧ ∀ filename ∈ taskFiles names, HarmlessFile py c names filename

end Commit

/-! ## Examining one file -/

namespace Commit

variable {py : Python} {c : Commit} {names : List String} {folder filename : String}
  {raw metadata : List (String × Toml)} {category : String} {tags : List String}
  {normalized : String} {kind : Toml}

/-- No exception of reading an instruction ends the discovery. -/
theorem instruction_caught {e : SyncError} (h : c.instruction py folder = .error e) : e.Caught := by
  unfold instruction instructionOf at h
  rcases error_of_bind h with hread | ⟨content, -, hdecode⟩
  · unfold repository at hread
    dsimp only at hread
    split at hread
    · obtain rfl := Except.error.inj hread
      trivial
    · cases hread
  · exact decode_caught hdecode

/-- What becomes of a folder that is accepted. -/
theorem accept_ok {found : Found}
    (hnormalized : normalized ∈ ["CODING", "DATABASE", "DATA", "API_BACKEND"]) :
    acceptFrom py (c.instruction py folder) folder raw metadata tags normalized kind = .ok found
      ↔ ∃ difficulty timeout text, Accepted py c folder raw metadata difficulty timeout text
        ∧ found = .task (taskOf folder raw tags normalized kind difficulty timeout text) := by
  unfold acceptFrom
  constructor
  · intro h
    obtain ⟨difficulty, hdifficulty, h⟩ := ok_of_bind h
    obtain ⟨timeout, htimeout, h⟩ := ok_of_bind h
    obtain ⟨text, htext, h⟩ := ok_of_bind h
    obtain ⟨task, htask, h⟩ := ok_of_bind h
    obtain rfl := Except.ok.inj h
    obtain ⟨rfl, hsafe, -, hrange, hgrade⟩ := ProblemValidationService.validate_ok.mp htask
    exact ⟨difficulty, timeout, text, ⟨hdifficulty, hgrade, htimeout, hrange, htext, hsafe⟩, rfl⟩
  · rintro ⟨difficulty, timeout, text, h, rfl⟩
    have hvalid : ProblemValidationService.validate
        (taskOf folder raw tags normalized kind difficulty timeout text)
          = .ok (taskOf folder raw tags normalized kind difficulty timeout text) :=
      ProblemValidationService.validate_ok.mpr ⟨rfl, h.safe, hnormalized, h.range, h.grade⟩
    rw [bind_of_ok h.graded, bind_of_ok h.timed, bind_of_ok h.instructed, bind_of_ok hvalid]
    rfl

/-- What ends the discovery at a file. -/
theorem outcome_caught : (∀ e, c.outcome py names filename = .error e → e.Caught)
    ↔ (∀ e, c.table py filename = .error e → e.Caught)
      ∧ ∀ raw metadata category tags normalized kind, c.table py filename = .ok raw →
        Mapped py names (folderOf filename) raw metadata category tags normalized kind →
        Handled raw metadata :=
  outcomeOf_caught fun _ => instruction_caught

/-- The tasks a file can become. -/
theorem outcome_task {task : Task} : c.outcome py names filename = .ok (.task task)
    ↔ ∃ raw metadata category tags normalized kind difficulty timeout text,
      c.table py filename = .ok raw
        ∧ Mapped py names (folderOf filename) raw metadata category tags normalized kind
        ∧ Accepted py c (folderOf filename) raw metadata difficulty timeout text
        ∧ task = taskOf (folderOf filename) raw tags normalized kind difficulty timeout text := by
  rw [outcome, outcomeOf_eq]
  constructor
  · intro h
    obtain ⟨raw, hraw, h⟩ := ok_of_bind h
    by_cases hmapped : ∃ metadata category tags normalized kind,
      Mapped py names (folderOf filename) raw metadata category tags normalized kind
    · obtain ⟨metadata, category, tags, normalized, kind, hmapped⟩ := hmapped
      rw [examinedFrom_mapped hmapped] at h
      obtain ⟨difficulty, timeout, text, haccepted, htask⟩ :=
        (accept_ok (classify_category hmapped.classified)).mp h
      exact ⟨raw, metadata, category, tags, normalized, kind, difficulty, timeout, text, hraw,
        hmapped, haccepted, Found.task.inj htask⟩
    · rcases examinedFrom_unmapped hmapped with ⟨reason, hskipped⟩ | ⟨e, herror, -⟩
      · rw [hskipped] at h
        cases h
      · rw [herror] at h
        cases h
  · rintro ⟨raw, metadata, category, tags, normalized, kind, difficulty, timeout, text, hraw,
      hmapped, haccepted, rfl⟩
    rw [bind_of_ok hraw, examinedFrom_mapped hmapped,
      accept_ok (classify_category hmapped.classified)]
    exact ⟨difficulty, timeout, text, haccepted, rfl⟩

end Commit

/-! ## Discovery -/

namespace ProblemDiscoveryService

variable {py : Python} {c : Commit} {names : List String}

theorem inspect_task {filename : String} {task : Task} :
    (inspect py (c.repository py) names filename ()).1 = .ok (.task task)
      ↔ c.outcome py names filename = .ok (.task task) := inspect_found

/-- The loop returns if every file does, and finds what they are found to be. -/
theorem inspectAll_ok {filenames : List String} {found : List (String × Found)}
    (h : (inspectAll py (c.repository py) names filenames ()).1 = .ok found) :
    (∀ filename ∈ filenames,
      ∃ f, (inspect py (c.repository py) names filename ()).1 = .ok f)
      ∧ ∀ task, task ∈ tasks found ↔ ∃ filename ∈ filenames,
        (inspect py (c.repository py) names filename ()).1 = .ok (.task task) := by
  induction filenames generalizing found with
  | nil =>
      obtain rfl := Except.ok.inj h
      simp [tasks]
  | cons filename rest ih =>
      rw [inspectAll, Program.bind_unit] at h
      obtain ⟨f, hf, h⟩ := ok_of_bind h
      rw [Program.bind_unit] at h
      obtain ⟨others, hothers, h⟩ := ok_of_bind h
      obtain rfl := Except.ok.inj h
      obtain ⟨hall, htasks⟩ := ih hothers
      refine ⟨List.forall_mem_cons.mpr ⟨⟨f, hf⟩, hall⟩, fun task => ?_⟩
      rw [List.exists_mem_cons_iff, ← htasks, hf]
      cases f with
      | task t => simp [tasks, eq_comm]
      | skipped reason => simp [tasks]

theorem discover_ok {tasks : List Task} {skipped : List Skipped}
    (h : (discover py (c.repository py) ()).1 = .ok (tasks, skipped)) :
    ∃ names, c.names py = .ok names
      ∧ (∀ filename ∈ taskFiles names, ∀ e, c.outcome py names filename = .error e → e.Caught)
      ∧ ∀ task, task ∈ tasks
        ↔ ∃ filename ∈ taskFiles names, c.outcome py names filename = .ok (.task task) := by
  rw [discover, Program.bind_unit] at h
  obtain ⟨names, hnames, h⟩ := ok_of_bind h
  rw [Program.bind_unit] at h
  obtain ⟨found, hfound, h⟩ := ok_of_bind h
  obtain ⟨rfl, rfl⟩ := Prod.mk.inj (Except.ok.inj h)
  obtain ⟨hall, htasks⟩ := inspectAll_ok hfound
  refine ⟨names, hnames, fun filename hmem => inspect_ok.mp (hall filename hmem), fun task => ?_⟩
  rw [htasks]
  simp only [inspect_task]

theorem discover_returns (hnames : c.names py = .ok names)
    (h : ∀ filename ∈ taskFiles names, ∀ e, c.outcome py names filename = .error e → e.Caught) :
    ∃ tasks skipped, (discover py (c.repository py) ()).1 = .ok (tasks, skipped) :=
  discover_handled hnames h

end ProblemDiscoveryService

namespace Commit

variable {py : Python} {c : Commit} {names : List String}

/-- A task of the commit, whatever becomes of its other folders. -/
def HasTask (py : Python) (c : Commit) (task : Task) : Prop :=
  ∃ names filename, c.names py = .ok names ∧ filename ∈ taskFiles names
    ∧ c.outcome py names filename = .ok (.task task)

theorem HarmlessFile.storable {filename : String} (h : HarmlessFile py c names filename)
    {task : Task} (htask : c.outcome py names filename = .ok (.task task)) : task.Storable py := by
  obtain ⟨raw, metadata, category, tags, normalized, kind, difficulty, timeout, text, hraw, hmapped,
    haccepted, rfl⟩ := outcome_task.mp htask
  obtain ⟨hname, hkind, hmetadata⟩ := h.stored hraw hmapped haccepted
  have hcategories : ∀ s ∈ ["CODING", "DATABASE", "DATA", "API_BACKEND"], Varchar 50 s := by decide
  have hgrades : ∀ s ∈ ["EASY", "MEDIUM", "HARD", "EXPERT"], Varchar 30 s := by decide
  exact ⟨hname, hkind, hcategories _ (classify_category hmapped.classified),
    hgrades _ haccepted.grade, haccepted.range, hmetadata⟩

/-- **Discovery.** It returns only tasks that can be stored exactly for a
harmless commit. -/
theorem harmless_iff : (∃ tasks skipped, (discover py (c.repository py) ()).1 = .ok (tasks, skipped)
    ∧ ∀ task ∈ tasks, task.Storable py) ↔ c.Harmless py := by
  constructor
  · rintro ⟨tasks, skipped, hdiscover, hstorable⟩
    obtain ⟨names, hnames, hcaught, htasks⟩ := discover_ok hdiscover
    refine ⟨names, hnames, fun filename hmem => ?_⟩
    obtain ⟨hread, hhandled⟩ := outcome_caught.mp (hcaught filename hmem)
    refine ⟨hread, hhandled _ _ _ _ _ _, fun hraw hmapped haccepted => ?_⟩
    have htask := hstorable _ ((htasks _).mpr ⟨filename, hmem,
      outcome_task.mpr ⟨_, _, _, _, _, _, _, _, _, hraw, hmapped, haccepted, rfl⟩⟩)
    exact ⟨htask.name, htask.type, htask.metadata⟩
  · rintro ⟨names, hnames, hfiles⟩
    obtain ⟨tasks, skipped, hdiscover⟩ := discover_returns hnames fun filename hmem =>
      outcome_caught.mpr ⟨(hfiles filename hmem).read, fun _ _ _ _ _ _ hraw hmapped =>
        (hfiles filename hmem).handled hraw hmapped⟩
    refine ⟨tasks, skipped, hdiscover, fun task htask => ?_⟩
    obtain ⟨names', hnames', -, htasks⟩ := discover_ok hdiscover
    obtain rfl := Except.ok.inj (hnames.symm.trans hnames')
    obtain ⟨filename, hmem, houtcome⟩ := (htasks task).mp htask
    exact (hfiles filename hmem).storable houtcome

end Commit

/-! ## Storing -/

/-- A database that works, and identifiers that are new. -/
structure SyncEnv.Healthy (env : SyncEnv) (cat : Catalog) : Prop where
  flush : ∀ i, env.flush i = true
  commit : env.commit = true
  fresh : Function.Injective env.fresh
  problems : ∀ p ∈ cat.problems, ∀ i, p.id ≠ env.fresh i
  versions : ∀ v ∈ cat.versions, ∀ i, v.id ≠ env.fresh i

namespace ProblemSourceManager

section Store

variable {py : Python} {env : SyncEnv} {source : ProblemSource} {branch sha : String}
  {cat cat' : Catalog}

/-- The identifiers from `k` on are in no row. -/
def Unused (env : SyncEnv) (k : ℕ) (cat : Catalog) : Prop :=
  (∀ p ∈ cat.problems, ∀ i, k ≤ i → p.id ≠ env.fresh i)
    ∧ ∀ v ∈ cat.versions, ∀ i, k ≤ i → v.id ≠ env.fresh i

theorem inserted_returns {reached fits : Bool} (hreached : reached = true) (hfits : fits = true) :
    inserted reached fits (some cat) = .ok cat := by
  rw [hreached, hfits]
  rfl

theorem insertProblem_returns {p : Problem} (hnone : cat.problemOf p.sourceId p.problemKey = none)
    (hfresh : ∀ q ∈ cat.problems, q.id ≠ p.id) :
    ∃ problems, cat.problems.insert? p = some problems
      ∧ cat.insertProblem p = some { cat with problems } := by
  obtain ⟨problems, hins⟩ := Table.insert?_isSome hfresh
  refine ⟨problems, hins, ?_⟩
  rw [Catalog.insertProblem, hnone, if_neg (by simp), hins]
  rfl

theorem insertVersion_returns {v : StoredVersion}
    (hnone : cat.versionOf v.repositoryUrl v.commitSha v.problemPath = none)
    (hfresh : ∀ w ∈ cat.versions, w.id ≠ v.id) :
    ∃ versions, cat.versions.insert? v = some versions
      ∧ cat.insertVersion v = some { cat with versions } := by
  obtain ⟨versions, hins⟩ := Table.insert?_isSome hfresh
  refine ⟨versions, hins, ?_⟩
  rw [Catalog.insertVersion, hnone, if_neg (by simp), hins]
  rfl

theorem storeProblem_returns (source : ProblemSource) {task : Task} {i : ℕ}
    (hflush : ∀ i, env.flush i = true)
    (hinj : Function.Injective env.fresh) (hunused : Unused env (2 * i) cat)
    (htask : task.Storable py) :
    ∃ cat' problem, storeProblem py env source cat task i = .ok (cat', problem)
      ∧ Unused env (2 * i + 1) cat' := by
  unfold storeProblem
  split
  · rename_i problem _
    exact ⟨cat, problem, rfl, fun p hp j hj => hunused.1 p hp j (by omega),
      fun v hv j hj => hunused.2 v hv j (by omega)⟩
  · rename_i hnone
    obtain ⟨type, htype, hfits⟩ := htask.type
    have hrow : problemRow py source (env.fresh (2 * i)) task
        = some ⟨env.fresh (2 * i), source.id, task.path, task.name, task.category, type,
          task.difficulty⟩ := by
      rw [problemRow, htype]
      rfl
    rw [hrow]
    dsimp only
    obtain ⟨problems, hins, hcat⟩ := insertProblem_returns (p := ⟨env.fresh (2 * i), source.id,
      task.path, task.name, task.category, type, task.difficulty⟩) hnone
      fun q hq => hunused.1 q hq (2 * i) (le_refl _)
    rw [hcat, bind_of_ok (inserted_returns (hflush _)
      (decide_eq_true ⟨htask.name, htask.category, hfits, htask.difficulty⟩))]
    refine ⟨_, _, rfl, fun p hp j hj => ?_, fun v hv j hj => hunused.2 v hv j (by omega)⟩
    rcases (Table.mem_insert? hins).mp hp with hp | rfl
    · exact hunused.1 p hp j (by omega)
    · exact fun heq => absurd (hinj heq) (by omega)

theorem storeTask_returns (source : ProblemSource) (n : ℕ) {task : Task} {i : ℕ}
    (hflush : ∀ i, env.flush i = true)
    (hinj : Function.Injective env.fresh) (hunused : Unused env (2 * i) cat)
    (htask : task.Storable py) (hbranch : Varchar 200 branch) (hsha : Varchar 64 sha) :
    ∃ cat' m, storeTask py env source branch sha (cat, n) (task, i) = .ok (cat', m)
      ∧ Unused env (2 * (i + 1)) cat' := by
  unfold storeTask
  obtain ⟨mid, problem, hproblem, hmid⟩ := storeProblem_returns source hflush hinj hunused htask
  dsimp only
  rw [bind_of_ok hproblem]
  dsimp only
  split
  · exact ⟨mid, n, rfl, fun p hp j hj => hmid.1 p hp j (by omega),
      fun v hv j hj => hmid.2 v hv j (by omega)⟩
  · rename_i hnone
    obtain ⟨versions, hins, hcat⟩ := insertVersion_returns
      (v := versionRow source branch sha (env.fresh (2 * i + 1)) problem.id task) hnone
      fun w hw => hmid.2 w hw (2 * i + 1) (le_refl _)
    rw [hcat, bind_of_ok (inserted_returns (hflush _)
      (decide_eq_true ⟨hbranch, hsha, htask.metadata⟩))]
    refine ⟨_, _, rfl, fun p hp j hj => hmid.1 p hp j (by omega), fun v hv j hj => ?_⟩
    rcases (Table.mem_insert? hins).mp hv with hv | rfl
    · exact hmid.2 v hv j (by omega)
    · exact fun heq => absurd (hinj heq) (by omega)

theorem storeTasks_returns (source : ProblemSource) {tasks : List Task}
    (hflush : ∀ i, env.flush i = true)
    (hinj : Function.Injective env.fresh) (htasks : ∀ task ∈ tasks, task.Storable py)
    (hbranch : Varchar 200 branch) (hsha : Varchar 64 sha) :
    ∀ {i n : ℕ} {cat : Catalog}, Unused env (2 * i) cat →
      ∃ r, (tasks.zipIdx i).foldlM (storeTask py env source branch sha) (cat, n) = .ok r := by
  induction tasks with
  | nil => exact fun _ => ⟨_, rfl⟩
  | cons task rest ih =>
      intro i n cat hunused
      obtain ⟨htask, hrest⟩ := List.forall_mem_cons.mp htasks
      obtain ⟨cat', m, hstep, hunused'⟩ :=
        storeTask_returns source n hflush hinj hunused htask hbranch hsha
      obtain ⟨r, hr⟩ := ih hrest (i := i + 1) (n := m) hunused'
      refine ⟨r, ?_⟩
      rw [List.zipIdx_cons, List.foldlM_cons, bind_of_ok hstep]
      exact hr

/-- With a database that works, storable tasks are stored. -/
theorem store_returns {tasks : List Task} (skipped : List Skipped) (henv : env.Healthy cat)
    (htasks : ∀ task ∈ tasks, task.Storable py) (hbranch : Varchar 200 branch)
    (hsha : Varchar 64 sha) :
    ∃ cat' row, store py env source branch sha cat tasks skipped = .ok (cat', row) := by
  obtain ⟨⟨mid, created⟩, hloop⟩ := storeTasks_returns source henv.flush henv.fresh htasks
    hbranch hsha
    (i := 0) (n := 0) ⟨fun p hp j _ => henv.problems p hp j,
      fun v hv j _ => henv.versions v hv j⟩
  unfold store
  rw [bind_of_ok hloop]
  dsimp only
  rw [bind_of_ok (inserted_returns henv.commit (decide_eq_true ⟨hbranch, hsha⟩))]
  exact ⟨_, _, rfl⟩

theorem varchar_of_store {tasks : List Task} {skipped : List Skipped} {row : ProblemSource}
    (h : store py env source branch sha cat tasks skipped = .ok (cat', row)) :
    Varchar 200 branch := by
  unfold store at h
  obtain ⟨⟨mid, created⟩, -, h⟩ := ok_of_bind h
  obtain ⟨final, hins, -⟩ := ok_of_bind h
  exact (of_decide_eq_true (ok_of_inserted hins).2.1).1

end Store

/-- A commit that git resolved has a name that fits its column. -/
theorem checkout_isSha {γ : Type} {py : Python} {git : GitHost γ} {path branch sha : String}
    {cache cache' : Cache γ}
    (h : GitRepositoryManager.checkout py git path branch cache = (.ok sha, cache')) :
    GitRepositoryManager.isSha sha = true := by
  unfold GitRepositoryManager.checkout at h
  split at h
  · unfold GitRepositoryManager.getCurrentCommit at h
    obtain ⟨sha', cache₁, -, h⟩ := Program.ok_of_bind h
    split at h
    · rename_i hsha
      obtain rfl := Except.ok.inj (Prod.mk.inj h).1
      exact hsha
    · cases (Prod.mk.inj h).1
  · cases (Prod.mk.inj h).1

theorem varchar_of_isSha {sha : String} (h : GitRepositoryManager.isSha sha = true) :
    Varchar 64 sha := by
  unfold GitRepositoryManager.isSha at h
  simp only [Bool.and_eq_true, decide_eq_true_eq] at h
  exact ⟨h.2, fun hnul => absurd (List.all_eq_true.mp h.1.1 _ hnul) (by decide)⟩

end ProblemSourceManager

section Main

variable {γ : Type} {py : Python} {settings : GitSettings} {git : GitHost γ}
  {s : SyncServer γ} {source : ProblemSource} {path branch sha : String} {c : Commit}

/-- All that discovery returns can be stored, and the synchronization gives
every task that is well formed its version. -/
structure StoresAll (py : Python) (settings : GitSettings) (git : GitHost γ)
    (token : Option String) (env : SyncEnv) (s : SyncServer γ) (source : ProblemSource)
    (sha : String) (c : Commit) : Prop where
  storable : ∃ tasks skipped, (discover py (c.repository py) ()).1 = .ok (tasks, skipped)
    ∧ ∀ task ∈ tasks, task.Storable py
  synced : ∃ row t, sync py settings git token env s source.id = (.ok row, t)
    ∧ ∀ task, c.HasTask py task → task.Storable py →
      ∃ v ∈ t.catalog.versions, v.At source.repositoryUrl sha task.path

theorem sync_delivers (token : Option String) (env : SyncEnv)
    (hsource : source ∈ s.catalog.sources) (henabled : source.enabled = true)
    (hgit : Delivers py settings git token source s.cache path branch sha c) {tasks : List Task}
    {skipped : List Skipped}
    (hdiscover : (discover py (c.repository py) ()).1 = .ok (tasks, skipped)) :
    ∃ cache', sync py settings git token env s source.id
      = match store py env source branch sha s.catalog tasks skipped with
        | .error e => failed env { s with cache := cache' } source e
        | .ok (catalog, row) => (.ok row, { catalog, cache := cache' }) := by
  obtain ⟨cache', hacquire⟩ := acquire_delivers hgit
  rw [hdiscover] at hacquire
  have hget : s.catalog.sources.get? source.id = some source :=
    Table.get?_eq_some.mpr ⟨hsource, rfl⟩
  refine ⟨cache', ?_⟩
  unfold sync
  rw [hget]
  dsimp only
  rw [if_pos henabled, hacquire]
  rfl

/-- When every discovered task can be stored, all of them are. -/
theorem sync_stores (token : Option String) (hsource : source ∈ s.catalog.sources)
    (henabled : source.enabled = true)
    (hgit : Delivers py settings git token source s.cache path branch sha c) {env : SyncEnv}
    (hdb : env.Healthy s.catalog) {tasks : List Task} {skipped : List Skipped}
    (hdiscover : (discover py (c.repository py) ()).1 = .ok (tasks, skipped))
    (hstorable : ∀ task ∈ tasks, task.Storable py) (hbranch : Varchar 200 branch) :
    ∃ row t, sync py settings git token env s source.id = (.ok row, t)
      ∧ ∀ task ∈ tasks, ∃ v ∈ t.catalog.versions, v.At source.repositoryUrl sha task.path := by
  obtain ⟨_, _, _, cache₃, -, -, hcheckout, -⟩ := id hgit
  obtain ⟨catalog, row, hstore⟩ := store_returns skipped hdb hstorable hbranch
    (varchar_of_isSha (checkout_isSha hcheckout))
  obtain ⟨cache', heq⟩ := sync_delivers token env hsource henabled hgit hdiscover
  rw [hstore] at heq
  obtain ⟨mid, created, hadds, -, rfl⟩ := store_ok hstore
  exact ⟨row, _, heq, hadds.present⟩

end Main

/-- **Malformed content.** When git delivers the commit and the database
works, a commit is discovered and stored as promised exactly if it is
harmless and the name of its branch fits its column. -/
theorem malformed_content {γ : Type} {py : Python} {settings : GitSettings} {git : GitHost γ}
    {token : Option String} {env : SyncEnv} {s : SyncServer γ} {source : ProblemSource}
    {path branch sha : String} {c : Commit} (hsource : source ∈ s.catalog.sources)
    (henabled : source.enabled = true)
    (hgit : Delivers py settings git token source s.cache path branch sha c)
    (hdb : env.Healthy s.catalog) :
    StoresAll py settings git token env s source sha c
      ↔ c.Harmless py ∧ Varchar 200 branch := by
  constructor
  · rintro ⟨hstorable, row, t, hsync, -⟩
    refine ⟨Commit.harmless_iff.mp hstorable, ?_⟩
    obtain ⟨tasks, skipped, hdiscover, -⟩ := hstorable
    obtain ⟨cache', heq⟩ := sync_delivers token env hsource henabled hgit hdiscover
    rw [hsync] at heq
    cases hstore : store py env source branch sha s.catalog tasks skipped with
    | error e =>
        obtain ⟨⟨e', he'⟩, -⟩ := failed_cases env { s with cache := cache' } source e
        rw [hstore] at heq
        dsimp only at heq
        rw [← heq] at he'
        cases he'
    | ok r => exact varchar_of_store hstore
  · rintro ⟨hharmless, hbranch⟩
    obtain ⟨tasks, skipped, hdiscover, hstorable⟩ := Commit.harmless_iff.mpr hharmless
    obtain ⟨row, t, hsync, hversions⟩ :=
      sync_stores token hsource henabled hgit hdb hdiscover hstorable hbranch
    refine ⟨⟨tasks, skipped, hdiscover, hstorable⟩, row, t, hsync, fun task htask _ => ?_⟩
    obtain ⟨names, filename, hnames, hmem, houtcome⟩ := htask
    obtain ⟨names', hnames', -, htasks⟩ := discover_ok hdiscover
    obtain rfl := Except.ok.inj (hnames.symm.trans hnames')
    exact hversions task ((htasks task).mpr ⟨filename, hmem, houtcome⟩)

/-- One task that cannot be stored keeps all of them from being stored. -/
theorem rolled_back {γ : Type} {py : Python} {settings : GitSettings} {git : GitHost γ}
    (token : Option String) (env : SyncEnv) {s : SyncServer γ} {source : ProblemSource}
    {path branch sha : String} {c : Commit} (hsource : source ∈ s.catalog.sources)
    (henabled : source.enabled = true)
    (hgit : Delivers py settings git token source s.cache path branch sha c) {tasks : List Task}
    {skipped : List Skipped}
    (hdiscover : (discover py (c.repository py) ()).1 = .ok (tasks, skipped)) {task : Task}
    (htask : task ∈ tasks) (hbad : task.metadata.storable py.recursionLimit = false)
    (honly : ∀ task' ∈ tasks, task'.path = task.path → task' = task)
    (hnew : ∀ v ∈ s.catalog.versions, ¬v.At source.repositoryUrl sha task.path) :
    (∃ e, (sync py settings git token env s source.id).1 = .error e)
      ∧ (sync py settings git token env s source.id).2.catalog.versions = s.catalog.versions := by
  obtain ⟨cache', heq⟩ :=
    sync_delivers token env hsource henabled hgit hdiscover
  cases hstore : store py env source branch sha s.catalog tasks skipped with
  | error e =>
      rw [hstore] at heq
      dsimp only at heq
      obtain ⟨herror, hcatalog⟩ := failed_cases env { s with cache := cache' } source e
      rw [heq]
      refine ⟨herror, ?_⟩
      rcases hcatalog with hcatalog | hcatalog <;> rw [hcatalog]
  | ok r =>
      obtain ⟨mid, created, hadds, -, -⟩ := store_ok hstore
      obtain ⟨v, hv, hat⟩ := hadds.present task htask
      obtain ⟨new, hrows, -, hof⟩ := hadds.versions
      rw [Table.mem_def, hrows] at hv
      rcases List.mem_append.mp hv with hv | hv
      · exact absurd hat (hnew v hv)
      · obtain ⟨task', htask', hvof⟩ := hof v hv
        have hpath : task'.path = task.path := hvof.at.2.2.symm.trans hat.2.2
        have hfits := hvof.fits.2.2
        rw [hvof.row, honly task' htask' hpath] at hfits
        rw [show task.metadata.storable py.recursionLimit = true from hfits] at hbad
        cases hbad

/-! ### A date in the metadata -/

namespace Sample

/-- The files of a task in the folder, with the text of its `task.toml`. -/
def taskIn (folder toml : String) : List (String × Bytes) :=
  [(folder ++ "/environment/Dockerfile", []), (folder ++ "/instruction.md", []),
    (folder ++ "/task.toml", ascii toml), (folder ++ "/tests/test.sh", [])]

/-- Two tasks, the second one with this `task.toml`. -/
def two (toml : String) : List (String × Bytes) := taskIn "a" bugfixToml ++ taskIn "b" toml

theorem two_plain (toml : String) : Plain (two toml) := by
  have hlisting : listing (two toml) = listing (two "") := rfl
  refine ⟨?_, ?_⟩ <;> rw [hlisting]
  · exact forall_of_text (by decide +kernel)
  · decide +kernel

def twoCommit (toml : String) : Commit := commit (two toml) (two_plain toml)

def twoNames : List String :=
  ["a/environment/Dockerfile", "a/instruction.md", "a/task.toml", "a/tests/test.sh",
    "b/environment/Dockerfile", "b/instruction.md", "b/task.toml", "b/tests/test.sh"]

theorem two_names (py : Python) (toml : String) : (twoCommit toml).names py = .ok twoNames := by
  refine (commit_names (two_plain toml)).trans ?_
  rw [show listing (two toml) = listing (two "") from rfl]
  decide +kernel

theorem two_files : ProblemDiscoveryService.taskFiles twoNames =
    ["a/task.toml", "b/task.toml"] := by
  decide +kernel

/-- Python reads the sizes of the files. -/
theorem two_reads {toml : String} (htoml : Reads python (ascii toml).length) {names : List String}
    (hnames : (twoCommit toml).names python = .ok names) {name : String} (hmem : name ∈ names) :
    Reads python ((twoCommit toml).content name).length := by
  obtain rfl := Except.ok.inj ((two_names _ toml).symm.trans hnames)
  have hempty : Reads python 0 := ⟨"0", by decide +kernel, by decide +kernel⟩
  have hbugfix : Reads python (ascii bugfixToml).length := reads_bugfixToml
  simp only [twoNames, List.mem_cons, List.not_mem_nil, or_false] at hmem
  rcases hmem with rfl | rfl | rfl | rfl | rfl | rfl | rfl | rfl
  · exact hempty
  · exact hempty
  · exact hbugfix
  · exact hempty
  · exact hempty
  · exact hempty
  · exact htoml
  · exact hempty

theorem two_delivers {toml : String} (htoml : Reads python (ascii toml).length) :
    Delivers python gitSettings (host (two toml)) none source sources.cache
      "storage/problem_sources/5/repository" "main" sha (twoCommit toml) :=
  host_delivers (two_plain toml) (show python.idText 5 = "5" by decide +kernel)
    fun _ hnames _ hmem => two_reads htoml hnames hmem

theorem source_mem : source ∈ sources.catalog.sources :=
  Table.mem_of_get? (show sources.catalog.sources.get? 5 = some source by rfl)

theorem healthy : syncEnv.Healthy sources.catalog :=
  ⟨fun _ => rfl, rfl, Function.injective_id, nofun, nofun⟩

def foundIn (folder : String) (raw : List (String × Toml)) : Task :=
  Commit.taskOf folder raw [] "CODING" (.string "BUG_FIX") "MEDIUM" 300 ""

/-- The text is a document. -/
theorem table_eq {c : Commit} {filename toml : String} {raw : List (String × Toml)}
    (hcontent : c.content filename = ascii toml) (hsize : (ascii toml).length ≤ 1000000)
    (htext : Utf8.decode (ascii toml) = some toml) (hraw : python.loads toml = .ok raw) :
    c.table python filename = .ok raw := by
  have hread : ((c.repository python).read filename ()).1 = .ok (ascii toml) := by
    unfold Commit.repository
    dsimp only
    rw [hcontent, if_neg (not_lt.mpr hsize)]
    rfl
  have hdecode : GitRepositoryManager.decode python (ascii toml) = .ok toml := by
    rw [GitRepositoryManager.decode, htext]
  rw [Commit.table, tableOf, bind_of_ok hread, bind_of_ok hdecode, hraw]

/-- The document declares nothing but the category. -/
structure IsBugfix (raw : List (String × Toml)) : Prop where
  metadata : getD raw "metadata" (.table []) = .table [("category", .string "bugfix")]
  verifier : getD raw "verifier" (.table []) = .table []

theorem two_outcome (folder : String) {toml : String} {raw : List (String × Toml)}
    (hraw : (twoCommit toml).table python (folder ++ "/task.toml") = .ok raw)
    (hfolder : folderOf (folder ++ "/task.toml") = folder) (hbugfix : IsBugfix raw)
    (hscope : isGis python folder "bugfix" [] = false)
    (hrequired : ∀ p ∈ ["instruction.md", "tests/test.sh", "environment/Dockerfile"],
      folder ++ "/" ++ p ∈ twoNames)
    (hinstruction : (twoCommit toml).content (folder ++ "/instruction.md") = [])
    (hsafe : ¬((purePath folder).IsAbsolute ∨ ['.', '.'] ∈ (purePath folder).parts)) :
    (twoCommit toml).outcome python twoNames (folder ++ "/task.toml")
      = .ok (.task (foundIn folder raw)) := by
  refine Commit.outcome_task.mpr ⟨raw, [("category", .string "bugfix")], "bugfix", [], "CODING",
    .string "BUG_FIX", "MEDIUM", 300, "", hraw, ?_, ?_, ?_⟩
  · rw [hfolder]
    exact ⟨hbugfix.metadata, by rfl, hscope, hrequired, by rfl⟩
  · rw [hfolder]
    refine ⟨?_, by decide, ?_, by decide, ?_, hsafe⟩
    · show Except.ok (python.upper "medium") = _
      rw [show python.upper "medium" = "MEDIUM" by decide +kernel]
    · rw [timeoutOf, hbugfix.verifier]
      rfl
    · have hread : (((twoCommit toml).repository python).read (folder ++ "/instruction.md") ()).1
          = .ok [] := by
        unfold Commit.repository
        dsimp only
        rw [hinstruction]
        rfl
      rw [Commit.instruction, instructionOf, bind_of_ok hread]
      rfl
  · rw [hfolder]
    rfl

theorem bugfix_loads : python.loads bugfixToml = .ok bugfixTable := rfl

theorem dated_loads : python.loads datedToml = .ok dated := rfl

theorem a_outcome (toml : String) : (twoCommit toml).outcome python twoNames "a/task.toml"
    = .ok (.task (foundIn "a" bugfixTable)) :=
  two_outcome "a" (table_eq rfl (by decide +kernel) (by decide +kernel) bugfix_loads)
    (by decide +kernel) ⟨rfl, rfl⟩ (by decide +kernel) (by decide +kernel) rfl (by decide +kernel)

theorem b_outcome {toml : String} {raw : List (String × Toml)}
    (hraw : (twoCommit toml).table python "b/task.toml" = .ok raw) (hbugfix : IsBugfix raw) :
    (twoCommit toml).outcome python twoNames "b/task.toml" = .ok (.task (foundIn "b" raw)) :=
  two_outcome "b" hraw (by decide +kernel) hbugfix (by decide +kernel)
    (by decide +kernel) rfl (by decide +kernel)

/-- Discovery returns both tasks. -/
theorem two_discover {toml : String} {raw : List (String × Toml)}
    (hraw : (twoCommit toml).table python "b/task.toml" = .ok raw) (hbugfix : IsBugfix raw) :
    ∃ tasks skipped,
      (discover python ((twoCommit toml).repository python) ()).1 = .ok (tasks, skipped)
        ∧ ∀ task, task ∈ tasks ↔ task = foundIn "a" bugfixTable ∨ task = foundIn "b" raw := by
  have hb := b_outcome hraw hbugfix
  obtain ⟨tasks, skipped, hdiscover⟩ := discover_returns (two_names python toml)
    fun filename hmem e he => by
      rw [two_files] at hmem
      simp only [List.mem_cons, List.not_mem_nil, or_false] at hmem
      rcases hmem with rfl | rfl
      · rw [a_outcome] at he
        cases he
      · rw [hb] at he
        cases he
  refine ⟨tasks, skipped, hdiscover, fun task => ?_⟩
  obtain ⟨names, hnames, -, htasks⟩ := discover_ok hdiscover
  obtain rfl := Except.ok.inj ((two_names _ toml).symm.trans hnames)
  rw [htasks, two_files]
  simp only [List.exists_mem_cons_iff, a_outcome, hb, List.not_mem_nil, false_and, exists_false,
    or_false, Except.ok.injEq, Found.task.injEq]
  exact or_congr eq_comm eq_comm

/-- A task like these can be stored, if its table can. -/
theorem foundIn_storable {folder : String} {raw : List (String × Toml)}
    (hname : Varchar 250 (String.ofList (purePath folder).name))
    (hraw : Toml.storable python.recursionLimit (.table [("source", .table raw)]) = true) :
    (foundIn folder raw).Storable python :=
  ⟨hname, ⟨"BUG_FIX", rfl, by decide⟩, show Varchar 50 "CODING" by decide,
    show Varchar 30 "MEDIUM" by decide, show (1 : ℤ) ≤ 300 ∧ (300 : ℤ) ≤ 86400 by decide, hraw⟩

theorem bugfix_table : (twoCommit bugfixToml).table python "b/task.toml" = .ok bugfixTable :=
  table_eq rfl (by decide +kernel) (by decide +kernel) bugfix_loads

theorem dated_table : (twoCommit datedToml).table python "b/task.toml" = .ok dated :=
  table_eq rfl (by decide +kernel) (by decide +kernel) dated_loads

theorem reads_datedToml : Reads python (ascii datedToml).length :=
  ⟨"50", by decide +kernel, by decide +kernel⟩

end Sample

theorem malformed_content_undated :
    StoresAll Sample.python Sample.gitSettings (Sample.host (Sample.two Sample.bugfixToml)) none
      Sample.syncEnv Sample.sources Sample.source Sample.sha
      (Sample.twoCommit Sample.bugfixToml) := by
  refine (malformed_content Sample.source_mem rfl (Sample.two_delivers Sample.reads_bugfixToml)
    Sample.healthy).mpr ⟨?_, by decide⟩
  obtain ⟨tasks, skipped, hdiscover, htasks⟩ :=
    Sample.two_discover Sample.bugfix_table ⟨rfl, rfl⟩
  refine Commit.harmless_iff.mp ⟨tasks, skipped, hdiscover, fun task htask => ?_⟩
  rcases (htasks task).mp htask with rfl | rfl
  · exact Sample.foundIn_storable (by decide +kernel) (by decide +kernel)
  · exact Sample.foundIn_storable (by decide +kernel) (by decide +kernel)

/-- A date at the top of the second `task.toml`: discovery returns both
tasks, and the synchronization stores neither. -/
theorem malformed_content_dated :
    let git := Sample.host (Sample.two Sample.datedToml)
    let commit := Sample.twoCommit Sample.datedToml
    let synced := sync Sample.python Sample.gitSettings git none Sample.syncEnv Sample.sources
      Sample.source.id
    Delivers Sample.python Sample.gitSettings git none Sample.source Sample.sources.cache
        "storage/problem_sources/5/repository" "main" Sample.sha commit
      ∧ Sample.syncEnv.Healthy Sample.sources.catalog
      ∧ (∃ task, commit.HasTask Sample.python task ∧ task.Storable Sample.python)
      ∧ (∃ e, synced.1 = .error e) ∧ synced.2.catalog.versions = .empty
      ∧ ¬StoresAll Sample.python Sample.gitSettings git none Sample.syncEnv Sample.sources
          Sample.source Sample.sha commit := by
  have hdelivers := Sample.two_delivers Sample.reads_datedToml
  have hdated : (Sample.foundIn "b" Sample.dated).metadata.storable 1000 = false := by
    decide +kernel
  obtain ⟨tasks, skipped, hdiscover, htasks⟩ := Sample.two_discover Sample.dated_table ⟨rfl, rfl⟩
  have hb : Sample.foundIn "b" Sample.dated ∈ tasks := (htasks _).mpr (Or.inr rfl)
  obtain ⟨herror, hversions⟩ := rolled_back none Sample.syncEnv Sample.source_mem rfl hdelivers
    hdiscover hb hdated
    (fun task' htask' hpath => by
      rcases (htasks task').mp htask' with rfl | rfl
      · exact absurd hpath (by decide)
      · rfl)
    nofun
  have ha : (Sample.twoCommit Sample.datedToml).HasTask Sample.python
      (Sample.foundIn "a" Sample.bugfixTable) :=
    ⟨Sample.twoNames, "a/task.toml", Sample.two_names _ _,
      by rw [Sample.two_files]; exact List.mem_cons_self .., Sample.a_outcome Sample.datedToml⟩
  refine ⟨hdelivers, Sample.healthy, ⟨_, ha, Sample.foundIn_storable (by decide +kernel)
    (by decide +kernel)⟩, herror, hversions, ?_⟩
  rintro ⟨⟨tasks', skipped', hdiscover', hstorable⟩, -⟩
  obtain ⟨rfl, -⟩ := Prod.mk.inj (Except.ok.inj (hdiscover.symm.trans hdiscover'))
  have hfits : (Sample.foundIn "b" Sample.dated).metadata.storable 1000 = true :=
    (hstorable _ hb).metadata
  rw [hdated] at hfits
  cases hfits

end AgentBenchX
