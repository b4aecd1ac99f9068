import AgentBenchX.Lib.Except
import AgentBenchX.Lib.Transition
import AgentBenchX.Discovery
import AgentBenchX.Models

/-!
# Problem sources

The tables of problem sources, problems and problem versions, and
`ProblemSourceManager` on them. `sync` acquires the tasks of a commit
(`acquire`) and stores them in one transaction (`store`). Rows are
inserted when the session flushes them, at the latest before the next
query; PostgreSQL refuses a row that does not fit its columns. Whatever is
raised behind the check that the source is enabled, the transaction is
rolled back and the failure is noted on the source in a second one.
-/

namespace AgentBenchX

/-! ## Rows -/

inductive SyncReport where
  | empty
  | done (discovered versionsCreated : ℕ) (skipped : List Skipped)
  | failed (error : String)
deriving DecidableEq

structure ProblemSource where
  id : Uid
  name : String
  repositoryUrl : String
  defaultBranch : Option String := none
  enabled : Bool := true
  syncStatus : String := "PENDING"
  lastSyncedAt : Option Time := none
  lastCommitSha : Option String := none
  updatedAt : Time
  syncReport : SyncReport := .empty
deriving DecidableEq

structure Problem where
  id : Uid
  sourceId : Uid
  problemKey : String
  name : String
  category : String
  type : String
  difficulty : String
deriving DecidableEq

/-- A problem version with its metadata. -/
structure StoredVersion extends ProblemVersion where
  metadata : TaskMetadata

instance : Keyed Uid ProblemSource := ⟨ProblemSource.id⟩
instance : Keyed Uid Problem := ⟨Problem.id⟩
instance : Keyed Uid StoredVersion := ⟨fun v => v.id⟩

@[simp] theorem key_problemSource (s : ProblemSource) : Keyed.key s = s.id := rfl
@[simp] theorem key_problem (p : Problem) : Keyed.key p = p.id := rfl
@[simp] theorem key_storedVersion (v : StoredVersion) : Keyed.key v = v.id := rfl

structure Catalog where
  sources : Table ProblemSource
  problems : Table Problem
  versions : Table StoredVersion

namespace Catalog

def Empty (cat : Catalog) : Prop :=
  cat.sources = .empty ∧ cat.problems = .empty ∧ cat.versions = .empty

/-- `select(Problem).where(source_id, problem_key)`. -/
def problemOf (cat : Catalog) (sourceId : Uid) (key : String) : Option Problem :=
  cat.problems.rows.find? fun p => decide (p.sourceId = sourceId ∧ p.problemKey = key)

/-- `select(ProblemVersion).where(repository_url, commit_sha, problem_path)`. -/
def versionOf (cat : Catalog) (url sha path : String) : Option StoredVersion :=
  cat.versions.rows.find? fun v =>
    decide (v.repositoryUrl = url ∧ v.commitSha = sha ∧ v.problemPath = path)

/-- Insert a source under `UNIQUE(repository_url)`; `none` is an integrity
error. -/
def insertSource (cat : Catalog) (s : ProblemSource) : Option Catalog :=
  if ∃ s' ∈ cat.sources.rows, s'.repositoryUrl = s.repositoryUrl then none
  else (cat.sources.insert? s).map fun t => { cat with sources := t }

/-- Insert a problem under `UNIQUE(source_id, problem_key)`. -/
def insertProblem (cat : Catalog) (p : Problem) : Option Catalog :=
  if (cat.problemOf p.sourceId p.problemKey).isSome then none
  else (cat.problems.insert? p).map fun t => { cat with problems := t }

/-- Insert a version under `UNIQUE(repository_url, commit_sha,
problem_path)`. -/
def insertVersion (cat : Catalog) (v : StoredVersion) : Option Catalog :=
  if (cat.versionOf v.repositoryUrl v.commitSha v.problemPath).isSome then none
  else (cat.versions.insert? v).map fun t => { cat with versions := t }

end Catalog

/-! ## Columns -/

/-- Text a `VARCHAR(n)` takes; no text of PostgreSQL has a zero character. -/
def Varchar (n : ℕ) (s : String) : Prop := s.toList.length ≤ n ∧ Char.ofNat 0 ∉ s.toList

instance (n : ℕ) (s : String) : Decidable (Varchar n s) := inferInstanceAs (Decidable (_ ∧ _))

/-- `json.dumps` has a text for the metadata, and PostgreSQL takes it. -/
def TaskMetadata.storable (limit : ℕ) (m : TaskMetadata) : Bool :=
  Toml.storable limit (.table [("source", .table m.source)])

/-- The text stored as the type of a problem. -/
def typeText (py : Python) : Toml → Option String
  | .string s => some s
  | v => py.adapt v

/-! ## Synchronization -/

/-- What a synchronization takes from its surroundings. -/
structure SyncEnv where
  fresh : ℕ → Uid
  now : ℕ → Time
  /-- The insertion of a row reaches the database. -/
  flush : ℕ → Bool
  commit : Bool
  /-- The commit of the failure. -/
  failureCommit : Bool

structure SyncServer (γ : Type) where
  catalog : Catalog
  cache : Cache γ

namespace ProblemSourceManager

def databaseError (cls : String) : SyncError := .other cls "(database)"

/-- A row that reaches the database and fits. -/
def inserted (reached fits : Bool) (cat? : Option Catalog) : Except SyncError Catalog :=
  if ¬reached then .error (databaseError "OperationalError")
  else if ¬fits then .error (databaseError "StatementError")
  else
    match cat? with
    | some cat => .ok cat
    | none => .error (databaseError "IntegrityError")

section Register

variable (py : Python) (settings : GitSettings)

def register (env : SyncEnv) (cat : Catalog) (name url : String) (defaultBranch : Option String) :
    Except SyncError (Catalog × ProblemSource) := do
  let url ← GitRepositoryManager.validateUrl py settings url
  let source : ProblemSource :=
    { id := env.fresh 0, name, repositoryUrl := url, defaultBranch, updatedAt := env.now 0 }
  let cat ← inserted env.commit (decide (Varchar 200 name)) (cat.insertSource source)
  return (cat, source)

end Register

section Store

variable (py : Python) (env : SyncEnv) (source : ProblemSource) (branch sha : String)

/-- The row of a new problem, if the driver can write it. -/
def problemRow (id : Uid) (task : Task) : Option Problem := do
  let type ← typeText py task.type
  return { id, sourceId := source.id, problemKey := task.path, name := task.name,
           category := task.category, type, difficulty := task.difficulty }

def Problem.Fits (p : Problem) : Prop :=
  Varchar 250 p.name ∧ Varchar 50 p.category ∧ Varchar 50 p.type ∧ Varchar 30 p.difficulty

instance (p : Problem) : Decidable (Problem.Fits p) := inferInstanceAs (Decidable (_ ∧ _))

def versionRow (id problemId : Uid) (task : Task) : StoredVersion where
  id := id
  problemId := problemId
  repositoryUrl := source.repositoryUrl
  branch := branch
  commitSha := sha
  problemPath := task.path
  testCommand := task.command
  timeoutSeconds := task.timeout
  metadata := task.metadata

def StoredVersion.Fits (v : StoredVersion) : Prop :=
  Varchar 200 v.branch ∧ Varchar 64 v.commitSha ∧ v.metadata.storable py.recursionLimit = true

instance (v : StoredVersion) : Decidable (StoredVersion.Fits py v) :=
  inferInstanceAs (Decidable (_ ∧ _))

/-- The problem of a task, looked up or inserted. -/
def storeProblem (cat : Catalog) (task : Task) (i : ℕ) : Except SyncError (Catalog × Problem) :=
  match cat.problemOf source.id task.path with
  | some problem => .ok (cat, problem)
  | none =>
      match problemRow py source (env.fresh (2 * i)) task with
      | none => .error (databaseError "StatementError")
      | some problem => do
          let cat ← inserted (env.flush (2 * i)) (decide (Problem.Fits problem))
            (cat.insertProblem problem)
          return (cat, problem)

/-- One task, with the number of versions created before. -/
def storeTask : Catalog × ℕ → Task × ℕ → Except SyncError (Catalog × ℕ)
  | (cat, created), (task, i) => do
      let (cat, problem) ← storeProblem py env source cat task i
      match cat.versionOf source.repositoryUrl sha task.path with
      | some _ => return (cat, created)
      | none => do
          let version := versionRow source branch sha (env.fresh (2 * i + 1)) problem.id task
          let cat ← inserted (env.flush (2 * i + 1)) (decide (StoredVersion.Fits py version))
            (cat.insertVersion version)
          return (cat, created + 1)

/-- The source after a synchronization. -/
def syncedRow (discovered created : ℕ) (skipped : List Skipped) : ProblemSource :=
  { source with
    defaultBranch := some branch
    lastCommitSha := some sha
    lastSyncedAt := some (env.now 0)
    syncStatus := if discovered = 0 then "EMPTY" else "READY"
    syncReport := .done discovered created skipped
    updatedAt := env.now 1 }

/-- The storing phase of `sync`. -/
def store (cat : Catalog) (tasks : List Task) (skipped : List Skipped) :
    Except SyncError (Catalog × ProblemSource) := do
  let (cat, created) ← tasks.zipIdx.foldlM (storeTask py env source branch sha) (cat, 0)
  let source' := syncedRow env source branch sha tasks.length created skipped
  let cat ← inserted env.commit (decide (Varchar 200 branch ∧ Varchar 64 sha))
    (some { cat with sources := cat.sources.update source' })
  return (cat, source')

end Store

section Sync

variable {γ : Type} (py : Python) (settings : GitSettings) (git : GitHost γ)
  (token : Option String) (env : SyncEnv)

/-- `source.default_branch or git.get_branch(path)`. -/
def branchOf (source : ProblemSource) (path : String) : SourceProgram γ String :=
  match source.defaultBranch with
  | some branch =>
      if branch ≠ "" then pure branch else GitRepositoryManager.getBranch py git path
  | none => GitRepositoryManager.getBranch py git path

/-- Bring the cached clone up to date, or create it. -/
def fetchOrClone (source : ProblemSource) : SourceProgram γ String := do
  let path := GitRepositoryManager.path py settings source.id
  let cache ← Program.read
  if git.pathExists cache.host path then do
    GitRepositoryManager.fetch py git path
    return path
  else GitRepositoryManager.clone py settings git token source.id source.repositoryUrl

/-- The first phase of `sync`, up to the pin. -/
def acquire (source : ProblemSource) :
    SourceProgram γ (String × String × List Task × List Skipped) := do
  let path ← fetchOrClone py settings git token source
  let branch ← branchOf py git source path
  let sha ← GitRepositoryManager.checkout py git path branch
  let (tasks, skipped) ←
    ProblemDiscoveryService.discover py (GitRepositoryManager.repository py git path sha)
  GitRepositoryManager.pin py git path sha
  return (branch, sha, tasks, skipped)

def failureText : String := "Sync failed; verify Git access and repository metadata"

/-- The source after a failure. -/
def failedRow (source : ProblemSource) : ProblemSource :=
  { source with
    syncStatus := "FAILED"
    syncReport := .failed failureText
    updatedAt := env.now 2 }

/-- The handler of `sync`, behind the rollback. -/
def failed (s : SyncServer γ) (source : ProblemSource) (e : SyncError) :
    Except SyncError ProblemSource × SyncServer γ :=
  if env.failureCommit then
    (.error e, { s with catalog :=
      { s.catalog with sources := s.catalog.sources.update (failedRow env source) } })
  else (.error (databaseError "OperationalError"), s)

def sync (s : SyncServer γ) (sourceId : Uid) : Except SyncError ProblemSource × SyncServer γ :=
  match s.catalog.sources.get? sourceId with
  | none => (.error (.sourceError "Source not found"), s)
  | some source =>
      if source.enabled then
        match acquire py settings git token source s.cache with
        | (.error e, cache) => failed env { s with cache } source e
        | (.ok (branch, sha, tasks, skipped), cache) =>
            match store py env source branch sha s.catalog tasks skipped with
            | .error e => failed env { s with cache } source e
            | .ok (catalog, source') => (.ok source', { catalog, cache })
      else (.error (.sourceError "Source is disabled"), s)

end Sync

end ProblemSourceManager

/-! ### A source -/

namespace Sample

def source : ProblemSource where
  id := 5
  name := "bench"
  repositoryUrl := "https://github.com/example/bench.git"
  updatedAt := 0

def syncEnv : SyncEnv := ⟨id, fun _ => 0, fun _ => true, true, true⟩

def sources : SyncServer Unit where
  catalog := ⟨(Table.empty.insert? source).get (by decide), .empty, .empty⟩
  cache := ⟨(), []⟩

end Sample

end AgentBenchX
