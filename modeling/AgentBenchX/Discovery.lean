import Mathlib.Data.List.Sort
import Mathlib.Data.String.Basic
import AgentBenchX.Lib.PurePath
import AgentBenchX.GitSources

/-!
# Problem discovery

`ProblemDiscoveryService.discover` reads every `task.toml` of a commit and
makes a task of it, or notes why it was skipped. Exceptions of the four
classes it handles skip one folder; any other one ends the discovery.

Files are read through a `Repository`, the methods `files` and `read` of
the repository manager at one commit, over any state.
-/

namespace AgentBenchX

open DockerSandbox (startsWith)
open GitRepositoryManager (contains)

/-- What discovery reads of a commit. -/
structure Repository (σ : Type) where
  files : Program SyncError σ (List String)
  read : String → Program SyncError σ Bytes

/-- The repository manager at a commit. -/
def GitRepositoryManager.repository {γ : Type} (py : Python) (git : GitHost γ) (path sha : String) :
    Repository (Cache γ) where
  files := files py git path sha
  read := read py git path sha

/-- The metadata stored with a version. -/
structure TaskMetadata where
  format : String := "harbor"
  source : List (String × Toml)
  tags : List String
  language : String
  framework : String
  instruction : String

structure Task where
  path : String
  name : String
  category : String
  type : Toml
  difficulty : String
  timeout : ℤ
  command : List String := ["bash", "/tests/test.sh"]
  metadata : TaskMetadata

structure Skipped where
  path : String
  reason : String
deriving DecidableEq

/-- What becomes of a folder. -/
inductive Found where
  | task (t : Task)
  | skipped (reason : String)

def purePath (s : String) : PurePath := PurePath.parse s.toList

/-- `str(PurePosixPath(filename).parent)`. -/
def folderOf (filename : String) : String := String.ofList (purePath filename).parent.text

namespace ProblemValidationService

def validate (task : Task) : Except SyncError Task :=
  if (purePath task.path).IsAbsolute ∨ ['.', '.'] ∈ (purePath task.path).parts then
    .error (.sourceError "Unsafe problem path")
  else if task.category ∉ ["CODING", "DATABASE", "DATA", "API_BACKEND"] then
    .error (.sourceError "Unsupported category")
  else if ¬(1 ≤ task.timeout ∧ task.timeout ≤ 86400) then
    .error (.sourceError "Timeout must be between 1 and 86400 seconds")
  else if task.difficulty ∉ ["EASY", "MEDIUM", "HARD", "EXPERT"] then
    .error (.sourceError "Unsupported difficulty")
  else .ok task

end ProblemValidationService

namespace ProblemDiscoveryService

variable {σ : Type} (py : Python) (repo : Repository σ)

/-- `table.get(key, default)`. -/
def getD (table : List (String × Toml)) (key : String) (default : Toml) : Toml :=
  (table.lookup key).getD default

/-- The category and the tags of the metadata. -/
def categoryAndTags (metadata : List (String × Toml)) :
    Except SyncError (String × List String) :=
  match (getD metadata "category" (.string "")).text?,
    (getD metadata "tags" (.array [])).texts? with
  | some category, some tags => .ok (category, tags)
  | _, _ => .error (.sourceError "Category must be text and tags must be a list of strings")

def isGis (folder category : String) (tags : List String) : Bool :=
  contains "xarray-spatial".toList (py.lower folder).toList || py.lower category = "gis"
    || tags.any fun t => py.lower t ∈ ["gis", "geospatial", "geotiff", "rasterization"]

/-- The normalized category and the kind of a task. -/
def classify (metadata : List (String × Toml)) (category : String) (tags : List String) :
    Except SyncError (String × Toml) :=
  if category = "database_query_engineering" then
    if "migration" ∈ tags then .ok ("DATABASE", .string "MIGRATION")
    else if "query-optimization" ∈ tags then .ok ("DATABASE", .string "QUERY_OPTIMIZATION")
    else .ok ("DATABASE", .string "SQL")
  else if startsWith "linting-" category then .ok ("CODING", .string "REFACTORING")
  else if category = "bugfix" then .ok ("CODING", .string "BUG_FIX")
  else if category ∈ ["CODING", "DATABASE", "DATA", "API_BACKEND"] then
    .ok (category, getD metadata "type" (.string "INTEGRATION"))
  else .error (.sourceError ("Unmapped source category: " ++ category))

/-- `value.upper()`. -/
def upper : Toml → Except SyncError String
  | .string s => .ok (py.upper s)
  | v => .error (.other "AttributeError" ("'" ++ v.typeName ++ "' object has no attribute 'upper'"))

/-- `int(value)`. -/
def toInt : Toml → Except SyncError ℤ
  | .string s => (py.int s).mapError .valueError
  | .integer n => .ok n
  | .float (.finite q) => .ok (PyFloat.truncate q)
  | .float (.inf _) => .error (.other "OverflowError" "cannot convert float infinity to integer")
  | .float .nan => .error (.valueError "cannot convert float NaN to integer")
  | .boolean b => .ok (if b then 1 else 0)
  | v => .error (.typeError
      ("int() argument must be a string, a bytes-like object or a real number, "
        ++ "not '" ++ v.typeName ++ "'"))

/-- `int(raw.get("verifier", {}).get("timeout_sec", 300))`. -/
def timeoutOf (raw : List (String × Toml)) : Except SyncError ℤ :=
  match getD raw "verifier" (.table []) with
  | .table verifier => toInt py (getD verifier "timeout_sec" (.integer 300))
  | v => .error (.other "AttributeError" ("'" ++ v.typeName ++ "' object has no attribute 'get'"))

/-- The body of the loop for one `task.toml`, before its handler. -/
def examine (files : List String) (folder filename : String) : Program SyncError σ Found := do
  let content ← repo.read filename
  let text ← Program.lift (GitRepositoryManager.decode py content)
  let raw ← Program.lift (py.loads text)
  match getD raw "metadata" (.table []) with
  | .table metadata => do
      let (category, tags) ← Program.lift (categoryAndTags metadata)
      if isGis py folder category tags then return .skipped "GIS is out of scope"
      else if ["instruction.md", "tests/test.sh", "environment/Dockerfile"].any fun p =>
          folder ++ "/" ++ p ∉ files then
        Program.raise (.sourceError "Missing instruction, verifier or environment Dockerfile")
      else do
        let (normalized, kind) ← Program.lift (classify metadata category tags)
        let difficulty ← Program.lift (upper py (getD metadata "difficulty" (.string "medium")))
        let timeout ← Program.lift (timeoutOf py raw)
        let instruction ← repo.read (folder ++ "/instruction.md")
        let instruction ← Program.lift (GitRepositoryManager.decode py instruction)
        let task ← Program.lift (ProblemValidationService.validate
          { path := folder
            name := String.ofList (purePath folder).name
            category := normalized
            type := kind
            difficulty
            timeout
            metadata :=
              { source := raw
                tags
                language := if "python" ∈ tags then "Python" else "Unknown"
                framework := if "django" ∈ tags then "Django" else ""
                instruction } })
        return .task task
  | _ => Program.raise (.sourceError "Metadata must be a table")

/-- One `task.toml` with its handler. -/
def inspect (files : List String) (filename : String) : Program SyncError σ Found :=
  (examine py repo files (folderOf filename) filename).handle fun e =>
    if e.Caught then return .skipped e.text else Program.raise e

/-- `sorted(f for f in files if f.endswith("/task.toml"))`. -/
def taskFiles (files : List String) : List String :=
  (files.filter fun f => decide ("/task.toml".toList <:+ f.toList)).insertionSort (· ≤ ·)

/-- What the folders of a commit become, in the order of their files. -/
def inspectAll (files : List String) : List String → Program SyncError σ (List (String × Found))
  | [] => return []
  | filename :: rest => do
      let found ← inspect py repo files filename
      let others ← inspectAll files rest
      return (folderOf filename, found) :: others

def tasks (found : List (String × Found)) : List Task :=
  found.filterMap fun
    | (_, .task t) => some t
    | _ => none

def skipped (found : List (String × Found)) : List Skipped :=
  found.filterMap fun
    | (folder, .skipped reason) => some ⟨folder, reason⟩
    | _ => none

def discover : Program SyncError σ (List Task × List Skipped) := do
  let files ← repo.files
  let found ← inspectAll py repo files (taskFiles files)
  return (tasks found, skipped found)

end ProblemDiscoveryService

end AgentBenchX
