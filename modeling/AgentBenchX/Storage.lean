import AgentBenchX.Models

/-!
# Object storage

The store the control plane writes result artifacts to. `put` creates an
object under a key that must be free (`open("xb")` locally, `IfNoneMatch`
on S3) and nothing ever overwrites or deletes one.

A write can raise, with or without leaving a (possibly truncated) object
behind; the environment of a request says which of its writes do. The
storage is not part of the database transaction: what a failed request
has written stays.
-/

namespace AgentBenchX

/-- An error answer of the API: its HTTP status and detail. -/
structure HttpError where
  code : ℕ
  detail : String
deriving DecidableEq, Repr

/-- A value of the evidence report. -/
inductive ReportValue where
  | text (s : String)
  | ref (id : Uid)
  | count (n : ℕ)
  | status (s : ResultStatus)
  | number (x : PyFloat)
deriving DecidableEq

/-- `analysis.md`: the labelled values in their order and the execution
evidence. The Markdown around them is fixed text. -/
structure Report where
  values : List (String × ReportValue)
  execution : Option ExecutionEvidence
deriving DecidableEq

/-- The contents of the stored artifacts. -/
inductive Artifact where
  | text (s : String)
  | testResults (tests : List TestInput)
  | report (r : Report)
deriving DecidableEq

structure StoredObject where
  key : StorageKey
  content : Artifact
deriving DecidableEq

instance : Keyed StorageKey StoredObject := ⟨StoredObject.key⟩

abbrev Storage := Table StoredObject

/-- What the environment does to one `put`. -/
inductive PutOutcome where
  | succeeds
  | raises (error : HttpError) (left : Option Artifact)
deriving DecidableEq

namespace Storage

/-- The store after an attempted creation of an object: unchanged if the
key is taken. -/
def create (st : Storage) (key : StorageKey) (content : Artifact) : Storage :=
  (st.insert? ⟨key, content⟩).getD st

/-- `StorageBackend.put`. -/
def put (st : Storage) (key : StorageKey) (content : Artifact) :
    PutOutcome → Storage × Except HttpError Unit
  | .raises error none => (st, .error error)
  | .raises error (some left) => (st.create key left, .error error)
  | .succeeds =>
      match st.insert? ⟨key, content⟩ with
      | some st' => (st', .ok ())
      | none => (st, .error ⟨500, "FileExistsError"⟩)

/-- Write the named contents one after the other, stopping at the first
write that raises. `outcome i` is what happens to the `i`-th of them. -/
def putAll (path : ArtifactPath) (outcome : ℕ → PutOutcome) :
    ℕ → List (String × Artifact) → Storage → Storage × Except HttpError Unit
  | _, [], st => (st, .ok ())
  | i, (name, content) :: rest, st =>
      match st.put (.artifact path name) content (outcome i) with
      | (st', .ok ()) => putAll path outcome (i + 1) rest st'
      | (st', .error e) => (st', .error e)

end Storage

end AgentBenchX
