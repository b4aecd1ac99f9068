import AgentBenchX.Discovery

/-!
# The worker's copy of a problem

`prepare_problem` fetches the pinned commit of a problem version through
the repository manager and writes the files below the folder of the
problem to the workspace, except for reference answers.

The workspace is new, so `problem` holds what this function has written
there, the last write of a path first, and nothing below it is a symbolic
link. Whether the disk takes a directory or a file is a parameter.
-/

namespace AgentBenchX

namespace PurePath

/-- `path.resolve()` where no component is a symbolic link. -/
def resolve (parts : List (List Char)) : List (List Char) :=
  parts.foldl (fun done c => if c = ['.', '.'] then done.dropLast else done ++ [c]) []

/-- Without `..` there is nothing to resolve. -/
theorem resolve_append {a b : List (List Char)} (h : ['.', '.'] ∉ b) :
    resolve (a ++ b) = resolve a ++ b := by
  rw [resolve, List.foldl_append]
  show b.foldl _ (resolve a) = _
  generalize resolve a = done
  induction b generalizing done with
  | nil => rw [List.foldl_nil, List.append_nil]
  | cons c b ih =>
      have hc : c ≠ ['.', '.'] := fun heq => h (heq ▸ List.mem_cons_self ..)
      rw [List.foldl_cons, if_neg hc, ih (fun hb => h (List.mem_cons_of_mem _ hb)),
        List.append_assoc, List.singleton_append]

end PurePath

/-- What the disk of the worker refuses, with the text of the `OSError`. The
name is the one of the file in the repository. -/
structure LocalDisk where
  mkdir : Option String
  parents : String → Option String
  write : String → Option String

/-- The repositories of the worker and the folder `problem` in its workspace. -/
structure Bench (γ : Type) where
  cache : Cache γ
  created : Bool := false
  files : List (List (List Char) × Bytes) := []

abbrev PrepareProgram (γ : Type) (α : Type) := Program SyncError (Bench γ) α

namespace Inputs

/-- `InputError` is a `ValueError`, and nothing here handles it. -/
def inputError (fault : InputFault) : SyncError := .other "InputError" fault.text

/-- `except ValueError`. -/
def IsValueError : SyncError → Prop
  | .sourceError _ => True
  | .valueError _ => True
  | _ => False

instance : DecidablePred IsValueError
  | .sourceError _ | .valueError _ => isTrue trivial
  | .typeError _ | .keyError _ | .other .. => isFalse not_false

/-- The HTTPS form of an SSH URL; any other URL as it is. -/
def httpsUrl (url : String) : String :=
  match sshMatch url.toList with
  | some (host, path) => "https://" ++ String.ofList host ++ "/" ++ String.ofList path
  | none => url

section Disk

variable {γ : Type} (disk : LocalDisk)

def onCache {α : Type} (x : SourceProgram γ α) : PrepareProgram γ α :=
  x.focus Bench.cache fun cache s => { s with cache }

def osError (cls text : String) : SyncError := .other cls text

/-- `task.mkdir()`. -/
def makeTask : PrepareProgram γ Unit := fun s =>
  match disk.mkdir with
  | some text => (.error (osError "OSError" text), s)
  | none =>
      if s.created then (.error (osError "FileExistsError" "problem"), s)
      else (.ok (), { s with created := true })

/-- `target.parent.mkdir(parents=True, exist_ok=True)`: no file is in the way. -/
def makeParents (name : String) (target : List (List Char)) : PrepareProgram γ Unit := fun s =>
  match disk.parents name with
  | some text => (.error (osError "OSError" text), s)
  | none =>
      if ∃ f ∈ s.files, f.1 <+: target.dropLast then
        (.error (osError "FileExistsError" name), s)
      else (.ok (), s)

/-- `target.write_bytes(data)`: the target is not a directory. -/
def writeBytes (name : String) (target : List (List Char)) (data : Bytes) :
    PrepareProgram γ Unit := fun s =>
  match disk.write name with
  | some text => (.error (osError "OSError" text), s)
  | none =>
      if ∃ f ∈ s.files, target <+: f.1 ∧ target ≠ f.1 then
        (.error (osError "IsADirectoryError" name), s)
      else (.ok (), { s with files := (target, data) :: s.files })

end Disk

section Prepare

variable {γ : Type} (py : Python) (git : GitHost γ) (disk : LocalDisk)

/-- The commit of the cached clone, fetched by its name if it is not there. -/
def resolveCommit (cache sha : String) : PrepareProgram γ String :=
  (onCache (GitRepositoryManager.getCurrentCommit py git cache sha)).handle fun e =>
    if IsValueError e then do
      let _ ← onCache (GitRepositoryManager.runText py git ["fetch", "origin", sha] (some cache))
      onCache (GitRepositoryManager.getCurrentCommit py git cache sha)
    else Program.raise e

/-- One name of the listing: the bytes transferred so far, before and after. -/
def extract (cache sha : String) (task : List (List Char)) (pfx : List Char) (total : ℕ)
    (name : String) : PrepareProgram γ ℕ :=
  if pfx <+: name.toList then
    let relative := PurePath.parse (name.toList.drop pfx.length)
    if relative.HasDotdot ∨ relative.IsAbsolute then
      Program.raise (inputError .unsafePath)
    else
      match relative.parts with
      | [] => Program.raise (.other "IndexError" "tuple index out of range")
      | first :: rest =>
          -- Reference answers stay in the repository.
          if first = "solution".toList then return total
          else if ¬PurePath.resolve task <+: PurePath.resolve (task ++ first :: rest) then
            Program.raise (inputError .unsafeTarget)
          else do
            let data ← onCache (GitRepositoryManager.read py git cache sha name)
            if total + data.length > 50000000 then
              Program.raise (inputError .overBudget)
            else do
              makeParents disk name (first :: rest)
              writeBytes disk name (first :: rest) data
              return total + data.length
  else return total

/-- The loop over the listing. -/
def extractAll (cache sha : String) (task : List (List Char)) (pfx : List Char) :
    ℕ → List String → PrepareProgram γ ℕ
  | total, [] => return total
  | total, name :: names => do
      let total ← extract py git disk cache sha task pfx total name
      extractAll cache sha task pfx total names

def required : List RequiredFile := [.task, .instruction, .dockerfile, .test]

/-- The last loop: every required file is there. -/
def checkRequired : List RequiredFile → PrepareProgram γ Unit
  | [] => return ()
  | file :: rest => do
      let s ← Program.read
      if ∃ f ∈ s.files, f.1 = (purePath file.path).parts then checkRequired rest
      else Program.raise (inputError (.missing file))

/-- `prepare_problem`; `token` is `os.getenv("GITHUB_TOKEN")`. What is returned
is the path of the folder. -/
def prepareProblem (token : Option String) (version : ProblemVersion) (destination : String)
    (allowedHosts : List String) : PrepareProgram γ (List (List Char)) := do
  let sha := version.commitSha
  let path := purePath version.problemPath
  if ¬GitRepositoryManager.isSha sha ∨ path.IsAbsolute ∨ path.HasDotdot
      ∨ path.parts = [] then
    Program.raise (inputError .invalidIdentity)
  else do
    let settings : GitSettings := ⟨destination, allowedHosts⟩
    let _ ← Program.lift (GitRepositoryManager.validateUrl py settings version.repositoryUrl)
    let url := httpsUrl version.repositoryUrl
    let _ ← Program.lift (GitRepositoryManager.validateUrl py settings url)
    let cache ← onCache (GitRepositoryManager.clone py settings git token version.id url)
    let actual ← resolveCommit py git cache sha
    if actual ≠ sha then Program.raise (inputError .commitMismatch)
    else do
      let task := (purePath destination).parts ++ ["problem".toList]
      makeTask disk
      let names ← onCache (GitRepositoryManager.files py git cache sha)
      let _ ← extractAll py git disk cache sha task (path.text ++ ['/']) 0
        (names.insertionSort (· ≤ ·))
      checkRequired required
      return task

end Prepare

end Inputs

end AgentBenchX
