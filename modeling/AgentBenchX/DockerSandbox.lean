import AgentBenchX.Lib.Program
import AgentBenchX.Process
import AgentBenchX.Results

/-!
# The Docker sandbox

`DockerSandbox` on the machine of a worker. What lies outside of the
worker is a `Surroundings`: an answer for every command line, file operation,
copy and look at the cancel event that one evaluation can ask for, each
at most once. A theorem about every `Surroundings` is a theorem about every way
the surroundings can behave, failures included.

All commands that docker was given, the copies among them, are logged in
`Host.trace` with their answers, and so is the call of `destroy`.
-/

namespace AgentBenchX

/-! ## Surroundings -/

inductive SandboxMode where
  | agent | test
deriving DecidableEq, Repr

def SandboxMode.text : SandboxMode → String
  | .agent => "agent"
  | .test => "test"

/-- The places in the code that look at the cancel event. -/
inductive CancelPoint where
  | prepared
  | executing (mode : SandboxMode)
  | classified
deriving DecidableEq, Repr

/-- A file operation below the folder of a job; paths are relative to it. -/
inductive FileOp where
  | mkdir (path : String)
  | copy (path : String)
  | write (path : String)
  | read (path : String)
  | chmod (path : String)
deriving DecidableEq, Repr

/-- A member of a tar archive. What can be read of a regular member has the size
its header states. -/
structure TarMember where
  isFile : Bool
  size : ℕ
  content : Except OtherError Bytes
  content_size : ∀ data, content = .ok data → data.length = size

/-- The process of `docker cp`: what its pipe delivers, how the wait for it ends. -/
structure CopyProcess where
  stream : Bytes
  exit : Except OtherError ℤ

structure Surroundings where
  /-- `workspace`, outside of the `try`. -/
  workspace : Except (InputFault ⊕ OtherError) Unit
  /-- `platform.system() == "Darwin"`. -/
  darwin : Bool
  /-- `DOCKER_HOST`, empty when unset. -/
  dockerHost : String
  docker : List String → Except OtherError Ended
  /-- `json.loads(state)["ExitCode"]`. -/
  stateExitCode : String → Except OtherError ℤ
  /-- `docker cp` of a file out of a container. -/
  copy : String → String → Except OtherError CopyProcess
  /-- `archive.getmembers()` of the bytes that were read. -/
  untar : Bytes → Except OtherError (List TarMember)
  cancelled : CancelPoint → Bool
  file : FileOp → Except OtherError Unit
  /-- How many characters a write that raised left in the file; `none` if it did not
  get to open it. -/
  leaves : String → Option ℕ
  /-- The text of the problem's `instruction.md`. -/
  instruction : Except OtherError String
  download : Except OtherError Bytes
  prepareProblem : Except (InputFault ⊕ OtherError) Unit
  renew : JobEvent → Except OtherError Unit
  /-- The order in which a loop goes through a set of names. -/
  iterate : List String → List String := id
  iterate_perm : ∀ names, (iterate names).Perm names := by exact fun _ => .refl _
  /-- The two readings of the monotonic clock around the evaluation. -/
  elapsed : ℚ≥0

structure WorkerSettings where
  dockerPlatform : String := "linux/amd64"
  sandboxMemoryMb : ℕ := 3072
  /-- The text of the number of CPUs. -/
  sandboxCpus : String := "2.0"

/-! ## State -/

/-- The attributes of a `DockerSandbox`. `containers` is a set: no name stands in it
twice, and the order means nothing. -/
structure Sandbox where
  workspace : Option String := none
  image : Option String := none
  imageId : Option String := none
  containers : List String := []
  jobId : Option String := none
  current : Option String := none

inductive Event where
  | ran (argv : List String) (answer : Except OtherError Outcome)
  | copied (argv : List String) (answer : Except OtherError CopyProcess)
  | destroying

structure Host where
  sandbox : Sandbox := {}
  /-- The text files of the job's folder. -/
  files : String → Option String := fun _ => none
  trace : List Event := []

def Host.log (h : Host) (e : Event) : Host := { h with trace := h.trace ++ [e] }

@[simp] theorem Host.log_sandbox (h : Host) (e : Event) : (h.log e).sandbox = h.sandbox := rfl
@[simp] theorem Host.log_trace (h : Host) (e : Event) : (h.log e).trace = h.trace ++ [e] := rfl

abbrev HostProgram (α : Type) := Program Exn Host α

namespace DockerSandbox

/-- An operation of the surroundings. -/
def external {σ α : Type} (answer : Except OtherError α) : Program Exn σ α :=
  Program.lift (answer.mapError .other)

def sandboxError {σ α : Type} (text : String) : Program Exn σ α :=
  Program.raise (.other (.raised .sandboxError text))

def update (f : Sandbox → Sandbox) : HostProgram Unit :=
  Program.modify fun h => { h with sandbox := f h.sandbox }

def setFile (path text : String) : HostProgram Unit :=
  Program.modify fun h => { h with files := fun p => if p = path then some text else h.files p }

/-- `path.write_text(text)`. -/
def writeText (w : Surroundings) (path text : String) : HostProgram Unit :=
  match w.file (.write path), w.leaves path with
  | .ok (), _ => setFile path text
  | .error e, none => Program.raise (.other e)
  | .error e, some n => do
      setFile path (takeChars n text)
      Program.raise (.other e)

/-- Universal newlines: text mode reads every line end as a newline. -/
def newlines : List Char → List Char
  | [] => []
  | '\r' :: '\n' :: rest => '\n' :: newlines rest
  | c :: rest => (if c = '\r' then '\n' else c) :: newlines rest

/-- `path.read_text()` of a file that holds `text`. -/
def readText (text : String) : String := String.ofList (newlines text.toList)

/-! ## Commands -/

/-- `run(["docker", *argv])`. -/
def run (w : Surroundings) (argv : List String) : HostProgram Outcome := do
  let answer := (w.docker argv).map (Process.run 500000)
  Program.modify fun h => h.log (.ran argv answer)
  external answer

/-- Python's `str` of a truth value. -/
def boolText (b : Bool) : String := if b then "True" else "False"

/-- `command` with `check`. -/
def checked (w : Surroundings) (argv : List String) : HostProgram Outcome := do
  let outcome ← run w argv
  if outcome.Failed then
    let command := argv.headD ""
    let exit := outcome.exitCode
    let timeout := boolText outcome.timedOut
    sandboxError s!"Docker {command} failed (exit={exit}, timeout={timeout})"
  else return outcome

/-- The characters `str.strip` removes. -/
def isStripped (c : Char) : Bool :=
  (9 ≤ c.toNat && c.toNat ≤ 13) || (28 ≤ c.toNat && c.toNat ≤ 32) ||
    (8192 ≤ c.toNat && c.toNat ≤ 8202)
    || c.toNat ∈ [133, 160, 5760, 8232, 8233, 8239, 8287, 12288]

/-- `s.strip()`. -/
def strip (s : String) : String :=
  String.ofList (((s.toList.dropWhile isStripped).reverse.dropWhile isStripped).reverse)

def startsWith (start s : String) : Prop := start.toList <+: s.toList

instance (start s : String) : Decidable (startsWith start s) :=
  inferInstanceAs (Decidable (_ <+: _))

/-- A template of the docker command line, `\x7b\x7b` and `\x7d\x7d` around it. -/
def template (text : String) : String := "\x7b\x7b" ++ text ++ "\x7d\x7d"

def preflight (w : Surroundings) : HostProgram Unit := do
  if !w.darwin then
    sandboxError "Real evaluation is enabled only on a Mac worker; this host is not Darwin"
  else if w.dockerHost ≠ "" ∧ ¬startsWith "unix://" w.dockerHost then
    sandboxError "DOCKER_HOST must not target a remote execution daemon"
  else
    let endpoint ← checked w ["context", "inspect", "--format", template ".Endpoints.docker.Host"]
    if ¬startsWith "unix://" (strip endpoint.stdout) then
      sandboxError "A local Docker Desktop Unix socket is required; remote daemons are forbidden"
    else
      let _ ← checked w ["info", "--format", template ".OSType"]

def create (w : Surroundings) (jobId : String) : HostProgram Unit := do
  preflight w
  update fun s => { s with jobId := some jobId, image := some ("agentbenchx-job:" ++ jobId) }

/-- `prepare` for the problem in `folder / "problem"`. -/
def prepare (w : Surroundings) (settings : WorkerSettings) (sandboxId folder : String) :
    HostProgram Unit := do
  update fun s => { s with workspace := some folder }
  external (w.file (.mkdir "runner"))
  external (w.file (.copy "runner/harness.py"))
  external (w.file (.copy "runner/agent.py"))
  let instruction ← external w.instruction
  writeText w "runner/input.json" (String.ofList (Json.dumps none (.object
    [("instruction", .string instruction), ("job_id", .string sandboxId)])))
  let image := ((← Program.read).sandbox.image).getD ""
  -- Only `environment` is the build context.
  let build ← run w ["build", "--platform", settings.dockerPlatform, "--tag", image,
    folder ++ "/problem/environment"]
  writeText w "build.stdout.log" build.stdout
  writeText w "build.stderr.log" build.stderr
  if build.Failed then
    sandboxError "Benchmark image build failed; inspect the preserved build logs"
  else
    let id ← checked w ["image", "inspect", "--format", template ".Id", image]
    update fun s => { s with imageId := some (strip id.stdout) }
    let workdir ← checked w ["image", "inspect", "--format", template ".Config.WorkingDir", image]
    if ¬startsWith "/" (strip workdir.stdout) ∨ strip workdir.stdout = "/" then
      sandboxError "Harbor image must declare a repository WORKDIR"
    else return ()

/-! ## Phases -/

def containerName (jobId : String) (mode : SandboxMode) : String :=
  "abx-" ++ jobId ++ "-" ++ mode.text

def bindMount (source target : String) : List String :=
  ["--mount", "type=bind,src=" ++ source ++ ",dst=" ++ target ++ ",readonly"]

/-- The arguments of `docker create`. -/
def createArgs (settings : WorkerSettings) (mode : SandboxMode) (name folder imageId : String) :
    List String :=
  let memory := toString settings.sandboxMemoryMb ++ "m"
  let mounts := bindMount (folder ++ "/runner") "/runner" ++
    match mode with
    | .agent => []
    | .test =>
        bindMount (folder ++ "/problem/tests") "/tests" ++ bindMount (folder ++ "/candidate")
          "/candidate"
  ["create", "--name", name, "--init", "--no-healthcheck", "--network", "none",
    "--cap-drop", "ALL", "--security-opt", "no-new-privileges", "--pids-limit", "256",
    "--memory", memory, "--memory-swap", memory, "--cpus", settings.sandboxCpus,
    "--ulimit", "fsize=67108864:67108864", "--log-opt", "max-size=10m", "--log-opt", "max-file=1",
    "--user", if mode = .agent then "agent" else "root", "--entrypoint", "python3"]
    ++ (if mode = .test then ["--cap-add", "DAC_OVERRIDE"] else [])
    ++ mounts ++ [imageId, "/runner/harness.py", mode.text]

def runningArgs (name : String) : List String :=
  ["inspect", "--format", template ".State.Running", name]

/-- The answer confirms that a container does not run any more. -/
def Stopped (o : Outcome) : Prop := o.exitCode = 0 ∧ strip o.stdout = "false"

instance (o : Outcome) : Decidable (Stopped o) := inferInstanceAs (Decidable (_ ∧ _))

def stop (w : Surroundings) (name : String) : HostProgram Unit := do
  -- The cancelled lease event is not passed to cleanup commands.
  let _ ← run w ["kill", name]
  let checked ← run w (runningArgs name)
  if Stopped checked then return ()
  else Program.raise (.cleanupError "Cannot confirm container termination; worker must stop")

def execute (w : Surroundings) (settings : WorkerSettings) (mode : SandboxMode) :
    HostProgram Outcome := do
  let s := (← Program.read).sandbox
  match s.workspace with
  | none => sandboxError "Invalid sandbox phase"
  | some folder =>
      if w.cancelled (.executing mode) then
        sandboxError "Execution cancelled before container creation"
      else
        let name := containerName (s.jobId.getD "") mode
        -- Tracked before `create`, so cleanup covers ambiguous answers of it too.
        update fun s => { s with containers := s.containers.insert name }
        let _ ← checked w (createArgs settings mode name folder (s.imageId.getD ""))
        update fun s => { s with current := some name }
        let outcome ← run w ["start", "--attach", name]
        stop w name
        let state ← run w ["inspect", "--format", template "json .State", name]
        let exitCode ← external (w.stateExitCode state.stdout)
        return { outcome with exitCode }

/-! ## Artifacts -/

def copyArgs (name filename : String) : List String := ["cp", name ++ ":" ++ filename, "-"]

/-- What `read_file` makes of the copy: one regular file, read up to a bound. -/
def copiedFile (w : Surroundings) (name filename : String) (limit : ℕ) : Except Exn Bytes := do
  let process ← (w.copy name filename).mapError .other
  let data := process.stream.take (limit + 65537)
  if limit + 65536 < data.length then
    .error (.other (.raised .sandboxError "Container artifact exceeds size limit"))
  else
    let exit ← process.exit.mapError .other
    if exit ≠ 0 then return []
    else
      match ← (w.untar data).mapError .other with
      | [entry] =>
          if !entry.isFile || decide (limit < entry.size) then
            .error (.other (.raised .sandboxError "Expected one bounded regular artifact file"))
          else entry.content.mapError .other
      | _ => .error (.other (.raised .sandboxError "Expected one bounded regular artifact file"))

def readFile (w : Surroundings) (name filename : String) (limit : ℕ) : HostProgram Bytes := do
  Program.modify fun h => h.log (.copied (copyArgs name filename) (w.copy name filename))
  Program.lift (copiedFile w name filename limit)

/-- What `collect` returns: the keys it sets. -/
structure Collected where
  patch : Option String := none
  junit : Option Bytes := none
  reward : Option Bytes := none

def patchFile : String := "/tmp/abx-patch.diff"

def junitFile : String := "/logs/verifier/junit.xml"

def rewardFile : String := "/logs/verifier/reward.txt"

/-- `data.decode("utf-8")`. -/
def decodeText (data : Bytes) : Except Exn String :=
  match Utf8.decode data with
  | some text => .ok text
  | none => .error (.other (.raised .unicodeDecodeError "'utf-8' codec can't decode"))

def collect (w : Surroundings) : HostProgram Collected := do
  match (← Program.read).sandbox.current with
  | none => return {}
  | some name =>
      if "-agent".toList <:+ name.toList then
        let data ← readFile w name patchFile 2000000
        let patch ← Program.lift (decodeText data)
        return { patch := some patch }
      else
        let junit ← readFile w name junitFile 5000000
        let reward ← readFile w name rewardFile 100
        return { junit := some junit, reward := some reward }

/-! ## Cleanup -/

/-- The answer to `docker rm` confirms that the container is gone. -/
def Removed (o : Outcome) : Prop :=
  o.exitCode = 0 ∨ "No such container".toList <:+: o.stderr.toList

instance (o : Outcome) : Decidable (Removed o) := inferInstanceAs (Decidable (_ ∨ _))

def removeArgs (name : String) : List String := ["rm", "--force", "--volumes", name]

/-- The loop of `destroy`; returns the names that could not be removed. -/
def removeAll (w : Surroundings) : List String → HostProgram (List String)
  | [] => return []
  | name :: rest => do
      let removed ← run w (removeArgs name)
      let failures ← removeAll w rest
      if Removed removed then return failures else return name :: failures

def destroy (w : Surroundings) : HostProgram Unit := do
  Program.modify fun h => h.log .destroying
  let s := (← Program.read).sandbox
  let failures ← removeAll w (w.iterate s.containers)
  if failures ≠ [] then
    Program.raise (.cleanupError "Container cleanup failed; preserve workspace and stop worker")
  else
    match s.image with
    | none => return ()
    | some image =>
        let _ ← run w ["image", "rm", image]

end DockerSandbox

end AgentBenchX
