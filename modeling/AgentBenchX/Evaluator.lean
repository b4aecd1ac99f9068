import AgentBenchX.DockerSandbox
import AgentBenchX.Services

/-!
# The evaluator

`Evaluator.evaluate` on one claimed job. The dictionary `result` is part
of the state, since what was entered before an exception stays entered
and the handlers and the `finally` block go on with it. `attempt` is the
body of the `try`, `recover` the `except` clauses, `finish` the `finally`.
-/

namespace AgentBenchX

/-! ## The result dictionary -/

def TestStatus.text : TestStatus → String
  | .passed => "PASSED"
  | .failed => "FAILED"
  | .skipped => "SKIPPED"

def ResultStatus.text : ResultStatus → String
  | .completed => "COMPLETED"
  | .failed => "FAILED"
  | .timeout => "TIMEOUT"

section
variable (lib : Libraries)

def PyFloat.toJson (x : PyFloat) : Json := .number (lib.floatText x)

def optionJson {α : Type} (f : α → Json) : Option α → Json
  | none => .null
  | some a => f a

def TestInput.toJson (t : TestInput) : Json := .object
  [("name", .string t.name), ("status", .string t.status.text),
   ("duration_seconds", t.durationSeconds.toJson lib), ("message", .string t.message)]

def Metrics.toJson (m : Metrics) : Json := .object
  [("runtime_seconds", m.runtimeSeconds.toJson lib),
   ("input_tokens", optionJson .ofInt m.inputTokens),
   ("output_tokens", optionJson .ofInt m.outputTokens),
   ("llm_cost", optionJson (PyFloat.toJson lib) m.llmCost),
   ("compute_cost", optionJson (PyFloat.toJson lib) m.computeCost),
   ("files_changed", .ofInt m.filesChanged), ("insertions", .ofInt m.insertions),
   ("deletions", .ofInt m.deletions)]

def ProcessEvidence.toJson (p : ProcessEvidence) : Json := .object
  [("exit_code", .ofInt p.exitCode), ("started_at", .string p.startedAt),
   ("finished_at", .string p.finishedAt), ("runtime_seconds", p.runtimeSeconds.toJson lib),
   ("timed_out", .bool p.timedOut), ("cancelled", .bool p.cancelled)]

def ExecutionEvidence.toJson (e : ExecutionEvidence) : Json := .object
  [("agent", optionJson (ProcessEvidence.toJson lib) e.agent),
   ("test", optionJson (ProcessEvidence.toJson lib) e.test),
   ("image_id", optionJson .string e.imageId), ("error", optionJson .string e.error)]

/-- The members of the dictionary, in the order they were entered. -/
def ResultInput.members (r : ResultInput) : List (String × Json) :=
  [("lease_token", .string r.leaseToken), ("status", .string r.status.text),
   ("failure_type", optionJson (fun f => .string f.text) r.failureType),
   ("metrics", r.metrics.toJson lib), ("tests", .array (r.tests.map (TestInput.toJson lib))),
   ("stdout", .string r.stdout), ("stderr", .string r.stderr),
   ("agent_output", .string r.agentOutput), ("patch", .string r.patch),
   ("execution", optionJson (ExecutionEvidence.toJson lib) r.execution)]

/-- `json.dumps(result, indent=2)`. -/
def ResultInput.pendingText (r : ResultInput) : String :=
  String.ofList (Json.dumps (some 2) (.object (r.members lib)))

end

/-- The dictionary before anything has happened. -/
def ResultInput.initial (leaseToken : String) : ResultInput where
  leaseToken := leaseToken
  status := .failed
  failureType := some .infrastructureFailure
  metrics := { runtimeSeconds := 0 }
  execution := some {}

/-- `result["execution"].update(...)`. -/
def ResultInput.evidence (f : ExecutionEvidence → ExecutionEvidence) (r : ResultInput) :
    ResultInput :=
  { r with execution := r.execution.map f }

/-- `result.update(status="TIMEOUT", failure_type="TIMEOUT")`. -/
def ResultInput.timeout (r : ResultInput) : ResultInput :=
  { r with status := .timeout, failureType := some .timeout }

/-- The fields of an outcome that are reported. -/
def Outcome.evidence (o : Outcome) : ProcessEvidence where
  exitCode := o.exitCode
  startedAt := o.startedAt
  finishedAt := o.finishedAt
  runtimeSeconds := o.runtimeSeconds
  timedOut := o.timedOut
  cancelled := o.cancelled

structure EvalState where
  host : Host := {}
  result : ResultInput

abbrev EvalProgram (α : Type) := Program Exn EvalState α

namespace Evaluator

open DockerSandbox

def onHost {α : Type} (x : HostProgram α) : EvalProgram α :=
  x.focus EvalState.host fun h s => { s with host := h }

def setResult (f : ResultInput → ResultInput) : EvalProgram Unit :=
  Program.modify fun s => { s with result := f s.result }

/-! ## Inputs -/

/-- A step of `inputs.py`. -/
def input {σ α : Type} : Except (InputFault ⊕ OtherError) α → Program Exn σ α
  | .ok a => return a
  | .error (.inl fault) => Program.raise (.inputError fault)
  | .error (.inr e) => Program.raise (.other e)

def verifyAgent {σ : Type} (lib : Libraries) (version : AgentVersion) (content : Bytes) :
    Program Exn σ Unit :=
  if version.filename ≠ "agent.py" ∨ version.version < 1 ∨ version.size ≠ content.length
      ∨ ¬(0 < content.length ∧ content.length ≤ 2000000)
      ∨ lib.sha256 content ≠ version.sha256 then
    Program.raise (.inputError .agentMismatch)
  else return ()

/-! ## The phases -/

/-- `data.strip()` on bytes. -/
def stripBytes (data : Bytes) : Bytes :=
  let space : UInt8 → Bool := fun b => b ∈ [9, 10, 11, 12, 13, 32]
  ((data.dropWhile space).reverse.dropWhile space).reverse

/-- The verdict on a test phase whose artifacts are read. -/
def classify (test : Outcome) (reward : Bytes) (r : ResultInput) : ResultInput :=
  if test.timedOut ∨ test.cancelled then r.timeout
  else if r.tests = [] then { r with failureType := some .infrastructureFailure }
  else if test.exitCode ≠ 0 ∨ (∃ t ∈ r.tests, t.status = .failed)
      ∨ stripBytes reward = ascii "0" then
    { r with failureType := some .testFailure }
  else { r with status := .completed, failureType := none }

/-- The inner `try`: only a `ValueError` of the parser is caught. -/
def parseTests (lib : Libraries) (junit : Bytes) : EvalProgram Unit :=
  Program.handle
    (do
      let tests ← external (parseJunit lib junit)
      setResult fun r => { r with tests })
    fun e =>
      if e.isValueError then setResult (.evidence fun x => { x with error := some e.text })
      else Program.raise e

/-- `json.dumps` of the test command. -/
def commandText (command : List String) : String :=
  String.ofList (Json.dumps none (.array (command.map .string)))

def testPhase (w : Surroundings) (lib : Libraries) (settings : WorkerSettings) (claim : JobClaim) :
    EvalProgram Unit := do
  external (w.renew .agentFinished)
  external (w.file (.mkdir "candidate"))
  onHost (writeText w "candidate/patch.diff" (← Program.read).result.patch)
  onHost (writeText w "candidate/test-command.json" (commandText claim.problemVersion.testCommand))
  external (w.renew .testStarted)
  let test ← onHost (execute w settings .test)
  setResult (.evidence fun x => { x with test := some test.evidence })
  setResult fun r => { r with
    stdout := test.stdout
    stderr := lastChars 1000000 (r.stderr ++ "\n" ++ test.stderr) }
  let collected ← onHost (collect w)
  parseTests lib (collected.junit.getD [])
  setResult (classify test (collected.reward.getD []))
  if w.cancelled .classified then return ()
  else external (w.renew .testFinished)

/-- Everything up to the agent's container. -/
def prepareInputs (w : Surroundings) (lib : Libraries) (settings : WorkerSettings)
    (claim : JobClaim)
    (folder : String) : EvalProgram Unit := do
  let sandboxId := lib.idText claim.job.id
  onHost (create w sandboxId)
  let content ← external w.download
  verifyAgent lib claim.agentVersion content
  external (w.file (.write "agent.py"))
  input w.prepareProblem
  if w.cancelled .prepared then
    Program.raise (.other (.raised .runtimeError "Lease renewal failed during input preparation"))
  else
    onHost (prepare w settings sandboxId folder)
    let imageId := (← Program.read).host.sandbox.imageId
    setResult (.evidence fun x => { x with imageId })

/-- The agent's container and what it leaves. -/
def agentPhase (w : Surroundings) (settings : WorkerSettings) : EvalProgram Outcome := do
  external (w.renew .agentStarted)
  let outcome ← onHost (execute w settings .agent)
  setResult (.evidence fun x => { x with agent := some outcome.evidence })
  setResult fun r => { r with agentOutput := outcome.stdout, stderr := outcome.stderr }
  let collected ← onHost (collect w)
  setResult fun r => { r with patch := collected.patch.getD "" }
  return outcome

/-- The body of the `try`. -/
def attempt (w : Surroundings) (lib : Libraries) (settings : WorkerSettings) (claim : JobClaim)
    (folder : String) : EvalProgram Unit := do
  prepareInputs w lib settings claim folder
  let outcome ← agentPhase w settings
  if outcome.timedOut ∨ outcome.cancelled then setResult .timeout
  else if outcome.exitCode ≠ 0 then
    setResult fun r => { r with failureType := some .agentFailure }
  else testPhase w lib settings claim

/-! ## Handlers -/

/-- A build log that exists replaces a field of the result. -/
def keepLog (w : Surroundings) (name : String) (set : String → ResultInput → ResultInput) :
    EvalProgram Unit := do
  match (← Program.read).host.files name with
  | none => return ()
  | some text =>
      external (w.file (.read name))
      setResult (set (lastChars 500000 (readText text)))

/-- The `except` clauses. -/
def recover (w : Surroundings) : Exn → EvalProgram Unit
  | .cleanupError text => Program.raise (.cleanupError text)
  | .inputError fault =>
      setResult fun r => .evidence (fun x => { x with error := some fault.text })
        { r with failureType := some .securityFailure }
  | .other e => do
      -- Arbitrary transport errors are not stringified: they may embed credentials.
      setResult (.evidence fun x =>
        { x with error := some (e.className ++ ": worker preparation or execution failed") })
      keepLog w "build.stdout.log" fun text r => { r with stdout := text }
      keepLog w "build.stderr.log" fun text r => { r with stderr := text }

def pendingFile : String := "../result.pending.json"

/-- The last entries of the dictionary. -/
def withMetrics (elapsed : ℚ≥0) (r : ResultInput) : ResultInput :=
  let counts := patchMetrics r.patch
  { r with metrics := { r.metrics with
      runtimeSeconds := .finite elapsed
      filesChanged := counts.filesChanged
      insertions := counts.insertions
      deletions := counts.deletions } }

/-- The `finally` block. -/
def finish (w : Surroundings) (lib : Libraries) : EvalProgram Unit := do
  setResult (withMetrics w.elapsed)
  -- Local evidence survives network loss and cleanup failures.
  onHost (writeText w pendingFile ((← Program.read).result.pendingText lib))
  external (w.file (.chmod pendingFile))
  onHost (destroy w)

def evaluate (w : Surroundings) (lib : Libraries) (settings : WorkerSettings) (claim : JobClaim)
    (folder : String) : EvalProgram ResultInput := do
  input w.workspace
  Program.ensure (Program.handle (attempt w lib settings claim folder) (recover w)) (finish w lib)
  return (← Program.read).result

/-- The state a call of `evaluate` starts in. -/
def start (claim : JobClaim) : EvalState where
  result := .initial claim.leaseToken.text

end Evaluator

end AgentBenchX
