import AgentBenchX.Evaluator

/-!
# The worker process

`run_worker` with `identity`, `recover_sandboxes`, `replay_pending` and
`Evaluator.acknowledged`, on the files below the workspace root.

A process may be killed at any moment, so the operations on files are
logged (`WorkerState.ops`): a prefix of the log, the next write possibly
cut short, is what a kill leaves behind (`Killed`). What an evaluation does
to the files below its own workspace is not logged, since nobody reads it
later.

The passes of the claim loop take their surroundings from a list. A list
that ends stands for a process that still runs.
-/

namespace AgentBenchX

open DockerSandbox

/-! ## Files -/

/-- `identity.json` and its mode. -/
structure IdentityFile where
  text : String
  /-- A regular file without permissions for others. -/
  isPrivate : Bool

/-- The directory `evaluations/<job>`. -/
structure JobFiles where
  workspace : Bool := false
  /-- `result.pending.json` and the names it may get later. -/
  pending : Option String := none
  accepted : Option String := none
  rejected : Option String := none
  receipt : Option String := none

/-- The workspace root; `ids` are the jobs that have a directory. -/
structure Disk where
  identity : Option IdentityFile := none
  ids : List Uid := []
  job : Uid → JobFiles := fun _ => {}

inductive DiskFile where
  | identity
  | pending (id : Uid)
  | receipt (id : Uid)
deriving DecidableEq, Repr

inductive DiskOp where
  /-- `workspace` creates the directories of a job. -/
  | create (id : Uid)
  | write (file : DiskFile) (text : String)
  /-- `result.pending.json` is renamed. -/
  | accept (id : Uid)
  | reject (id : Uid)
  /-- `shutil.rmtree(workspace)`. -/
  | remove (id : Uid)
deriving DecidableEq, Repr

namespace Disk

def update (id : Uid) (f : JobFiles → JobFiles) (d : Disk) : Disk :=
  { d with job := fun i => if i = id then f (d.job i) else d.job i }

/-- A rename replaces what has the new name; without a pending file it does nothing. -/
def apply (d : Disk) : DiskOp → Disk
  | .create id => { d.update id (fun j => { j with workspace := true }) with
      ids := d.ids.insert id }
  | .write .identity text => { d with identity := some { text, isPrivate := true } }
  | .write (.pending id) text => d.update id fun j => { j with pending := some text }
  | .write (.receipt id) text => d.update id fun j => { j with receipt := some text }
  | .accept id => d.update id fun j =>
      { j with pending := none, accepted := j.pending.or j.accepted }
  | .reject id => d.update id fun j =>
      { j with pending := none, rejected := j.pending.or j.rejected }
  | .remove id => d.update id fun j => { j with workspace := false }

/-- The jobs `glob("evaluations/*/workspace")` finds. -/
def workspaces (d : Disk) : List Uid := d.ids.filter fun id => (d.job id).workspace

/-- The jobs `glob("evaluations/*/result.pending.json")` finds. -/
def pendings (d : Disk) : List Uid := d.ids.filter fun id => (d.job id).pending.isSome

end Disk

/-- What is on disk after an operation was cut short. -/
inductive DiskOp.Torn : DiskOp → DiskOp → Prop
  | write (file : DiskFile) (text : String) (n : ℕ) :
      Torn (.write file text) (.write file (takeChars n text))

/-- What a process that did `ops` may have left when it was killed at some point. -/
inductive Killed (d : Disk) (ops : List DiskOp) : Disk → Prop
  | between (done rest : List DiskOp) (h : ops = done ++ rest) :
      Killed d ops (done.foldl Disk.apply d)
  | within (done rest : List DiskOp) (op torn : DiskOp) (h : ops = done ++ op :: rest)
      (ht : op.Torn torn) : Killed d ops ((done.foldl Disk.apply d).apply torn)

/-! ## Surroundings of a process -/

structure ProcessSettings extends WorkerSettings where
  serverUrl : String
  workspaceRoot : String
  /-- `worker_id`, which is set together with the token. -/
  workerId : Option String := none

/-- `str(UUID(text))`, which leaves the text of an identifier as it is. -/
structure WorkerLibraries extends Libraries where
  uuid : String → Except OtherError String
  uuid_idText : ∀ id, uuid (idText id) = .ok (idText id)

/-- Why a file operation failed, and how many characters a write left. -/
structure FileFailure where
  error : OtherError
  written : Option ℕ := none

/-- One pass of the claim loop. -/
structure Pass where
  /-- The stop event at the head of the loop. -/
  stopped : Bool := false
  /-- The answers to results that are sent again. -/
  replay : Uid → Except OtherError Json
  heartbeatDue : Bool := false
  heartbeat : Except OtherError Unit
  pollDue : Bool := true
  claim : Except OtherError (Option JobClaim)
  /-- `LeaseKeeper.__enter__`. -/
  enter : Except OtherError Unit
  evaluation : Surroundings
  /-- The cancel event after the evaluation. -/
  cancelled : Bool
  /-- The answers to the attempts to upload the result. -/
  upload : ℕ → Except OtherError Json
  /-- The cancel event ends the wait after a failed attempt. -/
  waitCancelled : ℕ → Bool
  /-- The heartbeat with status `ERROR`. -/
  errorHeartbeat : Except OtherError Unit

structure ProcessEnv where
  preflight : Surroundings
  /-- The workspace root and the lock on it. -/
  root : Except OtherError Unit
  register : Except OtherError (Uid × Token)
  /-- The surroundings of the recovery of a job's sandbox. -/
  recovery : Uid → Surroundings
  replay : Uid → Except OtherError Json
  read : DiskFile → Except OtherError Unit
  file : DiskOp → Except FileFailure Unit
  /-- The heartbeat with status `OFFLINE`. -/
  offline : Except OtherError Unit

/-! ## State -/

inductive WorkerEvent where
  /-- A destroyed sandbox of an earlier process, with the commands that were run. -/
  | recovered (id : Uid) (trace : List Event)
  | claimed (id : Uid)
  /-- A job was evaluated in these surroundings. -/
  | evaluated (w : Surroundings) (claim : JobClaim)

structure WorkerState where
  disk : Disk
  ops : List DiskOp := []
  events : List WorkerEvent := []
  stop : Bool := false

abbrev WorkerProgram (α : Type) := Program Exn WorkerState α

namespace Worker

def event (e : WorkerEvent) : WorkerProgram Unit :=
  Program.modify fun s => { s with events := s.events ++ [e] }

def record (op : DiskOp) : WorkerProgram Unit :=
  Program.modify fun s => { s with disk := s.disk.apply op, ops := s.ops ++ [op] }

def setStop : WorkerProgram Unit := Program.modify fun s => { s with stop := true }

/-- A file operation that may fail, a write after some characters. -/
def perform (env : ProcessEnv) (op : DiskOp) : WorkerProgram Unit :=
  match env.file op with
  | .ok () => record op
  | .error failure =>
      match op, failure.written with
      | .write file text, some n => do
          record (.write file (takeChars n text))
          Program.raise (.other failure.error)
      | _, _ => Program.raise (.other failure.error)

/-- `json.loads(path.read_text())`. -/
def readJson (env : ProcessEnv) (file : DiskFile) (text : String) : WorkerProgram Json := do
  external (env.read file)
  match Json.loads (newlines text.toList) with
  | some json => return json
  | none => Program.raise (.other (.raised .jsonDecodeError "Expecting value"))

/-- `stored[key]` for a key with a text. -/
def stringMember (json : Json) (key : String) : Except OtherError String :=
  match json with
  | .object _ =>
      match json.get? key with
      | some (.string text) => .ok text
      | some _ => .error (.raised .typeError key)
      | none => .error (.raised .keyError key)
  | _ => .error (.raised .typeError key)

/-! ## `identity` -/

def identityJson (lib : WorkerLibraries) (settings : ProcessSettings) (id : Uid) (token : Token) :
    Json :=
  .object [("id", .string (lib.idText id)), ("token", .string token.text),
    ("server_url", .string settings.serverUrl)]

/-- The saved identity, or a new one. The token only goes into the client. -/
def identity (lib : WorkerLibraries) (settings : ProcessSettings) (env : ProcessEnv) :
    WorkerProgram String := do
  match settings.workerId, (← Program.read).disk.identity with
  | some id, _ => external (lib.uuid id)
  | none, some file =>
      if !file.isPrivate then
        Program.raise (.other (.raised .valueError
          "Worker identity must be a private regular file (chmod 600)"))
      else
        let stored ← readJson env .identity file.text
        let url ← external (stringMember stored "server_url")
        if url ≠ settings.serverUrl then
          Program.raise (.other (.raised .valueError
            "Saved identity belongs to another SERVER_URL"))
        else
          let id ← external (stringMember stored "id")
          let id ← external (lib.uuid id)
          let _ ← external (stringMember stored "token")
          return id
  | none, none =>
      let (id, token) ← external env.register
      perform env (.write .identity
        (String.ofList (Json.dumps none (identityJson lib settings id token))))
      return lib.idText id

/-! ## `recover_sandboxes` -/

/-- The sandbox a process that died may have left. -/
def abandoned (name : String) : Sandbox where
  containers := [containerName name .agent, containerName name .test]
  image := some ("agentbenchx-job:" ++ name)

def recoverOne (lib : WorkerLibraries) (env : ProcessEnv) (id : Uid) : WorkerProgram Unit := do
  let run := destroy (env.recovery id) { sandbox := abandoned (lib.idText id) }
  event (.recovered id run.2.trace)
  Program.lift run.1

def recoverAll (lib : WorkerLibraries) (env : ProcessEnv) : List Uid → WorkerProgram Unit
  | [] => return ()
  | id :: rest => do
      recoverOne lib env id
      recoverAll lib env rest

def recoverSandboxes (lib : WorkerLibraries) (env : ProcessEnv) : WorkerProgram Unit := do
  recoverAll lib env (← Program.read).disk.workspaces

/-! ## `replay_pending` -/

/-- A status the server will not change its mind about. -/
def isRejection : OtherError → Bool
  | .httpStatus code _ => code ∈ [403, 404, 409]
  | _ => false

def receiptText (receipt : Json) : String := String.ofList (Json.dumps (some 2) receipt)

def replayOne (env : ProcessEnv) (answer : Uid → Except OtherError Json) (id : Uid) :
    WorkerProgram Unit := do
  match ((← Program.read).disk.job id).pending with
  | none => return ()
  | some text =>
      let _ ← readJson env (.pending id) text
      match answer id with
      | .ok receipt => do
          perform env (.write (.receipt id) (receiptText receipt))
          perform env (.accept id)
      | .error e =>
          if isRejection e then perform env (.reject id)
          else Program.raise (.other e)

def replayAll (env : ProcessEnv) (answer : Uid → Except OtherError Json) :
    List Uid → WorkerProgram Unit
  | [] => return ()
  | id :: rest => do
      replayOne env answer id
      replayAll env answer rest

def replayPending (env : ProcessEnv) (answer : Uid → Except OtherError Json) :
    WorkerProgram Unit := do
  replayAll env answer (← Program.read).disk.pendings

/-! ## The claim loop -/

/-- `Evaluator.acknowledged`. -/
def acknowledged (env : ProcessEnv) (id : Uid) (evaluation : Json) : WorkerProgram Unit := do
  perform env (.write (.receipt id) (receiptText evaluation))
  perform env (.accept id)
  perform env (.remove id)

def folder (lib : WorkerLibraries) (settings : ProcessSettings) (id : Uid) : String :=
  settings.workspaceRoot ++ "/evaluations/" ++ lib.idText id ++ "/workspace"

/-- What an evaluation leaves on disk: its workspace, and the pending file next to it. -/
def leaveFiles (id : Uid) (workspace : Except (InputFault ⊕ OtherError) Unit)
    (pending : Option String) : WorkerProgram Unit := do
  match workspace, pending with
  | .error _, _ => return ()
  | .ok (), none => record (.create id)
  | .ok (), some text => do
      record (.create id)
      record (.write (.pending id) text)

/-- `evaluator.evaluate(job, worker_id, lease)`. -/
def evaluateJob (lib : WorkerLibraries) (settings : ProcessSettings) (w : Surroundings)
    (claim : JobClaim) : WorkerProgram ResultInput := do
  let id := claim.job.id
  let run := Evaluator.evaluate w lib.toLibraries settings.toWorkerSettings claim
    (folder lib settings id) (Evaluator.start claim)
  event (.evaluated w claim)
  leaveFiles id w.workspace (run.2.host.files Evaluator.pendingFile)
  Program.lift run.1

def isTransport : OtherError → Bool
  | .transport _ _ => true
  | _ => false

/-- The attempts to upload a result that are left. -/
def upload (env : ProcessEnv) (p : Pass) (id : Uid) : ℕ → WorkerProgram Unit
  | 0 => setStop
  | n + 1 =>
      Program.handle
        (do
          let receipt ← external (p.upload (2 - n))
          acknowledged env id receipt)
        fun e =>
          match e with
          | .other o =>
              if isTransport o then
                if p.waitCancelled (2 - n) then return () else upload env p id n
              else Program.raise e
          | e => Program.raise e

def idleHeartbeat (p : Pass) : WorkerProgram Unit :=
  if p.heartbeatDue then external p.heartbeat else return ()

/-- The body of the `try`; returns whether the loop goes on. -/
def pass (lib : WorkerLibraries) (settings : ProcessSettings) (env : ProcessEnv) (once : Bool)
    (p : Pass) : WorkerProgram Bool := do
  replayPending env p.replay
  idleHeartbeat p
  if !p.pollDue then return true
  else
    match ← external p.claim with
    | none => return !once
    | some claim =>
        event (.claimed claim.job.id)
        external p.enter
        let _ ← evaluateJob lib settings p.evaluation claim
        if p.cancelled then return !once
        else
          upload env p claim.job.id 3
          return !once

/-- The classes the loop survives. -/
def isOperational (e : Exn) : Bool :=
  match e with
  | .other o => o.isHTTPError || o.isOSError || o.isValueError || o.isRuntimeError
  | .inputError _ => true
  | .cleanupError _ => true

/-- The `except` clauses of the loop. -/
def onError (once : Bool) (p : Pass) (e : Exn) : WorkerProgram Bool :=
  match e with
  | .cleanupError _ => do
      setStop
      external p.errorHeartbeat
      return true
  | e =>
      if !isOperational e then Program.raise e
      else if once then
        Program.raise (.other (.raised .runtimeError "Worker operation failed"))
      else return true

def loop (lib : WorkerLibraries) (settings : ProcessSettings) (env : ProcessEnv) (once : Bool) :
    List Pass → WorkerProgram Unit
  | [] => return ()
  | p :: rest => do
      if (← Program.read).stop || p.stopped then return ()
      else
        let goOn ← Program.handle (pass lib settings env once p) (onError once p)
        if goOn then loop lib settings env once rest else return ()

/-! ## `run_worker` -/

def sayOffline (env : ProcessEnv) : WorkerProgram Unit :=
  Program.handle (external env.offline) fun e =>
    match e with
    | .other o => if o.isHTTPError then return () else Program.raise e
    | e => Program.raise e

/-- Up to the identity. -/
def enter (lib : WorkerLibraries) (settings : ProcessSettings) (env : ProcessEnv) :
    WorkerProgram String := do
  Program.lift (preflight env.preflight {}).1
  external env.root
  identity lib settings env

/-- What comes before the first pass. -/
def startup (lib : WorkerLibraries) (env : ProcessEnv) : WorkerProgram Unit := do
  recoverSandboxes lib env
  replayPending env env.replay

def runWorker (lib : WorkerLibraries) (settings : ProcessSettings) (env : ProcessEnv)
    (once : Bool) (passes : List Pass) : WorkerProgram Unit := do
  let _ ← enter lib settings env
  Program.ensure
    (do
      startup lib env
      loop lib settings env once passes)
    (sayOffline env)

end Worker

end AgentBenchX
