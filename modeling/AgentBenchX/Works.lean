import AgentBenchX.Evaluator

/-!
# Surroundings that work

In a world where every docker, network and file operation works, an
evaluation is a function of what the containers do: how their processes
end and what they leave behind. The phases are computed here up to that
function; the state they pass through is only described as far as later
steps read it (`Sandbox.Ready`).

Copies and archives are not among the operations that work: their content
belongs to the container. Nor are the commands that attach to a container
or kill it, which fail when the container does.
-/

namespace AgentBenchX

open DockerSandbox Evaluator

/-- How the container of a phase ends: the outcome of `start --attach` with the exit
code docker recorded. -/
def Surroundings.phase (w : Surroundings) (id : String) (mode : SandboxMode) :
    Except OtherError Outcome := do
  let name := containerName id mode
  let ended ← w.docker ["start", "--attach", name]
  let state ← w.docker ["inspect", "--format", template "json .State", name]
  let exitCode ← w.stateExitCode (Process.run 500000 state).stdout
  return { Process.run 500000 ended with exitCode }

/-- The patch the agent leaves. -/
def readPatch (w : Surroundings) (name : String) : Except Exn String := do
  decodeText (← copiedFile w name patchFile 2000000)

/-- The files the test phase leaves. -/
def testFiles (w : Surroundings) (name : String) : Except Exn (Bytes × Bytes) := do
  let junit ← copiedFile w name junitFile 5000000
  let reward ← copiedFile w name rewardFile 100
  return (junit, reward)

/-- Every operation outside of the containers works. -/
structure Surroundings.Works (w : Surroundings) (lib : Libraries) (claim : JobClaim) : Prop where
  workspace : w.workspace = .ok ()
  darwin : w.darwin = true
  dockerHost : w.dockerHost = "" ∨ startsWith "unix://" w.dockerHost
  docker : ∀ argv, ∃ e, w.docker argv = .ok e
  succeeds : ∀ command args e, w.docker (command :: args) = .ok e → command ≠ "start" →
    command ≠ "kill" → ¬(Process.run 500000 e).Failed
  endpoint : ∀ e,
    w.docker ["context", "inspect", "--format", template ".Endpoints.docker.Host"] = .ok e →
    startsWith "unix://" (strip (Process.run 500000 e).stdout)
  workdir : ∀ name e,
    w.docker ["image", "inspect", "--format", template ".Config.WorkingDir", name] = .ok e →
    startsWith "/" (strip (Process.run 500000 e).stdout) ∧
      strip (Process.run 500000 e).stdout ≠ "/"
  stopped : ∀ name e, w.docker (runningArgs name) = .ok e → Stopped (Process.run 500000 e)
  stateExitCode : ∀ name e,
    w.docker ["inspect", "--format", template "json .State", name] = .ok e →
    ∃ code, w.stateExitCode (Process.run 500000 e).stdout = .ok code
  file : ∀ op, w.file op = .ok ()
  instruction : ∃ text, w.instruction = .ok text
  download : ∃ content, w.download = .ok content ∧
    (verifyAgent lib claim.agentVersion content : EvalProgram Unit) = pure ()
  prepareProblem : w.prepareProblem = .ok ()
  renew : ∀ event, w.renew event = .ok ()
  prepared : w.cancelled .prepared = false
  agent : w.cancelled (.executing .agent) = false
  /-- No cancel before the tests, if it comes to them. -/
  test : ∀ o patch, w.phase (lib.idText claim.job.id) .agent = .ok o → ¬o.Failed →
    readPatch w (containerName (lib.idText claim.job.id) .agent) = .ok patch →
    w.cancelled (.executing .test) = false

/-- The outcome of the inner `try` on the dictionary. -/
def parsed (lib : Libraries) (junit : Bytes) (r : ResultInput) : Except Exn ResultInput :=
  match parseJunit lib junit with
  | .ok tests => .ok { r with tests }
  | .error e =>
      if e.isValueError then .ok (r.evidence fun x => { x with error := some e.text })
      else .error (.other e)

variable {w : Surroundings} {lib : Libraries} (settings : WorkerSettings) {claim : JobClaim}

/-! ## Artifacts

Whatever goes wrong with an artifact, it is not the cleanup and not the inputs. -/

theorem other_mapError {α : Type} {x : Except OtherError α} {e : Exn}
    (h : x.mapError Exn.other = .error e) : ∃ o, e = .other o := by
  cases x with
  | error o => exact ⟨o, (Except.error.inj h).symm⟩
  | ok a => cases h

theorem other_copiedFile {name filename : String} {limit : ℕ} {e : Exn}
    (h : copiedFile w name filename limit = .error e) : ∃ o, e = .other o := by
  rcases error_of_bind h with h | ⟨process, -, h⟩
  · exact other_mapError h
  · dsimp only at h
    split at h
    · exact ⟨_, (Except.error.inj h).symm⟩
    · rcases error_of_bind h with h | ⟨exit, -, h⟩
      · exact other_mapError h
      · split at h
        · cases h
        · rcases error_of_bind h with h | ⟨members, -, h⟩
          · exact other_mapError h
          · split at h
            · split at h
              · exact ⟨_, (Except.error.inj h).symm⟩
              · exact other_mapError h
            · exact ⟨_, (Except.error.inj h).symm⟩

theorem other_decodeText {data : Bytes} {e : Exn} (h : decodeText data = .error e) :
    ∃ o, e = .other o := by
  unfold decodeText at h
  split at h
  · cases h
  · exact ⟨_, (Except.error.inj h).symm⟩

theorem other_readPatch {name : String} {e : Exn} (h : readPatch w name = .error e) :
    ∃ o, e = .other o := by
  rcases error_of_bind h with h | ⟨data, -, h⟩
  · exact other_copiedFile h
  · exact other_decodeText h

theorem other_testFiles {name : String} {e : Exn} (h : testFiles w name = .error e) :
    ∃ o, e = .other o := by
  rcases error_of_bind h with h | ⟨junit, -, h⟩
  · exact other_copiedFile h
  · rcases error_of_bind h with h | ⟨reward, -, h⟩
    · exact other_copiedFile h
    · cases h

theorem readPatch_of {name text : String} {data : Bytes}
    (hdata : copiedFile w name patchFile 2000000 = .ok data)
    (htext : Utf8.decode data = some text) :
    readPatch w name = .ok text := by
  rw [readPatch, bind_of_ok hdata, decodeText, htext]

theorem testFiles_of {name : String} {junit reward : Bytes}
    (hjunit : copiedFile w name junitFile 5000000 = .ok junit)
    (hreward : copiedFile w name rewardFile 100 = .ok reward) :
    testFiles w name = .ok (junit, reward) := by
  rw [testFiles, bind_of_ok hjunit, bind_of_ok hreward]
  rfl

theorem parsed_ok {junit : Bytes} {r r' : ResultInput} (h : parsed lib junit r = .ok r') :
    ∀ e, parseJunit lib junit = .error e → e.isValueError := by
  intro e he
  rw [parsed, he] at h
  dsimp only at h
  split at h
  · assumption
  · cases h

theorem parsed_error {junit : Bytes} {r : ResultInput} {e : Exn}
    (h : parsed lib junit r = .error e) :
    ∃ o, e = .other o ∧ parseJunit lib junit = .error o ∧ ¬o.isValueError := by
  unfold parsed at h
  split at h
  · cases h
  · rename_i o ho
    split at h
    · cases h
    · rename_i hvalue
      exact ⟨o, (Except.error.inj h).symm, ho, hvalue⟩

/-! ## Sandbox methods -/

section Methods

variable {I J : Sandbox → Prop}

theorem returns_external {σ α : Type} {P : σ → Prop} {answer : Except OtherError α} {a : α}
    (h : answer = .ok a) :
    Program.Returns P (external answer : Program Exn σ α) (fun b s => b = a ∧ P s) :=
  Program.Returns.lift (by rw [h]; rfl) fun _ hs => ⟨rfl, hs⟩

theorem returns_done {σ α : Type} {P : σ → Prop} {answer : Except OtherError α} {a : α}
    (h : answer = .ok a) :
    Program.Returns P (external answer : Program Exn σ α) (fun _ s => P s) :=
  Program.Returns.lift (by rw [h]; rfl) fun _ hs => hs

theorem returns_run {argv : List String} {e : Ended} (h : w.docker argv = .ok e) :
    Program.Returns (fun s => I s.sandbox) (run w argv)
      (fun o s => o = Process.run 500000 e ∧ I s.sandbox) := by
  refine Program.Returns.bind (Q := fun _ s => I s.sandbox)
    (Program.Returns.modify fun s hs => hs) fun _ => ?_
  exact returns_external (by rw [h]; rfl)

theorem returns_checked {argv : List String} {e : Ended} (h : w.docker argv = .ok e)
    (hs : ¬(Process.run 500000 e).Failed) :
    Program.Returns (fun s => I s.sandbox) (checked w argv)
      (fun o s => o = Process.run 500000 e ∧ I s.sandbox) := by
  refine (returns_run h).bind fun o => ?_
  rintro s ⟨rfl, hI⟩
  rw [if_neg hs]
  exact ⟨_, s, rfl, rfl, hI⟩

theorem returns_update {f : Sandbox → Sandbox} (h : ∀ s, I s → J (f s)) :
    Program.Returns (fun s => I s.sandbox) (update f) (fun _ s => J s.sandbox) :=
  Program.Returns.modify fun s hs => h s.sandbox hs

theorem returns_writeText (path text : String) (h : w.file (.write path) = .ok ()) :
    Program.Returns (fun s => I s.sandbox) (writeText w path text) (fun _ s => I s.sandbox) := by
  rw [writeText, h]
  exact Program.Returns.modify fun _ hs => hs

/-- A checked command of a world that works. -/
theorem returns_succeeding (hw : w.Works lib claim) (command : String) (args : List String)
    (hstart : command ≠ "start") (hkill : command ≠ "kill") :
    Program.Returns (fun s => I s.sandbox) (checked w (command :: args))
      (fun o s => (∃ e, w.docker (command :: args) = .ok e ∧ o = Process.run 500000 e) ∧
        I s.sandbox) := by
  obtain ⟨e, he⟩ := hw.docker (command :: args)
  refine (returns_checked he (hw.succeeds _ args e he hstart hkill)).weaken (fun _ h => h) ?_
  rintro o s ⟨rfl, hs⟩
  exact ⟨⟨e, he, rfl⟩, hs⟩

theorem returns_preflight (hw : w.Works lib claim) :
    Program.Returns (fun s => I s.sandbox) (preflight w) (fun _ s => I s.sandbox) := by
  unfold preflight
  have hlocal : ¬(w.dockerHost ≠ "" ∧ ¬startsWith "unix://" w.dockerHost) := by
    rintro ⟨hset, hremote⟩
    exact hw.dockerHost.elim hset hremote
  simp only [hw.darwin, Bool.not_true, Bool.false_eq_true, if_false]
  rw [if_neg hlocal]
  refine (returns_succeeding hw "context" _ (by decide) (by decide)).bind fun endpoint => ?_
  rintro s ⟨⟨e, he, rfl⟩, hs⟩
  rw [if_neg (not_not.mpr (hw.endpoint e he))]
  obtain ⟨o, t, ht, -, hI⟩ := returns_succeeding (I := I) hw "info" ["--format", template ".OSType"]
    (by decide) (by decide) s hs
  exact ⟨(), t, Program.bind_ok ht, hI⟩

theorem returns_create (hw : w.Works lib claim) (id : String) :
    Program.Returns (fun _ => True) (create w id) (fun _ s => s.sandbox.jobId = some id) := by
  refine Program.Returns.bind (returns_preflight (I := fun _ => True) hw) fun _ => ?_
  exact returns_update (I := fun _ => True) (J := fun s => s.jobId = some id) fun _ _ => rfl

/-- The image id is what docker answers. -/
def Surroundings.Identifies (w : Surroundings) (imageId : String) : Prop :=
  ∃ name e, w.docker ["image", "inspect", "--format", template ".Id", name] = .ok e ∧
    imageId = strip (Process.run 500000 e).stdout

/-- `prepare` has run. -/
structure Sandbox.Ready (w : Surroundings) (folder id : String) (s : Sandbox) : Prop where
  workspace : s.workspace = some folder
  jobId : s.jobId = some id
  imageId : ∃ imageId, s.imageId = some imageId ∧ w.Identifies imageId

theorem returns_prepare (hw : w.Works lib claim) (id folder : String) :
    Program.Returns (fun s => s.sandbox.jobId = some id) (prepare w settings id folder)
      (fun _ s => s.sandbox.Ready w folder id) := by
  let I : Sandbox → Prop := fun s => s.workspace = some folder ∧ s.jobId = some id
  refine Program.Returns.bind (Q := fun _ s => I s.sandbox)
    (Program.Returns.modify fun s hs => ⟨rfl, hs⟩) fun _ => ?_
  refine Program.Returns.bind (returns_done (hw.file _)) fun _ => ?_
  refine Program.Returns.bind (returns_done (hw.file _)) fun _ => ?_
  refine Program.Returns.bind (returns_done (hw.file _)) fun _ => ?_
  obtain ⟨instruction, hinstruction⟩ := hw.instruction
  refine Program.Returns.bind (returns_done hinstruction) fun _ => ?_
  refine Program.Returns.bind (returns_writeText (I := I) _ _ (hw.file _)) fun _ s hs => ?_
  rw [Program.bind_ok Program.read_apply]
  obtain ⟨build, hbuild⟩ := hw.docker ["build", "--platform", settings.dockerPlatform, "--tag",
    s.sandbox.image.getD "", folder ++ "/problem/environment"]
  obtain ⟨o, s₁, h₁, rfl, hs₁⟩ := returns_run (I := I) hbuild s hs
  rw [Program.bind_ok h₁]
  obtain ⟨_, s₂, h₂, hs₂⟩ := returns_writeText (I := I) _ _ (hw.file _) s₁ hs₁
  rw [Program.bind_ok h₂]
  obtain ⟨_, s₃, h₃, hs₃⟩ := returns_writeText (I := I) _ _ (hw.file _) s₂ hs₂
  rw [Program.bind_ok h₃, if_neg (hw.succeeds _ _ build hbuild (by decide) (by decide))]
  obtain ⟨o, s₄, h₄, ⟨e, he, rfl⟩, hs₄⟩ :=
    returns_succeeding (I := I) hw "image"
      ["inspect", "--format", template ".Id", s.sandbox.image.getD ""]
      (by decide) (by decide) s₃ hs₃
  rw [Program.bind_ok h₄]
  let t := { s₄.sandbox with imageId := some (strip (Process.run 500000 e).stdout) }
  have ht : t.Ready w folder id := ⟨hs₄.1, hs₄.2, _, rfl, _, e, he, rfl⟩
  rw [Program.bind_ok (a := ()) (t := { s₄ with sandbox := t }) (by rfl)]
  obtain ⟨o, s₅, h₅, ⟨e, he, rfl⟩, hs₅⟩ :=
    returns_succeeding (I := (·.Ready w folder id)) hw "image"
      ["inspect", "--format", template ".Config.WorkingDir", s.sandbox.image.getD ""]
      (by decide) (by decide) { s₄ with sandbox := t } ht
  obtain ⟨hroot, hne⟩ := hw.workdir _ e he
  rw [Program.bind_ok h₅, if_neg (not_or.mpr ⟨not_not.mpr hroot, hne⟩)]
  exact ⟨(), s₅, rfl, hs₅⟩

theorem returns_stop (hw : w.Works lib claim) (name : String) :
    Program.Returns (fun s => I s.sandbox) (stop w name) (fun _ s => I s.sandbox) := by
  intro s hs
  obtain ⟨killed, hkilled⟩ := hw.docker ["kill", name]
  obtain ⟨_, s₁, h₁, -, hs₁⟩ := returns_run (I := I) hkilled s hs
  obtain ⟨e, he⟩ := hw.docker (runningArgs name)
  obtain ⟨_, s₂, h₂, rfl, hs₂⟩ := returns_run (I := I) he s₁ hs₁
  rw [stop, Program.bind_ok h₁, Program.bind_ok h₂, if_pos (hw.stopped name e he)]
  exact ⟨(), s₂, rfl, hs₂⟩

theorem createArgs_eq (mode : SandboxMode) (name folder imageId : String) :
    ∃ args, createArgs settings mode name folder imageId = "create" :: args :=
  ⟨_, rfl⟩

theorem returns_execute (hw : w.Works lib claim) (id folder : String) {mode : SandboxMode}
    (hrunning : w.cancelled (.executing mode) = false) :
    Program.Returns (fun s => s.sandbox.Ready w folder id) (execute w settings mode)
      (fun o s => w.phase id mode = .ok o ∧ s.sandbox.Ready w folder id ∧
        s.sandbox.current = some (containerName id mode)) := by
  intro s hs
  let I : Sandbox → Prop := (·.Ready w folder id)
  let C : Sandbox → Prop := fun s => I s ∧ s.current = some (containerName id mode)
  rw [execute, Program.bind_ok Program.read_apply]
  simp only [hs.workspace, hs.jobId, Option.getD_some, hrunning, Bool.false_eq_true, if_false]
  obtain ⟨_, s₁, h₁, hs₁⟩ := returns_update (I := I) (J := I)
    (f := fun s => { s with containers := s.containers.insert (containerName id mode) })
    (fun _ h => ⟨h.workspace, h.jobId, h.imageId⟩) s hs
  rw [Program.bind_ok h₁]
  obtain ⟨args, hargs⟩ := createArgs_eq settings mode (containerName id mode) folder
    (s.sandbox.imageId.getD "")
  obtain ⟨_, s₂, h₂, -, hs₂⟩ := returns_succeeding (I := I) hw "create" args (by decide) (by decide)
    s₁ hs₁
  rw [hargs, Program.bind_ok h₂]
  obtain ⟨_, s₃, h₃, hs₃⟩ := returns_update (I := I) (J := C)
    (f := fun s => { s with current := some (containerName id mode) })
    (fun _ h => ⟨⟨h.workspace, h.jobId, h.imageId⟩, rfl⟩) s₂ hs₂
  rw [Program.bind_ok h₃]
  obtain ⟨ended, hended⟩ := hw.docker ["start", "--attach", containerName id mode]
  obtain ⟨_, s₄, h₄, rfl, hs₄⟩ := returns_run (I := C) hended s₃ hs₃
  rw [Program.bind_ok h₄]
  obtain ⟨_, s₅, h₅, hs₅⟩ := returns_stop (I := C) hw (containerName id mode) s₄ hs₄
  rw [Program.bind_ok h₅]
  obtain ⟨state, hstate⟩ := hw.docker
    ["inspect", "--format", template "json .State", containerName id mode]
  obtain ⟨_, s₆, h₆, rfl, hs₆⟩ := returns_run (I := C) hstate s₅ hs₅
  obtain ⟨exitCode, hexit⟩ := hw.stateExitCode _ state hstate
  rw [Program.bind_ok h₆, hexit]
  refine ⟨_, s₆, rfl, ?_, hs₆.1, hs₆.2⟩
  rw [Surroundings.phase, bind_of_ok hended, bind_of_ok hstate, bind_of_ok hexit]
  rfl

theorem suffix_agent (id : String) : "-agent".toList <:+ (containerName id .agent).toList := by
  refine ⟨("abx-" ++ id).toList, ?_⟩
  simp [containerName, SandboxMode.text]

theorem suffix_test (id : String) : ¬"-agent".toList <:+ (containerName id .test).toList := by
  rw [← List.reverse_prefix]
  simp [containerName, SandboxMode.text]

theorem readFile_apply (name filename : String) (limit : ℕ) (s : Host) :
    readFile w name filename limit s = (copiedFile w name filename limit,
      s.log (.copied (copyArgs name filename) (w.copy name filename))) :=
  rfl

/-- What `collect` returns after the agent's container. -/
theorem collect_agent {id : String} {s : Host}
    (h : s.sandbox.current = some (containerName id .agent)) :
    collect w s =
      ((readPatch w (containerName id .agent)).map fun patch => { patch := some patch },
        s.log (.copied (copyArgs (containerName id .agent) patchFile)
          (w.copy (containerName id .agent) patchFile))) := by
  have hread := readFile_apply (w := w) (containerName id .agent) patchFile 2000000 s
  rw [collect, Program.bind_ok Program.read_apply]
  simp only [h, suffix_agent, if_true]
  unfold readPatch
  cases hdata : copiedFile w (containerName id .agent) patchFile 2000000 with
  | error e => exact Program.bind_error (by rw [hread, hdata])
  | ok data =>
      rw [Program.bind_ok (hread.trans (by rw [hdata])), bind_of_ok rfl]
      cases hdecode : decodeText data with
      | error e => exact Program.bind_error rfl
      | ok patch => exact Program.bind_ok rfl

/-- What `collect` returns after the verifier's container. -/
theorem collect_test {id : String} {s : Host}
    (h : s.sandbox.current = some (containerName id .test)) :
    ∃ t, t.sandbox = s.sandbox ∧ collect w s =
      ((testFiles w (containerName id .test)).map
        fun files => { junit := some files.1, reward := some files.2 }, t) := by
  let log (h : Host) (file : String) : Host :=
    h.log (.copied (copyArgs (containerName id .test) file) (w.copy (containerName id .test) file))
  have hread := readFile_apply (w := w) (containerName id .test)
  rw [collect, Program.bind_ok Program.read_apply]
  simp only [h, suffix_test, if_false, testFiles]
  cases hjunit : copiedFile w (containerName id .test) junitFile 5000000 with
  | error e => exact ⟨log s junitFile, rfl, Program.bind_error (by rw [hread, hjunit])⟩
  | ok junit =>
      refine ⟨log (log s junitFile) rewardFile, rfl, ?_⟩
      rw [Program.bind_ok (a := junit) (t := log s junitFile) (by rw [hread, hjunit]),
        bind_of_ok rfl]
      cases hreward : copiedFile w (containerName id .test) rewardFile 100 with
      | error e => exact Program.bind_error (by rw [hread, hreward])
      | ok reward => exact Program.bind_ok (by rw [hread, hreward])

/-- Docker answers, and confirms that a container is gone. -/
structure Surroundings.Removes (w : Surroundings) : Prop where
  docker : ∀ argv, ∃ e, w.docker argv = .ok e
  removed : ∀ name e, w.docker (removeArgs name) = .ok e → Removed (Process.run 500000 e)

theorem Surroundings.Works.removes (hw : w.Works lib claim) : w.Removes where
  docker := hw.docker
  removed name e he :=
    Or.inl (not_not.mp fun h => hw.succeeds "rm" _ e he (by decide) (by decide) (Or.inl h))

theorem returns_removeAll (hw : w.Removes) (names : List String) :
    Program.Returns (fun s => I s.sandbox) (removeAll w names)
      (fun failures s => failures = [] ∧ I s.sandbox) := by
  induction names with
  | nil => exact Program.Returns.pure fun _ hs => ⟨rfl, hs⟩
  | cons name names ih =>
      intro s hs
      obtain ⟨e, he⟩ := hw.docker (removeArgs name)
      obtain ⟨_, s₁, h₁, rfl, hs₁⟩ := returns_run (I := I) he s hs
      obtain ⟨failures, s₂, h₂, rfl, hs₂⟩ := ih s₁ hs₁
      rw [removeAll, Program.bind_ok h₁, Program.bind_ok h₂, if_pos (hw.removed name e he)]
      exact ⟨[], s₂, rfl, rfl, hs₂⟩

theorem returns_destroy (hw : w.Removes) :
    Program.Returns (fun _ => True) (destroy w) (fun _ _ => True) := by
  intro s _
  obtain ⟨_, s₁, h₁, rfl, -⟩ := returns_removeAll (I := fun _ => True) hw
    (w.iterate s.sandbox.containers) (s.log .destroying) trivial
  rw [destroy, Program.bind_ok (Program.modify_apply _), Program.bind_ok Program.read_apply,
    Host.log_sandbox, Program.bind_ok h₁, if_neg (not_not.mpr rfl)]
  cases s.sandbox.image with
  | none => exact ⟨(), s₁, rfl, trivial⟩
  | some image =>
      obtain ⟨e, he⟩ := hw.docker ["image", "rm", image]
      obtain ⟨_, s₂, h₂, -⟩ := returns_run (I := fun _ => True) he s₁ trivial
      exact ⟨(), s₂, Program.bind_ok h₂, trivial⟩

end Methods

/-! ## Phases -/

section Phases

variable {s : EvalState}

@[simp] theorem setResult_apply (f : ResultInput → ResultInput) :
    setResult f s = (.ok (), { s with result := f s.result }) :=
  rfl

theorem onHost_apply {α : Type} {x : HostProgram α} {r : Except Exn α} {h : Host}
    (hx : x s.host = (r, h)) : onHost x s = (r, { s with host := h }) := by
  rw [onHost, Program.focus, hx]

/-- The inner `try` is a function on the dictionary. -/
theorem parseTests_apply (lib : Libraries) (junit : Bytes) (s : EvalState) :
    parseTests lib junit s =
      match parsed lib junit s.result with
      | .ok r => (.ok (), { s with result := r })
      | .error e => (.error e, s) := by
  unfold parseTests parsed Program.handle
  cases parseJunit lib junit with
  | ok tests => rfl
  | error e =>
      show (if e.isValueError then _ else _ : EvalProgram Unit) s = _
      by_cases he : e.isValueError <;> simp only [he, if_true, if_false, Bool.false_eq_true] <;> rfl

/-- Everything up to the agent's container works; the image id is entered. -/
theorem returns_prepareInputs (hw : w.Works lib claim) (folder : String) :
    ∃ imageId t, w.Identifies imageId ∧
      prepareInputs w lib settings claim folder (start claim) = (.ok (), t) ∧
      t.host.sandbox.Ready w folder (lib.idText claim.job.id) ∧
      t.result = (start claim).result.evidence fun x => { x with imageId := some imageId } := by
  obtain ⟨_, h₁, hcreate, hs₁⟩ := returns_create hw (lib.idText claim.job.id) (start claim).host
    trivial
  obtain ⟨content, hcontent, hverify⟩ := hw.download
  obtain ⟨_, h₂, hprepare, hs₂⟩ := returns_prepare settings hw
    (lib.idText claim.job.id) folder h₁ hs₁
  obtain ⟨imageId, hid, himage⟩ := hs₂.imageId
  refine ⟨imageId, { host := h₂, result := _ }, himage, ?_, hs₂, rfl⟩
  rw [prepareInputs, Program.bind_ok (onHost_apply hcreate), hcontent,
    Program.bind_ok (a := content) (by rfl), hverify, Program.bind_ok (Program.pure_apply),
    hw.file, Program.bind_ok (a := ()) (by rfl), hw.prepareProblem,
    Program.bind_ok (a := ()) (by rfl), hw.prepared,
    if_neg Bool.false_ne_true, Program.bind_ok (onHost_apply hprepare),
    Program.bind_ok Program.read_apply, setResult_apply, hid]
  rfl

/-- What the agent's outcome puts into the dictionary. -/
def afterAgent (o : Outcome) (r : ResultInput) : ResultInput :=
  { r.evidence (fun x => { x with agent := some o.evidence }) with
    agentOutput := o.stdout, stderr := o.stderr }

/-- What the outcome of the tests puts into the dictionary. -/
def afterTest (o : Outcome) (r : ResultInput) : ResultInput :=
  { r.evidence (fun x => { x with test := some o.evidence }) with
    stdout := o.stdout
    stderr := lastChars 1000000 (r.stderr ++ "\n" ++ o.stderr) }

variable {folder id : String} {o : Outcome}

/-- The agent's phase depends on the patch that can be read afterwards. -/
theorem agentPhase_apply (hw : w.Works lib claim) (hs : s.host.sandbox.Ready w folder id)
    (ho : w.phase id .agent = .ok o) :
    ∃ t, t.host.sandbox.Ready w folder id ∧ t.result = afterAgent o s.result ∧
      agentPhase w settings s =
        match readPatch w (containerName id .agent) with
        | .ok patch => (.ok o, { t with result := { t.result with patch } })
        | .error e => (.error e, t) := by
  obtain ⟨o', h, hexecute, ho', hready, hcurrent⟩ :=
    returns_execute settings hw id folder hw.agent s.host hs
  obtain rfl := Except.ok.inj (ho'.symm.trans ho)
  have hcollect := onHost_apply (s := { host := h, result := afterAgent o' s.result })
    (collect_agent (w := w) hcurrent)
  refine ⟨{ host := h.log (.copied (copyArgs (containerName id .agent) patchFile)
    (w.copy (containerName id .agent) patchFile)), result := afterAgent o' s.result },
    hready, rfl, ?_⟩
  rw [agentPhase, hw.renew, Program.bind_ok (a := ()) (by rfl),
    Program.bind_ok (onHost_apply hexecute), Program.bind_ok (setResult_apply _),
    Program.bind_ok (setResult_apply _)]
  cases hread : readPatch w (containerName id .agent) with
  | error e =>
      rw [hread] at hcollect
      exact Program.bind_error hcollect
  | ok patch =>
      rw [hread] at hcollect
      exact Program.bind_ok hcollect

/-- The test phase depends on the files that can be read afterwards, and on what the
parser makes of them. -/
theorem testPhase_apply (hw : w.Works lib claim)
    (hrunning : w.cancelled (.executing .test) = false) (hs : s.host.sandbox.Ready w folder id)
    (ho : w.phase id .test = .ok o) :
    ∃ t, t.result = afterTest o s.result ∧
      testPhase w lib settings claim s =
        match testFiles w (containerName id .test) with
        | .error e => (.error e, t)
        | .ok files =>
            match parsed lib files.1 t.result with
            | .error e => (.error e, t)
            | .ok r => (.ok (), { t with result := classify o files.2 r }) := by
  let I : Sandbox → Prop := (·.Ready w folder id)
  obtain ⟨_, h₁, hpatch, hs₁⟩ := returns_writeText (I := I) "candidate/patch.diff" s.result.patch
    (hw.file _) s.host hs
  obtain ⟨_, h₂, hcommand, hs₂⟩ := returns_writeText (I := I) "candidate/test-command.json"
    (commandText claim.problemVersion.testCommand) (hw.file _) h₁ hs₁
  obtain ⟨o', h, hexecute, ho', hready, hcurrent⟩ :=
    returns_execute settings hw id folder hrunning h₂ hs₂
  obtain rfl := Except.ok.inj (ho'.symm.trans ho)
  obtain ⟨h', -, hcollected⟩ := collect_test (w := w) hcurrent
  have hcollect := onHost_apply (s := { host := h, result := afterTest o' s.result }) hcollected
  refine ⟨{ host := h', result := afterTest o' s.result }, rfl, ?_⟩
  rw [testPhase, hw.renew, Program.bind_ok (a := ()) (by rfl), hw.file,
    Program.bind_ok (a := ()) (by rfl), Program.bind_ok Program.read_apply,
    Program.bind_ok (onHost_apply hpatch), Program.bind_ok (onHost_apply hcommand), hw.renew,
    Program.bind_ok (a := ()) (by rfl), Program.bind_ok (onHost_apply hexecute),
    Program.bind_ok (setResult_apply _), Program.bind_ok (setResult_apply _)]
  cases hfiles : testFiles w (containerName id .test) with
  | error e =>
      rw [hfiles] at hcollect
      exact Program.bind_error hcollect
  | ok files =>
      rw [hfiles] at hcollect
      refine (Program.bind_ok hcollect).trans ?_
      have hparse := parseTests_apply lib files.1
        { host := h', result := afterTest o' s.result }
      dsimp only [Option.getD_some]
      cases hparsed : parsed lib files.1 (afterTest o' s.result) with
      | error e =>
          rw [hparsed] at hparse
          exact Program.bind_error hparse
      | ok r =>
          rw [hparsed] at hparse
          rw [Program.bind_ok hparse, Program.bind_ok (setResult_apply _), hw.renew]
          split
          · rfl
          · rfl

/-- The body of the `try`, up to what follows the agent's phase. -/
theorem attempt_apply (hw : w.Works lib claim) (folder : String)
    (ho : w.phase (lib.idText claim.job.id) .agent = .ok o) :
    ∃ imageId t, w.Identifies imageId ∧
      t.host.sandbox.Ready w folder (lib.idText claim.job.id) ∧
      t.result = afterAgent o
        ((start claim).result.evidence fun x => { x with imageId := some imageId }) ∧
      attempt w lib settings claim folder (start claim) =
        match readPatch w (containerName (lib.idText claim.job.id) .agent) with
        | .error e => (.error e, t)
        | .ok patch =>
            (if o.timedOut ∨ o.cancelled then setResult .timeout
             else if o.exitCode ≠ 0 then
               setResult fun r => { r with failureType := some .agentFailure }
             else testPhase w lib settings claim)
              { t with result := { t.result with patch } } := by
  obtain ⟨imageId, s, himage, hprepare, hready, hs⟩ :=
    returns_prepareInputs settings hw folder
  obtain ⟨t, ht, hresult, hagent⟩ := agentPhase_apply settings hw hready ho
  refine ⟨imageId, t, himage, ht, by rw [hresult, hs], ?_⟩
  rw [attempt, Program.bind_ok hprepare]
  cases hread : readPatch w (containerName (lib.idText claim.job.id) .agent) with
  | error e =>
      rw [hread] at hagent
      exact Program.bind_error hagent
  | ok patch =>
      rw [hread] at hagent
      exact Program.bind_ok hagent

theorem keepLog_apply (hw : w.Works lib claim) (name : String)
    (set : String → ResultInput → ResultInput) (s : EvalState) :
    ∃ t, keepLog w name set s = (.ok (), t) ∧
      (t.result = s.result ∨ ∃ text, t.result = set text s.result) := by
  rw [keepLog, Program.bind_ok Program.read_apply]
  cases s.host.files name with
  | none => exact ⟨s, rfl, Or.inl rfl⟩
  | some text =>
      rw [hw.file]
      exact ⟨_, rfl, Or.inr ⟨_, rfl⟩⟩

/-- The handler leaves the verdict alone. -/
theorem recover_apply (hw : w.Works lib claim) (e : OtherError) (s : EvalState) :
    ∃ t, recover w (.other e) s = (.ok (), t) ∧ t.result.status = s.result.status ∧
      t.result.failureType = s.result.failureType := by
  obtain ⟨s₁, h₁, hs₁⟩ := keepLog_apply hw "build.stdout.log"
    (fun text r => { r with stdout := text }) { s with result := s.result.evidence fun x =>
      { x with error := some (e.className ++ ": worker preparation or execution failed") } }
  obtain ⟨s₂, h₂, hs₂⟩ := keepLog_apply hw "build.stderr.log"
    (fun text r => { r with stderr := text }) s₁
  refine ⟨s₂, ?_, ?_⟩
  · rw [recover, Program.bind_ok (setResult_apply _), Program.bind_ok h₁, h₂]
  · rcases hs₁ with hs₁ | ⟨_, hs₁⟩ <;> rcases hs₂ with hs₂ | ⟨_, hs₂⟩ <;> rw [hs₂, hs₁] <;>
      exact ⟨rfl, rfl⟩

theorem finish_apply (hw : w.Works lib claim) (s : EvalState) :
    ∃ t, finish w lib s = (.ok (), t) ∧ t.result = withMetrics w.elapsed s.result := by
  obtain ⟨_, h₁, hwrite, -⟩ := returns_writeText (I := fun _ => True) pendingFile
    ((withMetrics w.elapsed s.result).pendingText lib) (hw.file _) s.host trivial
  obtain ⟨_, h₂, hdestroy, -⟩ := returns_destroy hw.removes h₁ trivial
  refine ⟨{ host := h₂, result := withMetrics w.elapsed s.result }, ?_, rfl⟩
  rw [finish, Program.bind_ok (setResult_apply _), Program.bind_ok Program.read_apply]
  refine (Program.bind_ok (onHost_apply
    (s := { s with result := withMetrics w.elapsed s.result }) hwrite)).trans ?_
  rw [hw.file, Program.bind_ok (a := ()) (by rfl), onHost_apply hdestroy]

variable {settings}

/-- What the body of the `try` and the handlers leave is what is returned. -/
theorem evaluate_of_handled (hw : w.Works lib claim) {s t : EvalState}
    (h : Program.handle (attempt w lib settings claim folder) (recover w) s = (.ok (), t)) :
    ∃ u, evaluate w lib settings claim folder s = (.ok (withMetrics w.elapsed t.result), u) ∧
      u.result = withMetrics w.elapsed t.result := by
  obtain ⟨u, hfinish, hu⟩ := finish_apply hw t
  refine ⟨u, ?_, hu⟩
  have hensure : Program.ensure (Program.handle (attempt w lib settings claim folder) (recover w))
      (finish w lib) s = (.ok (), u) := by
    rw [Program.ensure, h]
    simp only [hfinish]
  rw [evaluate, hw.workspace, Program.bind_ok (a := ()) (t := s) (by rfl), Program.bind_ok hensure,
    Program.bind_ok Program.read_apply, Program.pure_apply, hu]

theorem evaluate_of_ok (hw : w.Works lib claim) {s t : EvalState}
    (h : attempt w lib settings claim folder s = (.ok (), t)) :
    ∃ u, evaluate w lib settings claim folder s = (.ok (withMetrics w.elapsed t.result), u) ∧
      u.result = withMetrics w.elapsed t.result :=
  evaluate_of_handled hw (by rw [Program.handle, h])

theorem evaluate_of_error (hw : w.Works lib claim) {s t : EvalState} {e : OtherError}
    (h : attempt w lib settings claim folder s = (.error (.other e), t)) :
    ∃ r u, evaluate w lib settings claim folder s = (.ok r, u) ∧
      r.status = t.result.status ∧ r.failureType = t.result.failureType := by
  obtain ⟨t', hrecover, hstatus, hfailure⟩ := recover_apply hw e t
  have hhandled : Program.handle (attempt w lib settings claim folder) (recover w) s =
      (.ok (), t') := by
    rw [Program.handle, h]
    exact hrecover
  obtain ⟨u, hevaluate, -⟩ := evaluate_of_handled hw hhandled
  exact ⟨_, u, hevaluate, hstatus, hfailure⟩

end Phases

end AgentBenchX
