import AgentBenchX.Lib.Script
import AgentBenchX.Captured

/-!
# The docker commands of an evaluation

`evaluationScript` lists the commands an evaluation gives to docker when
nothing goes wrong, each with the answer it needs to go on. Whatever goes
wrong, the commands it has given follow that script; behind them stand at
most the commands of `destroy`, for the containers it had docker create.

So the container of the tests is created only after the one of the agent has
been confirmed not to run, and no container is created in any other way than
`createArgs` says.
-/

namespace AgentBenchX

open DockerSandbox Evaluator

variable {w : Surroundings} {lib : Libraries} {settings : WorkerSettings} {claim : JobClaim}
  {id folder : String}

/-! ## Commands and answers -/

/-- A command for docker: one that is run to its end, or a copy whose pipe is read. -/
inductive DockerCall where
  | run (argv : List String)
  | copy (name filename : String)

def DockerCall.argv : DockerCall → List String
  | .run argv => argv
  | .copy name filename => copyArgs name filename

/-- What is logged of a command. -/
def asked (w : Surroundings) : DockerCall → Event
  | .run argv => .ran argv ((w.docker argv).map (Process.run 500000))
  | .copy name filename => .copied (copyArgs name filename) (w.copy name filename)

/-- The command does not raise, and its outcome satisfies `p`. -/
def Replies (w : Surroundings) (argv : List String) (p : Outcome → Prop) : Prop :=
  ∃ e, w.docker argv = .ok e ∧ p (Process.run 500000 e)

def imageName (id : String) : String := "agentbenchx-job:" ++ id

def imageArgs (format image : String) : List String :=
  ["image", "inspect", "--format", template format, image]

def stateArgs (name : String) : List String :=
  ["inspect", "--format", template "json .State", name]

/-- The id docker gives for the image. -/
def inspectedId (w : Surroundings) (image : String) : String :=
  match w.docker (imageArgs ".Id" image) with
  | .ok e => strip (Process.run 500000 e).stdout
  | .error _ => ""

/-! ## The script -/

abbrev DockerScript := Script DockerCall

/-- A command that is run, and what its outcome must be. -/
def ran (w : Surroundings) (argv : List String) (p : Outcome → Prop) : ScriptLine DockerCall :=
  ⟨.run argv, Replies w argv p⟩

def preflightScript (w : Surroundings) : DockerScript :=
  let context := ["context", "inspect", "--format", template ".Endpoints.docker.Host"]
  let info := ["info", "--format", template ".OSType"]
  [ran w context fun o => ¬o.Failed ∧ startsWith "unix://" (strip o.stdout),
    ran w info fun o => ¬o.Failed]

def prepareScript (w : Surroundings) (settings : WorkerSettings) (id folder : String) :
    DockerScript :=
  let build := buildArgs settings folder (imageName id)
  let inspectId := imageArgs ".Id" (imageName id)
  let workdir := imageArgs ".Config.WorkingDir" (imageName id)
  [ran w build fun o => ¬o.Failed, ran w inspectId fun o => ¬o.Failed,
    ran w workdir fun o => ¬o.Failed ∧ startsWith "/" (strip o.stdout) ∧ strip o.stdout ≠ "/"]

/-- The container of a phase up to its end. -/
def runningScript (w : Surroundings) (settings : WorkerSettings) (id folder : String)
    (mode : SandboxMode) : DockerScript :=
  let name := containerName id mode
  let create := createArgs settings mode name folder (inspectedId w (imageName id))
  [ran w create fun o => ¬o.Failed, ran w ["start", "--attach", name] fun _ => True,
    ran w ["kill", name] fun _ => True, ran w (runningArgs name) Stopped]

/-- The container of a phase with the look at what docker recorded of it. -/
def containerScript (w : Surroundings) (settings : WorkerSettings) (id folder : String)
    (mode : SandboxMode) : DockerScript :=
  runningScript w settings id folder mode ++
    [⟨.run (stateArgs (containerName id mode)), ∃ o, w.phase id mode = .ok o⟩]

/-- The agent succeeded, and its patch can be read. -/
def Proceeds (w : Surroundings) (id : String) : Prop :=
  (∃ o, w.phase id .agent = .ok o ∧ ¬o.Failed) ∧
    ∃ patch, readPatch w (containerName id .agent) = .ok patch

/-- The lines up to the end of the agent. -/
def agentScript (w : Surroundings) (settings : WorkerSettings) (id folder : String) :
    DockerScript :=
  preflightScript w ++ prepareScript w settings id folder ++
    containerScript w settings id folder .agent ++
    [⟨.copy (containerName id .agent) patchFile, Proceeds w id⟩]

def copied (w : Surroundings) (name filename : String) (limit : ℕ) : ScriptLine DockerCall :=
  ⟨.copy name filename, ∃ data, copiedFile w name filename limit = .ok data⟩

/-- The tests, if there are any. -/
def testScript (w : Surroundings) (settings : WorkerSettings) (id folder : String) : DockerScript :=
  containerScript w settings id folder .test ++
    [copied w (containerName id .test) junitFile 5000000,
      copied w (containerName id .test) rewardFile 100]

/-- All commands up to `destroy`. -/
def evaluationScript (w : Surroundings) (settings : WorkerSettings) (id folder : String) :
    DockerScript :=
  agentScript w settings id folder ++ testScript w settings id folder

def removalScript (w : Surroundings) (names : List String) : DockerScript :=
  names.map fun name => ran w (removeArgs name) fun _ => True

/-- The commands of `destroy`, with the names in the order in which it goes through them. -/
inductive Cleanup (w : Surroundings) (id : String) (names : List String) :
    List DockerCall → Prop
  | removing {calls : List DockerCall} :
      Follows (removalScript w names) calls → Cleanup w id names calls
  | removed {calls : List DockerCall} :
      Completes (removalScript w names) calls →
      (∀ name ∈ names, Replies w (removeArgs name) Removed) →
      Cleanup w id names (calls ++ [.run ["image", "rm", imageName id]])

/-- The name of the container a command creates. -/
def createdBy : List String → Option String
  | "create" :: "--name" :: name :: _ => some name
  | _ => none

def DockerCall.creates (c : DockerCall) : Option String := createdBy c.argv

/-! ## Following it -/

def Event.creates : Event → Option String
  | .ran argv _ => createdBy argv
  | .copied argv _ => createdBy argv
  | .destroying => none

/-- The containers that were created, the last one first. -/
def created (trace : List Event) : List String := (trace.filterMap Event.creates).reverse

/-- Every container is known, and the image is the one of the job. -/
structure Tidy (id : String) (h : Host) : Prop where
  containers : h.sandbox.containers = created h.trace
  image : ∀ image, h.sandbox.image = some image → image = imageName id

/-- The attributes of the sandbox. -/
def At (id : String) (v : Sandbox) (h : Host) : Prop := h.sandbox = v ∧ Tidy id h

theorem created_other {trace : List Event} {e : Event} (h : e.creates = none) :
    created (trace ++ [e]) = created trace := by
  rw [created, List.filterMap_append, List.filterMap_cons_none h, List.filterMap_nil,
    List.append_nil, created]

theorem created_create {trace : List Event} {e : Event} {name : String}
    (h : e.creates = some name) : created (trace ++ [e]) = name :: created trace := by
  rw [created, List.filterMap_append, List.filterMap_cons_some h, List.filterMap_nil,
    List.reverse_append, created]
  rfl

theorem At.log {v : Sandbox} {h : Host} (hh : At id v h) {e : Event} (he : e.creates = none) :
    At id v (h.log e) :=
  ⟨hh.1, hh.2.containers.trans (created_other he).symm, hh.2.image⟩

/-- A program of the sandbox that follows a script. -/
abbrev HostScript {β : Type} (w : Surroundings) (id : String) (v : Sandbox) (script : DockerScript)
    (x : HostProgram β) (Q : β → Host → Prop) : Prop :=
  Scripted Host.trace (asked w) (Tidy id) (At id v) script x Q

/-- A program that raises without a command. -/
abbrev Raises {β : Type} (w : Surroundings) (id : String) (v : Sandbox) (x : HostProgram β) :
    Prop :=
  HostScript w id v [] x fun _ _ => False

theorem raises_sandboxError {β : Type} (text : String) (v : Sandbox) :
    Raises w id v (sandboxError text : HostProgram β) :=
  .silent fun _ hh => ⟨rfl, hh.2, fun _ hb => by cases hb⟩

section Rules

variable {β : Type} {v : Sandbox} {script : DockerScript} {R : β → Host → Prop}

/-- A program that begins with one command. -/
theorem ask {α : Type} {c : DockerCall} {p : Prop} {x : HostProgram α} {f : α → HostProgram β}
    {h : Host} (hx : (x h).2 = h.log (asked w c)) (hlogged : At id v (h.log (asked w c)))
    (hf : ∀ a, (x h).1 = .ok a → (p ∧ HostScript w id v script (f a) R) ∨ Raises w id v (f a)) :
    ∃ calls, ((x >>= f) h).2.trace = h.trace ++ calls.map (asked w)
      ∧ Follows (⟨c, p⟩ :: script) calls ∧ Tidy id ((x >>= f) h).2
      ∧ ∀ b, ((x >>= f) h).1 = .ok b →
        Completes (⟨c, p⟩ :: script) calls ∧ R b ((x >>= f) h).2 := by
  rcases hxh : x h with ⟨e | a, t⟩ <;> rw [hxh] at hx hf <;> obtain rfl : t = _ := hx
  · rw [Program.bind_error hxh]
    exact ⟨[c], rfl, .called, hlogged.2, fun b hb => by cases hb⟩
  · rw [Program.bind_ok hxh]
    rcases hf a rfl with ⟨hp, hrest⟩ | hraises
    · obtain ⟨calls, htrace, hfollows, htidy, hR⟩ := hrest _ hlogged
      refine ⟨c :: calls, ?_, .passed hp hfollows, htidy, fun b hb => ?_⟩
      · rw [htrace, Host.log_trace, List.append_assoc]
        rfl
      · obtain ⟨hcompletes, hR⟩ := hR b hb
        exact ⟨(Completes.single (c := ⟨c, p⟩) hp).append hcompletes, hR⟩
    · obtain ⟨calls, htrace, hfollows, htidy, hraises⟩ := hraises _ hlogged
      cases hfollows
      exact ⟨[c], htrace.trans (List.append_nil _), .called, htidy,
        fun b hb => (hraises b hb).2.elim⟩

theorem run_replies {argv : List String} {o : Outcome} {h : Host} (ho : (run w argv h).1 = .ok o) :
    ∃ e, w.docker argv = .ok e ∧ Process.run 500000 e = o := by
  cases hanswer : w.docker argv with
  | error e =>
      rw [run_error hanswer] at ho
      cases ho
  | ok e =>
      rw [run_ok hanswer] at ho
      exact ⟨e, rfl, Except.ok.inj ho⟩

/-- A command that is run, where the state after it is known. -/
theorem askRun {argv : List String} {p : Outcome → Prop} {f : Outcome → HostProgram β} {h : Host}
    (hlogged : At id v (h.log (asked w (.run argv))))
    (hf : ∀ e, w.docker argv = .ok e →
      (p (Process.run 500000 e) ∧ HostScript w id v script (f (Process.run 500000 e)) R)
        ∨ Raises w id v (f (Process.run 500000 e))) :
    ∃ calls, ((run w argv >>= f) h).2.trace = h.trace ++ calls.map (asked w)
      ∧ Follows (ran w argv p :: script) calls ∧ Tidy id ((run w argv >>= f) h).2
      ∧ ∀ b, ((run w argv >>= f) h).1 = .ok b →
        Completes (ran w argv p :: script) calls ∧ R b ((run w argv >>= f) h).2 := by
  refine ask rfl hlogged fun o ho => ?_
  obtain ⟨e, he, rfl⟩ := run_replies ho
  exact (hf e he).imp_left fun ⟨hp, hscript⟩ => ⟨⟨e, he, hp⟩, hscript⟩

/-- A command whose outcome decides how to go on. -/
theorem asks {argv : List String} (hargv : createdBy argv = none) {p : Outcome → Prop}
    {f : Outcome → HostProgram β}
    (hf : ∀ e, w.docker argv = .ok e →
      (p (Process.run 500000 e) ∧ HostScript w id v script (f (Process.run 500000 e)) R)
        ∨ Raises w id v (f (Process.run 500000 e))) :
    HostScript w id v (ran w argv p :: script) (run w argv >>= f) R :=
  fun _ hh => askRun (hh.log hargv) hf

/-- A copy out of a container. -/
theorem copies {name filename : String} {limit : ℕ} {p : Prop} {f : Bytes → HostProgram β}
    (hf : ∀ data, copiedFile w name filename limit = .ok data →
      (p ∧ HostScript w id v script (f data) R) ∨ Raises w id v (f data)) :
    HostScript w id v (⟨.copy name filename, p⟩ :: script)
      (readFile w name filename limit >>= f) R :=
  fun _ hh => ask rfl (hh.log rfl) hf

/-- What comes of a command that must not fail. -/
theorem unless_failed {o : Outcome} {p : Outcome → Prop} {f : Outcome → HostProgram β}
    {text : String}
    (hf : ¬o.Failed → (p o ∧ HostScript w id v script (f o) R) ∨ Raises w id v (f o)) :
    (p o ∧ HostScript w id v script
        ((if o.Failed then sandboxError text else return o) >>= f) R)
      ∨ Raises w id v ((if o.Failed then sandboxError text else return o) >>= f) := by
  by_cases hfailed : o.Failed
  · rw [if_pos hfailed]
    exact Or.inr (raises_sandboxError _ v)
  · rw [if_neg hfailed, pure_bind]
    exact hf hfailed

/-- A command that must not fail. -/
theorem checks {argv : List String} (hargv : createdBy argv = none) {p : Outcome → Prop}
    {f : Outcome → HostProgram β}
    (hf : ∀ e, w.docker argv = .ok e → ¬(Process.run 500000 e).Failed →
      (p (Process.run 500000 e) ∧ HostScript w id v script (f (Process.run 500000 e)) R)
        ∨ Raises w id v (f (Process.run 500000 e))) :
    HostScript w id v (ran w argv p :: script) (checked w argv >>= f) R := by
  rw [checked, bind_assoc]
  exact asks hargv fun e he => unless_failed (hf e he)

/-- The command that creates a container, which has been entered before. -/
theorem creates {argv : List String} {name : String} (hargv : createdBy argv = some name)
    (hnew : name ∉ v.containers) {f : Outcome → HostProgram β}
    (hf : ∀ o, HostScript w id { v with containers := name :: v.containers } script (f o) R) :
    HostScript w id v (ran w argv (fun o => ¬o.Failed) :: script)
      (update (fun s => { s with containers := s.containers.insert name }) >>= fun _ =>
        checked w argv >>= f) R := by
  intro h hh
  have hinsert : v.containers.insert name = name :: v.containers := List.insert_of_not_mem hnew
  rw [update, Program.bind_ok (Program.modify_apply _), checked, bind_assoc]
  refine askRun (v := { v with containers := name :: v.containers }) (p := fun o => ¬o.Failed)
    (h := { h with sandbox := { h.sandbox with containers := h.sandbox.containers.insert name } })
    ?_ fun e _ => unless_failed (p := fun o => ¬o.Failed) fun hfailed => Or.inl ⟨hfailed, hf _⟩
  obtain ⟨hsandbox, htidy⟩ := hh
  refine ⟨by rw [← hsandbox] at hinsert ⊢; rw [← hinsert]; rfl, ?_, htidy.image⟩
  show h.sandbox.containers.insert name = created (h.trace ++ [asked w (.run argv)])
  rw [created_create (e := asked w (.run argv)) hargv, ← htidy.containers, hsandbox, hinsert]

theorem reads {f : Host → HostProgram β}
    (hf : ∀ h, h.sandbox = v → HostScript w id v script (f h) R) :
    HostScript w id v script (Program.read >>= f) R :=
  fun h hh => hf h hh.1 h hh

/-- A program that runs no command and leaves the sandbox as it is. -/
theorem quiet {x : HostProgram β}
    (hx : ∀ h, (x h).2.trace = h.trace ∧ (x h).2.sandbox = h.sandbox) :
    HostScript w id v [] x fun _ => At id v := by
  refine .silent fun h hh => ?_
  obtain ⟨htrace, hsandbox⟩ := hx h
  have hat : At id v (x h).2 :=
    ⟨hsandbox.trans hh.1, by rw [hsandbox, htrace]; exact hh.2.containers,
      fun image himage => hh.2.image image (hsandbox ▸ himage)⟩
  exact ⟨htrace, hat.2, fun _ _ => hat⟩

theorem quiet_external (answer : Except OtherError β) :
    HostScript w id v [] (external answer) fun _ => At id v :=
  quiet fun _ => ⟨rfl, rfl⟩

theorem quiet_writeText (path text : String) :
    HostScript w id v [] (writeText w path text) fun _ => At id v :=
  quiet fun h =>
    ⟨frames_writeText text (fun _ _ => rfl) h, frames_writeText text (fun _ _ => rfl) h⟩

theorem updates {f : Sandbox → Sandbox} (hcontainers : (f v).containers = v.containers)
    (himage : (f v).image = v.image ∨ (f v).image = some (imageName id)) :
    HostScript w id v [] (update f) fun _ => At id (f v) := by
  refine .silent fun h hh => ?_
  have hat : At id (f v) { h with sandbox := f h.sandbox } := by
    rw [hh.1]
    refine ⟨rfl, hcontainers.trans (hh.1 ▸ hh.2.containers), fun image hi => ?_⟩
    rcases himage with heq | heq
    · exact hh.2.image image (hh.1 ▸ heq ▸ hi)
    · exact (Option.some.inj (heq.symm.trans hi)).symm
  exact ⟨rfl, hat.2, fun _ _ => hat⟩

end Rules

/-! ## The sandbox -/

theorem preflight_script (v : Sandbox) :
    HostScript w id v (preflightScript w) (preflight w) fun _ => At id v := by
  unfold preflight
  split
  · exact .raises (raises_sandboxError _ v) _
  · split
    · exact .raises (raises_sandboxError _ v) _
    · refine checks rfl fun e _ hfailed => ?_
      split
      · exact Or.inr (raises_sandboxError _ v)
      · rename_i hlocal
        refine Or.inl ⟨⟨hfailed, not_not.mp hlocal⟩, ?_⟩
        exact checks rfl fun _ _ hfailed => Or.inl ⟨hfailed, quiet fun _ => ⟨rfl, rfl⟩⟩

def createdSandbox (id : String) : Sandbox := { jobId := some id, image := some (imageName id) }

theorem create_script :
    HostScript w id {} (preflightScript w) (create w id) fun _ => At id (createdSandbox id) := by
  refine (preflight_script {}).bindSilent fun _ => ?_
  exact updates (f := fun s => { s with jobId := some id, image := some (imageName id) }) rfl
    (Or.inr rfl)

/-- The sandbox with an image that has been built. -/
def preparedSandbox (w : Surroundings) (id folder : String) : Sandbox where
  jobId := some id
  image := some (imageName id)
  workspace := some folder
  imageId := some (inspectedId w (imageName id))

theorem inspectedId_eq {e : Ended} {image : String} (h : w.docker (imageArgs ".Id" image) = .ok e) :
    strip (Process.run 500000 e).stdout = inspectedId w image := by
  rw [inspectedId, h]

theorem prepare_script :
    HostScript w id (createdSandbox id) (prepareScript w settings id folder)
      (prepare w settings id folder) fun _ => At id (preparedSandbox w id folder) := by
  let v : Sandbox := { createdSandbox id with workspace := some folder }
  have hupdate : HostScript w id (createdSandbox id) [] _ fun _ => At id v :=
    updates (f := fun s => { s with workspace := some folder }) rfl (Or.inl rfl)
  refine hupdate.bind fun _ => ?_
  refine (quiet_external _).bind fun _ => (quiet_external _).bind fun _ => ?_
  refine (quiet_external _).bind fun _ => (quiet_external _).bind fun instruction => ?_
  refine (quiet_writeText _ _).bind fun _ => reads fun h hsandbox => ?_
  have himage : h.sandbox.image.getD "" = imageName id := by rw [hsandbox]; rfl
  rw [himage]
  have hbuild : createdBy (buildArgs settings folder (imageName id)) = none := rfl
  refine asks hbuild fun build _ => ?_
  have hlogs : ∀ {script : DockerScript} {x : HostProgram Unit} {R : Unit → Host → Prop},
      HostScript w id v script x R → HostScript w id v script
        (writeText w "build.stdout.log" (Process.run 500000 build).stdout >>= fun _ =>
          writeText w "build.stderr.log" (Process.run 500000 build).stderr >>= fun _ => x) R :=
    fun hx => (quiet_writeText _ _).bind fun _ => (quiet_writeText _ _).bind fun _ => hx
  by_cases hfailed : (Process.run 500000 build).Failed
  · refine Or.inr (hlogs ?_)
    rw [if_pos hfailed]
    exact raises_sandboxError _ v
  · refine Or.inl ⟨hfailed, hlogs ?_⟩
    rw [if_neg hfailed]
    have hinspect : ∀ field, createdBy (imageArgs field (imageName id)) = none := fun _ => rfl
    refine checks (hinspect ".Id") fun e he hfailed => Or.inl ⟨hfailed, ?_⟩
    rw [inspectedId_eq he]
    have hentered : HostScript w id v [] _ fun _ => At id (preparedSandbox w id folder) :=
      updates (f := fun s => { s with imageId := some (inspectedId w (imageName id)) }) rfl
        (Or.inl rfl)
    refine hentered.bind fun _ => ?_
    refine checks (hinspect ".Config.WorkingDir") fun e _ hfailed => ?_
    split
    · exact Or.inr (raises_sandboxError _ _)
    · rename_i hworkdir
      obtain ⟨habsolute, hroot⟩ := not_or.mp hworkdir
      exact Or.inl ⟨⟨hfailed, not_not.mp habsolute, hroot⟩, quiet fun _ => ⟨rfl, rfl⟩⟩

theorem stop_script (v : Sandbox) (name : String) :
    HostScript w id v [ran w ["kill", name] fun _ => True, ran w (runningArgs name) Stopped]
      (stop w name) fun _ => At id v := by
  refine asks rfl fun _ _ => Or.inl ⟨trivial, asks rfl fun e _ => ?_⟩
  split
  · rename_i hstopped
    exact Or.inl ⟨hstopped, quiet fun _ => ⟨rfl, rfl⟩⟩
  · exact Or.inr (.silent fun _ hh => ⟨rfl, hh.2, fun _ hb => by cases hb⟩)

theorem containerName_ne (id : String) : containerName id .agent ≠ containerName id .test := by
  intro h
  have h := congrArg String.toList h
  simp [containerName, SandboxMode.text] at h

/-- The sandbox that runs a container. -/
def Sandbox.running (v : Sandbox) (name : String) : Sandbox :=
  { v with containers := name :: v.containers, current := some name }

variable (settings) in
theorem execute_script {v : Sandbox} (mode : SandboxMode) (hfolder : v.workspace = some folder)
    (hid : v.jobId = some id) (himage : v.imageId = some (inspectedId w (imageName id)))
    (hnew : containerName id mode ∉ v.containers) :
    HostScript w id v (containerScript w settings id folder mode) (execute w settings mode)
      fun o h => At id (v.running (containerName id mode)) h ∧ w.phase id mode = .ok o := by
  refine reads fun h hsandbox => ?_
  simp only [hsandbox, hfolder, hid, himage, Option.getD_some]
  split
  · exact .raises (raises_sandboxError _ v) _
  · refine creates rfl hnew fun _ => ?_
    have hcurrent : HostScript w id { v with containers := containerName id mode :: v.containers }
        [] _ fun _ => At id (v.running (containerName id mode)) :=
      updates (f := fun s => { s with current := some (containerName id mode) }) rfl (Or.inl rfl)
    refine hcurrent.bind fun _ => ?_
    refine asks rfl fun started hstarted => Or.inl ⟨trivial, ?_⟩
    refine (stop_script _ _).bind fun _ => ?_
    show HostScript w id _ ([] ++ [⟨.run (stateArgs (containerName id mode)),
      ∃ o, w.phase id mode = .ok o⟩]) _ _
    refine Scripted.regate (p := Replies w (stateArgs (containerName id mode)) fun _ => True) ?_
      fun o _ h => ⟨o, h.2⟩
    refine asks rfl fun state hstate => Or.inl ⟨trivial, ?_⟩
    cases hexit : w.stateExitCode (Process.run 500000 state).stdout with
    | error e => exact .silent fun h hh => ⟨rfl, hh.2, fun o ho => by cases ho⟩
    | ok code =>
        refine .silent fun h hh => ⟨rfl, hh.2, fun o ho => ⟨hh, ?_⟩⟩
        have hstate : w.docker ["inspect", "--format", template "json .State",
            containerName id mode] = .ok state := hstate
        rw [Surroundings.phase, bind_of_ok hstarted, bind_of_ok hstate, bind_of_ok hexit]
        exact congrArg _ (Except.ok.inj ho)

theorem collect_agent_script {v : Sandbox} (hcurrent : v.current = some (containerName id .agent)) :
    HostScript w id v [⟨.copy (containerName id .agent) patchFile,
        ∃ patch, readPatch w (containerName id .agent) = .ok patch⟩] (collect w)
      fun _ h => At id v h ∧ ∃ patch, readPatch w (containerName id .agent) = .ok patch := by
  refine reads fun h hsandbox => ?_
  simp only [hsandbox, hcurrent, suffix_agent, if_true]
  refine copies fun data hdata => ?_
  cases hdecode : decodeText data with
  | error e => exact Or.inr (.silent fun _ hh => ⟨rfl, hh.2, fun _ hb => by cases hb⟩)
  | ok patch =>
      have hpatch : readPatch w (containerName id .agent) = .ok patch := by
        rw [readPatch, bind_of_ok hdata, hdecode]
      exact Or.inl ⟨⟨patch, hpatch⟩,
        .silent fun _ hh => ⟨rfl, hh.2, fun _ _ => ⟨hh, patch, hpatch⟩⟩⟩

theorem collect_test_script {v : Sandbox} (hcurrent : v.current = some (containerName id .test)) :
    HostScript w id v [copied w (containerName id .test) junitFile 5000000,
      copied w (containerName id .test) rewardFile 100] (collect w) fun _ => At id v := by
  refine reads fun h hsandbox => ?_
  simp only [hsandbox, hcurrent, suffix_test, if_false]
  refine copies fun junit hjunit => Or.inl ⟨⟨junit, hjunit⟩, ?_⟩
  exact copies fun reward hreward => Or.inl ⟨⟨reward, hreward⟩, quiet fun _ => ⟨rfl, rfl⟩⟩

/-! ## The evaluator -/

/-- A program of the evaluator that follows a script. -/
abbrev EvalScript {β : Type} (w : Surroundings) (id : String) (v : Sandbox) (script : DockerScript)
    (x : EvalProgram β) (Q : β → EvalState → Prop) : Prop :=
  Scripted (fun s : EvalState => s.host.trace) (asked w) (fun s => Tidy id s.host)
    (fun s => At id v s.host) script x Q

section Evaluation

variable {β : Type} {v : Sandbox} {script : DockerScript}

theorem hosted {x : HostProgram β} {Q : β → Host → Prop} (h : HostScript w id v script x Q) :
    EvalScript w id v script (onHost x) fun b s => Q b s.host :=
  h.focus EvalState.host (fun h s => { s with host := h }) fun _ _ => rfl

/-- A program that runs no command and leaves the sandbox alone. -/
theorem unhosted {x : EvalProgram β} (hx : ∀ s, (x s).2.host = s.host) :
    EvalScript w id v [] x fun _ s => At id v s.host :=
  .silent fun s hs => ⟨by rw [hx], by rw [hx]; exact hs.2, fun _ _ => by rw [hx]; exact hs⟩

theorem host_input {α : Type} (answer : Except (InputFault ⊕ OtherError) α) (s : EvalState) :
    (input answer s).2.host = s.host := by
  unfold input
  split
  · rfl
  · rfl
  · rfl

theorem host_verifyAgent (version : AgentVersion) (content : Bytes) (s : EvalState) :
    (verifyAgent lib version content s).2.host = s.host := by
  unfold verifyAgent
  split
  · rfl
  · rfl

theorem prepareInputs_script (hid : lib.idText claim.job.id = id) :
    EvalScript w id {} (preflightScript w ++ prepareScript w settings id folder)
      (prepareInputs w lib settings claim folder) fun _ s =>
        At id (preparedSandbox w id folder) s.host := by
  subst hid
  refine (hosted create_script).bind fun _ => ?_
  refine (unhosted fun _ => rfl).bind fun content => ?_
  refine (unhosted (host_verifyAgent _ content)).bind fun _ => ?_
  refine (unhosted fun _ => rfl).bind fun _ => (unhosted (host_input _)).bind fun _ => ?_
  split
  · exact .raises (.silent fun _ hs => ⟨rfl, hs.2, fun _ hb => by cases hb⟩) _
  · exact (hosted prepare_script).bindSilent fun _ => unhosted fun _ => rfl

theorem agentPhase_script :
    EvalScript w id (preparedSandbox w id folder)
      (containerScript w settings id folder .agent ++ [⟨.copy (containerName id .agent) patchFile,
        ∃ patch, readPatch w (containerName id .agent) = .ok patch⟩])
      (agentPhase w settings) fun o s =>
        At id ((preparedSandbox w id folder).running (containerName id .agent)) s.host
          ∧ w.phase id .agent = .ok o
          ∧ ∃ patch, readPatch w (containerName id .agent) = .ok patch := by
  refine (unhosted fun _ => rfl).bind fun _ => ?_
  have hexecute := hosted (w := w) (execute_script settings .agent
    (v := preparedSandbox w id folder) rfl rfl rfl List.not_mem_nil)
  refine hexecute.bind fun outcome => .fact fun hphase => ?_
  refine (unhosted fun _ => rfl).bind fun _ => (unhosted fun _ => rfl).bind fun _ => ?_
  refine (hosted (collect_agent_script rfl)).bindSilent fun _ => .fact fun hpatch => ?_
  refine (unhosted fun _ => rfl).bind fun _ => ?_
  exact .silent fun s hs => ⟨rfl, hs.2, fun b hb => ⟨hs, Except.ok.inj hb ▸ hphase, hpatch⟩⟩

theorem testPhase_script :
    EvalScript w id ((preparedSandbox w id folder).running (containerName id .agent))
      (testScript w settings id folder) (testPhase w lib settings claim) fun _ _ => True := by
  have hnew : containerName id .test ∉
      ((preparedSandbox w id folder).running (containerName id .agent)).containers :=
    fun h => containerName_ne id (List.mem_singleton.mp h).symm
  have hwrite : ∀ v path text,
      EvalScript w id v [] (onHost (writeText w path text)) fun _ s => At id v s.host :=
    fun v path text => hosted (quiet_writeText path text)
  have hparse : ∀ (junit : Bytes) (s : EvalState), (parseTests lib junit s).2.host = s.host := by
    intro junit s
    rw [parseTests_apply]
    split
    · rfl
    · rfl
  refine Scripted.skip (unhosted fun _ => rfl) fun _ => ?_
  refine Scripted.skip (unhosted fun _ => rfl) fun _ => ?_
  refine Scripted.skip (unhosted fun _ => rfl) fun s => ?_
  refine Scripted.skip (hwrite _ _ _) fun _ => ?_
  refine Scripted.skip (hwrite _ _ _) fun _ => ?_
  refine Scripted.skip (unhosted fun _ => rfl) fun _ => ?_
  have hexecute := hosted (w := w) (execute_script settings .test
    (v := (preparedSandbox w id folder).running (containerName id .agent)) rfl rfl rfl hnew)
  refine hexecute.bind fun test => .fact fun _ => ?_
  refine (unhosted fun _ => rfl).bind fun _ => (unhosted fun _ => rfl).bind fun _ => ?_
  refine (hosted (collect_test_script rfl)).bindSilent fun collected => ?_
  refine (unhosted (hparse _)).bind fun _ => ?_
  refine (unhosted fun _ => rfl).bind fun _ => ?_
  split
  · exact .silent fun _ hs => ⟨rfl, hs.2, fun _ _ => trivial⟩
  · exact .silent fun _ hs => ⟨rfl, hs.2, fun _ _ => trivial⟩

theorem evaluationScript_eq : evaluationScript w settings id folder
    = preflightScript w ++ prepareScript w settings id folder ++
      (containerScript w settings id folder .agent ++
        ⟨.copy (containerName id .agent) patchFile, Proceeds w id⟩ ::
          testScript w settings id folder) := by
  simp only [evaluationScript, agentScript, List.append_assoc, List.cons_append, List.nil_append]

theorem attempt_script (hid : lib.idText claim.job.id = id) :
    Starts (fun s : EvalState => s.host.trace) (asked w) (fun s => Tidy id s.host)
      (fun s => At id {} s.host) (evaluationScript w settings id folder)
      (attempt w lib settings claim folder) := by
  rw [evaluationScript_eq]
  refine (prepareInputs_script hid).bindStarts fun _ => agentPhase_script.bindGate fun outcome => ?_
  by_cases hstopped : outcome.timedOut ∨ outcome.cancelled
  · rw [if_pos hstopped]
    exact Or.inr fun _ hs => ⟨rfl, hs.1.2⟩
  · rw [if_neg hstopped]
    by_cases hexit : outcome.exitCode ≠ 0
    · rw [if_pos hexit]
      exact Or.inr fun _ hs => ⟨rfl, hs.1.2⟩
    · rw [if_neg hexit]
      have hsucceeded : ¬outcome.Failed := not_or.mpr ⟨hexit, hstopped⟩
      refine Or.inl ⟨fun s hs => ⟨⟨outcome, hs.2.1, hsucceeded⟩, hs.2.2⟩, ?_⟩
      exact fun s hs => testPhase_script.starts s hs.1

theorem host_recover (e : Exn) : Program.Frames EvalState.host (recover w e) := by
  have hlog : ∀ name set, Program.Frames EvalState.host (keepLog w name set) := by
    intro name set
    refine .bind .read fun s => ?_
    split
    · exact .pure
    · exact .bind .lift fun _ => .modify fun _ => rfl
  cases e with
  | cleanupError text => exact .raise
  | inputError fault => exact .modify fun _ => rfl
  | other o => exact .bind (.modify fun _ => rfl) fun _ => .bind (hlog _ _) fun _ => hlog _ _

end Evaluation

/-! ## Cleaning up -/

theorem removeAll_script (v : Sandbox) (names : List String) :
    HostScript w id v (removalScript w names) (removeAll w names) fun failures h =>
      At id v h ∧ (failures = [] → ∀ name ∈ names, Replies w (removeArgs name) Removed) := by
  induction names with
  | nil =>
      exact .silent fun h hh => ⟨rfl, hh.2, fun _ _ =>
        ⟨hh, fun _ name hname => absurd hname List.not_mem_nil⟩⟩
  | cons name names ih =>
      refine asks rfl fun e he => Or.inl ⟨trivial, ?_⟩
      refine ih.bindSilent fun failures => .fact fun hrest => ?_
      split
      · rename_i hremoved
        refine .silent fun h hh => ⟨rfl, hh.2, fun b hb => ⟨hh, fun hnil name' hname => ?_⟩⟩
        obtain rfl := Except.ok.inj hb
        rcases List.mem_cons.mp hname with rfl | hname
        · exact ⟨e, he, hremoved⟩
        · exact hrest hnil name' hname
      · refine .silent fun h hh => ⟨rfl, hh.2, fun b hb => ⟨hh, fun hnil => ?_⟩⟩
        obtain rfl := Except.ok.inj hb
        exact absurd hnil (List.cons_ne_nil _ _)

theorem trace_run (argv : List String) (h : Host) :
    ((run w argv >>= fun _ => pure () : HostProgram Unit) h).2.trace
      = h.trace ++ [asked w (.run argv)] := by
  cases hanswer : w.docker argv with
  | error e =>
      rw [Program.bind_error (run_error hanswer h), Host.log_trace, asked, hanswer]
      rfl
  | ok e =>
      rw [Program.bind_ok (run_ok hanswer h), asked, hanswer]
      rfl

theorem destroy_cleanup {h : Host} (hh : Tidy id h) :
    ∃ names removals, names.Perm (created h.trace)
      ∧ (destroy w h).2.trace = h.trace ++ .destroying :: removals.map (asked w)
      ∧ Cleanup w id names removals := by
  have hat : At id h.sandbox (h.log .destroying) :=
    ⟨rfl, hh.containers.trans (created_other rfl).symm, hh.image⟩
  have hperm : (w.iterate h.sandbox.containers).Perm (created h.trace) :=
    hh.containers ▸ w.iterate_perm h.sandbox.containers
  generalize hnames : w.iterate h.sandbox.containers = names at hperm
  obtain ⟨removals, htrace, hfollows, -, hdone⟩ :=
    removeAll_script (w := w) h.sandbox names _ hat
  have hlogged : (h.log .destroying).trace ++ removals.map (asked w)
      = h.trace ++ .destroying :: removals.map (asked w) := (List.append_cons ..).symm
  rw [hlogged] at htrace
  refine ⟨names, ?_⟩
  rw [destroy, Program.bind_ok (Program.modify_apply _), Program.bind_ok Program.read_apply,
    Host.log_sandbox, hnames]
  rcases hremove : removeAll w names (h.log .destroying) with ⟨e | failures, t⟩ <;>
    rw [hremove] at htrace hdone
  · rw [Program.bind_error hremove]
    exact ⟨removals, hperm, htrace, .removing hfollows⟩
  · obtain ⟨hcompletes, ⟨-, htidy⟩, hremoved⟩ := hdone failures rfl
    rw [Program.bind_ok hremove]
    split
    · exact ⟨removals, hperm, htrace, .removing hfollows⟩
    · rename_i hnil
      cases himage : h.sandbox.image with
      | none => exact ⟨removals, hperm, htrace, .removing hfollows⟩
      | some image =>
          obtain rfl := hh.image image himage
          refine ⟨removals ++ [.run ["image", "rm", imageName id]], hperm, ?_,
            .removed hcompletes (hremoved (not_not.mp hnil))⟩
          show ((run w _ >>= fun _ => pure () : HostProgram Unit) t).2.trace = _
          rw [trace_run, htrace, List.map_append, List.append_assoc]
          rfl

/-! ## What the script says -/

theorem created_calls (calls : List DockerCall) :
    created (calls.map (asked w)) = (calls.filterMap DockerCall.creates).reverse := by
  have hcreates : Event.creates ∘ asked w = DockerCall.creates := by
    funext c
    cases c with
    | run argv => rfl
    | copy name filename => rfl
  rw [created, List.filterMap_map, hcreates]

theorem preflight_creates : ∀ c ∈ preflightScript w, c.call.creates = none := by
  intro c hc
  simp only [preflightScript, List.mem_cons, List.not_mem_nil, or_false] at hc
  rcases hc with rfl | rfl <;> rfl

theorem prepare_creates : ∀ c ∈ prepareScript w settings id folder, c.call.creates = none := by
  intro c hc
  simp only [prepareScript, List.mem_cons, List.not_mem_nil, or_false] at hc
  rcases hc with rfl | rfl | rfl <;> rfl

theorem container_creates {mode : SandboxMode} {c : ScriptLine DockerCall}
    (hc : c ∈ containerScript w settings id folder mode) {name : String}
    (hname : c.call.creates = some name) : name = containerName id mode ∧
      c.call = .run (createArgs settings mode name folder (inspectedId w (imageName id))) := by
  simp only [containerScript, runningScript, List.cons_append, List.nil_append, List.mem_cons,
    List.not_mem_nil, or_false] at hc
  rcases hc with rfl | rfl | rfl | rfl | rfl
  · obtain rfl : containerName id mode = name := Option.some.inj hname
    exact ⟨rfl, rfl⟩
  · cases hname
  · cases hname
  · cases hname
  · cases hname

/-- A container is created by the one line that is there for it. -/
theorem script_creates {c : ScriptLine DockerCall}
    (hc : c ∈ evaluationScript w settings id folder) {name : String}
    (hname : c.call.creates = some name) : ∃ mode, name = containerName id mode ∧
      c.call = .run (createArgs settings mode name folder (inspectedId w (imageName id))) := by
  simp only [evaluationScript, agentScript, testScript, List.mem_append, List.mem_cons,
    List.not_mem_nil, or_false] at hc
  rcases hc with (((hc | hc) | hc) | rfl) | hc | rfl | rfl
  · rw [preflight_creates c hc] at hname
    cases hname
  · rw [prepare_creates c hc] at hname
    cases hname
  · exact ⟨_, container_creates hc hname⟩
  · cases hname
  · exact ⟨_, container_creates hc hname⟩
  · cases hname
  · cases hname

theorem agentScript_creates :
    ((agentScript w settings id folder).map ScriptLine.call).filterMap DockerCall.creates
      = [containerName id .agent] := rfl

/-- Where the tests have been started, everything before them has passed. -/
theorem tests_after {calls : List DockerCall}
    (h : Follows (evaluationScript w settings id folder) calls)
    (htest : containerName id .test ∈ calls.filterMap DockerCall.creates) :
    Replies w (runningArgs (containerName id .agent)) Stopped ∧ Proceeds w id := by
  have hlong : (agentScript w settings id folder).length < calls.length := by
    by_contra hshort
    have hprefix := h.isPrefix
    rw [evaluationScript, List.map_append] at hprefix
    have hagent : calls <+: (agentScript w settings id folder).map ScriptLine.call :=
      List.prefix_of_prefix_length_le hprefix (List.prefix_append _ _)
        (by rw [List.length_map]; exact not_lt.mp hshort)
    have hmem := (hagent.filterMap DockerCall.creates).subset htest
    rw [agentScript_creates] at hmem
    exact containerName_ne id (List.mem_singleton.mp hmem).symm
  have hlong : 11 < calls.length := hlong
  have hrunning : Replies w (runningArgs (containerName id .agent)) Stopped :=
    Follows.passes_of_lt (c := ran w (runningArgs (containerName id .agent)) Stopped)
      (l := preflightScript w ++ prepareScript w settings id folder ++
        (runningScript w settings id folder .agent).take 3) h
      (Nat.lt_trans (show 9 < 11 by decide) hlong)
  rw [evaluationScript_eq, ← List.append_assoc] at h
  exact ⟨hrunning, h.passes_of_lt hlong⟩

/-- Where the pending file is written, `finish` leaves what `destroy` leaves. -/
theorem finish_host (lib : Libraries) (h : Writable w) (s : EvalState) :
    ∃ t : Host, t.trace = s.host.trace ∧ t.sandbox = s.host.sandbox
      ∧ (finish w lib s).2.host = (destroy w t).2 := by
  rw [finish_eq, writeText, h.1, h.2]
  exact ⟨(setFile pendingFile ((withMetrics w.elapsed s.result).pendingText lib) s.host).2,
    rfl, rfl, rfl⟩

variable (w settings folder) in
theorem handled_script (hid : lib.idText claim.job.id = id) :
    ∃ calls, (handled w lib settings claim folder (start claim)).2.host.trace
        = calls.map (asked w)
      ∧ Follows (evaluationScript w settings id folder) calls
      ∧ Tidy id (handled w lib settings claim folder (start claim)).2.host := by
  have hstart : At id {} (start claim).host := ⟨rfl, rfl, fun _ h => by cases h⟩
  exact (attempt_script hid).handle (fun e s hs => by rw [host_recover]; exact ⟨rfl, hs⟩) _ hstart

/-- **The docker commands of an evaluation.** They follow the script, and what
comes behind are the commands that remove the containers the script has created
so far, in some order. Every container is created as `createArgs` says, and the
one of the tests only when the one of the agent has been confirmed not to run, the
agent succeeded and its patch could be read. -/
theorem docker_protocol (w : Surroundings) (lib : Libraries) (settings : WorkerSettings)
    (claim : JobClaim) (folder : String) :
    ∃ calls cleanup,
      (evaluate w lib settings claim folder (start claim)).2.host.trace
        = calls.map (asked w) ++ cleanup
      ∧ Follows (evaluationScript w settings (lib.idText claim.job.id) folder) calls
      ∧ (cleanup = [] ∨ ∃ names removals, names.Perm (calls.filterMap DockerCall.creates)
        ∧ cleanup = .destroying :: removals.map (asked w)
        ∧ Cleanup w (lib.idText claim.job.id) names removals)
      ∧ (∀ c ∈ calls, ∀ name, c.creates = some name → ∃ mode,
        c = .run (createArgs settings mode (containerName (lib.idText claim.job.id) mode) folder
          (inspectedId w (imageName (lib.idText claim.job.id)))))
      ∧ (containerName (lib.idText claim.job.id) .test ∈ calls.filterMap DockerCall.creates →
        Replies w (runningArgs (containerName (lib.idText claim.job.id) .agent)) Stopped
          ∧ Proceeds w (lib.idText claim.job.id)) := by
  generalize hid : lib.idText claim.job.id = id
  cases hreach : w.workspace with
  | error e =>
      have hnone : (evaluate w lib settings claim folder (start claim)).2 = start claim := by
        rw [evaluate, hreach]
        cases e with
        | inl fault => rfl
        | inr o => rfl
      rw [hnone]
      exact ⟨[], [], rfl, .stopped, Or.inl rfl, fun _ h => absurd h List.not_mem_nil,
        fun h => absurd h List.not_mem_nil⟩
  | ok _ =>
      obtain ⟨calls, htrace, hfollows, htidy⟩ :=
        handled_script w settings folder hid
      have hcreates : ∀ c ∈ calls, ∀ name, c.creates = some name → ∃ mode,
          c = .run (createArgs settings mode (containerName id mode) folder
            (inspectedId w (imageName id))) := by
        intro c hc name hname
        obtain ⟨line, hline, rfl⟩ := List.mem_map.mp (hfollows.isPrefix.subset hc)
        obtain ⟨mode, rfl, hcall⟩ := script_creates hline hname
        exact ⟨mode, hcall⟩
      have hevaluate : (evaluate w lib settings claim folder (start claim)).2
          = (finish w lib (handled w lib settings claim folder (start claim)).2).2 := by
        rw [evaluate_eq hreach]
        rcases handled w lib settings claim folder (start claim) with ⟨r, t⟩
        dsimp only
        rcases finish w lib t with ⟨_ | _, u⟩ <;> rfl
      rw [hevaluate]
      by_cases hwritable : Writable w
      · obtain ⟨t, ht, hsandbox, hhost⟩ :=
          finish_host lib hwritable (handled w lib settings claim folder (start claim)).2
        have htidy : Tidy id t :=
          ⟨by rw [hsandbox, ht]; exact htidy.containers, fun i hi => htidy.image i (hsandbox ▸ hi)⟩
        obtain ⟨names, removals, hperm, hremovals, hcleanup⟩ := destroy_cleanup (w := w) htidy
        rw [ht, htrace] at hremovals hperm
        rw [created_calls] at hperm
        exact ⟨calls, _, hhost ▸ hremovals, hfollows,
          Or.inr ⟨names, removals, hperm.trans (List.reverse_perm _), rfl, hcleanup⟩, hcreates,
          tests_after hfollows⟩
      · obtain ⟨o, -, hsame⟩ :=
          finish_raises lib hwritable (handled w lib settings claim folder (start claim)).2
        exact ⟨calls, [], by rw [hsame, htrace, List.append_nil], hfollows, Or.inl rfl, hcreates,
          tests_after hfollows⟩

end AgentBenchX
