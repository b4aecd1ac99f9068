import AgentBenchX.Lib.Json
import AgentBenchX.Lib.Tar
import AgentBenchX.Works

/-!
# A plain machine

A machine on which everything works, with what docker prints there, its
archives of single files and its JSON; two containers run on it, and what
they do is all that is left open.
-/

namespace AgentBenchX

open DockerSandbox Evaluator

/-! ## What docker prints -/

/-- A command that prints a text. -/
def Ended.printing (text : List Char) : Ended where
  returncode := 0
  stdout := [Utf8.encode text]
  stderr := []
  startedAt := "2026-01-01T00:00:00+00:00"
  finishedAt := "2026-01-01T00:00:00+00:00"
  elapsed := 0
  timedOut := false
  cancelled := false

/-- A command that prints one line. -/
def Ended.answering (line : String) : Ended := .printing (line.toList ++ ['\n'])

/-- `json .State` of a container that has ended. -/
def exitedState (killed : Bool) : List Char :=
  "\x7b\"Status\":\"exited\",\"Running\":false,\"Paused\":false,\"Restarting\":false,".toList
    ++ "\"OOMKilled\":false,\"Dead\":false,\"Pid\":0,\"ExitCode\":".toList
    ++ (if killed then "137" else "0").toList ++ ",\"Error\":\"\",".toList
    ++ "\"StartedAt\":\"2026-01-01T00:00:00Z\",".toList
    ++ "\"FinishedAt\":\"2026-01-01T00:01:00Z\"\x7d".toList

/-- A minute if it had to be stopped, else a second. -/
def runningTime (slow : Bool) : ℚ≥0 := if slow then 60 else 1

/-- A container that has ended: of itself, because its time was over, or because the job was
cancelled. -/
structure EndedContainer where
  slow : Bool := false
  cancelled : Bool := false
  elapsed : ℚ≥0 := runningTime slow
  stderr : String := ""
  /-- The regular files in it, with their paths. -/
  files : List (String × Bytes) := []

namespace EndedContainer

/-- It did not end of itself. -/
def wasKilled (c : EndedContainer) : Bool := c.slow || c.cancelled

/-- What docker records of it. -/
def exitCode (c : EndedContainer) : ℤ := if c.wasKilled then 137 else 0

/-- `docker start --attach`. -/
def started (c : EndedContainer) : Ended :=
  { Ended.printing [] with
    returncode := if c.wasKilled then -15 else 0
    stderr := [Utf8.encode c.stderr.toList]
    elapsed := c.elapsed
    timedOut := c.slow
    cancelled := c.cancelled }

/-- `docker kill`, which fails on a container that does not run. -/
def killed (c : EndedContainer) (name : String) : Ended :=
  if c.wasKilled then .answering name
  else { Ended.printing [] with
    returncode := 1
    stderr := [ascii ("Error response from daemon: cannot kill container: " ++ name
      ++ ": container is not running\n")] }

/-- `docker inspect` with `json .State`. -/
def inspected (c : EndedContainer) : Ended := .printing (exitedState c.wasKilled ++ ['\n'])

/-- The last part of a path. -/
def memberName (path : String) : Bytes :=
  ascii (String.ofList (path.toList.reverse.takeWhile (· != '/')).reverse)

/-- `docker cp` to standard output: an archive, or nothing if there is no such file. -/
def copy (c : EndedContainer) (path : String) : CopyProcess :=
  match c.files.lookup path with
  | some content => { stream := Tar.archive (memberName path) content, exit := .ok 0 }
  | none => { stream := [], exit := .ok 1 }

end EndedContainer

def builtId : String := "sha256:3e23e8160039594a33894f6564e1b1348bbd7a0088d42c4acb73eeaed59c009d"

/-- The id of an image that has been built. -/
def Ended.built : Ended := .answering builtId

/-- `json.loads(state)["ExitCode"]`, for a natural number. -/
def exitCodeOf (state : List Char) : Except OtherError ℤ :=
  match (Json.loads state).bind (Json.get? "ExitCode") with
  | some (.number digits) => .ok (digits.foldl (fun n c => 10 * n + (c.toNat - 48)) 0 : ℕ)
  | some _ => .error (.raised .typeError "an integer is required")
  | none => .error (.raised .keyError "'ExitCode'")

def recordedExitCode (state : String) : Except OtherError ℤ := exitCodeOf state.toList

/-- A regular file in an archive. -/
def TarMember.regular (content : Bytes) : TarMember where
  isFile := true
  size := content.length
  content := .ok content
  content_size _ h := by rw [Except.ok.inj h]

/-- What `tarfile` finds in an archive of one file. -/
def openArchive (data : Bytes) : Except OtherError (List TarMember) :=
  match Tar.openFile data with
  | some content => .ok [.regular content]
  | none => .error (.raised .readError "file could not be opened successfully")

/-- A machine where everything works: the image is inspected as `image`, and `container` says
what becomes of the containers. -/
def Surroundings.plain (image : Ended) (container : String → EndedContainer) : Surroundings where
  workspace := .ok ()
  darwin := true
  dockerHost := ""
  docker argv := .ok <|
    match argv with
    | ["start", "--attach", name] => (container name).started
    | ["kill", name] => (container name).killed name
    | "context" :: _ => .answering "unix:///var/run/docker.sock"
    | "info" :: _ => .answering "linux"
    | "build" :: _ => { Ended.printing [] with stderr := [ascii "#1 DONE 0.1s\n"] }
    | ["image", "inspect", "--format", format, _] =>
        if format = template ".Id" then image else .answering "/app"
    | ["inspect", "--format", format, name] =>
        if format = template ".State.Running" then .answering "false"
          else (container name).inspected
    | ["rm", _, _, name] => .answering name
    | ["image", "rm", name] => .answering ("Untagged: " ++ name)
    | _ => .answering "0123456789abcdef0123456789abcdef0123456789abcdef0123456789abcdef"
  stateExitCode := recordedExitCode
  copy name path := .ok ((container name).copy path)
  untar := openArchive
  cancelled _ := false
  file _ := .ok ()
  leaves _ := none
  instruction := .ok "Fix the bug.\n"
  download := .ok [10]
  prepareProblem := .ok ()
  renew _ := .ok ()
  elapsed := 2

/-! ## Libraries and a claim -/

/-- Libraries with a parser of one document and a `float` of one text. -/
def Libraries.plain (document : Except OtherError Element) (float : Except OtherError PyFloat) :
    Libraries where
  fromstring _ := document
  float _ := float
  sha256 _ := "01ba4719c80b6fe911b091a7c05124b64eeece964e09c058ef8f9805daca546b"
  idText id := "00000000-0000-0000-0000-00000000000" ++ toString id
  floatText _ := "0.0".toList
  floatText_numeral _ := by decide

/-- A claim of the agent that a plain machine downloads. -/
def JobClaim.plain (lib : Libraries) (jobId : Uid := 1) : JobClaim where
  job := { id := jobId, submissionId := jobId, queuedAt := 0 }
  leaseToken := ⟨"token", by decide⟩
  leaseSeconds := 120
  problemVersion :=
    { id := 1, problemId := 1, repositoryUrl := "https://github.com/a/b.git", branch := "main"
      commitSha := "c", problemPath := "p", testCommand := ["bash", "tests/test.sh"]
      timeoutSeconds := 60 }
  agentVersion :=
    { id := 1, agentId := 1, filename := "agent.py", sha256 := lib.sha256 [10], size := 1
      version := 1 }

/-! ## It works -/

theorem printing_succeeds (text : List Char) :
    ¬(Process.run 500000 (.printing text)).Failed := by
  rintro (h | h | h)
  · exact h rfl
  · cases h
  · cases h

theorem answering_succeeds (line : String) :
    ¬(Process.run 500000 (.answering line)).Failed := printing_succeeds _

theorem recorded_inspected (c : EndedContainer) :
    recordedExitCode (Process.run 500000 c.inspected).stdout = .ok c.exitCode := by
  have hstate : ∀ killed, 4 * (exitedState killed ++ ['\n']).length ≤ 500000
      ∧ exitCodeOf (exitedState killed ++ ['\n']) = .ok (if killed then 137 else 0) := by
    decide +kernel
  obtain ⟨hlength, hrecorded⟩ := hstate c.wasKilled
  have hstdout : (Process.run 500000 c.inspected).stdout
      = String.ofList (exitedState c.wasKilled ++ ['\n']) := Process.text_drain hlength
  rw [hstdout, recordedExitCode, String.toList_ofList]
  exact hrecorded

section Works

variable {lib : Libraries} {image : Ended} {container : String → EndedContainer}

theorem Surroundings.plain_stateExitCode :
    (plain image container).stateExitCode = recordedExitCode := rfl

theorem Surroundings.plain_state (name : String) :
    (plain image container).docker (["inspect", "--format", template "json .State", name])
      = .ok (container name).inspected := by
  have hformat : template "json .State" ≠ template ".State.Running" := by decide
  exact congrArg Except.ok (if_neg hformat)

theorem Surroundings.plain_works (himage : ¬(Process.run 500000 image).Failed)
    (container : String → EndedContainer) : (plain image container).Works lib (.plain lib) where
  workspace := rfl
  darwin := rfl
  dockerHost := Or.inl rfl
  docker _ := ⟨_, rfl⟩
  succeeds command args e he hstart hkill := by
    obtain rfl := Except.ok.inj he
    split
    · rename_i h
      exact absurd (List.cons.inj h).1 hstart
    · rename_i h
      exact absurd (List.cons.inj h).1 hkill
    · exact answering_succeeds _
    · exact answering_succeeds _
    · exact printing_succeeds []
    · split
      · exact himage
      · exact answering_succeeds _
    · split
      · exact answering_succeeds _
      · exact printing_succeeds _
    · exact answering_succeeds _
    · exact answering_succeeds _
    · exact answering_succeeds _
  endpoint e he := by
    obtain rfl : .answering "unix:///var/run/docker.sock" = e := Except.ok.inj he
    decide
  workdir name e he := by
    obtain rfl : .answering "/app" = e := Except.ok.inj he
    decide
  stopped name e he := by
    obtain rfl : .answering "false" = e := Except.ok.inj he
    decide
  stateExitCode name e he := by
    rw [plain_state] at he
    obtain rfl := Except.ok.inj he
    exact ⟨_, by rw [plain_stateExitCode, recorded_inspected]⟩
  file _ := rfl
  instruction := ⟨_, rfl⟩
  download := ⟨[10], rfl, by simp [verifyAgent, JobClaim.plain]⟩
  prepareProblem := rfl
  renew _ := rfl
  prepared := rfl
  agent := rfl
  test _ _ _ _ _ := rfl

/-- Another agent may be downloaded, for another claim. -/
theorem Surroundings.Works.delivering {w : Surroundings} {claim : JobClaim}
    (hw : w.Works lib claim) (htest : w.cancelled (.executing .test) = false) {lib' : Libraries}
    {claim' : JobClaim} {content : Bytes}
    (hagent : (verifyAgent lib' claim'.agentVersion content : EvalProgram Unit) = pure ())
    (elapsed : ℚ≥0) :
    Surroundings.Works { w with download := .ok content, elapsed } lib' claim' :=
  { hw with
    download := ⟨content, rfl, hagent⟩
    test := fun _ _ _ _ _ => htest }

theorem Surroundings.plain_phase (id : String) (mode : SandboxMode) :
    (plain image container).phase id mode =
      .ok { Process.run 500000 (container (containerName id mode)).started with
            exitCode := (container (containerName id mode)).exitCode } := by
  have hstart : (plain image container).docker ["start", "--attach", containerName id mode]
      = .ok (container (containerName id mode)).started := rfl
  rw [phase, bind_of_ok hstart, bind_of_ok (plain_state _), plain_stateExitCode,
    bind_of_ok (recorded_inspected _)]
  rfl

theorem EndedContainer.not_failed {c : EndedContainer} (h : c.wasKilled = false) :
    ¬Outcome.Failed { Process.run 500000 c.started with exitCode := c.exitCode } := by
  obtain ⟨hslow, hcancelled⟩ := Bool.or_eq_false_iff.mp h
  rintro (hexit | htimedOut | hstopped)
  · exact hexit (if_neg (by rw [h]; decide))
  · exact absurd (hslow.symm.trans htimedOut) (by decide)
  · exact absurd (hcancelled.symm.trans hstopped) (by decide)

/-! ## Its artifacts -/

/-- The paths the worker copies. -/
def IsArtifact (path : String) : Prop := path ∈ [patchFile, junitFile, rewardFile]

instance (path : String) : Decidable (IsArtifact path) := inferInstanceAs (Decidable (_ ∈ _))

theorem isName_artifact {path : String} (h : IsArtifact path) :
    Tar.IsName (EndedContainer.memberName path) := by
  have hall : ∀ path ∈ [patchFile, junitFile, rewardFile],
      (EndedContainer.memberName path).length ≤ 100
        ∧ ∀ b ∈ EndedContainer.memberName path, b ≠ 0 := by decide +kernel
  obtain ⟨hlength, hnonzero⟩ := hall path h
  exact ⟨hlength, hnonzero⟩

namespace Surroundings

variable {name path : String} {content : Bytes} {limit : ℕ}

theorem plain_copy (hfile : (container name).files.lookup path = some content) :
    (plain image container).copy name path
      = .ok ⟨Tar.archive (EndedContainer.memberName path) content, .ok 0⟩ := by
  show Except.ok ((container name).copy path) = _
  simp only [EndedContainer.copy, hfile]

variable (image container) in
theorem plain_untar {member : Bytes} (hmember : Tar.IsName member)
    (hsize : content.length < 8 ^ 11) :
    (plain image container).untar (Tar.archive member content) = .ok [.regular content] := by
  show openArchive (Tar.archive member content) = _
  simp only [openArchive, Tar.openFile_archive hmember hsize]

/-- What is read of a copy that delivers an archive with one entry. -/
theorem copiedFile_entry {w : Surroundings} {stream : Bytes} {entry : TarMember}
    (hcopy : w.copy name path = .ok ⟨stream, .ok 0⟩) (hlength : stream.length ≤ limit + 65536)
    (hopen : w.untar stream = .ok [entry]) :
    copiedFile w name path limit =
      if !entry.isFile || decide (limit < entry.size) then
        .error (.other (.raised .sandboxError "Expected one bounded regular artifact file"))
      else entry.content.mapError .other := by
  rw [copiedFile, hcopy]
  simp only [Except.mapError, bind_of_ok rfl]
  rw [List.take_of_length_le (by omega), if_neg (by omega), if_neg (by decide), hopen]
  rfl

/-- A file within its limit is what the worker reads. -/
theorem plain_file (hpath : IsArtifact path)
    (hfile : (container name).files.lookup path = some content) (hlength : content.length ≤ limit)
    (hlimit : limit ≤ 5000000) :
    copiedFile (plain image container) name path limit = .ok content := by
  have hname := isName_artifact hpath
  have hstream := (Tar.length_archive hname content).2
  have hopen := plain_untar image container hname (show content.length < 8 ^ 11 by norm_num; omega)
  have hfits : decide (limit < content.length) = false := decide_eq_false (not_lt.mpr hlength)
  rw [copiedFile_entry (plain_copy hfile) (by omega) hopen, TarMember.regular, hfits]
  rfl

/-- A larger file is not read. -/
theorem plain_oversized (hpath : IsArtifact path)
    (hfile : (container name).files.lookup path = some content) (hlength : limit < content.length)
    (hlimit : limit ≤ 5000000) :
    ∃ e, copiedFile (plain image container) name path limit = .error e := by
  have hname := isName_artifact hpath
  have hstream := (Tar.length_archive hname content).1
  by_cases hlong : (Tar.archive (EndedContainer.memberName path) content).length ≤ limit + 65536
  · have hopen :=
      plain_untar image container hname (show content.length < 8 ^ 11 by norm_num; omega)
    exact ⟨_, (copiedFile_entry (plain_copy hfile) hlong hopen).trans
      (if_pos (decide_eq_true hlength))⟩
  · refine ⟨.other (.raised .sandboxError "Container artifact exceeds size limit"), ?_⟩
    rw [copiedFile, plain_copy hfile]
    simp only [Except.mapError, bind_of_ok rfl]
    exact if_pos (by rw [List.length_take]; omega)

/-- A file that is not there is read as empty. -/
theorem plain_missing (hfile : (container name).files.lookup path = none) :
    copiedFile (plain image container) name path limit = .ok [] := by
  have hcopy : (plain image container).copy name path = .ok ⟨[], .ok 1⟩ := by
    show Except.ok ((container name).copy path) = _
    simp only [EndedContainer.copy, hfile]
  rw [copiedFile, hcopy]
  rfl

end Surroundings

end Works

end AgentBenchX
