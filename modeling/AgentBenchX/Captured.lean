import AgentBenchX.Verdicts

/-!
# Captured evidence

Once a phase has returned, its output is in the dictionary, and the rest
of the attempt leaves it there (`attempt_outputs`). The handler for any
other exception does not: it replaces `stdout` and `stderr` by the build
logs, whatever the fields hold. `evidence_survives` says when that does no
harm.
-/

namespace AgentBenchX

open DockerSandbox Evaluator

variable {w : Surroundings} {lib : Libraries} {settings : WorkerSettings} {claim : JobClaim}
  {folder : String}

/-! ## What was captured -/

section
variable (w : Surroundings) (lib : Libraries) (settings : WorkerSettings) (claim : JobClaim)
  (folder : String)

/-- The attempt up to the capture of the agent's outcome. -/
def throughAgent : EvalProgram Outcome := do
  prepareInputs w lib settings claim folder
  runAgent w settings

/-- The outcome of the agent's phase, if it returned. -/
def capturedAgent : Option Outcome :=
  (throughAgent w lib settings claim folder (start claim)).1.toOption

/-- The outcome of the test phase, if it returned. -/
def capturedTests : Option Outcome :=
  (phases w lib settings claim folder (start claim)).1.toOption.bind Prod.snd

end

/-- The fields of the dictionary that hold the output of the phases. -/
structure Outputs where
  agentOutput : String
  stdout : String
  stderr : String

def ResultInput.outputs (r : ResultInput) : Outputs where
  agentOutput := r.agentOutput
  stdout := r.stdout
  stderr := r.stderr

/-- `text` contains `part`, but for what a bound of `n` characters cuts off its front when
`behind` characters follow it. -/
def RetainsUpTo (n behind : ℕ) (part text : String) : Prop :=
  ∃ cut ≤ part.length + behind - n, part.toList.drop cut <:+: text.toList

/-- What follows the errors of the agent: a line end and those of the tests. -/
def behindAgent : Option Outcome → ℕ
  | none => 0
  | some o => 1 + o.stderr.length

/-- The evidence of the phases that returned is there. -/
structure Captured (agent : Outcome) (test : Option Outcome) (x : Outputs) : Prop where
  agentOutput : x.agentOutput = agent.stdout
  agentErrors : RetainsUpTo 1000000 (behindAgent test) agent.stderr x.stderr
  tests : ∀ o, test = some o → x.stdout = o.stdout ∧ o.stderr.toList <:+ x.stderr.toList

/-! ## The normal path -/

/-- What the fields hold after the phases that returned. -/
def Outputs.after (agent : Outcome) : Option Outcome → Outputs
  | none => { agentOutput := agent.stdout, stdout := "", stderr := agent.stderr }
  | some o =>
      { agentOutput := agent.stdout, stdout := o.stdout
        stderr := lastChars 1000000 (agent.stderr ++ "\n" ++ o.stderr) }

theorem toList_lastChars (n : ℕ) (s : String) :
    (lastChars n s).toList = s.toList.drop (s.length - n) := by
  rw [lastChars, String.toList_ofList]

theorem retains_lastChars (n : ℕ) (part rest : String) :
    RetainsUpTo n rest.length part (lastChars n (part ++ rest)) := by
  rw [RetainsUpTo, toList_lastChars, String.toList_append, String.length_append, List.drop_append]
  exact ⟨_, le_rfl, (List.prefix_append _ _).isInfix⟩

theorem suffix_lastChars {n : ℕ} {before part : String} (h : part.length ≤ n) :
    part.toList <:+ (lastChars n (before ++ part)).toList := by
  rw [toList_lastChars]
  refine List.suffix_of_suffix_length_le ?_ (List.drop_suffix _ _) ?_
  · rw [String.toList_append]
    exact List.suffix_append _ _
  · rw [List.length_drop, String.length_toList, String.length_toList, String.length_append]
    omega

theorem captured_after (agent : Outcome) {test : Option Outcome}
    (h : ∀ o, test = some o → o.stderr.length ≤ 1000000) :
    Captured agent test (.after agent test) := by
  cases test with
  | none => exact ⟨rfl, ⟨0, Nat.zero_le _, List.infix_refl _⟩, nofun⟩
  | some o =>
      refine ⟨rfl, ?_, ?_⟩
      · have hbehind : behindAgent (some o) = ("\n" ++ o.stderr).length :=
          (String.length_append "\n" _).symm
        show RetainsUpTo 1000000 _ agent.stderr
          (lastChars 1000000 (agent.stderr ++ "\n" ++ o.stderr))
        rw [String.append_assoc, hbehind]
        exact retains_lastChars _ _ _
      · rintro o' ho'
        obtain rfl := Option.some.inj ho'
        exact ⟨rfl, suffix_lastChars (h o rfl)⟩

def Outputs.withTests (x : Outputs) (o : Outcome) : Outputs :=
  { x with stdout := o.stdout, stderr := lastChars 1000000 (x.stderr ++ "\n" ++ o.stderr) }

/-- The output of the tests is entered when they have returned, and not before. -/
theorem runTests_spec (x : Outputs) : Program.Spec (fun s : EvalState => s.result.outputs = x)
    (runTests w settings claim) fun r t =>
      t.result.outputs = match r with
        | .ok o => x.withTests o
        | .error _ => x := by
  have hlook : ∀ {α : Type} (answer : Except OtherError α),
      Program.Spec (fun s : EvalState => s.result.outputs = x)
        (external answer : EvalProgram α) fun _ t => t.result.outputs = x :=
    fun _ => Program.Frames.spec .lift
  have hhost : ∀ {α : Type} (y : HostProgram α),
      Program.Spec (fun s : EvalState => s.result.outputs = x) (onHost y)
        fun _ t => t.result.outputs = x :=
    fun y => (frames_onHost y).spec
  refine (hlook _).bind (fun _ => ?_) fun _ _ h => h
  refine (hlook _).bind (fun _ => ?_) fun _ _ h => h
  refine Program.Spec.bind (R := fun _ s => s.result.outputs = x) (fun s hs => hs) (fun _ => ?_)
    fun _ _ h => h
  refine (hhost _).bind (fun _ => ?_) fun _ _ h => h
  refine (hhost _).bind (fun _ => ?_) fun _ _ h => h
  refine (hlook _).bind (fun _ => ?_) fun _ _ h => h
  refine (hhost _).bind (fun o => ?_) fun _ _ h => h
  rintro s rfl
  rfl

theorem frames_parseTests {τ : Type} {g : ResultInput → τ} (hg : ∀ f r, g (r.evidence f) = g r)
    (htests : ∀ tests r, g { r with tests } = g r) (junit : Bytes) :
    Program.Frames (fun s => g s.result) (parseTests lib junit) := by
  intro s
  rw [parseTests_apply, parsed]
  cases parseJunit lib junit with
  | ok tests => exact htests tests _
  | error e =>
      dsimp only
      split
      · rename_i hif
        split at hif
        · cases hif
          exact hg _ _
        · cases hif
      · rfl

theorem outputs_classify (test : Outcome) (reward : Bytes) (r : ResultInput) :
    (classify test reward r).outputs = r.outputs := by
  unfold classify
  split
  · rfl
  · split
    · rfl
    · split <;> rfl

/-- What follows the phases leaves their output alone. -/
theorem frames_rest (agent : Outcome) (test : Option Outcome) :
    Program.Frames (fun s => s.result.outputs)
      (readFindings w lib agent test >>= conclude w) := by
  refine .bind ?_ fun f => ?_
  · cases test with
    | none => exact .pure
    | some test =>
        refine .bind (.bind (frames_onHost _) fun c => .bind ?_ fun _ => .pure) fun _ => .pure
        exact frames_parseTests (fun _ _ => rfl) (fun _ _ => rfl) _
  · intro s
    have hverdict : ∀ r, (f.verdict r).outputs = r.outputs := by
      intro r
      unfold Findings.verdict
      split
      · split <;> rfl
      · exact outputs_classify _ _ r
    show (conclude w f s).2.result.outputs = s.result.outputs
    rw [conclude_result, hverdict]

theorem capturedAgent_some {agent : Outcome}
    (h : capturedAgent w lib settings claim folder = some agent) :
    ∃ s, throughAgent w lib settings claim folder (start claim) = (.ok agent, s) ∧
      s.result.outputs = .after agent none := by
  rw [capturedAgent] at h
  rcases hrun : throughAgent w lib settings claim folder (start claim) with ⟨e | o, s⟩ <;>
    rw [hrun] at h
  · cases h
  · obtain rfl := Option.some.inj h
    refine ⟨s, rfl, ?_⟩
    obtain ⟨_, s₁, h₁, h₂⟩ := Program.ok_of_bind hrun
    obtain ⟨-, -, hresult⟩ := runAgent_ok (prepareInputs_ok h₁) h₂
    have hstdout : s₁.result.stdout = "" :=
      (frames_prepareInputs (g := ResultInput.stdout) fun _ _ => rfl).apply h₁
    rw [hresult]
    show Outputs.mk _ s₁.result.stdout _ = _
    rw [hstdout]
    rfl

theorem phases_outputs {agent : Outcome}
    (hagent : capturedAgent w lib settings claim folder = some agent) :
    (phases w lib settings claim folder (start claim)).2.result.outputs =
      .after agent (capturedTests w lib settings claim folder) := by
  obtain ⟨s, hrun, hs⟩ := capturedAgent_some hagent
  have hphases : phases w lib settings claim folder = throughAgent w lib settings claim folder >>=
      fun agent => collectPatch w >>= fun _ =>
        if agent.Failed then pure (agent, none)
        else runTests w settings claim >>= fun test => pure (agent, some test) := by
    simp only [phases, throughAgent, bind_assoc]
  have hrest : Program.Spec (fun s : EvalState => s.result.outputs = .after agent none)
      (collectPatch w >>= fun _ =>
        if agent.Failed then pure (agent, none)
        else runTests w settings claim >>= fun test => pure (agent, some test))
      fun r t => t.result.outputs = .after agent (r.toOption.bind Prod.snd) := by
    refine Program.Spec.bind (frames_collectPatch fun _ _ => rfl).spec (fun _ => ?_) fun _ _ h => h
    split
    · exact fun _ h => h
    · refine Program.Spec.bind (runTests_spec _) (fun test => ?_) fun _ _ h => h
      exact fun _ h => h
  rw [capturedTests, hphases, Program.bind_ok hrun]
  exact hrest s hs

/-- What an attempt holds of the phases that returned, when it ends. -/
theorem attempt_outputs {agent : Outcome}
    (hagent : capturedAgent w lib settings claim folder = some agent) :
    (attempt w lib settings claim folder (start claim)).2.result.outputs =
      .after agent (capturedTests w lib settings claim folder) := by
  have hrest : attempt w lib settings claim folder = phases w lib settings claim folder >>=
      fun p => readFindings w lib p.1 p.2 >>= conclude w := by
    simp only [attempt_eq, gather, bind_assoc]
  have hphases := phases_outputs hagent
  rw [hrest]
  rcases hrun : phases w lib settings claim folder (start claim) with ⟨e | p, t⟩ <;>
    rw [hrun] at hphases
  · rw [Program.bind_error hrun]
    exact hphases
  · rw [Program.bind_ok hrun]
    exact (frames_rest p.1 p.2 t).trans hphases

/-- The outcome of a phase is bounded. -/
theorem phase_bounded {id : String} {mode : SandboxMode} {o : Outcome}
    (h : w.phase id mode = .ok o) : o.Bounded := by
  obtain ⟨ended, -, h⟩ := ok_of_bind h
  obtain ⟨state, -, h⟩ := ok_of_bind h
  obtain ⟨exitCode, -, h⟩ := ok_of_bind h
  cases h
  have hrun := Process.run_bounded ended
  exact ⟨hrun.stdout, hrun.stderr, hrun.runtime⟩

theorem capturedTests_bounded (w : Surroundings) (lib : Libraries) (settings : WorkerSettings)
    (claim : JobClaim) (folder : String) :
    ∀ o, capturedTests w lib settings claim folder = some o → o.stderr.length ≤ 500019 := by
  intro o ho
  rw [capturedTests] at ho
  rcases hrun : phases w lib settings claim folder (start claim) with ⟨e | ⟨agent, test⟩, t⟩ <;>
    rw [hrun] at ho
  · cases ho
  · exact (phase_bounded ((phases_ok hrun).tested o ho).2.1).stderr

/-! ## The handlers -/

section
variable (w : Surroundings) (h : Host)

/-- What `read_text` delivers of a build log. -/
def readLog (name : String) : Option String :=
  match h.files name, w.file (.read name) with
  | some text, .ok () => some (lastChars 500000 (readText text))
  | _, _ => none

/-- What replaces the field `stdout`. -/
def stdoutLog : Option String := readLog w h "build.stdout.log"

/-- What replaces the field `stderr`: the handler does not get there if it cannot read
the first log. -/
def stderrLog : Option String :=
  match h.files "build.stdout.log", w.file (.read "build.stdout.log") with
  | some _, .error _ => none
  | _, _ => readLog w h "build.stderr.log"

end

theorem keepLog_cases (name : String) (set : String → ResultInput → ResultInput) (s : EvalState) :
    (∃ text e, s.host.files name = some text ∧ w.file (.read name) = .error e ∧
        keepLog w name set s = (.error (.other e), s)) ∨
      (∀ text e, s.host.files name = some text → w.file (.read name) ≠ .error e) ∧
        keepLog w name set s = (.ok (), { s with
          result := (readLog w s.host name).elim s.result fun text => set text s.result }) := by
  rw [keepLog, Program.bind_ok Program.read_apply, readLog]
  cases hfile : s.host.files name with
  | none => exact Or.inr ⟨fun _ _ h => (by cases h), rfl⟩
  | some text =>
      cases hread : w.file (.read name) with
      | error e => exact Or.inl ⟨text, e, rfl, rfl, Program.bind_error rfl⟩
      | ok _ => exact Or.inr ⟨fun _ _ _ h => (by cases h), rfl⟩

/-- A log that cannot be read leaves the dictionary as it is, like one that is not there. -/
theorem keepLog_result (name : String) (set : String → ResultInput → ResultInput) (s : EvalState) :
    (keepLog w name set s).2.result =
      (readLog w s.host name).elim s.result fun text => set text s.result := by
  rcases keepLog_cases (w := w) name set s with ⟨text, e, hfile, hread, hkeep⟩ | ⟨-, hkeep⟩
  · rw [hkeep, readLog, hfile, hread]
    rfl
  · rw [hkeep]

theorem stderrLog_eq {h : Host}
    (hfirst : ∀ text e, h.files "build.stdout.log" = some text →
      w.file (.read "build.stdout.log") ≠ .error e) :
    stderrLog w h = readLog w h "build.stderr.log" := by
  unfold stderrLog
  split
  · rename_i text e hfile hread
    exact absurd hread (hfirst text e hfile)
  · rfl

theorem logs_outputs (s : EvalState) :
    ((keepLog w "build.stdout.log" (fun text r => { r with stdout := text }) >>= fun _ =>
        keepLog w "build.stderr.log" fun text r => { r with stderr := text }) s).2.result.outputs =
      { agentOutput := s.result.agentOutput
        stdout := (stdoutLog w s.host).getD s.result.stdout
        stderr := (stderrLog w s.host).getD s.result.stderr } := by
  rcases keepLog_cases (w := w) "build.stdout.log" (fun text r => { r with stdout := text }) s
    with ⟨text, e, hfile, hread, hkeep⟩ | ⟨hfirst, hkeep⟩
  · rw [Program.bind_error hkeep, stdoutLog, stderrLog, readLog, hfile, hread]
    rfl
  · rw [Program.bind_ok hkeep, keepLog_result, stderrLog_eq hfirst, stdoutLog]
    cases readLog w s.host "build.stdout.log" with
    | none => cases readLog w s.host "build.stderr.log" <;> rfl
    | some text => cases readLog w s.host "build.stderr.log" <;> rfl

/-- The effect of the handler for any other exception. -/
theorem recover_outputs (e : OtherError) (s : EvalState) :
    (recover w (.other e) s).2.result.outputs =
      { agentOutput := s.result.agentOutput
        stdout := (stdoutLog w s.host).getD s.result.stdout
        stderr := (stderrLog w s.host).getD s.result.stderr } := by
  rw [recover, Program.bind_ok (setResult_apply _)]
  exact logs_outputs _

/-! ## The dictionary at the end -/

/-- The build logs that would replace evidence hold the same evidence. -/
structure Spares (w : Surroundings) (h : Host) (agent : Outcome) (test : Option Outcome) :
    Prop where
  stdout : ∀ text o, stdoutLog w h = some text → test = some o → text = o.stdout
  stderr : ∀ text, stderrLog w h = some text →
    RetainsUpTo 1000000 (behindAgent test) agent.stderr text ∧
      ∀ o, test = some o → o.stderr.toList <:+ text.toList

theorem captured_iff {w : Surroundings} {h : Host} {agent : Outcome} {test : Option Outcome}
    {x : Outputs} (hx : Captured agent test x) :
    Captured agent test { x with
        stdout := (stdoutLog w h).getD x.stdout
        stderr := (stderrLog w h).getD x.stderr } ↔ Spares w h agent test := by
  constructor
  · rintro ⟨-, hagent, htests⟩
    refine ⟨fun text o htext ho => ?_, fun text htext => ⟨?_, fun o ho => ?_⟩⟩
    · have hstdout := (htests o ho).1
      rw [htext] at hstdout
      exact hstdout
    · rw [htext] at hagent
      exact hagent
    · have hstderr := (htests o ho).2
      rw [htext] at hstderr
      exact hstderr
  · rintro ⟨hstdout, hstderr⟩
    refine ⟨hx.agentOutput, ?_, fun o ho => ⟨?_, ?_⟩⟩
    · cases htext : stderrLog w h with
      | none => exact hx.agentErrors
      | some text => exact (hstderr text htext).1
    · cases htext : stdoutLog w h with
      | none => exact (hx.tests o ho).1
      | some text => exact hstdout text o htext ho
    · cases htext : stderrLog w h with
      | none => exact (hx.tests o ho).2
      | some text => exact (hstderr text htext).2 o ho

/-! ## The build logs -/

/-- The build logs in the job's folder. -/
def logs (h : Host) : Option String × Option String :=
  (h.files "build.stdout.log", h.files "build.stderr.log")

def buildArgs (settings : WorkerSettings) (folder image : String) : List String :=
  ["build", "--platform", settings.dockerPlatform, "--tag", image, folder ++ "/problem/environment"]

theorem writeText_ok {path text : String} {s t : Host} (h : writeText w path text s = (.ok (), t)) :
    t = (setFile path text s).2 := by
  rw [writeText] at h
  cases hwrite : w.file (.write path) with
  | ok _ =>
      rw [hwrite] at h
      exact (congrArg Prod.snd h).symm
  | error e =>
      rw [hwrite] at h
      cases hleaves : w.leaves path with
      | none =>
          rw [hleaves] at h
          cases h
      | some n =>
          rw [hleaves] at h
          obtain ⟨_, _, -, h⟩ := Program.ok_of_bind h
          cases h

theorem prepare_logs {id : String} {s t : Host}
    (h : prepare w settings id folder s = (.ok (), t)) :
    ∃ image e, w.docker (buildArgs settings folder image) = .ok e ∧
      logs t = (some (Process.run 500000 e).stdout, some (Process.run 500000 e).stderr) := by
  obtain ⟨_, s₁, -, h⟩ := Program.ok_of_bind h
  obtain ⟨_, s₂, -, h⟩ := Program.ok_of_bind h
  obtain ⟨_, s₃, -, h⟩ := Program.ok_of_bind h
  obtain ⟨_, s₄, -, h⟩ := Program.ok_of_bind h
  obtain ⟨instruction, s₅, -, h⟩ := Program.ok_of_bind h
  obtain ⟨_, s₆, -, h⟩ := Program.ok_of_bind h
  obtain ⟨h₆, s₇, -, h⟩ := Program.ok_of_bind h
  obtain ⟨build, s₈, hbuild, h⟩ := Program.ok_of_bind h
  obtain ⟨_, s₉, hstdout, h⟩ := Program.ok_of_bind h
  obtain ⟨_, s₁₀, hstderr, h⟩ := Program.ok_of_bind h
  obtain ⟨e, he, rfl⟩ := run_answer hbuild
  refine ⟨_, e, he, ?_⟩
  have hlogs : logs s₁₀ = (some (Process.run 500000 e).stdout,
    some (Process.run 500000 e).stderr) := by
    rw [writeText_ok hstderr, writeText_ok hstdout]
    rfl
  refine (Program.Frames.apply (g := logs) ?_ h).trans hlogs
  split
  · exact .raise
  · refine .bind (frames_checked (fun _ _ => rfl) _) fun id => .bind (.modify fun _ => rfl) fun _ =>
      .bind (frames_checked (fun _ _ => rfl) _) fun workdir => ?_
    split
    · exact .raise
    · exact .pure

theorem prepareInputs_logs {s : EvalState}
    (h : prepareInputs w lib settings claim folder (start claim) = (.ok (), s)) :
    ∃ image e, w.docker (buildArgs settings folder image) = .ok e ∧
      logs s.host = (some (Process.run 500000 e).stdout, some (Process.run 500000 e).stderr) := by
  obtain ⟨_, s₁, -, h⟩ := Program.ok_of_bind h
  obtain ⟨content, s₂, -, h⟩ := Program.ok_of_bind h
  obtain ⟨_, s₃, -, h⟩ := Program.ok_of_bind h
  obtain ⟨_, s₄, -, h⟩ := Program.ok_of_bind h
  obtain ⟨_, s₅, -, h⟩ := Program.ok_of_bind h
  by_cases hcancelled : w.cancelled .prepared = true
  · rw [if_pos hcancelled] at h
    cases h
  · rw [if_neg hcancelled] at h
    obtain ⟨_, s₆, hprepare, h⟩ := Program.ok_of_bind h
    cases h
    exact prepare_logs (onHost_ok hprepare).1

theorem frames_execute_logs (mode : SandboxMode) :
    Program.Frames logs (execute w settings mode) := by
  refine .bind .read fun h => ?_
  dsimp only
  split
  · exact .raise
  · split
    · exact .raise
    · exact .bind (.modify fun _ => rfl) fun _ => .bind (frames_checked (fun _ _ => rfl) _) fun _ =>
        .bind (.modify fun _ => rfl) fun _ => .bind (frames_run (fun _ _ => rfl) _) fun _ =>
        .bind (frames_stop (fun _ _ => rfl) _) fun _ => .bind (frames_run (fun _ _ => rfl) _)
        fun _ => .bind .lift fun _ => .pure

theorem frames_result_logs (f : ResultInput → ResultInput) :
    Program.Frames (fun s => logs s.host) (setResult f) :=
  .modify fun _ => rfl

theorem frames_agentPhase_logs :
    Program.Frames (fun s => logs s.host) (agentPhase w settings) :=
  .bind .lift fun _ => .bind (frames_host (frames_execute_logs _)) fun _ =>
    .bind (frames_result_logs _) fun _ => .bind (frames_result_logs _) fun _ =>
    .bind (frames_host (frames_collect fun _ _ => rfl)) fun _ =>
    .bind (frames_result_logs _) fun _ => .pure

theorem frames_testPhase_logs :
    Program.Frames (fun s => logs s.host) (testPhase w lib settings claim) := by
  refine .bind .lift fun _ => .bind .lift fun _ => .bind .read fun s =>
    .bind (frames_host (frames_writeText _ fun _ _ => rfl)) fun _ =>
    .bind (frames_host (frames_writeText _ fun _ _ => rfl)) fun _ => .bind .lift fun _ =>
    .bind (frames_host (frames_execute_logs _)) fun test => ?_
  refine .bind (frames_result_logs _) fun _ => .bind (frames_result_logs _) fun _ =>
    .bind (frames_host (frames_collect fun _ _ => rfl)) fun collected =>
    .bind (fun s => ?_) fun _ =>
    .bind (frames_result_logs _) fun _ => ?_
  · rw [parseTests_apply]
    split <;> rfl
  · split
    · exact .pure
    · exact .lift

/-- The logs the handler reads are those of the build. -/
theorem attempt_logs {agent : Outcome}
    (hagent : capturedAgent w lib settings claim folder = some agent) :
    ∃ image e, w.docker (buildArgs settings folder image) = .ok e ∧
      logs (attempt w lib settings claim folder (start claim)).2.host =
        (some (Process.run 500000 e).stdout, some (Process.run 500000 e).stderr) := by
  obtain ⟨s, hrun, -⟩ := capturedAgent_some hagent
  obtain ⟨_, s₁, hprepare, -⟩ := Program.ok_of_bind hrun
  obtain ⟨image, e, he, hlogs⟩ := prepareInputs_logs hprepare
  refine ⟨image, e, he, ?_⟩
  rw [attempt, Program.bind_ok hprepare]
  refine (Program.Frames.bind frames_agentPhase_logs (fun outcome => ?_) s₁).trans hlogs
  split
  · exact frames_result_logs _
  · split
    · exact frames_result_logs _
    · exact frames_testPhase_logs

/-- Only the handler for any other exception changes what an attempt had captured. -/
theorem evaluate_outputs (hreach : w.workspace = .ok ()) :
    (evaluate w lib settings claim folder (start claim)).2.result.outputs =
      match attempt w lib settings claim folder (start claim) with
      | (.error (.other e), t) => (recover w (.other e) t).2.result.outputs
      | (_, t) => t.result.outputs := by
  rw [evaluate_result (g := ResultInput.outputs) hreach fun _ => rfl, handled, Program.handle]
  generalize attempt w lib settings claim folder (start claim) = ended
  rcases ended with ⟨e | u, t⟩
  · cases e <;> rfl
  · rfl

/-- **Captured evidence.** What the phases that returned had captured is in the dictionary at
the end, unless an exception other than one of the cleanup or of the inputs ended the attempt
and the build logs that replace it are not the same. -/
theorem evidence_survives (hreach : w.workspace = .ok ()) {agent : Outcome}
    (hagent : capturedAgent w lib settings claim folder = some agent) :
    Captured agent (capturedTests w lib settings claim folder)
        (evaluate w lib settings claim folder (start claim)).2.result.outputs ↔
      ∀ e t, attempt w lib settings claim folder (start claim) = (.error (.other e), t) →
        Spares w t.host agent (capturedTests w lib settings claim folder) := by
  have hcaptured := captured_after agent fun o ho =>
    (capturedTests_bounded w lib settings claim folder o ho).trans (by decide)
  rw [← attempt_outputs hagent] at hcaptured
  rw [evaluate_outputs hreach]
  generalize attempt w lib settings claim folder (start claim) = ended at hcaptured ⊢
  generalize capturedTests w lib settings claim folder = test at hcaptured ⊢
  rcases ended with ⟨e | u, t⟩
  · cases e with
    | cleanupError text =>
        exact ⟨fun _ e' t' heq => (nomatch congrArg Prod.fst heq), fun _ => hcaptured⟩
    | inputError fault =>
        exact ⟨fun _ e' t' heq => (nomatch congrArg Prod.fst heq), fun _ => hcaptured⟩
    | other e =>
        dsimp only
        rw [recover_outputs]
        refine (captured_iff hcaptured).trans ⟨fun h e' t' heq => ?_, fun h => h e t rfl⟩
        obtain rfl := congrArg Prod.snd heq
        exact h
  · exact ⟨fun _ e' t' heq => (nomatch congrArg Prod.fst heq), fun _ => hcaptured⟩

/-! ## A patch that is too large -/

/-- In a world that works, the outcome of the agent's phase is captured. -/
theorem capturedAgent_works (hw : w.Works lib claim) (settings : WorkerSettings) (folder : String)
    {o : Outcome} (ho : w.phase (lib.idText claim.job.id) .agent = .ok o) :
    capturedAgent w lib settings claim folder = some o := by
  obtain ⟨imageId, s, -, hprepare, hready, -⟩ := returns_prepareInputs settings hw folder
  obtain ⟨o', h, hexecute, ho', -, -⟩ :=
    returns_execute settings hw (lib.idText claim.job.id) folder hw.agent s.host hready
  obtain rfl := Except.ok.inj (ho'.symm.trans ho)
  rw [capturedAgent, throughAgent, Program.bind_ok hprepare, runAgent, hw.renew,
    Program.bind_ok (a := ()) (by rfl), Program.bind_ok (onHost_apply hexecute),
    Program.bind_ok (setResult_apply _), Program.bind_ok (setResult_apply _)]
  rfl

/-- The libraries do not matter for an attempt that ends before the tests. -/
def noLibraries : Libraries := .plain (.error (.raised .parseError "")) (.ok 0)

/-- On a plain machine, an agent that ended of itself and left a patch that can be read is
tested; where there is no report, the tests are classified all the same. -/
theorem plain_returns {c : EndedContainer} {patch : Bytes} {text : String}
    (hended : c.wasKilled = false) (hfile : c.files.lookup patchFile = some patch)
    (hlength : patch.length ≤ 2000000) (htext : Utf8.decode patch = some text)
    (hjunit : c.files.lookup junitFile = none) (hreward : c.files.lookup rewardFile = none)
    (folder : String) : ∃ u,
    attempt (.plain .built fun _ => c) noLibraries {} (.plain noLibraries) folder
      (start (.plain noLibraries)) = (.ok (), u) := by
  let w : Surroundings := .plain .built fun _ => c
  have hw : w.Works noLibraries (.plain noLibraries) :=
    Surroundings.plain_works (answering_succeeds _) _
  have hphase : ∀ mode, w.phase (noLibraries.idText 1) mode
      = .ok { Process.run 500000 c.started with exitCode := c.exitCode } := fun mode =>
    Surroundings.plain_phase (noLibraries.idText 1) mode
  have hpassed := EndedContainer.not_failed hended
  have hpatch : readPatch w (containerName
      (noLibraries.idText (JobClaim.plain noLibraries).job.id) .agent) = .ok text :=
    readPatch_of (Surroundings.plain_file (by decide) hfile hlength (by decide)) htext
  have hfiles : testFiles w (containerName
      (noLibraries.idText (JobClaim.plain noLibraries).job.id) .test) = .ok ([], []) :=
    testFiles_of (Surroundings.plain_missing hjunit) (Surroundings.plain_missing hreward)
  obtain ⟨imageId, t, -, hready, -, hattempt⟩ := attempt_apply {} hw folder (hphase .agent)
  obtain ⟨u, -, htest⟩ := testPhase_apply {} hw rfl
    (s := { t with result := { t.result with patch := text } }) hready (hphase .test)
  obtain ⟨hexit, hended⟩ := not_or.mp hpassed
  have hparse : parseJunit noLibraries []
      = .error (.raised .valueError "Missing, oversized or unsafe JUnit XML") :=
    if_pos (Or.inl rfl)
  obtain ⟨r, hparsed⟩ : ∃ r, parsed noLibraries [] u.result = .ok r := by
    rw [parsed, hparse]
    exact ⟨_, if_pos rfl⟩
  rw [hfiles] at htest
  dsimp only at htest
  rw [hparsed] at htest
  rw [hpatch] at hattempt
  dsimp only at hattempt
  rw [if_neg hended, if_neg hexit] at hattempt
  exact ⟨_, hattempt.trans htest⟩

/-- A machine whose containers write `Traceback` to the error stream, and where the agent
leaves this patch. -/
def tracing (patch : Bytes) : Surroundings :=
  .plain .built fun _ => { stderr := "Traceback", files := [(patchFile, patch)] }

section Tracing

variable (patch : Bytes)

theorem tracing_works : (tracing patch).Works noLibraries (.plain noLibraries) :=
  Surroundings.plain_works (answering_succeeds _) _

theorem tracing_phase (mode : SandboxMode) : ∃ o,
    (tracing patch).phase (noLibraries.idText 1) mode = .ok o ∧ ¬o.Failed
      ∧ o.stderr = "Traceback" :=
  have hlength : 4 * "Traceback".toList.length ≤ 500000 := by decide
  ⟨_, Surroundings.plain_phase _ _, EndedContainer.not_failed rfl,
    (Process.text_drain hlength).trans String.ofList_toList⟩

theorem tracing_agent : ∃ o, o.stderr = "Traceback" ∧
    capturedAgent (tracing patch) noLibraries {} (.plain noLibraries) "workspace" = some o := by
  obtain ⟨o, ho, -, hstderr⟩ := tracing_phase patch .agent
  exact ⟨o, hstderr, capturedAgent_works (tracing_works patch) {} "workspace" ho⟩

/-- All that its build prints is one line. -/
theorem tracing_logs :
    logs (attempt (tracing patch) noLibraries {} (.plain noLibraries) "workspace"
      (start (.plain noLibraries))).2.host = (some "", some "#1 DONE 0.1s\n") := by
  obtain ⟨agent, -, hagent⟩ := tracing_agent patch
  obtain ⟨image, ended, hbuild, hlogs⟩ := attempt_logs hagent
  obtain rfl : { Ended.printing [] with stderr := [ascii "#1 DONE 0.1s\n"] } = ended :=
    Except.ok.inj hbuild
  refine hlogs.trans ?_
  decide

/-- Where the patch is too large, the attempt ends as it is read. -/
theorem tracing_raises (hlong : 2000000 < patch.length) : ∃ e t,
    attempt (tracing patch) noLibraries {} (.plain noLibraries) "workspace"
      (start (.plain noLibraries)) = (.error (.other e), t) := by
  obtain ⟨o, ho, -⟩ := tracing_phase patch .agent
  obtain ⟨imageId, t, -, -, -, hattempt⟩ := attempt_apply {} (tracing_works patch) "workspace" ho
  obtain ⟨e, he⟩ : ∃ e, copiedFile (tracing patch) (containerName (noLibraries.idText 1) .agent)
      patchFile 2000000 = .error e :=
    Surroundings.plain_oversized (by decide) (by rfl) hlong (by decide)
  obtain ⟨o, rfl⟩ := other_copiedFile he
  have hpatch : readPatch (tracing patch) (containerName
      (noLibraries.idText (JobClaim.plain noLibraries).job.id) .agent) = .error (.other o) :=
    bind_of_error he
  rw [hpatch] at hattempt
  exact ⟨o, t, hattempt⟩

/-- And the traceback is lost. -/
theorem tracing_lost (hlong : 2000000 < patch.length) :
    ∃ agent, capturedAgent (tracing patch) noLibraries {} (.plain noLibraries) "workspace"
        = some agent ∧
      ¬Captured agent
        (capturedTests (tracing patch) noLibraries {} (.plain noLibraries) "workspace")
        (evaluate (tracing patch) noLibraries {} (.plain noLibraries) "workspace"
          (start (.plain noLibraries))).2.result.outputs := by
  obtain ⟨agent, hstderr, hagent⟩ := tracing_agent patch
  obtain ⟨e, t, hattempt⟩ := tracing_raises patch hlong
  have hlogs := tracing_logs patch
  rw [hattempt] at hlogs
  obtain ⟨hout, herr⟩ := Prod.mk.inj hlogs
  have hbounded := capturedTests_bounded (tracing patch) noLibraries {} (.plain noLibraries)
    "workspace"
  refine ⟨agent, hagent, fun hcaptured => ?_⟩
  have hretains := hcaptured.agentErrors
  generalize capturedTests (tracing patch) noLibraries {} (.plain noLibraries) "workspace" = test
    at hbounded hretains
  rw [evaluate_outputs (tracing_works patch).workspace, hattempt, hstderr] at hretains
  dsimp only at hretains
  rw [recover_outputs, stderrLog, readLog, hout, herr] at hretains
  replace hretains : RetainsUpTo 1000000 (behindAgent test) "Traceback"
    (lastChars 500000 (readText "#1 DONE 0.1s\n")) := hretains
  obtain ⟨cut, hcut, hinfix⟩ := hretains
  -- Both outputs fit, so nothing was cut off.
  obtain rfl : cut = 0 := by
    have hlength : "Traceback".length = 9 := by decide
    rw [hlength] at hcut
    cases test with
    | none => exact Nat.le_zero.mp hcut
    | some o =>
        have hstderr := hbounded o rfl
        simp only [behindAgent] at hcut
        omega
  exact absurd hinfix (by decide)

/-- With an empty patch it comes to the tests, and they are classified. -/
theorem tracing_returns : ∃ u,
    attempt (tracing []) noLibraries {} (.plain noLibraries) "workspace"
      (start (.plain noLibraries)) = (.ok (), u) :=
  plain_returns rfl (by rfl) (by decide) (by rfl) (by rfl) (by rfl) "workspace"

end Tracing

/-- Two million bytes and one. -/
@[irreducible] def largePatch : Bytes := List.replicate 2000001 120

theorem length_largePatch : largePatch.length = 2000001 := by
  rw [largePatch, List.length_replicate]

/-- The agent's traceback is lost, since its patch is too large. -/
theorem evidence_lost :
    ∃ agent, capturedAgent (tracing largePatch) noLibraries {} (.plain noLibraries) "workspace"
        = some agent ∧
      ¬Captured agent
        (capturedTests (tracing largePatch) noLibraries {} (.plain noLibraries) "workspace")
        (evaluate (tracing largePatch) noLibraries {} (.plain noLibraries) "workspace"
          (start (.plain noLibraries))).2.result.outputs :=
  tracing_lost largePatch (by rw [length_largePatch]; decide)

/-- With the large patch the traceback is lost, with an empty one it is kept. -/
theorem evidence_survives_traceback :
    (∃ agent, capturedAgent (tracing largePatch) noLibraries {} (.plain noLibraries) "workspace"
        = some agent ∧
      (Captured agent
          (capturedTests (tracing largePatch) noLibraries {} (.plain noLibraries) "workspace")
          (evaluate (tracing largePatch) noLibraries {} (.plain noLibraries) "workspace"
            (start (.plain noLibraries))).2.result.outputs ↔
        ∀ e t, attempt (tracing largePatch) noLibraries {} (.plain noLibraries) "workspace"
            (start (.plain noLibraries)) = (.error (.other e), t) →
          Spares (tracing largePatch) t.host agent
            (capturedTests (tracing largePatch) noLibraries {} (.plain noLibraries) "workspace"))) ∧
    ∃ agent, capturedAgent (tracing []) noLibraries {} (.plain noLibraries) "workspace"
        = some agent ∧
      Captured agent (capturedTests (tracing []) noLibraries {} (.plain noLibraries) "workspace")
        (evaluate (tracing []) noLibraries {} (.plain noLibraries) "workspace"
          (start (.plain noLibraries))).2.result.outputs := by
  have hreach : ∀ patch, (tracing patch).workspace = .ok () := fun _ => rfl
  constructor
  · obtain ⟨agent, -, hagent⟩ := tracing_agent largePatch
    have hsurvives := evidence_survives (hreach largePatch) hagent
    exact ⟨agent, hagent, hsurvives⟩
  · obtain ⟨agent, -, hagent⟩ := tracing_agent []
    refine ⟨agent, hagent, (evidence_survives (hreach []) hagent).mpr fun e t hraised => ?_⟩
    obtain ⟨u, hreturned⟩ := tracing_returns
    cases (congrArg Prod.fst hraised).symm.trans (congrArg Prod.fst hreturned)

end AgentBenchX
