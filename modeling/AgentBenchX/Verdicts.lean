import AgentBenchX.Cleanup
import AgentBenchX.Plain

/-!
# Verdicts

`attempt`, cut where an outcome is captured and where the attempt is
classified (`attempt_eq`). An attempt that gets as far as its
classification has seen how the containers ended and what they left, so
the verdict is a function of the surroundings. It misses one case: the
reward is compared with one spelling of zero (`no_false_success`).
-/

namespace AgentBenchX

open DockerSandbox Evaluator

/-! ## The attempt in phases -/

/-- What is classified: how the agent ended and, if it succeeded, how the tests ended
and what they left. -/
structure Findings where
  agent : Outcome
  tests : Option (Outcome × Collected)

namespace Evaluator

/-- The agent's phase up to the capture of its outcome. -/
def runAgent (w : Surroundings) (settings : WorkerSettings) : EvalProgram Outcome := do
  external (w.renew .agentStarted)
  let outcome ← onHost (execute w settings .agent)
  setResult (.evidence fun x => { x with agent := some outcome.evidence })
  setResult fun r => { r with agentOutput := outcome.stdout, stderr := outcome.stderr }
  return outcome

def collectPatch (w : Surroundings) : EvalProgram Unit := do
  let collected ← onHost (collect w)
  setResult fun r => { r with patch := collected.patch.getD "" }

/-- The test phase up to the capture of its outcome. -/
def runTests (w : Surroundings) (settings : WorkerSettings) (claim : JobClaim) :
    EvalProgram Outcome := do
  external (w.renew .agentFinished)
  external (w.file (.mkdir "candidate"))
  onHost (writeText w "candidate/patch.diff" (← Program.read).result.patch)
  onHost (writeText w "candidate/test-command.json" (commandText claim.problemVersion.testCommand))
  external (w.renew .testStarted)
  let test ← onHost (execute w settings .test)
  setResult (.evidence fun x => { x with test := some test.evidence })
  setResult fun r => { r with
    stdout := test.stdout
    stderr := lastChars 1000000 (r.stderr ++ "\n" ++ test.stderr) }
  return test

def readReports (w : Surroundings) (lib : Libraries) : EvalProgram Collected := do
  let collected ← onHost (collect w)
  parseTests lib (collected.junit.getD [])
  return collected

/-- Both phases up to the capture of their outcomes. The tests are not reached when the
agent fails. -/
def phases (w : Surroundings) (lib : Libraries) (settings : WorkerSettings) (claim : JobClaim)
    (folder : String) : EvalProgram (Outcome × Option Outcome) := do
  prepareInputs w lib settings claim folder
  let agent ← runAgent w settings
  collectPatch w
  if agent.Failed then return (agent, none)
  else
    let test ← runTests w settings claim
    return (agent, some test)

/-- What remains before the classification. -/
def readFindings (w : Surroundings) (lib : Libraries) (agent : Outcome) :
    Option Outcome → EvalProgram Findings
  | none => return { agent, tests := none }
  | some test => do
      let collected ← readReports w lib
      return { agent, tests := some (test, collected) }

/-- Everything before the classification. -/
def gather (w : Surroundings) (lib : Libraries) (settings : WorkerSettings) (claim : JobClaim)
    (folder : String) : EvalProgram Findings := do
  let (agent, test) ← phases w lib settings claim folder
  readFindings w lib agent test

/-- The classification, and the renewal that follows it. -/
def conclude (w : Surroundings) (f : Findings) : EvalProgram Unit :=
  match f.tests with
  | none =>
      if f.agent.timedOut ∨ f.agent.cancelled then setResult .timeout
      else setResult fun r => { r with failureType := some .agentFailure }
  | some (test, collected) => do
      setResult (classify test (collected.reward.getD []))
      if w.cancelled .classified then return () else external (w.renew .testFinished)

end Evaluator

variable {w : Surroundings} {lib : Libraries} {settings : WorkerSettings} {claim : JobClaim}
  {folder : String}

theorem agentPhase_eq : agentPhase w settings =
    runAgent w settings >>= fun agent => collectPatch w >>= fun _ => pure agent := by
  simp only [agentPhase, runAgent, collectPatch, bind_assoc, pure_bind]

theorem testPhase_eq : testPhase w lib settings claim =
    runTests w settings claim >>= fun test => readReports w lib >>= fun collected =>
      setResult (classify test (collected.reward.getD [])) >>= fun _ =>
        if w.cancelled .classified then pure () else external (w.renew .testFinished) := by
  simp only [testPhase, runTests, readReports, bind_assoc, pure_bind]

theorem attempt_eq : attempt w lib settings claim folder =
    gather w lib settings claim folder >>= conclude w := by
  simp only [attempt, gather, phases, agentPhase_eq, bind_assoc, pure_bind]
  congr 1
  funext _
  congr 1
  funext agent
  congr 1
  funext _
  by_cases hfailed : agent.Failed
  · rw [if_pos hfailed, pure_bind, readFindings, pure_bind, conclude]
    by_cases htimeout : agent.timedOut ∨ agent.cancelled
    · rw [if_pos htimeout, if_pos htimeout]
    · have hexit : agent.exitCode ≠ 0 := by
        rcases hfailed with h | h | h
        · exact h
        · exact absurd (Or.inl h) htimeout
        · exact absurd (Or.inr h) htimeout
      rw [if_neg htimeout, if_neg htimeout, if_pos hexit]
  · obtain ⟨hexit, hfinished⟩ := not_or.mp hfailed
    rw [if_neg hfailed, if_neg hfinished, if_neg hexit, testPhase_eq]
    simp only [bind_assoc, pure_bind, readFindings, conclude]

/-! ## What the phases see

The sandbox method behind each step either raises or answers what the
surroundings hold of the containers of this job. -/

section Sandbox

def jobOf (h : Host) : Option String := h.sandbox.jobId

section
variable {τ : Type} {g : Host → τ}

theorem frames_run (hg : ∀ h trace, g { h with trace } = g h) (argv : List String) :
    Program.Frames g (run w argv) :=
  .bind (.modify fun h => hg h _) fun _ => .lift

theorem frames_checked (hg : ∀ h trace, g { h with trace } = g h) (argv : List String) :
    Program.Frames g (checked w argv) := by
  refine (frames_run hg argv).bind fun outcome => ?_
  split
  · exact .raise
  · exact .pure

theorem frames_stop (hg : ∀ h trace, g { h with trace } = g h) (name : String) :
    Program.Frames g (stop w name) := by
  refine (frames_run hg _).bind fun _ => (frames_run hg _).bind fun o => ?_
  split
  · exact .pure
  · exact .raise

theorem frames_writeText {path : String} (text : String)
    (hg : ∀ h content, g (setFile path content h).2 = g h) :
    Program.Frames g (writeText w path text) := by
  unfold writeText
  split
  · exact fun h => hg h _
  · exact .raise
  · exact .bind (fun h => hg h _) fun _ => .raise

end

theorem frames_collect {τ : Type} {g : Host → τ} (hg : ∀ h trace, g { h with trace } = g h) :
    Program.Frames g (collect w) := by
  have hread : ∀ name filename limit, Program.Frames g (readFile w name filename limit) :=
    fun _ _ _ => .bind (.modify fun h => hg h _) fun _ => .lift
  refine .bind .read fun h => ?_
  split
  · exact .pure
  · split
    · exact .bind (hread _ _ _) fun _ => .bind .lift fun _ => .pure
    · exact .bind (hread _ _ _) fun _ => .bind (hread _ _ _) fun _ => .pure

/-- `prepare` builds the image of the job the sandbox was created for. -/
theorem frames_prepare (id : String) : Program.Frames jobOf (prepare w settings id folder) := by
  unfold prepare
  refine .bind (.modify fun _ => rfl) fun _ => .bind .lift fun _ => .bind .lift fun _ =>
    .bind .lift fun _ => .bind .lift fun instruction => ?_
  refine .bind (frames_writeText _ fun _ _ => rfl) fun _ => .bind .read fun h =>
    .bind (frames_run (fun _ _ => rfl) _) fun build =>
    .bind (frames_writeText _ fun _ _ => rfl) fun _ =>
    .bind (frames_writeText _ fun _ _ => rfl) fun _ => ?_
  split
  · exact .raise
  · refine .bind (frames_checked (fun _ _ => rfl) _) fun o => .bind (.modify fun _ => rfl) fun _ =>
      .bind (frames_checked (fun _ _ => rfl) _) fun workdir => ?_
    split
    · exact .raise
    · exact .pure

theorem create_ok {id : String} {s t : Host} (h : create w id s = (.ok (), t)) :
    jobOf t = some id := by
  obtain ⟨_, u, -, h⟩ := Program.ok_of_bind h
  cases h
  rfl

theorem external_ok {σ α : Type} {answer : Except OtherError α} {a : α} {s t : σ}
    (h : (external answer : Program Exn σ α) s = (.ok a, t)) : answer = .ok a ∧ s = t := by
  cases answer with
  | error e => cases h
  | ok b =>
      cases h
      exact ⟨rfl, rfl⟩

theorem run_answer {argv : List String} {o : Outcome} {s t : Host} (h : run w argv s = (.ok o, t)) :
    ∃ e, w.docker argv = .ok e ∧ o = Process.run 500000 e := by
  obtain ⟨_, u, -, h⟩ := Program.ok_of_bind h
  obtain ⟨h, -⟩ := external_ok h
  cases he : w.docker argv with
  | error e =>
      rw [he] at h
      cases h
  | ok e =>
      rw [he] at h
      exact ⟨e, rfl, (Except.ok.inj h).symm⟩

/-- A phase that returned is the one the surroundings hold; its container is the current one. -/
theorem execute_ok {id : String} {mode : SandboxMode} {o : Outcome} {s t : Host}
    (hid : jobOf s = some id) (h : execute w settings mode s = (.ok o, t)) :
    w.phase id mode = .ok o ∧ jobOf t = some id ∧
      t.sandbox.current = some (containerName id mode) := by
  rw [execute, Program.bind_ok Program.read_apply] at h
  cases hfolder : s.sandbox.workspace with
  | none =>
      simp only [hfolder] at h
      cases h
  | some folder =>
      simp only [hfolder, show s.sandbox.jobId = some id from hid, Option.getD_some] at h
      split at h
      · cases h
      · obtain ⟨_, s₁, h₁, h⟩ := Program.ok_of_bind h
        obtain ⟨_, s₂, h₂, h⟩ := Program.ok_of_bind h
        obtain ⟨_, s₃, h₃, h⟩ := Program.ok_of_bind h
        obtain ⟨o₄, s₄, h₄, h⟩ := Program.ok_of_bind h
        obtain ⟨_, s₅, h₅, h⟩ := Program.ok_of_bind h
        obtain ⟨o₆, s₆, h₆, h⟩ := Program.ok_of_bind h
        obtain ⟨exitCode, s₇, h₇, h⟩ := Program.ok_of_bind h
        cases h
        obtain ⟨ended, hended, rfl⟩ := run_answer h₄
        obtain ⟨state, hstate, rfl⟩ := run_answer h₆
        obtain ⟨hexit, rfl⟩ := external_ok h₇
        have hlast : s₆.sandbox = s₃.sandbox := by
          rw [(frames_run (g := Host.sandbox) (fun _ _ => rfl) _).apply h₆,
            (frames_stop (g := Host.sandbox) (fun _ _ => rfl) _).apply h₅,
            (frames_run (g := Host.sandbox) (fun _ _ => rfl) _).apply h₄]
        have hfirst : jobOf s₂ = some id := by
          cases h₁
          exact ((frames_checked (g := jobOf) (fun _ _ => rfl) _).apply h₂).trans hid
        cases h₃
        refine ⟨?_, ?_, ?_⟩
        · rw [Surroundings.phase, bind_of_ok hended, bind_of_ok hstate, bind_of_ok hexit]
          rfl
        · exact (congrArg Sandbox.jobId hlast).trans hfirst
        · exact congrArg Sandbox.current hlast

end Sandbox

/-! ## What the phases leave alone

`g` is what somebody wants to know of the dictionary. -/

section Dictionary

variable {τ : Type} {g : ResultInput → τ}

theorem frames_onHost {α : Type} (x : HostProgram α) :
    Program.Frames (fun s => g s.result) (onHost x) :=
  fun _ => rfl

theorem frames_setResult {f : ResultInput → ResultInput} (hf : ∀ r, g (f r) = g r) :
    Program.Frames (fun s => g s.result) (setResult f) :=
  .modify fun s => hf s.result

theorem frames_prepareInputs (hg : ∀ f r, g (r.evidence f) = g r) :
    Program.Frames (fun s => g s.result) (prepareInputs w lib settings claim folder) := by
  refine .bind (frames_onHost _) fun _ => .bind .lift fun content => .bind ?_ fun _ =>
    .bind .lift fun _ => .bind ?_ fun _ => ?_
  · unfold verifyAgent
    split
    · exact .raise
    · exact .pure
  · unfold input
    split
    · exact .pure
    · exact .raise
    · exact .raise
  · split
    · exact .raise
    · exact .bind (frames_onHost _) fun _ => .bind .read fun s => frames_setResult fun r => hg _ r

theorem frames_collectPatch (hg : ∀ patch r, g { r with patch } = g r) :
    Program.Frames (fun s => g s.result) (collectPatch w) :=
  .bind (frames_onHost _) fun _ => frames_setResult fun r => hg _ r

theorem frames_runAgent (hg : ∀ f r, g (r.evidence f) = g r)
    (ho : ∀ agentOutput stderr r, g { r with agentOutput, stderr } = g r) :
    Program.Frames (fun s => g s.result) (runAgent w settings) :=
  .bind .lift fun _ => .bind (frames_onHost _) fun _ => .bind (frames_setResult fun r => hg _ r)
    fun _ => .bind (frames_setResult fun r => ho _ _ r) fun _ => .pure

theorem frames_runTests (hg : ∀ f r, g (r.evidence f) = g r)
    (ho : ∀ stdout stderr r, g { r with stdout, stderr } = g r) :
    Program.Frames (fun s => g s.result) (runTests w settings claim) := by
  refine .bind .lift fun _ => .bind .lift fun _ => .bind .read fun s => .bind (frames_onHost _)
    fun _ => .bind (frames_onHost _) fun _ => .bind .lift fun _ => .bind (frames_onHost _)
      fun o => ?_
  exact .bind (frames_setResult fun r => hg _ r) fun _ =>
    .bind (frames_setResult fun r => ho _ _ r) fun _ => .pure

theorem frames_recover (e : Exn) (hg : ∀ f r, g (r.evidence f) = g r)
    (hfailure : ∀ failureType r, g { r with failureType } = g r)
    (hout : ∀ stdout r, g { r with stdout } = g r) (herr : ∀ stderr r, g { r with stderr } = g r) :
    Program.Frames (fun s => g s.result) (recover w e) := by
  have hlog : ∀ name set, (∀ text r, g (set text r) = g r) →
      Program.Frames (fun s => g s.result) (keepLog w name set) := by
    intro name set hset
    refine .bind .read fun s => ?_
    split
    · exact .pure
    · exact .bind .lift fun _ => frames_setResult fun r => hset _ r
  cases e with
  | cleanupError text => exact .raise
  | inputError fault => exact frames_setResult fun r => (hg _ _).trans (hfailure _ r)
  | other o =>
      exact .bind (frames_setResult fun r => hg _ r) fun _ => .bind (hlog _ _ hout) fun _ =>
        hlog _ _ herr

theorem frames_finish (hg : ∀ r, g (withMetrics w.elapsed r) = g r) :
    Program.Frames (fun s => g s.result) (finish w lib) :=
  .bind (frames_setResult hg) fun _ => .bind .read fun _ => .bind (frames_onHost _) fun _ =>
    .bind .lift fun _ => frames_onHost _

/-- The dictionary at the end, for whoever the `finally` block does not matter. -/
theorem evaluate_result (hreach : w.workspace = .ok ())
    (hg : ∀ r, g (withMetrics w.elapsed r) = g r) (s : EvalState) :
    g (evaluate w lib settings claim folder s).2.result =
      g (handled w lib settings claim folder s).2.result := by
  rw [evaluate_eq hreach]
  rcases handled w lib settings claim folder s with ⟨r, t⟩
  have hfinish : g (finish w lib t).2.result = g t.result := frames_finish hg t
  dsimp only at hfinish ⊢
  rcases hu : finish w lib t with ⟨_ | _, u⟩ <;> rw [hu] at hfinish <;> exact hfinish

end Dictionary

/-! ## The findings -/

theorem frames_host {τ α : Type} {g : Host → τ} {x : HostProgram α} (hx : Program.Frames g x) :
    Program.Frames (fun s => g s.host) (onHost x) :=
  fun s => hx s.host

theorem onHost_ok {α : Type} {x : HostProgram α} {a : α} {s t : EvalState}
    (h : onHost x s = (.ok a, t)) : x s.host = (.ok a, t.host) ∧ t.result = s.result := by
  have ha := congrArg Prod.fst h
  have ht := congrArg Prod.snd h
  exact ⟨Prod.ext ha (congrArg EvalState.host ht), (congrArg EvalState.result ht).symm⟩

theorem prepareInputs_ok {s : EvalState}
    (h : prepareInputs w lib settings claim folder (start claim) = (.ok (), s)) :
    jobOf s.host = some (lib.idText claim.job.id) := by
  obtain ⟨_, t, hcreate, h⟩ := Program.ok_of_bind h
  refine (Program.Frames.apply (g := fun s => jobOf s.host) ?_ h).trans
    (create_ok (onHost_ok hcreate).1)
  refine .bind .lift fun content => .bind ?_ fun _ => .bind .lift fun _ => .bind ?_ fun _ => ?_
  · unfold verifyAgent
    split
    · exact .raise
    · exact .pure
  · unfold input
    split
    · exact .pure
    · exact .raise
    · exact .raise
  · split
    · exact .raise
    · exact .bind (frames_host (frames_prepare _)) fun _ => .bind .read fun _ =>
        .modify fun _ => rfl

theorem runAgent_ok {id : String} {o : Outcome} {s t : EvalState} (hid : jobOf s.host = some id)
    (h : runAgent w settings s = (.ok o, t)) :
    w.phase id .agent = .ok o ∧ jobOf t.host = some id ∧ t.result = afterAgent o s.result := by
  obtain ⟨_, s₁, h₁, h⟩ := Program.ok_of_bind h
  obtain ⟨-, rfl⟩ := external_ok h₁
  obtain ⟨o', s₂, h₂, h⟩ := Program.ok_of_bind h
  cases h
  obtain ⟨hexecute, hresult⟩ := onHost_ok h₂
  obtain ⟨hphase, hjob, -⟩ := execute_ok hid hexecute
  exact ⟨hphase, hjob, by rw [← hresult]; rfl⟩

theorem runTests_ok {id : String} {o : Outcome} {s t : EvalState} (hid : jobOf s.host = some id)
    (h : runTests w settings claim s = (.ok o, t)) :
    w.phase id .test = .ok o ∧ t.host.sandbox.current = some (containerName id .test) ∧
      t.result = afterTest o s.result := by
  obtain ⟨_, s₁, h₁, h⟩ := Program.ok_of_bind h
  obtain ⟨-, rfl⟩ := external_ok h₁
  obtain ⟨_, s₂, h₂, h⟩ := Program.ok_of_bind h
  obtain ⟨-, rfl⟩ := external_ok h₂
  rw [Program.bind_ok Program.read_apply] at h
  obtain ⟨_, s₃, h₃, h⟩ := Program.ok_of_bind h
  obtain ⟨_, s₄, h₄, h⟩ := Program.ok_of_bind h
  obtain ⟨_, s₅, h₅, h⟩ := Program.ok_of_bind h
  obtain ⟨-, rfl⟩ := external_ok h₅
  obtain ⟨o', s₆, h₆, h⟩ := Program.ok_of_bind h
  cases h
  obtain ⟨hpatch, hpatch'⟩ := onHost_ok h₃
  obtain ⟨hcommand, hcommand'⟩ := onHost_ok h₄
  obtain ⟨hexecute, hexecute'⟩ := onHost_ok h₆
  have hjob : jobOf s₄.host = some id :=
    ((frames_writeText (g := jobOf) _ fun _ _ => rfl).apply hcommand).trans
      (((frames_writeText (g := jobOf) _ fun _ _ => rfl).apply hpatch).trans hid)
  obtain ⟨hphase, -, hcurrent⟩ := execute_ok hjob hexecute
  exact ⟨hphase, hcurrent, by rw [← hpatch', ← hcommand', ← hexecute']; rfl⟩

/-- What the tests contribute to the dictionary: nothing when the parser refuses them. -/
def reported (lib : Libraries) (junit : Bytes) : List TestInput :=
  match parseJunit lib junit with
  | .ok tests => tests
  | .error _ => []

theorem readReports_ok {id : String} {c : Collected} {s t : EvalState}
    (hs : s.host.sandbox.current = some (containerName id .test)) (htests : s.result.tests = [])
    (h : readReports w lib s = (.ok c, t)) :
    ∃ junit reward, testFiles w (containerName id .test) = .ok (junit, reward) ∧
      c.reward = some reward ∧ t.result.tests = reported lib junit ∧
      t.result.status = s.result.status := by
  obtain ⟨c', s₁, hcollect, h⟩ := Program.ok_of_bind h
  obtain ⟨_, s₂, hparse, h⟩ := Program.ok_of_bind h
  cases h
  obtain ⟨hcollect, hresult⟩ := onHost_ok hcollect
  obtain ⟨_, -, hcollected⟩ := collect_test (w := w) hs
  rw [hcollected] at hcollect
  cases hfiles : testFiles w (containerName id .test) with
  | error e =>
      rw [hfiles] at hcollect
      cases hcollect
  | ok files =>
      rw [hfiles] at hcollect
      obtain rfl := Except.ok.inj (congrArg Prod.fst hcollect)
      refine ⟨files.1, files.2, rfl, rfl, ?_⟩
      rw [parseTests_apply, Option.getD_some, hresult, parsed] at hparse
      rw [reported]
      cases hjunit : parseJunit lib files.1 with
      | ok tests =>
          rw [hjunit] at hparse
          cases hparse
          exact ⟨rfl, rfl⟩
      | error e =>
          rw [hjunit] at hparse
          dsimp only at hparse
          split at hparse
          · rename_i hif
            split at hif
            · cases hif
              cases hparse
              exact ⟨htests, rfl⟩
            · cases hif
          · cases hparse

/-- What an attempt holds when both phases are captured. -/
structure BothCaptured (w : Surroundings) (id : String) (o : Outcome) (test : Option Outcome)
    (s : EvalState) : Prop where
  agent : w.phase id .agent = .ok o
  status : s.result.status = .failed
  tests : s.result.tests = []
  untested : test = none → o.Failed
  tested : ∀ o', test = some o' → ¬o.Failed ∧ w.phase id .test = .ok o' ∧
    s.host.sandbox.current = some (containerName id .test)

theorem phases_ok {agent : Outcome} {test : Option Outcome} {s : EvalState}
    (h : phases w lib settings claim folder (start claim) = (.ok (agent, test), s)) :
    BothCaptured w (lib.idText claim.job.id) agent test s := by
  let g : ResultInput → ResultStatus × List TestInput := fun r => (r.status, r.tests)
  obtain ⟨_, s₁, h₁, h⟩ := Program.ok_of_bind h
  obtain ⟨agent', s₂, h₂, h⟩ := Program.ok_of_bind h
  obtain ⟨_, s₃, h₃, h⟩ := Program.ok_of_bind h
  obtain ⟨hagent, hjob₂, -⟩ := runAgent_ok (prepareInputs_ok h₁) h₂
  have hdictionary : g s₃.result = (.failed, []) :=
    ((frames_collectPatch (g := g) fun _ _ => rfl).apply h₃).trans
      (((frames_runAgent (g := g) (fun _ _ => rfl) fun _ _ _ => rfl).apply h₂).trans
        ((frames_prepareInputs (g := g) fun _ _ => rfl).apply h₁))
  have hjob₃ : jobOf s₃.host = some (lib.idText claim.job.id) := by
    refine (Program.Frames.apply (g := fun s => jobOf s.host) ?_ h₃).trans hjob₂
    exact .bind (frames_host (frames_collect fun _ _ => rfl)) fun _ => .modify fun _ => rfl
  split at h
  · rename_i hfailed
    cases h
    obtain ⟨hstatus, htests⟩ := Prod.mk.inj hdictionary
    exact ⟨hagent, hstatus, htests, fun _ => hfailed, nofun⟩
  · rename_i hpassed
    obtain ⟨o, s₄, h₄, h⟩ := Program.ok_of_bind h
    cases h
    obtain ⟨hphase, hcurrent, -⟩ := runTests_ok hjob₃ h₄
    have hdictionary₄ : g s.result = (.failed, []) :=
      ((frames_runTests (g := g) (fun _ _ => rfl) fun _ _ _ => rfl).apply h₄).trans hdictionary
    obtain ⟨hstatus, htests⟩ := Prod.mk.inj hdictionary₄
    refine ⟨hagent, hstatus, htests, nofun, fun o' ho' => ?_⟩
    obtain rfl := Option.some.inj ho'
    exact ⟨hpassed, hphase, hcurrent⟩

/-- What the findings and the dictionary hold when an attempt is about to be classified. -/
structure Findings.Seen (w : Surroundings) (lib : Libraries) (id : String) (f : Findings)
    (r : ResultInput) : Prop where
  agent : w.phase id .agent = .ok f.agent
  status : r.status = .failed
  untested : f.tests = none → f.agent.Failed
  tested : ∀ test c, f.tests = some (test, c) → ¬f.agent.Failed ∧ w.phase id .test = .ok test ∧
    ∃ junit reward, testFiles w (containerName id .test) = .ok (junit, reward) ∧
      c.reward = some reward ∧ r.tests = reported lib junit

theorem gather_ok {f : Findings} {s : EvalState}
    (h : gather w lib settings claim folder (start claim) = (.ok f, s)) :
    f.Seen w lib (lib.idText claim.job.id) s.result := by
  obtain ⟨⟨agent, test⟩, t, hphases, h⟩ := Program.ok_of_bind h
  have hboth := phases_ok hphases
  cases test with
  | none =>
      cases h
      exact ⟨hboth.agent, hboth.status, fun _ => hboth.untested rfl, nofun⟩
  | some test =>
      obtain ⟨hpassed, hphase, hcurrent⟩ := hboth.tested test rfl
      obtain ⟨c, u, hreports, h⟩ := Program.ok_of_bind h
      cases h
      obtain ⟨junit, reward, hfiles, hreward, hreported, hstatus⟩ :=
        readReports_ok hcurrent hboth.tests hreports
      refine ⟨hboth.agent, hstatus.trans hboth.status, nofun, ?_⟩
      rintro test' c' heq
      cases heq
      exact ⟨hpassed, hphase, junit, reward, hfiles, hreward, hreported⟩

/-! ## The verdict -/

/-- Both phases and every test succeeded, and the reward satisfies `P`. -/
structure Passes (w : Surroundings) (lib : Libraries) (id : String) (P : Bytes → Prop) : Prop where
  agent : ∃ o, w.phase id .agent = .ok o ∧ ¬o.Failed
  test : ∃ o, w.phase id .test = .ok o ∧ ¬o.Failed
  reports : ∃ junit reward tests, testFiles w (containerName id .test) = .ok (junit, reward) ∧
    parseJunit lib junit = .ok tests ∧ tests ≠ [] ∧ (∀ t ∈ tests, t.status ≠ .failed) ∧
    P (stripBytes reward)

theorem classify_completed {test : Outcome} {reward : Bytes} {r : ResultInput}
    (hr : r.status = .failed) :
    (classify test reward r).status = .completed ↔
      ¬test.Failed ∧ r.tests ≠ [] ∧ (∀ t ∈ r.tests, t.status ≠ .failed) ∧
        stripBytes reward ≠ ascii "0" := by
  have hundecided : r.status ≠ .completed := by
    rw [hr]
    decide
  unfold classify
  split
  · rename_i hended
    exact ⟨nofun, fun h => absurd (Or.inr hended) h.1⟩
  · rename_i hended
    split
    · rename_i hempty
      exact ⟨fun h => absurd h hundecided, fun h => absurd hempty h.2.1⟩
    · rename_i htests
      split
      · rename_i hfailure
        refine ⟨fun h => absurd h hundecided, ?_⟩
        rintro ⟨hpassed, -, hnone, hreward⟩
        rcases hfailure with hexit | ⟨t, ht, hfailed⟩ | hzero
        · exact absurd (Or.inl hexit) hpassed
        · exact absurd hfailed (hnone t ht)
        · exact absurd hzero hreward
      · rename_i hsuccess
        obtain ⟨hexit, hrest⟩ := not_or.mp hsuccess
        obtain ⟨hnone, hreward⟩ := not_or.mp hrest
        refine ⟨fun _ => ⟨?_, htests, fun t ht hfailed => hnone ⟨t, ht, hfailed⟩, hreward⟩,
          fun _ => rfl⟩
        rintro (h | h)
        · exact hexit h
        · exact hended h

/-- The dictionary after the classification. -/
def Findings.verdict (f : Findings) (r : ResultInput) : ResultInput :=
  match f.tests with
  | none =>
      if f.agent.timedOut ∨ f.agent.cancelled then r.timeout
      else { r with failureType := some .agentFailure }
  | some (test, collected) => classify test (collected.reward.getD []) r

theorem conclude_result (f : Findings) (s : EvalState) :
    (conclude w f s).2.result = f.verdict s.result := by
  unfold conclude Findings.verdict
  rcases f.tests with - | ⟨test, collected⟩
  · dsimp only
    split <;> rfl
  · dsimp only
    rw [Program.bind_ok (setResult_apply _)]
    split <;> rfl

/-- Neither the handlers nor the `finally` block change the status. -/
theorem evaluate_status {f : Findings} {s : EvalState} (hreach : w.workspace = .ok ())
    (h : gather w lib settings claim folder (start claim) = (.ok f, s)) :
    (evaluate w lib settings claim folder (start claim)).2.result.status =
      (f.verdict s.result).status := by
  rw [evaluate_result (g := ResultInput.status) hreach fun _ => rfl, handled, Program.handle,
    attempt_eq, Program.bind_ok h]
  have hverdict := congrArg ResultInput.status (conclude_result (w := w) f s)
  rcases hconclude : conclude w f s with ⟨e | _, t⟩ <;> rw [hconclude] at hverdict
  · exact (frames_recover e (g := ResultInput.status) (fun _ _ => rfl) (fun _ _ => rfl)
      (fun _ _ => rfl) (fun _ _ => rfl) t).trans hverdict
  · exact hverdict

theorem completed_iff {f : Findings} {s : EvalState} (hreach : w.workspace = .ok ())
    (h : gather w lib settings claim folder (start claim) = (.ok f, s)) :
    (evaluate w lib settings claim folder (start claim)).2.result.status = .completed ↔
      Passes w lib (lib.idText claim.job.id) (· ≠ ascii "0") := by
  have hseen := gather_ok h
  rw [evaluate_status hreach h, Findings.verdict]
  cases htests : f.tests with
  | none =>
      have hfailed := hseen.untested htests
      dsimp only
      constructor
      · intro hcompleted
        split at hcompleted
        · cases hcompleted
        · exact nomatch hseen.status.symm.trans hcompleted
      · rintro ⟨⟨o, ho, hpassed⟩, -, -⟩
        obtain rfl := Except.ok.inj (hseen.agent.symm.trans ho)
        exact absurd hfailed hpassed
  | some found =>
      obtain ⟨test, c⟩ := found
      obtain ⟨hagent, htest, junit, reward, hfiles, hreward, hreported⟩ :=
        hseen.tested test c htests
      dsimp only
      rw [classify_completed hseen.status, hreported, hreward, Option.getD_some]
      constructor
      · rintro ⟨hpassed, hne, hnone, hzero⟩
        refine ⟨⟨_, hseen.agent, hagent⟩, ⟨test, htest, hpassed⟩, junit, reward, ?_⟩
        unfold reported at hne hnone
        cases hparse : parseJunit lib junit with
        | error e =>
            rw [hparse] at hne
            exact absurd rfl hne
        | ok tests =>
            rw [hparse] at hne hnone
            exact ⟨tests, hfiles, rfl, hne, hnone, hzero⟩
      · rintro ⟨-, ⟨o, ho, hpassed⟩, junit', reward', tests, hfiles', hparse, hne, hnone, hzero⟩
        obtain rfl := Except.ok.inj (htest.symm.trans ho)
        obtain ⟨rfl, rfl⟩ := Prod.mk.inj (Except.ok.inj (hfiles.symm.trans hfiles'))
        rw [reported, hparse]
        exact ⟨hpassed, hne, hnone, hzero⟩

/-! ## Zero -/

/-- An optional sign is taken off. -/
def unsigned : Bytes → Bytes
  | 43 :: rest => rest
  | 45 :: rest => rest
  | text => text

/-- Nothing, or the exponent of a numeral. -/
def isExponent : Bytes → Bool
  | [] => true
  | e :: rest =>
      decide (e = 69 ∨ e = 101) && !(unsigned rest).isEmpty
        && (unsigned rest).all fun b => 48 ≤ b ∧ b ≤ 57

/-- A decimal numeral for zero: a sign or none, zeros with at most one point among them,
and whatever exponent. -/
def isZeroNumeral (text : Bytes) : Bool :=
  let whole := (unsigned text).takeWhile (· = 48)
  let rest := (unsigned text).dropWhile (· = 48)
  match rest with
  | 46 :: rest =>
      let fraction := rest.takeWhile (· = 48)
      !(whole ++ fraction).isEmpty && isExponent (rest.dropWhile (· = 48))
  | rest => !whole.isEmpty && isExponent rest

example : ["0", "00", "0.0", "-0", ".0", "0e5"].all (fun s => isZeroNumeral (ascii s)) := by decide

example : ["", "1", "0.5", ".", "0x", "e1"].all (fun s => !isZeroNumeral (ascii s)) := by decide

section Passes

variable {id : String} {P Q : Bytes → Prop}

theorem Passes.imp (h : Passes w lib id P) (hPQ : ∀ reward, P reward → Q reward) :
    Passes w lib id Q := by
  obtain ⟨hagent, htest, junit, reward, tests, hfiles, hparse, hne, hnone, hP⟩ := h
  exact ⟨hagent, htest, junit, reward, tests, hfiles, hparse, hne, hnone, hPQ _ hP⟩

theorem Passes.split (h : Passes w lib id P) (Q : Bytes → Prop) :
    Passes w lib id (fun reward => P reward ∧ Q reward) ∨
      Passes w lib id fun reward => P reward ∧ ¬Q reward := by
  obtain ⟨hagent, htest, junit, reward, tests, hfiles, hparse, hne, hnone, hP⟩ := h
  by_cases hQ : Q (stripBytes reward)
  · exact Or.inl ⟨hagent, htest, junit, reward, tests, hfiles, hparse, hne, hnone, hP, hQ⟩
  · exact Or.inr ⟨hagent, htest, junit, reward, tests, hfiles, hparse, hne, hnone, hP, hQ⟩

/-- There is one reward. -/
theorem Passes.both (hP : Passes w lib id P) (hQ : Passes w lib id Q) :
    ∃ reward, P reward ∧ Q reward := by
  obtain ⟨-, -, junit, reward, tests, hfiles, -, -, -, hreward⟩ := hP
  obtain ⟨-, -, junit', reward', tests', hfiles', -, -, -, hreward'⟩ := hQ
  obtain ⟨-, rfl⟩ := Prod.mk.inj (Except.ok.inj (hfiles.symm.trans hfiles'))
  exact ⟨_, hreward, hreward'⟩

theorem passes_iff : (Passes w lib id (· ≠ ascii "0") ↔
      Passes w lib id fun reward => ¬isZeroNumeral reward) ↔
    ¬Passes w lib id fun reward => isZeroNumeral reward ∧ reward ≠ ascii "0" := by
  constructor
  · intro hmeets hmissed
    obtain ⟨reward, hnot, hzero, -⟩ :=
      (hmeets.mp (hmissed.imp fun _ h => h.2)).both hmissed
    exact hnot hzero
  · intro hmissed
    constructor
    · intro h
      rcases h.split fun reward => isZeroNumeral reward with hzero | hnot
      · exact absurd (hzero.imp fun _ h => h.symm) hmissed
      · exact hnot.imp fun _ h => h.2
    · refine fun h => h.imp fun reward hnot hspelled => ?_
      rw [hspelled] at hnot
      exact hnot (by decide)

end Passes

/-- **False successes.** An attempt that is classified is reported as completed exactly when
both phases, all tests and the reward are in order, unless only the reward is not, and is a
zero that is not spelled `0`. -/
theorem no_false_success {f : Findings} {s : EvalState} (hreach : w.workspace = .ok ())
    (h : gather w lib settings claim folder (start claim) = (.ok f, s)) :
    ((evaluate w lib settings claim folder (start claim)).2.result.status = .completed ↔
      Passes w lib (lib.idText claim.job.id) fun reward => ¬isZeroNumeral reward) ↔
    ¬Passes w lib (lib.idText claim.job.id) fun reward =>
      isZeroNumeral reward ∧ reward ≠ ascii "0" := by
  rw [completed_iff hreach h]
  exact passes_iff

/-! ## Rewards -/

/-- In a world that works, everything is gathered unless an artifact is illegible. -/
theorem gather_works (hw : w.Works lib claim) (settings : WorkerSettings) (folder : String)
    {o : Outcome} {patch : String}
    (ho : w.phase (lib.idText claim.job.id) .agent = .ok o) (hpassed : ¬o.Failed)
    (hpatch : readPatch w (containerName (lib.idText claim.job.id) .agent) = .ok patch)
    {test : Outcome} (htest : w.phase (lib.idText claim.job.id) .test = .ok test)
    {files : Bytes × Bytes}
    (hfiles : testFiles w (containerName (lib.idText claim.job.id) .test) = .ok files)
    {tests : List TestInput} (hparse : parseJunit lib files.1 = .ok tests) :
    ∃ f s, gather w lib settings claim folder (start claim) = (.ok f, s) := by
  obtain ⟨imageId, s, -, hready, -, hattempt⟩ := attempt_apply settings hw folder ho
  obtain ⟨t, -, htestPhase⟩ := testPhase_apply settings hw (hw.test o patch ho hpassed hpatch)
    (s := { s with result := { s.result with patch } }) hready htest
  obtain ⟨hexit, hended⟩ := not_or.mp hpassed
  rw [hpatch] at hattempt
  dsimp only at hattempt
  rw [if_neg hended, if_neg hexit, attempt_eq] at hattempt
  replace hattempt := hattempt.trans htestPhase
  rw [hfiles] at hattempt
  dsimp only [parsed] at hattempt
  rw [hparse] at hattempt
  obtain ⟨f, s', hgather, -⟩ := Program.ok_of_bind hattempt
  exact ⟨f, s', hgather⟩

/-- The report of one test that passed. -/
def passedJunit : Bytes := ascii "<testsuite><testcase name=\"a\"/></testsuite>"

def passedLibraries : Libraries :=
  .plain (.ok (.node "testsuite" [] none [.node "testcase" [("name", "a")] none []])) (.ok 0)

theorem passedJunit_tests : ∃ t, parseJunit passedLibraries passedJunit = .ok [t] ∧
    t.status = .passed := by
  rw [parseJunit, if_neg (by decide)]
  exact ⟨_, rfl, rfl⟩

/-- A machine whose verifier writes this reward. -/
def rewarding (reward : Bytes) : Surroundings :=
  .plain .built fun _ =>
    { files := [(patchFile, []), (junitFile, passedJunit), (rewardFile, reward)] }

section Rewarding

variable (reward : Bytes) (hlength : reward.length ≤ 100)

theorem rewarding_works : (rewarding reward).Works passedLibraries (.plain passedLibraries) :=
  Surroundings.plain_works (answering_succeeds _) _

theorem rewarding_phase (mode : SandboxMode) :
    ∃ o, (rewarding reward).phase (passedLibraries.idText 1) mode = .ok o ∧ ¬o.Failed :=
  ⟨_, Surroundings.plain_phase _ _, EndedContainer.not_failed rfl⟩

include hlength

theorem rewarding_files (name : String) :
    testFiles (rewarding reward) name = .ok (passedJunit, reward) :=
  testFiles_of (Surroundings.plain_file (by decide) (by rfl) (by decide) (by decide))
    (Surroundings.plain_file (by decide) (by rfl) hlength (by decide))

theorem rewarding_gathered :
    ∃ f s, gather (rewarding reward) passedLibraries {} (.plain passedLibraries) "workspace"
      (start (.plain passedLibraries)) = (.ok f, s) := by
  obtain ⟨agent, hagent, hpassed⟩ := rewarding_phase reward .agent
  obtain ⟨test, htest, -⟩ := rewarding_phase reward .test
  obtain ⟨t, hparse, -⟩ := passedJunit_tests
  have hpatch : ∀ name, readPatch (rewarding reward) name = .ok "" := fun name =>
    readPatch_of (Surroundings.plain_file (by decide) (by rfl) (by decide) (by decide)) rfl
  exact gather_works (rewarding_works reward) {} "workspace" hagent hpassed (hpatch _) htest
    (rewarding_files reward hlength _) hparse

/-- What is asked of the reward decides. -/
theorem rewarding_passes {P : Bytes → Prop} :
    Passes (rewarding reward) passedLibraries (passedLibraries.idText 1) P ↔
      P (stripBytes reward) := by
  constructor
  · rintro ⟨-, -, junit, reward', tests, hfiles, -, -, -, hP⟩
    obtain ⟨-, rfl⟩ := Prod.mk.inj
      (Except.ok.inj ((rewarding_files reward hlength _).symm.trans hfiles))
    exact hP
  · intro hP
    obtain ⟨t, hparse, hpassed⟩ := passedJunit_tests
    refine ⟨rewarding_phase reward .agent, rewarding_phase reward .test, passedJunit, reward, [t],
      rewarding_files reward hlength _, hparse, by simp, ?_, hP⟩
    intro t' ht'
    rw [List.mem_singleton.mp ht', hpassed]
    decide

end Rewarding

/-- A machine whose verifier writes `0.0`. -/
abbrev zeroPointZero : Surroundings := rewarding (ascii "0.0\n")

/-- With a reward of `0.0` the attempt is reported as completed. -/
theorem zero_reward_completed :
    ∃ f s, gather zeroPointZero passedLibraries {} (.plain passedLibraries) "workspace"
        (start (.plain passedLibraries)) = (.ok f, s) ∧
      ¬((evaluate zeroPointZero passedLibraries {} (.plain passedLibraries) "workspace"
          (start (.plain passedLibraries))).2.result.status = .completed ↔
        Passes zeroPointZero passedLibraries (passedLibraries.idText 1)
          fun reward => ¬isZeroNumeral reward) := by
  obtain ⟨f, s, hgather⟩ := rewarding_gathered (ascii "0.0\n") (by decide)
  refine ⟨f, s, hgather, ?_⟩
  rw [completed_iff (rewarding_works _).workspace hgather]
  exact fun h => passes_iff.mp h ((rewarding_passes _ (by decide)).mpr (by decide))

/-- With `0.0` the verdict is wrong, with `1.0` it is right. -/
theorem no_false_success_rewards :
    (∃ f s, gather zeroPointZero passedLibraries {} (.plain passedLibraries) "workspace"
        (start (.plain passedLibraries)) = (.ok f, s) ∧
      (((evaluate zeroPointZero passedLibraries {} (.plain passedLibraries) "workspace"
          (start (.plain passedLibraries))).2.result.status = .completed ↔
        Passes zeroPointZero passedLibraries (passedLibraries.idText 1)
          fun reward => ¬isZeroNumeral reward) ↔
      ¬Passes zeroPointZero passedLibraries (passedLibraries.idText 1)
        fun reward => isZeroNumeral reward ∧ reward ≠ ascii "0")) ∧
    ∃ f s, gather (rewarding (ascii "1.0\n")) passedLibraries {} (.plain passedLibraries)
        "workspace" (start (.plain passedLibraries)) = (.ok f, s) ∧
      ((evaluate (rewarding (ascii "1.0\n")) passedLibraries {} (.plain passedLibraries)
          "workspace" (start (.plain passedLibraries))).2.result.status = .completed ↔
        Passes (rewarding (ascii "1.0\n")) passedLibraries (passedLibraries.idText 1)
          fun reward => ¬isZeroNumeral reward) := by
  obtain ⟨f, s, hgather⟩ := rewarding_gathered (ascii "0.0\n") (by decide)
  obtain ⟨f', s', hgather'⟩ := rewarding_gathered (ascii "1.0\n") (by decide)
  refine ⟨⟨f, s, hgather, no_false_success (rewarding_works _).workspace hgather⟩, f', s', hgather',
    (no_false_success (rewarding_works _).workspace hgather').mpr fun hzero => ?_⟩
  exact absurd ((rewarding_passes _ (by decide)).mp hzero) (by decide)

end AgentBenchX
