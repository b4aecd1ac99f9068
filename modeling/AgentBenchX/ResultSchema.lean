import AgentBenchX.Plain

/-!
# The evaluator's payloads and the schema of the API

The worker fills the result dictionary along many paths, from bytes a
container controls; the API checks each field on its own. `Fits` is the
invariant between the two: every field of the dictionary is within the
bounds of the schema at every point of an evaluation, whatever raises
where, except for two texts that are copied without a bound: the image
id, and the message of a `ValueError` out of `parse_junit`. Their lengths
decide whether the payload validates (`result_schema`).
-/

namespace AgentBenchX

open DockerSandbox Evaluator

/-! ## What the schema asks of a dictionary -/

@[simp] theorem maxLength_eq_nil {loc : List String} {n : ℕ} {s : String} :
    maxLength loc n s = [] ↔ s.length ≤ n := by
  unfold maxLength
  split <;> simp [*]

@[simp] theorem maxItems_eq_nil {α : Type} {loc : List String} {n : ℕ}
    {items : List α → List FieldError} {l : List α} :
    maxItems loc n items l = [] ↔ l.length ≤ n ∧ items l = [] := by
  unfold maxItems
  split <;> simp [*]

@[simp] theorem geZero_eq_nil {loc : List String} {i : ℤ} : geZero loc i = [] ↔ 0 ≤ i := by
  unfold geZero
  split <;> simp [*]

@[simp] theorem finiteGeZero_eq_nil {loc : List String} {x : PyFloat} :
    finiteGeZero loc x = [] ↔ ∃ q : ℚ, x = .finite q ∧ 0 ≤ q := by
  cases x with
  | finite q => simp [finiteGeZero, PyFloat.isFinite, PyFloat.isNegative]
  | inf negative => simp [finiteGeZero, PyFloat.isFinite]
  | nan => simp [finiteGeZero, PyFloat.isFinite]

@[simp] theorem whenSome_eq_nil {α : Type} {check : α → List FieldError} {x : Option α} :
    whenSome check x = [] ↔ ∀ a, x = some a → check a = [] := by
  cases x <;> simp [whenSome]

theorem ResultInput.valid_iff {r : ResultInput} :
    r.Valid ↔ r.fieldErrors = [] ∧ r.consistentStatus = [] := by
  unfold ResultInput.Valid ResultInput.validate
  split
  · split <;> simp_all
  · simp_all

/-- The rules on status and failure type, as the evaluator keeps them. -/
structure ResultInput.Consistent (r : ResultInput) : Prop where
  completed : r.status = .completed → r.failureType = none ∧ ∀ t ∈ r.tests, t.status ≠ .failed
  failed : r.status ≠ .completed → r.failureType ≠ none
  timeout : r.status = .timeout → r.failureType = some .timeout

theorem ResultInput.Consistent.status {r : ResultInput} (h : r.Consistent) :
    r.consistentStatus = [] := by
  unfold ResultInput.consistentStatus
  split
  · rename_i hc
    obtain ⟨hnone, htests⟩ := h.completed hc.1
    rcases hc.2 with hsome | ⟨t, ht, hfailed⟩
    · rw [hnone] at hsome
      cases hsome
    · exact absurd hfailed (htests t ht)
  · split
    · rename_i hf
      exact absurd hf.2 (h.failed hf.1)
    · split
      · rename_i ht
        exact absurd (h.timeout ht.1) ht.2
      · rfl

/-- The rules see only the status, the failure type and the tests. -/
theorem ResultInput.Consistent.same {r r' : ResultInput} (h : r.Consistent)
    (hs : r'.status = r.status) (hf : r'.failureType = r.failureType) (ht : r'.tests = r.tests) :
    r'.Consistent := by
  refine ⟨?_, ?_, ?_⟩ <;> rw [hs, hf]
  · rw [ht]
    exact h.completed
  · exact h.failed
  · exact h.timeout

/-! ## The invariant of an evaluation -/

/-- The image was built: docker can inspect it. -/
def Built (image : Ended) : Prop := ¬(Process.run 500000 image).Failed

/-- The image id docker answers when its inspection ends so. -/
def imageIdOf (image : Ended) : String := strip (Process.run 500000 image).stdout

/-- The text the evaluator reports when the parser refuses the JUnit file. -/
def Refused (lib : Libraries) (junit : Bytes) (text : String) : Prop :=
  ∃ e, parseJunit lib junit = .error e ∧ e.isValueError ∧ e.text = text

section
variable (lib : Libraries) (image : Ended) (junit : Bytes)

structure ProcessEvidence.Fits (p : ProcessEvidence) : Prop where
  runtime : ∃ q : ℚ, p.runtimeSeconds = .finite q ∧ 0 ≤ q

structure ExecutionEvidence.Fits (x : ExecutionEvidence) : Prop where
  agent : ∀ p, x.agent = some p → p.Fits
  test : ∀ p, x.test = some p → p.Fits
  /-- The two texts the evaluator does not bound. -/
  imageId : ∀ id, x.imageId = some id → Built image ∧ id = imageIdOf image
  error : ∀ text, x.error = some text → text.length ≤ 10000 ∨ Built image ∧ Refused lib junit text

structure ResultInput.Fits (r : ResultInput) : Prop where
  metrics : r.metrics.fieldErrors = []
  execution : ∀ x, r.execution = some x → x.Fits lib image junit
  count : r.tests.length ≤ 10000
  tests : ∀ t ∈ r.tests, t.Fits
  stdout : r.stdout.length ≤ 1000000
  stderr : r.stderr.length ≤ 1000000
  agentOutput : r.agentOutput.length ≤ 1000000
  patch : r.patch.length ≤ 2000000
  consistent : r.Consistent

end

variable {lib : Libraries} {image : Ended} {junit : Bytes}

theorem TestInput.Fits.fieldErrors {t : TestInput} (h : t.Fits) (loc : List String) :
    t.fieldErrors loc = [] := by
  simp only [TestInput.fieldErrors, List.append_eq_nil_iff, maxLength_eq_nil, finiteGeZero_eq_nil]
  exact ⟨⟨h.name, h.duration⟩, h.message⟩

theorem testErrors_eq_nil {tests : List TestInput} (h : ∀ t ∈ tests, t.Fits) :
    testErrors tests = [] := by
  rw [testErrors, List.flatMap_eq_nil_iff]
  intro p hp
  exact (h p.1 (List.fst_mem_of_mem_zipIdx hp)).fieldErrors _

/-- A dictionary that fits validates, unless one of the two texts is too long. -/
theorem ResultInput.Fits.valid {r : ResultInput} (h : r.Fits lib image junit)
    (hshort : Built image → (imageIdOf image).length ≤ 200 ∧
      ∀ text, Refused lib junit text → text.length ≤ 10000) : r.Valid := by
  refine ResultInput.valid_iff.mpr ⟨?_, h.consistent.status⟩
  simp only [ResultInput.fieldErrors, List.append_eq_nil_iff, maxLength_eq_nil, maxItems_eq_nil,
    whenSome_eq_nil]
  refine ⟨⟨⟨⟨⟨⟨h.metrics, fun x hx => ?_⟩, h.count, testErrors_eq_nil h.tests⟩, h.stdout⟩,
    h.stderr⟩, h.agentOutput⟩, h.patch⟩
  have hx := h.execution x hx
  simp only [ExecutionEvidence.fieldErrors, ProcessEvidence.fieldErrors, List.append_eq_nil_iff,
    whenSome_eq_nil, maxLength_eq_nil, finiteGeZero_eq_nil]
  refine ⟨⟨⟨fun p hp => (hx.agent p hp).runtime, fun p hp => (hx.test p hp).runtime⟩,
    fun id hid' => ?_⟩, fun text htext => ?_⟩
  · obtain ⟨hbuilt, rfl⟩ := hx.imageId id hid'
    exact (hshort hbuilt).1
  · rcases hx.error text htext with hle | ⟨hbuilt, hrefused⟩
    · exact hle
    · exact (hshort hbuilt).2 text hrefused

/-! ## The sandbox

What a sandbox method can change of the host as far as the invariant sees
it: only `prepare` sets the image id, to what docker answered. And no
method raises an `InputError`. -/

/-- What docker answers in this world about the image and the JUnit file. -/
structure Surroundings.Serves (w : Surroundings) (image : Ended) (junit : Bytes) : Prop where
  image : ∀ name e, w.docker ["image", "inspect", "--format", template ".Id", name] = .ok e →
    e = image
  junit : ∀ name data, copiedFile w name junitFile 5000000 = .ok data → data = junit

def HostFits (image : Ended) (h : Host) : Prop :=
  ∀ id, h.sandbox.imageId = some id → Built image ∧ id = imageIdOf image

def Exn.NotInput (e : Exn) : Prop := ∀ fault, e ≠ .inputError fault

theorem Exn.notInput_other (e : OtherError) : (Exn.other e).NotInput := fun _ h => by cases h

theorem keeps_answer {σ α : Type} {I : σ → Prop} (answer : Except OtherError α) :
    Program.Keeps I (external answer : Program Exn σ α) (fun a => answer = .ok a)
      fun e => ∃ o, answer = .error o ∧ e = .other o := by
  refine Program.Keeps.lift (fun a ha => ?_) fun e he => ?_
  · cases answer with
    | error o => cases ha
    | ok b => rw [Except.ok.inj ha]
  · cases answer with
    | error o => exact ⟨o, rfl, (Except.error.inj he).symm⟩
    | ok b => cases he

theorem keeps_external {σ α : Type} {I : σ → Prop} (answer : Except OtherError α) :
    Program.Keeps I (external answer : Program Exn σ α) (fun a => answer = .ok a) Exn.NotInput := by
  refine (keeps_answer answer).weaken (fun _ ha => ha) ?_
  rintro _ ⟨o, -, rfl⟩
  exact Exn.notInput_other o

theorem keeps_sandboxError {σ α : Type} {I : σ → Prop} {V : α → Prop} (text : String) :
    Program.Keeps I (sandboxError text : Program Exn σ α) V Exn.NotInput :=
  Program.Keeps.raise (Exn.notInput_other _)

section Sandbox

variable {w : Surroundings} {settings : WorkerSettings}

theorem keeps_run (argv : List String) :
    Program.Keeps (HostFits image) (run w argv)
      (fun o => ∃ e, w.docker argv = .ok e ∧ o = Process.run 500000 e) Exn.NotInput := by
  refine (Program.Keeps.modify fun h hh => hh).bind fun _ _ =>
    (keeps_external _).weaken (fun o ho => ?_) fun _ he => he
  cases hanswer : w.docker argv with
  | error e =>
      rw [hanswer] at ho
      cases ho
  | ok e =>
      rw [hanswer] at ho
      exact ⟨e, rfl, (Except.ok.inj ho).symm⟩

theorem keeps_checked (argv : List String) :
    Program.Keeps (HostFits image) (checked w argv)
      (fun o => ∃ e, w.docker argv = .ok e ∧ ¬(Process.run 500000 e).Failed ∧
        o = Process.run 500000 e) Exn.NotInput := by
  refine (keeps_run argv).bind fun o ho => ?_
  obtain ⟨e, he, rfl⟩ := ho
  split
  · exact keeps_sandboxError _
  · rename_i hsucceeded
    exact Program.Keeps.pure ⟨e, he, hsucceeded, rfl⟩

theorem keeps_update {f : Sandbox → Sandbox} (hf : ∀ s, (f s).imageId = s.imageId) :
    Program.Keeps (HostFits image) (update f) (fun _ => True) Exn.NotInput :=
  Program.Keeps.modify fun h hh id hid => hh id ((hf h.sandbox).symm.trans hid)

theorem keeps_writeText (path text : String) :
    Program.Keeps (HostFits image) (writeText w path text) (fun _ => True) Exn.NotInput := by
  have hset : ∀ content, Program.Keeps (HostFits image) (setFile path content) (fun _ => True)
      Exn.NotInput := fun _ => Program.Keeps.modify fun _ hh => hh
  unfold writeText
  split
  · exact hset _
  · exact Program.Keeps.raise (Exn.notInput_other _)
  · exact (hset _).bind fun _ _ => Program.Keeps.raise (Exn.notInput_other _)

theorem keeps_preflight :
    Program.Keeps (HostFits image) (preflight w) (fun _ => True) Exn.NotInput := by
  unfold preflight
  split
  · exact keeps_sandboxError _
  · split
    · exact keeps_sandboxError _
    · refine (keeps_checked _).bind fun endpoint _ => ?_
      split
      · exact keeps_sandboxError _
      · exact (keeps_checked _).bind fun _ _ => Program.Keeps.pure trivial

theorem keeps_create (jobId : String) :
    Program.Keeps (HostFits image) (create w jobId) (fun _ => True) Exn.NotInput :=
  keeps_preflight.bind fun _ _ => keeps_update fun _ => rfl

theorem keeps_prepare (hw : w.Serves image junit) (sandboxId folder : String) :
    Program.Keeps (HostFits image) (prepare w settings sandboxId folder) (fun _ => Built image)
      Exn.NotInput := by
  unfold prepare
  refine (keeps_update fun _ => by rfl).bind fun _ _ => ?_
  refine (keeps_external _).bind fun _ _ => (keeps_external _).bind fun _ _ =>
    (keeps_external _).bind fun _ _ => (keeps_external _).bind fun instruction _ => ?_
  refine (keeps_writeText _ _).bind fun _ _ => Program.Keeps.read.bind fun h _ => ?_
  refine (keeps_run _).bind fun build _ => (keeps_writeText _ _).bind fun _ _ =>
    (keeps_writeText _ _).bind fun _ _ => ?_
  split
  · exact keeps_sandboxError _
  · refine (keeps_checked _).bind fun o ho => ?_
    obtain ⟨e, he, hbuilt, rfl⟩ := ho
    obtain rfl := hw.image _ e he
    refine Program.Keeps.bind (V := fun _ => True)
      (Program.Keeps.modify fun h _ id hid => ⟨hbuilt, (Option.some.inj hid).symm⟩) fun _ _ => ?_
    refine (keeps_checked _).bind fun workdir _ => ?_
    split
    · exact keeps_sandboxError _
    · exact Program.Keeps.pure hbuilt

theorem keeps_stop (name : String) :
    Program.Keeps (HostFits image) (stop w name) (fun _ => True) Exn.NotInput := by
  refine (keeps_run _).bind fun _ _ => (keeps_run _).bind fun o _ => ?_
  split
  · exact Program.Keeps.pure trivial
  · exact Program.Keeps.raise fun _ h => by cases h

theorem keeps_execute (mode : SandboxMode) :
    Program.Keeps (HostFits image) (execute w settings mode) Outcome.Bounded Exn.NotInput := by
  refine Program.Keeps.read.bind fun h _ => ?_
  dsimp only
  split
  · exact keeps_sandboxError _
  · split
    · exact keeps_sandboxError _
    · refine (keeps_update fun _ => by rfl).bind fun _ _ => (keeps_checked _).bind fun _ _ =>
        (keeps_update fun _ => by rfl).bind fun _ _ => (keeps_run _).bind fun o ho => ?_
      obtain ⟨e, -, rfl⟩ := ho
      refine (keeps_stop _).bind fun _ _ => (keeps_run _).bind fun state _ =>
        (keeps_external _).bind fun exitCode _ => Program.Keeps.pure ?_
      exact ⟨(Process.run_bounded e).stdout, (Process.run_bounded e).stderr,
        (Process.run_bounded e).runtime⟩

theorem ok_of_mapError {α : Type} {x : Except OtherError α} {a : α}
    (h : x.mapError Exn.other = .ok a) : x = .ok a := by
  cases x with
  | error e => cases h
  | ok b => rw [Except.ok.inj h]

/-- An artifact is at most as long as its limit. -/
theorem length_copiedFile {name filename : String} {limit : ℕ} {data : Bytes}
    (h : copiedFile w name filename limit = .ok data) : data.length ≤ limit := by
  obtain ⟨process, -, h⟩ := ok_of_bind h
  dsimp only at h
  split at h
  · cases h
  · obtain ⟨exit, -, h⟩ := ok_of_bind h
    split at h
    · obtain rfl := Except.ok.inj h
      exact Nat.zero_le _
    · obtain ⟨members, -, h⟩ := ok_of_bind h
      split at h
      · rename_i entry
        split at h
        · cases h
        · rename_i hentry
          simp only [Bool.or_eq_true, decide_eq_true_eq, not_or, not_lt] at hentry
          rw [entry.content_size data (ok_of_mapError h)]
          exact hentry.2
      · cases h

theorem length_decodeText {data : Bytes} {text : String} (h : decodeText data = .ok text) :
    text.length ≤ data.length := by
  unfold decodeText at h
  split at h
  · rename_i text hdecode
    obtain rfl := Except.ok.inj h
    exact Utf8.length_of_decode hdecode
  · cases h

/-- The artifacts `collect` returns. -/
structure Collected.Fits (junit : Bytes) (c : Collected) : Prop where
  patch : (c.patch.getD "").length ≤ 2000000
  junit : c.junit = none ∨ c.junit = some junit

theorem keeps_artifact {α : Type} {I : Host → Prop} {x : Except Exn α}
    (hx : ∀ e, x = .error e → ∃ o, e = .other o) :
    Program.Keeps I (Program.lift x) (fun a => x = .ok a) Exn.NotInput := by
  refine Program.Keeps.lift (fun _ ha => ha) fun e he => ?_
  obtain ⟨o, rfl⟩ := hx e he
  exact Exn.notInput_other o

theorem keeps_readFile (name filename : String) (limit : ℕ) :
    Program.Keeps (HostFits image) (readFile w name filename limit)
      (fun data => copiedFile w name filename limit = .ok data) Exn.NotInput :=
  Program.Keeps.bind (V := fun _ => True) (Program.Keeps.modify fun _ hh => hh) fun _ _ =>
    keeps_artifact fun _ => other_copiedFile

theorem keeps_collect (hw : w.Serves image junit) :
    Program.Keeps (HostFits image) (collect w) (Collected.Fits junit) Exn.NotInput := by
  refine Program.Keeps.read.bind fun h _ => ?_
  split
  · exact Program.Keeps.pure ⟨Nat.zero_le _, Or.inl rfl⟩
  · rename_i name _
    split
    · refine (keeps_readFile _ _ _).bind fun data hdata => ?_
      refine (keeps_artifact fun _ => other_decodeText).bind fun patch hpatch => ?_
      exact Program.Keeps.pure
        ⟨(length_decodeText hpatch).trans (length_copiedFile hdata), Or.inl rfl⟩
    · refine (keeps_readFile _ _ _).bind fun data hdata => ?_
      refine (keeps_readFile _ _ _).bind fun reward _ => ?_
      exact Program.Keeps.pure ⟨Nat.zero_le _, Or.inr (congrArg some (hw.junit name data hdata))⟩

theorem keeps_removeAll (names : List String) :
    Program.Keeps (HostFits image) (removeAll w names) (fun _ => True) Exn.NotInput := by
  induction names with
  | nil => exact Program.Keeps.pure trivial
  | cons name names ih =>
      refine (keeps_run _).bind fun removed _ => ih.bind fun failures _ => ?_
      split
      · exact Program.Keeps.pure trivial
      · exact Program.Keeps.pure trivial

theorem keeps_destroy :
    Program.Keeps (HostFits image) (destroy w) (fun _ => True) Exn.NotInput := by
  refine Program.Keeps.bind (Program.Keeps.modify fun h hh => by exact hh) fun _ _ => ?_
  refine Program.Keeps.read.bind fun h _ => (keeps_removeAll _).bind fun failures _ => ?_
  split
  · exact Program.Keeps.raise fun _ h => by cases h
  · split
    · exact Program.Keeps.pure trivial
    · exact (keeps_run _).bind fun _ _ => Program.Keeps.pure trivial

end Sandbox

/-! ## Updates of the dictionary -/

section Updates

variable {r : ResultInput}

theorem ResultInput.Fits.verdict (h : r.Fits lib image junit) {status : ResultStatus}
    {failureType : Option FailureType}
    (hc : ({ r with status, failureType } : ResultInput).Consistent) :
    ({ r with status, failureType } : ResultInput).Fits lib image junit :=
  { h with consistent := hc }

theorem ResultInput.Fits.timeout (h : r.Fits lib image junit) : r.timeout.Fits lib image junit :=
  h.verdict ⟨nofun, fun _ => nofun, fun _ => rfl⟩

/-- Any failure type goes with the status `FAILED`. -/
theorem ResultInput.Fits.failure (h : r.Fits lib image junit) (hs : r.status = .failed)
    (f : FailureType) : ({ r with failureType := some f } : ResultInput).Fits lib image junit := by
  refine h.verdict ⟨fun hc => ?_, fun _ => nofun, fun ht => ?_⟩
  · rw [hs] at hc
    cases hc
  · rw [hs] at ht
    cases ht

theorem ResultInput.Fits.classify (h : r.Fits lib image junit) (hs : r.status = .failed)
    (test : Outcome) (reward : Bytes) :
    (Evaluator.classify test reward r).Fits lib image junit := by
  unfold Evaluator.classify
  split
  · exact h.timeout
  · split
    · exact h.failure hs _
    · split
      · exact h.failure hs _
      · rename_i hpassed
        refine h.verdict ⟨fun _ => ⟨rfl, fun t ht hf => ?_⟩, fun hne => absurd rfl hne, nofun⟩
        exact hpassed (Or.inr (Or.inl ⟨t, ht, hf⟩))

theorem classify_execution (test : Outcome) (reward : Bytes) :
    (Evaluator.classify test reward r).execution = r.execution := by
  unfold Evaluator.classify
  repeat' split
  all_goals rfl

theorem ResultInput.Fits.evidence (h : r.Fits lib image junit)
    {f : ExecutionEvidence → ExecutionEvidence}
    (hf : ∀ x, x.Fits lib image junit → (f x).Fits lib image junit) :
    (r.evidence f).Fits lib image junit := by
  refine { h with execution := fun x hx => ?_, consistent := h.consistent.same rfl rfl rfl }
  obtain ⟨y, hy, rfl⟩ := Option.map_eq_some_iff.mp hx
  exact hf y (h.execution y hy)

theorem ExecutionEvidence.Fits.withError {x : ExecutionEvidence} (h : x.Fits lib image junit)
    {text : String} (ht : text.length ≤ 10000 ∨ Built image ∧ Refused lib junit text) :
    ({ x with error := some text } : ExecutionEvidence).Fits lib image junit :=
  { h with error := fun _ htext => Option.some.inj htext ▸ ht }

theorem ResultInput.Fits.withMetrics (h : r.Fits lib image junit) (elapsed : ℚ≥0) :
    (Evaluator.withMetrics elapsed r).Fits lib image junit := by
  refine { h with metrics := ?_, consistent := h.consistent.same rfl rfl rfl }
  have hm := h.metrics
  simp only [Metrics.fieldErrors, List.append_eq_nil_iff, whenSome_eq_nil, finiteGeZero_eq_nil,
    geZero_eq_nil, Evaluator.withMetrics] at hm ⊢
  obtain ⟨⟨⟨⟨⟨⟨⟨-, hinput⟩, houtput⟩, hllm⟩, hcompute⟩, -⟩, -⟩, -⟩ := hm
  exact ⟨⟨⟨⟨⟨⟨⟨⟨elapsed, rfl, elapsed.2⟩, hinput⟩, houtput⟩, hllm⟩, hcompute⟩,
    Int.natCast_nonneg _⟩, Int.natCast_nonneg _⟩, Int.natCast_nonneg _⟩

theorem ResultInput.Fits.initial (leaseToken : String) :
    (ResultInput.initial leaseToken).Fits lib image junit where
  metrics := by
    show ({ runtimeSeconds := 0 } : Metrics).fieldErrors = []
    decide +kernel
  execution x hx := by
    obtain rfl := Option.some.inj hx
    exact ⟨nofun, nofun, nofun, nofun⟩
  count := Nat.zero_le _
  tests := nofun
  stdout := Nat.zero_le _
  stderr := Nat.zero_le _
  agentOutput := Nat.zero_le _
  patch := Nat.zero_le _
  consistent := ⟨nofun, fun _ => nofun, nofun⟩

end Updates

/-! ## The evaluation -/

/-- The invariant: `R` is what is known of the dictionary. -/
def EvalFits (image : Ended) (R : ResultInput → Prop) (s : EvalState) : Prop :=
  HostFits image s.host ∧ R s.result

/-- The dictionary before a verdict. -/
structure ResultInput.Unclassified (lib : Libraries) (image : Ended) (junit : Bytes)
    (r : ResultInput) : Prop where
  fits : r.Fits lib image junit
  failed : r.status = .failed

theorem keeps_onHost {α : Type} {R : ResultInput → Prop} {x : HostProgram α} {V : α → Prop}
    {E : Exn → Prop} (h : Program.Keeps (HostFits image) x V E) :
    Program.Keeps (EvalFits image R) (onHost x) V E :=
  h.focus (fun _ ht => ht.1) fun _ _ ht hs => ⟨hs, ht.2⟩

theorem keeps_setResult {R : ResultInput → Prop} {f : ResultInput → ResultInput} {E : Exn → Prop}
    (hf : ∀ r, R r → R (f r)) :
    Program.Keeps (EvalFits image R) (setResult f) (fun _ => True) E :=
  Program.Keeps.modify fun _ hs => ⟨hs.1, hf _ hs.2⟩

section Phases

variable {w : Surroundings} {settings : WorkerSettings} {claim : JobClaim}

theorem keeps_unclassified {f : ExecutionEvidence → ExecutionEvidence}
    (hf : ∀ x, x.Fits lib image junit → (f x).Fits lib image junit) :
    Program.Keeps (EvalFits image (ResultInput.Unclassified lib image junit))
      (setResult (.evidence f)) (fun _ => True) Exn.NotInput :=
  keeps_setResult fun _ hr => ⟨hr.fits.evidence hf, hr.failed⟩

theorem keeps_input {σ α : Type} {I : σ → Prop} (x : Except (InputFault ⊕ OtherError) α) :
    Program.Keeps I (input x : Program Exn σ α) (fun _ => True) (fun _ => True) := by
  unfold input
  split
  · exact Program.Keeps.pure trivial
  · exact Program.Keeps.raise trivial
  · exact Program.Keeps.raise trivial

/-- Until the agent runs anything may be raised, and nothing is classified. -/
theorem keeps_prepareInputs (hw : w.Serves image junit) (folder : String) :
    Program.Keeps (EvalFits image (ResultInput.Unclassified lib image junit))
      (prepareInputs w lib settings claim folder) (fun _ => Built image) (fun _ => True) := by
  have hany : ∀ e : Exn, e.NotInput → True := fun _ _ => trivial
  refine ((keeps_onHost (keeps_create _)).weaken (fun _ h => h) hany).bind fun _ _ => ?_
  refine ((keeps_external _).weaken (fun _ h => h) hany).bind fun content _ => ?_
  have hverify : Program.Keeps (EvalFits image (ResultInput.Unclassified lib image junit))
      (verifyAgent lib claim.agentVersion content) (fun _ => True) (fun _ => True) := by
    unfold verifyAgent
    split
    · exact Program.Keeps.raise trivial
    · exact Program.Keeps.pure trivial
  refine hverify.bind fun _ _ => ?_
  refine ((keeps_external _).weaken (fun _ h => h) hany).bind fun _ _ => ?_
  refine (keeps_input _).bind fun _ _ => ?_
  split
  · exact Program.Keeps.raise trivial
  · refine ((keeps_onHost (keeps_prepare hw _ folder)).weaken (fun _ h => h) hany).bind
      fun _ hbuilt => ?_
    refine Program.Keeps.read.bind fun s hs => ?_
    refine ((keeps_unclassified fun x hx => ?_).weaken (fun _ _ => hbuilt) hany)
    exact { hx with imageId := hs.1 }

theorem Outcome.Bounded.fits {o : Outcome} (h : o.Bounded) : o.evidence.Fits := ⟨h.runtime⟩

theorem keeps_agentPhase (hw : w.Serves image junit) :
    Program.Keeps (EvalFits image (ResultInput.Unclassified lib image junit))
      (agentPhase w settings) (fun _ => True) Exn.NotInput := by
  refine (keeps_external _).bind fun _ _ => ?_
  refine (keeps_onHost (keeps_execute .agent)).bind fun o ho => ?_
  refine (keeps_unclassified fun x hx => ?_).bind fun _ _ => ?_
  · exact { hx with agent := fun p hp => Option.some.inj hp ▸ ho.fits }
  · refine (keeps_setResult fun r hr => ?_).bind fun _ _ => ?_
    · have hout := ho.stdout
      have herr := ho.stderr
      refine ⟨{ hr.fits with stderr := ?_, agentOutput := ?_,
                             consistent := hr.fits.consistent.same rfl rfl rfl }, hr.failed⟩
      · exact herr.trans (by omega)
      · exact hout.trans (by omega)
    · refine (keeps_onHost (keeps_collect hw)).bind fun collected hc => ?_
      refine (keeps_setResult fun r hr => ?_).bind fun _ _ => Program.Keeps.pure trivial
      exact ⟨{ hr.fits with patch := hc.patch, consistent := hr.fits.consistent.same rfl rfl rfl },
        hr.failed⟩

/-- What the parser refuses for want of a document is said in few words. -/
theorem length_refused_nil {o : OtherError} (h : parseJunit lib [] = .error o) :
    o.text.length ≤ 10000 := by
  obtain rfl : .raised .valueError "Missing, oversized or unsafe JUnit XML" = o :=
    Except.error.inj h
  decide

theorem keeps_parseTests (hbuilt : Built image) {data : Option Bytes}
    (hdata : data = none ∨ data = some junit) :
    Program.Keeps (EvalFits image (ResultInput.Unclassified lib image junit))
      (parseTests lib (data.getD [])) (fun _ => True) Exn.NotInput := by
  refine Program.Keeps.handle (E := fun e => ∃ o, parseJunit lib (data.getD []) = .error o ∧
    e = .other o) ?_ fun e he => ?_
  · refine (keeps_answer _).bind fun tests htests => keeps_setResult fun r hr => ?_
    obtain ⟨-, hcount, hfits⟩ := parseJunit_ok htests
    refine ⟨{ hr.fits with count := hcount, tests := hfits, consistent := ?_ }, hr.failed⟩
    refine ⟨fun hc => ?_, hr.fits.consistent.failed, hr.fits.consistent.timeout⟩
    rw [show r.status = .failed from hr.failed] at hc
    cases hc
  · obtain ⟨o, ho, rfl⟩ := he
    split
    · rename_i hvalue
      refine keeps_unclassified fun x hx => hx.withError ?_
      rcases hdata with rfl | rfl
      · exact Or.inl (length_refused_nil ho)
      · exact Or.inr ⟨hbuilt, o, ho, hvalue, rfl⟩
    · exact Program.Keeps.raise (Exn.notInput_other o)

/-- A verdict may have been reached; an `InputError` has not been raised. -/
def VerdictFits (lib : Libraries) (image : Ended) (junit : Bytes) (x : Except Exn Unit)
    (s : EvalState) : Prop :=
  EvalFits image (ResultInput.Fits lib image junit) s ∧ ∀ e, x = .error e → e.NotInput

theorem VerdictFits.of_error {e : Exn} {s : EvalState} (he : e.NotInput)
    (hs : EvalFits image (ResultInput.Unclassified lib image junit) s) :
    VerdictFits lib image junit (.error e) s :=
  ⟨⟨hs.1, hs.2.fits⟩, fun _ h => Except.error.inj h ▸ he⟩

theorem verdict_classify (test : Outcome) (reward : Bytes) :
    Program.Spec (EvalFits image (ResultInput.Unclassified lib image junit))
      (do
        setResult (classify test reward)
        if w.cancelled .classified then return ()
        else external (w.renew .testFinished))
      (VerdictFits lib image junit) := by
  intro s hs
  have hclassified : EvalFits image (ResultInput.Fits lib image junit)
      { s with result := classify test reward s.result } :=
    ⟨hs.1, hs.2.fits.classify hs.2.failed test reward⟩
  show VerdictFits lib image junit ((if w.cancelled .classified then pure () else
    external (w.renew .testFinished) : EvalProgram Unit) _).1 _
  split
  · exact ⟨hclassified, nofun⟩
  · obtain ⟨hfits, -, herr⟩ := keeps_external (w.renew .testFinished) _ hclassified
    exact ⟨hfits, herr⟩

theorem verdict_testPhase (hw : w.Serves image junit) (hbuilt : Built image) :
    Program.Spec (EvalFits image (ResultInput.Unclassified lib image junit))
      (testPhase w lib settings claim) (VerdictFits lib image junit) := by
  have herr : ∀ (e : Exn) (s : EvalState), e.NotInput →
      EvalFits image (ResultInput.Unclassified lib image junit) s →
      VerdictFits lib image junit (.error e) s := fun _ _ => VerdictFits.of_error
  refine (keeps_external _).bindSpec (fun _ _ => ?_) herr
  refine (keeps_external _).bindSpec (fun _ _ => ?_) herr
  refine Program.Keeps.read.bindSpec (fun s _ => ?_) herr
  refine (keeps_onHost (keeps_writeText _ _)).bindSpec (fun _ _ => ?_) herr
  refine (keeps_onHost (keeps_writeText _ _)).bindSpec (fun _ _ => ?_) herr
  refine (keeps_external _).bindSpec (fun _ _ => ?_) herr
  refine (keeps_onHost (keeps_execute .test)).bindSpec (fun test htest => ?_) herr
  refine (keeps_unclassified fun x hx => ?_).bindSpec (fun _ _ => ?_) herr
  · exact { hx with test := fun p hp => Option.some.inj hp ▸ htest.fits }
  · refine (keeps_setResult fun r hr => ?_).bindSpec (fun _ _ => ?_) herr
    · refine ⟨{ hr.fits with stdout := ?_, stderr := length_lastChars _ _,
                             consistent := hr.fits.consistent.same rfl rfl rfl }, hr.failed⟩
      exact htest.stdout.trans (by omega)
    · refine (keeps_onHost (keeps_collect hw)).bindSpec (fun collected hc => ?_) herr
      refine (keeps_parseTests hbuilt hc.junit).bindSpec (fun _ _ => ?_) herr
      exact verdict_classify test _

/-- The body of the `try`: an `InputError` comes before any verdict. -/
theorem spec_attempt (hw : w.Serves image junit) (folder : String) :
    Program.Spec (EvalFits image (ResultInput.Unclassified lib image junit))
      (attempt w lib settings claim folder)
      (fun x s => EvalFits image (ResultInput.Fits lib image junit) s ∧
        ∀ fault, x = .error (.inputError fault) → s.result.status = .failed) := by
  refine (keeps_prepareInputs hw folder).bindSpec (fun _ hbuilt => ?_) fun e s _ hs =>
    ⟨⟨hs.1, hs.2.fits⟩, fun _ _ => hs.2.failed⟩
  refine Program.Spec.weaken (Q := VerdictFits lib image junit) ?_ fun x s hs =>
    ⟨hs.1, fun fault h => (hs.2 _ h fault rfl).elim⟩
  refine (keeps_agentPhase hw).bindSpec (fun outcome _ => ?_) fun e s => VerdictFits.of_error
  split
  · exact fun s hs => ⟨⟨hs.1, hs.2.fits.timeout⟩, nofun⟩
  · split
    · exact fun s hs => ⟨⟨hs.1, hs.2.fits.failure hs.2.failed _⟩, nofun⟩
    · exact verdict_testPhase hw hbuilt

theorem keeps_keepLog (name : String) {set : String → ResultInput → ResultInput}
    (hset : ∀ text r, text.length ≤ 500000 → r.Fits lib image junit →
      (set text r).Fits lib image junit) :
    Program.Keeps (EvalFits image (ResultInput.Fits lib image junit)) (keepLog w name set)
      (fun _ => True) Exn.NotInput := by
  refine Program.Keeps.read.bind fun s _ => ?_
  split
  · exact Program.Keeps.pure trivial
  · exact (keeps_external _).bind fun _ _ =>
      keeps_setResult fun r hr => hset _ r (length_lastChars _ _) hr

theorem spec_recover (e : Exn) :
    Program.Spec
      (fun s => EvalFits image (ResultInput.Fits lib image junit) s ∧
        ∀ fault, (.error e : Except Exn Unit) = .error (.inputError fault) →
          s.result.status = .failed)
      (recover w e) (fun _ => EvalFits image (ResultInput.Fits lib image junit)) := by
  intro s hs
  cases e with
  | cleanupError text => exact hs.1
  | inputError fault =>
      refine ⟨hs.1.1, (hs.1.2.failure (hs.2 fault rfl) _).evidence fun x hx => hx.withError ?_⟩
      have hfault := fault.text_length
      exact Or.inl (hfault.trans (by omega))
  | other o =>
      refine (Program.Keeps.bind (keeps_setResult fun r hr => ?_) fun _ _ => ?_ :
        Program.Keeps _ (recover w (.other o)) (fun _ => True) Exn.NotInput) s hs.1 |>.1
      · refine hr.evidence fun x hx => hx.withError (Or.inl ?_)
        have hname := o.className_length
        rw [String.length_append]
        exact (Nat.add_le_add_right hname _).trans (by decide)
      · refine (keeps_keepLog _ fun text r ht hr => ?_).bind fun _ _ =>
          keeps_keepLog _ fun text r ht hr => ?_
        · exact { hr with
            stdout := ht.trans (by omega)
            consistent := hr.consistent.same rfl rfl rfl }
        · exact { hr with
            stderr := ht.trans (by omega)
            consistent := hr.consistent.same rfl rfl rfl }

theorem keeps_finish :
    Program.Keeps (EvalFits image (ResultInput.Fits lib image junit)) (finish w lib)
      (fun _ => True) Exn.NotInput := by
  refine (keeps_setResult fun r hr => hr.withMetrics w.elapsed).bind fun _ _ => ?_
  refine Program.Keeps.read.bind fun s _ => ?_
  refine (keeps_onHost (keeps_writeText _ _)).bind fun _ _ => ?_
  exact (keeps_external _).bind fun _ _ => keeps_onHost keeps_destroy

/-- The invariant survives the whole evaluation, and what is returned is the dictionary. -/
theorem evaluate_fits (hw : w.Serves image junit) (folder : String) :
    Program.Spec (EvalFits image (ResultInput.Unclassified lib image junit))
      (evaluate w lib settings claim folder)
      (fun x s => EvalFits image (ResultInput.Fits lib image junit) s ∧
        ∀ r, x = .ok r → r = s.result) := by
  refine (keeps_input _).bindSpec (fun _ _ => ?_) fun e s _ hs =>
    ⟨⟨hs.1, hs.2.fits⟩, fun _ h => nomatch h⟩
  refine Program.Spec.bind (R := fun _ => EvalFits image (ResultInput.Fits lib image junit)) ?_
    (fun _ s hs => ⟨hs, fun r hr => (Except.ok.inj hr).symm⟩) fun e s hs =>
      ⟨hs, fun _ h => nomatch h⟩
  refine Program.Spec.ensure (S := fun _ _ => EvalFits image (ResultInput.Fits lib image junit))
    (R := fun _ => EvalFits image (ResultInput.Fits lib image junit))
    ?_ (fun _ s hs => (keeps_finish s hs).1) (fun _ _ hs => hs) fun _ _ _ hs => hs
  exact (spec_attempt hw folder).handle (fun _ _ hs => hs.1) spec_recover

/-- A dictionary that an evaluation returns, or that it leaves in the pending file. -/
def Leaves (w : Surroundings) (lib : Libraries) (settings : WorkerSettings) (claim : JobClaim)
    (folder : String) (r : ResultInput) : Prop :=
  (evaluate w lib settings claim folder (start claim)).1 = .ok r ∨
    (evaluate w lib settings claim folder (start claim)).2.result = r ∧
      (evaluate w lib settings claim folder (start claim)).2.host.files pendingFile =
        some (r.pendingText lib)

theorem Leaves.fits (hw : w.Serves image junit) {folder : String} {r : ResultInput}
    (h : Leaves w lib settings claim folder r) : r.Fits lib image junit := by
  have hstart : EvalFits image (ResultInput.Unclassified lib image junit) (start claim) :=
    ⟨(fun _ h => nomatch h), ResultInput.Fits.initial _, rfl⟩
  obtain ⟨hfits, hreturned⟩ := evaluate_fits hw folder _ hstart
  rcases h with h | h
  · rw [hreturned r h]
    exact hfits.2
  · rw [← h.1]
    exact hfits.2

end Phases

/-! ## The texts that reach the payload -/

/-- A plain machine that serves these two; its containers end, or run out of time. -/
def Surroundings.serving (image : Ended) (junit : Bytes) (slow : Bool) : Surroundings :=
  .plain image fun _ => { slow, files := [(patchFile, []), (junitFile, junit)] }

section Serving

variable {image : Ended} {junit : Bytes} {slow : Bool}

theorem Surroundings.serving_junit (hlength : junit.length ≤ 5000000) (name : String) :
    copiedFile (serving image junit slow) name junitFile 5000000 = .ok junit :=
  plain_file (by decide) (by rfl) hlength le_rfl

theorem serves_serving : (Surroundings.serving image junit slow).Serves image junit where
  image name e he := (Except.ok.inj he).symm
  junit name data hdata := by
    rcases le_or_gt junit.length 5000000 with hlength | hlength
    · exact Except.ok.inj (hdata.symm.trans (Surroundings.serving_junit hlength name))
    · obtain ⟨e, he⟩ : ∃ e, copiedFile (Surroundings.serving image junit slow) name junitFile
          5000000 = .error e := Surroundings.plain_oversized (by decide) (by rfl) hlength le_rfl
      rw [he] at hdata
      cases hdata

theorem Surroundings.serving_patch (name : String) :
    readPatch (serving image junit slow) name = .ok "" :=
  readPatch_of (plain_file (by decide) (by rfl) (by decide) (by decide)) rfl

theorem Surroundings.serving_files (hlength : junit.length ≤ 5000000) (name : String) :
    testFiles (serving image junit slow) name = .ok (junit, []) :=
  testFiles_of (serving_junit hlength name) (plain_missing (by rfl))

end Serving

/-- Whatever docker answers about an image is entered. -/
theorem leaves_imageId (lib : Libraries) (junit : Bytes) (hbuilt : Built image)
    (settings : WorkerSettings) (folder : String) :
    ∃ r x, Leaves (.serving image junit true) lib settings (.plain lib) folder r ∧
      r.execution = some x ∧ x.imageId = some (imageIdOf image) := by
  have hw : (Surroundings.serving image junit true).Works lib (.plain lib) :=
    Surroundings.plain_works hbuilt _
  obtain ⟨o, ho, hslow⟩ : ∃ o, (Surroundings.serving image junit true).phase (lib.idText 1) .agent
      = .ok o ∧ o.timedOut = true := ⟨_, Surroundings.plain_phase _ _, rfl⟩
  obtain ⟨imageId, t, ⟨name, e, he, rfl⟩, -, hresult, hattempt⟩ :=
    attempt_apply settings hw folder ho
  obtain rfl : e = image := (Except.ok.inj he).symm
  rw [Surroundings.serving_patch, if_pos (Or.inl hslow)] at hattempt
  obtain ⟨u, hevaluate, -⟩ := evaluate_of_ok hw hattempt
  exact ⟨_, _, Or.inl (congrArg Prod.fst hevaluate), by rw [hresult]; rfl, rfl⟩

/-- Whatever the parser says about a file it refuses is entered. -/
theorem leaves_refused (hbuilt : Built image) (hlength : junit.length ≤ 5000000) {e : OtherError}
    (hparse : parseJunit lib junit = .error e) (hvalue : e.isValueError)
    (settings : WorkerSettings) (folder : String) :
    ∃ r x, Leaves (.serving image junit false) lib settings (.plain lib) folder r ∧
      r.execution = some x ∧ x.error = some e.text := by
  let w := Surroundings.serving image junit false
  have hw : w.Works lib (.plain lib) := Surroundings.plain_works hbuilt _
  obtain ⟨o, ho, hpassed⟩ : ∃ o, w.phase (lib.idText 1) .agent = .ok o ∧ ¬o.Failed :=
    ⟨_, Surroundings.plain_phase _ _, EndedContainer.not_failed rfl⟩
  obtain ⟨o', ho'⟩ : ∃ o, w.phase (lib.idText 1) .test = .ok o :=
    ⟨_, Surroundings.plain_phase _ _⟩
  have hpatch : readPatch w (containerName (lib.idText (JobClaim.plain lib).job.id) .agent)
      = .ok "" := Surroundings.serving_patch _
  obtain ⟨imageId, t, -, hready, hresult, hattempt⟩ :=
    attempt_apply settings hw folder ho
  obtain ⟨u, hu, htest⟩ := testPhase_apply settings hw (hw.test o "" ho hpassed hpatch)
    (s := { t with result := { t.result with patch := "" } }) hready ho'
  have hparsed : parsed lib junit u.result =
      .ok (u.result.evidence fun x => { x with error := some e.text }) := by
    rw [parsed, hparse]
    exact if_pos hvalue
  obtain ⟨hexit, hended⟩ := not_or.mp hpassed
  have hfiles : testFiles w (containerName (lib.idText (JobClaim.plain lib).job.id) .test)
      = .ok (junit, []) := Surroundings.serving_files hlength _
  rw [hfiles] at htest
  dsimp only at htest
  rw [hparsed] at htest
  rw [hpatch] at hattempt
  dsimp only at hattempt
  rw [if_neg hended, if_neg hexit] at hattempt
  obtain ⟨v, hevaluate, -⟩ := evaluate_of_ok hw (hattempt.trans htest)
  have hexecution : (afterTest o' { t.result with patch := "" }).execution =
      some { agent := some o.evidence, test := some o'.evidence, imageId := some imageId } := by
    rw [hresult]
    rfl
  refine ⟨_, { agent := some o.evidence, test := some o'.evidence, imageId := some imageId
               error := some e.text }, Or.inl (congrArg Prod.fst hevaluate), ?_, rfl⟩
  show (classify o' [] _).execution = _
  rw [classify_execution, ResultInput.evidence, hu, hexecution]
  rfl

theorem not_valid_of_error {r : ResultInput} {x : ExecutionEvidence} (hx : r.execution = some x)
    (h : x.fieldErrors ≠ []) : ¬r.Valid := by
  intro hvalid
  have hfields := (ResultInput.valid_iff.mp hvalid).1
  simp only [ResultInput.fieldErrors, List.append_eq_nil_iff, whenSome_eq_nil] at hfields
  exact h (hfields.1.1.1.1.1.2 x hx)

/-- Only a file within the limits is given to the XML parser. -/
theorem length_junit_of_refused {e : OtherError} (h : parseJunit lib junit = .error e)
    (hlong : 10000 < e.text.length) : junit.length ≤ 5000000 := by
  unfold parseJunit at h
  split at h
  · obtain rfl : .raised .valueError "Missing, oversized or unsafe JUnit XML" = e :=
      Except.error.inj h
    exact absurd hlong (by decide)
  · rename_i hsafe
    exact not_lt.mp fun h => hsafe (Or.inr (Or.inl h))

/-- **Schema agreement.** Every dictionary an evaluation returns or leaves in the pending
file validates, exactly when the image id and the message of a refused JUnit file are within
the bounds the schema puts on them. -/
theorem result_schema (lib : Libraries) (image : Ended) (junit : Bytes) :
    (∀ w settings claim folder r, Surroundings.Serves w image junit →
      Leaves w lib settings claim folder r → r.Valid) ↔
    (Built image → (imageIdOf image).length ≤ 200 ∧
      ∀ text, Refused lib junit text → text.length ≤ 10000) := by
  constructor
  · intro h hbuilt
    constructor
    · by_contra hlong
      obtain ⟨r, x, hleaves, hx, hid⟩ :=
        leaves_imageId lib junit hbuilt {} "workspace"
      refine not_valid_of_error hx (fun herrors => hlong ?_)
        (h _ _ _ _ r serves_serving hleaves)
      simp only [ExecutionEvidence.fieldErrors, List.append_eq_nil_iff, whenSome_eq_nil,
        maxLength_eq_nil] at herrors
      exact herrors.1.2 _ hid
    · rintro text ⟨e, he, hvalue, rfl⟩
      by_contra hlong
      obtain ⟨r, x, hleaves, hx, htext⟩ :=
        leaves_refused hbuilt (length_junit_of_refused he (not_le.mp hlong)) he hvalue
          {} "workspace"
      refine not_valid_of_error hx (fun herrors => hlong ?_)
        (h _ _ _ _ r serves_serving hleaves)
      simp only [ExecutionEvidence.fieldErrors, List.append_eq_nil_iff, whenSome_eq_nil,
        maxLength_eq_nil] at herrors
      exact herrors.2 _ htext
  · intro hshort w settings claim folder r hw hleaves
    exact (hleaves.fits hw).valid hshort

/-! ## A long duration -/

def letters (n : ℕ) : String := String.ofList (List.replicate n 'x')

theorem length_letters (n : ℕ) : (letters n).length = n := by
  simp [letters]

/-- A JUnit file whose only duration is `n` letters long. -/
def longJunit (n : ℕ) : Bytes :=
  ascii "<testcase time=\"" ++ List.replicate n 120 ++ ascii "\"/>"

/-- What Python's `float` says about it. -/
def longMessage (n : ℕ) : String :=
  "could not convert string to float: '" ++ letters n ++ "'"

def longLibraries (n : ℕ) : Libraries :=
  .plain (.ok (.node "testcase" [("time", letters n)] none []))
    (valueError (longMessage n))

theorem longJunit_safe {n : ℕ} {b : UInt8} (hb : b ∈ upper (longJunit n)) : b ≠ 33 := by
  have hquoted : ∀ l : Bytes, (l.all fun b => b != 33) = true → b ∈ l → b ≠ 33 := by
    intro l hl hb
    simpa using List.all_eq_true.mp hl b hb
  simp only [upper, longJunit, List.map_append, List.map_replicate, List.mem_append,
    List.mem_replicate] at hb
  rcases hb with (hb | ⟨-, rfl⟩) | hb
  · exact hquoted _ (by decide) hb
  · decide
  · exact hquoted _ (by decide) hb

theorem parseJunit_float {e : OtherError} {attrib : List (String × String)}
    (hsafe : ¬(junit = [] ∨ 5000000 < junit.length ∨ ascii "<!DOCTYPE" <:+: upper junit ∨
      ascii "<!ENTITY" <:+: upper junit))
    (hdocument : lib.fromstring junit = .ok (.node "testcase" attrib none []))
    (hfloat : ∀ text, lib.float text = .error e) : parseJunit lib junit = .error e := by
  have hcase : parseCase lib (.node "testcase" attrib none []) = .error e :=
    bind_of_error (hfloat _)
  rw [parseJunit, if_neg hsafe, bind_of_ok hdocument]
  refine bind_of_error ?_
  show [Element.node "testcase" attrib none []].mapM (parseCase lib) = .error e
  rw [List.mapM_cons]
  exact bind_of_error hcase

theorem length_longJunit (n : ℕ) : (longJunit n).length = n + 19 := by
  have hhead : (ascii "<testcase time=\"").length = 16 := rfl
  have htail : (ascii "\"/>").length = 3 := rfl
  rw [longJunit, List.length_append, List.length_append, List.length_replicate]
  omega

theorem length_quoted (before after : String) (n : ℕ) :
    n ≤ (before ++ letters n ++ after).length := by
  rw [String.length_append, String.length_append, length_letters]
  omega

theorem length_longMessage (n : ℕ) : n ≤ (longMessage n).length := length_quoted _ _ n

theorem longJunit_refused {n : ℕ} (hn : n ≤ 4999981) :
    parseJunit (longLibraries n) (longJunit n) = .error (.raised .valueError (longMessage n)) := by
  have hlength := length_longJunit n
  refine parseJunit_float ?_ rfl fun _ => rfl
  rintro (h | h | h | h)
  · rw [h, List.length_nil] at hlength
    omega
  · omega
  · exact longJunit_safe (h.subset (by decide : (33 : UInt8) ∈ ascii "<!DOCTYPE")) rfl
  · exact longJunit_safe (h.subset (by decide : (33 : UInt8) ∈ ascii "<!ENTITY")) rfl

/-- The evaluation of a file with a long duration leaves a payload the API refuses. -/
theorem not_valid_longJunit {n : ℕ} (hn : n ≤ 4999981) (hlong : 10000 < n) :
    ∃ r, Leaves (.serving .built (longJunit n) false) (longLibraries n) {}
      (.plain (longLibraries n)) "workspace" r ∧ ¬r.Valid := by
  have hjunit : (longJunit n).length ≤ 5000000 := (length_longJunit n).le.trans (by omega)
  obtain ⟨r, x, hleaves, hx, htext⟩ := leaves_refused (answering_succeeds builtId) hjunit
    (longJunit_refused hn) rfl {} "workspace"
  refine ⟨r, hleaves, not_valid_of_error hx fun herrors => ?_⟩
  simp only [ExecutionEvidence.fieldErrors, List.append_eq_nil_iff, whenSome_eq_nil,
    maxLength_eq_nil] at herrors
  have hmessage : (longMessage n).length ≤ 10000 := herrors.2 _ htext
  have hn := length_longMessage n
  omega

theorem result_schema_long_duration :
    ∃ r, Leaves (.serving .built (longJunit 10001) false)
      (longLibraries 10001) {} (.plain (longLibraries 10001)) "workspace" r ∧ ¬r.Valid :=
  not_valid_longJunit (by decide) (by decide)

end AgentBenchX
