import Mathlib.Data.Rat.Floor

/-!
# Request schemas

The request bodies of the worker protocol and their validation. A value
of `ResultInput` is a body whose fields have the declared types; the
bounds the schema puts on top (`max_length`, `ge=0`, finite numbers, the
status rules) are checked by `ResultInput.validate`, which answers like
the request validation of the API: every field error with its location,
or the value itself.

As in the source, `consistent_status` runs after the fields and only
when none of them failed.
-/

namespace AgentBenchX

/-! ## Numbers -/

/-- A Python float: an exact finite value or one of the non-finite ones.
Binary rounding of finite values is not modelled. -/
inductive PyFloat where
  | finite (q : ℚ)
  | inf (negative : Bool)
  | nan
deriving DecidableEq, Repr

namespace PyFloat

instance : Zero PyFloat := ⟨.finite 0⟩

/-- `math.isfinite`. -/
def isFinite : PyFloat → Bool
  | .finite _ => true
  | _ => false

/-- `x < 0`; every comparison with NaN is false. -/
def isNegative : PyFloat → Bool
  | .finite q => decide (q < 0)
  | .inf negative => negative
  | .nan => false

def add : PyFloat → PyFloat → PyFloat
  | .finite p, .finite q => .finite (p + q)
  | .finite _, y => y
  | x, .finite _ => x
  | .inf s, .inf s' => if s = s' then .inf s else .nan
  | _, _ => .nan

/-- Round half to even, the rule of Python's `round`. -/
def roundHalfEven (q : ℚ) : ℤ :=
  let f := ⌊q⌋
  if q - f < 1 / 2 then f
  else if 1 / 2 < q - f then f + 1
  else if f % 2 = 0 then f else f + 1

/-- `round(x, digits)`. -/
def round (digits : ℕ) : PyFloat → PyFloat
  | .finite q => .finite (roundHalfEven (q * 10 ^ digits) / 10 ^ digits)
  | x => x

end PyFloat

/-! ## Literals -/

inductive TestStatus where
  | passed | failed | skipped
deriving DecidableEq, Repr

inductive ResultStatus where
  | completed | failed | timeout
deriving DecidableEq, Repr

inductive FailureType where
  | infrastructureFailure | agentFailure | testFailure | timeout | securityFailure
deriving DecidableEq, Repr

/-- The literal the schema and the database spell a failure type with. -/
def FailureType.text : FailureType → String
  | .infrastructureFailure => "INFRASTRUCTURE_FAILURE"
  | .agentFailure => "AGENT_FAILURE"
  | .testFailure => "TEST_FAILURE"
  | .timeout => "TIMEOUT"
  | .securityFailure => "SECURITY_FAILURE"

inductive JobEvent where
  | jobStarted | agentStarted | agentFinished | testStarted | testProgress | testFinished
deriving DecidableEq, Repr

/-! ## Bodies -/

structure TestInput where
  name : String
  status : TestStatus
  durationSeconds : PyFloat := 0
  message : String := ""
deriving DecidableEq, Repr

structure Metrics where
  runtimeSeconds : PyFloat
  inputTokens : Option ℤ := none
  outputTokens : Option ℤ := none
  llmCost : Option PyFloat := none
  computeCost : Option PyFloat := none
  filesChanged : ℤ := 0
  insertions : ℤ := 0
  deletions : ℤ := 0
deriving DecidableEq, Repr

structure ProcessEvidence where
  exitCode : ℤ
  startedAt : String
  finishedAt : String
  runtimeSeconds : PyFloat
  timedOut : Bool := false
  cancelled : Bool := false
deriving DecidableEq, Repr

structure ExecutionEvidence where
  agent : Option ProcessEvidence := none
  test : Option ProcessEvidence := none
  imageId : Option String := none
  error : Option String := none
deriving DecidableEq, Repr

structure ResultInput where
  leaseToken : String
  status : ResultStatus
  failureType : Option FailureType := none
  metrics : Metrics
  execution : Option ExecutionEvidence := none
  tests : List TestInput := []
  stdout : String := ""
  stderr : String := ""
  agentOutput : String := ""
  patch : String := ""
deriving DecidableEq, Repr

structure JobHeartbeat where
  leaseToken : String
  event : JobEvent := .jobStarted
deriving DecidableEq, Repr

structure SubmissionCreate where
  agentVersionId : ℕ
  problemVersionIds : List ℕ
deriving DecidableEq, Repr

/-! ## Validation -/

/-- A rejected field: its location in the body and what was wrong. -/
structure FieldError where
  loc : List String
  msg : String
deriving DecidableEq, Repr

/-- `Field(max_length=n)` on a string: the bound counts code points. -/
def maxLength (loc : List String) (n : ℕ) (s : String) : List FieldError :=
  if s.length ≤ n then [] else [⟨loc, s!"String should have at most {n} characters"⟩]

/-- `Field(max_length=n)` on a list: of a list that is too long no item is reported. -/
def maxItems {α : Type} (loc : List String) (n : ℕ) (items : List α → List FieldError)
    (l : List α) : List FieldError :=
  if l.length ≤ n then items l
  else
    let length := l.length
    [⟨loc, s!"List should have at most {n} items after validation, not {length}"⟩]

/-- `Field(ge=0)` on an integer. -/
def geZero (loc : List String) (i : ℤ) : List FieldError :=
  if 0 ≤ i then [] else [⟨loc, "Input should be greater than or equal to 0"⟩]

/-- `Field(ge=0)` on a float, under `allow_inf_nan=False`. -/
def finiteGeZero (loc : List String) (x : PyFloat) : List FieldError :=
  if !x.isFinite then [⟨loc, "Input should be a finite number"⟩]
  else if x.isNegative then [⟨loc, "Input should be greater than or equal to 0"⟩]
  else []

/-- A field that may be `None` is checked only when it is present. -/
def whenSome {α : Type} (check : α → List FieldError) : Option α → List FieldError
  | none => []
  | some a => check a

def TestInput.fieldErrors (loc : List String) (t : TestInput) : List FieldError :=
  maxLength (loc ++ ["name"]) 500 t.name
    ++ finiteGeZero (loc ++ ["duration_seconds"]) t.durationSeconds
    ++ maxLength (loc ++ ["message"]) 10000 t.message

def Metrics.fieldErrors (m : Metrics) : List FieldError :=
  finiteGeZero ["metrics", "runtime_seconds"] m.runtimeSeconds
    ++ whenSome (geZero ["metrics", "input_tokens"]) m.inputTokens
    ++ whenSome (geZero ["metrics", "output_tokens"]) m.outputTokens
    ++ whenSome (finiteGeZero ["metrics", "llm_cost"]) m.llmCost
    ++ whenSome (finiteGeZero ["metrics", "compute_cost"]) m.computeCost
    ++ geZero ["metrics", "files_changed"] m.filesChanged
    ++ geZero ["metrics", "insertions"] m.insertions
    ++ geZero ["metrics", "deletions"] m.deletions

def ProcessEvidence.fieldErrors (loc : List String) (p : ProcessEvidence) : List FieldError :=
  finiteGeZero (loc ++ ["runtime_seconds"]) p.runtimeSeconds

def ExecutionEvidence.fieldErrors (e : ExecutionEvidence) : List FieldError :=
  whenSome (ProcessEvidence.fieldErrors ["execution", "agent"]) e.agent
    ++ whenSome (ProcessEvidence.fieldErrors ["execution", "test"]) e.test
    ++ whenSome (maxLength ["execution", "image_id"] 200) e.imageId
    ++ whenSome (maxLength ["execution", "error"] 10000) e.error

/-- The indexed items of the `tests` list. -/
def testErrors (tests : List TestInput) : List FieldError :=
  tests.zipIdx.flatMap fun p => TestInput.fieldErrors ["tests", toString p.2] p.1

def ResultInput.fieldErrors (r : ResultInput) : List FieldError :=
  r.metrics.fieldErrors
    ++ whenSome ExecutionEvidence.fieldErrors r.execution
    ++ maxItems ["tests"] 10000 testErrors r.tests
    ++ maxLength ["stdout"] 1000000 r.stdout
    ++ maxLength ["stderr"] 1000000 r.stderr
    ++ maxLength ["agent_output"] 1000000 r.agentOutput
    ++ maxLength ["patch"] 2000000 r.patch

/-- A `ValueError` of a model validator, which stands for the whole body. -/
def validatorError (text : String) : List FieldError := [⟨[], "Value error, " ++ text⟩]

/-- The model validator: the first rule the status, the failure type and
the tests break. -/
def ResultInput.consistentStatus (r : ResultInput) : List FieldError :=
  if r.status = .completed ∧ (r.failureType.isSome ∨ ∃ t ∈ r.tests, t.status = .failed) then
    validatorError "Completed results cannot contain failures"
  else if r.status ≠ .completed ∧ r.failureType = none then
    validatorError "Failure type is required"
  else if r.status = .timeout ∧ r.failureType ≠ some .timeout then
    validatorError "Timeout results must have TIMEOUT failure type"
  else []

/-- `ResultInput(**body)`: the errors the API answers 422 with, or the
accepted value. -/
def ResultInput.validate (r : ResultInput) : Except (List FieldError) ResultInput :=
  if r.fieldErrors = [] then
    if r.consistentStatus = [] then .ok r else .error r.consistentStatus
  else .error r.fieldErrors

/-- The schema accepts the body. -/
def ResultInput.Valid (r : ResultInput) : Prop := r.validate = .ok r

instance (r : ResultInput) : Decidable r.Valid :=
  decidable_of_iff (r.fieldErrors = [] ∧ r.consistentStatus = []) <| by
    unfold ResultInput.Valid ResultInput.validate
    split <;> rename_i hf
    · split <;> simp_all
    · simp [hf]

end AgentBenchX
