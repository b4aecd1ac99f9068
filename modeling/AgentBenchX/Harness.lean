import AgentBenchX.DockerProtocol
import AgentBenchX.Recovery

/-!
# The harness in the containers

`harness.py` runs in both containers of an evaluation. In the agent's it calls
`agent_main` and leaves a patch; in the other it applies that patch and
becomes the test command. The two sides share files only: the worker writes
`runner/input.json`, `candidate/patch.diff` and `candidate/test-command.json`,
and copies the patch out.

What goes through these files arrives as it was sent: `agent_main` is called
with the instruction of the problem, its patch is applied byte for byte, and
the argument array that is executed is the recorded one.
-/

namespace AgentBenchX

open DockerSandbox Evaluator

/-! ## `harness.py` -/

/-- What the harness raises. -/
inductive HarnessFault where
  | unicodeDecodeError
  | jsonDecodeError
  | typeError (text : String)
  | valueError (text : String)
  | keyError (text : String)
  | calledProcessError
  | osError
  | raised
deriving DecidableEq

namespace Harness

/-- `json.loads(path.read_text())`. -/
def loadJson (data : Bytes) : Except HarnessFault Json :=
  match Utf8.decode data with
  | none => .error .unicodeDecodeError
  | some text =>
      match Json.loads (newlines text.toList) with
      | none => .error .jsonDecodeError
      | some value => .ok value

/-- `payload[key] = value`. -/
def setItem (key : String) (value : Json) : Json → Except HarnessFault Json
  | .object members =>
      if key ∈ members.map Prod.fst then
        .ok (.object (members.map fun m => if m.1 = key then (key, value) else m))
      else .ok (.object (members ++ [(key, value)]))
  | _ => .error (.typeError "object does not support item assignment")

/-- The container of the agent: the mounted input, the working directory, the uploaded
module, which returns a string or something else, and what `git diff` prints. -/
structure AgentContainer where
  input : Bytes
  cwd : String
  agentMain : Json → Except HarnessFault (Option String)
  diff : Except HarnessFault Bytes

/-- The patch that git finds, decoded and written again. -/
def diffed (c : AgentContainer) : Except HarnessFault Bytes := do
  match Utf8.decode (← c.diff) with
  | none => .error .unicodeDecodeError
  | some patch => return Utf8.encode patch.toList

/-- `main` in the mode `agent`: the bytes of `/tmp/abx-patch.diff`. -/
def agent (c : AgentContainer) : Except HarnessFault Bytes := do
  let payload ← loadJson c.input
  let payload ← setItem "workspace" (.string c.cwd) payload
  match ← c.agentMain payload with
  | none => .error (.typeError "agent_main must return a unified diff string")
  | some patch => if patch ≠ "" then return Utf8.encode patch.toList else diffed c

/-- The container of the tests: the mounted files, whether git accepts the patch, what becomes
of the directory and the file the patch is logged in, and which numerals stand for other
numbers than 0. -/
structure TestContainer where
  patch : Bytes
  command : Bytes
  checks : Bool
  applies : Bool
  mkdir : Except HarnessFault Unit
  write : Except HarnessFault Unit
  nonzero : List Char → Bool

/-- What the harness does to the container of the tests. -/
inductive TestEvent where
  | applied (patch : Bytes)
  | logged (patch : Bytes)
  | execvp (argv : List String)
deriving DecidableEq

def textOf : Json → Option String
  | .string s => some s
  | _ => none

/-- `bool(value)`. -/
def truthy (nonzero : List Char → Bool) : Json → Bool
  | .null => false
  | .bool b => b
  | .number text => nonzero text
  | .string s => s ≠ ""
  | .array items => !items.isEmpty
  | .object members => !members.isEmpty

/-- What `for arg in value` goes through. -/
def iterate : Json → Except HarnessFault (List Json)
  | .array items => .ok items
  | .string s => .ok (s.toList.map fun c => .string (String.ofList [c]))
  | .object members => .ok (members.map fun m => .string m.1)
  | .null => .error (.typeError "'NoneType' object is not iterable")
  | .bool _ => .error (.typeError "'bool' object is not iterable")
  | .number text => .error <| .typeError <|
      if text.any (· ∈ ['.', 'e', 'E']) then "'float' object is not iterable"
      else "'int' object is not iterable"

/-- `isinstance(arg, str) and "\x00" not in arg`. -/
def isArgument (arg : Json) : Bool := (textOf arg).any fun s => Char.ofNat 0 ∉ s.toList

/-- An array of arguments that can be executed. -/
def Executable (argv : List String) : Prop := argv ≠ [] ∧ ∀ arg ∈ argv, Char.ofNat 0 ∉ arg.toList

instance : DecidablePred Executable := fun _ => inferInstanceAs (Decidable (_ ∧ _))

abbrev TestProgram (α : Type) := Program HarnessFault (List TestEvent) α

def emit (e : TestEvent) : TestProgram Unit := Program.modify fun events => events ++ [e]

/-- `os.execvp(command[0], command)`. -/
def execvp : Json → TestProgram Unit
  | .array items =>
      match items.mapM textOf with
      | some argv => emit (.execvp argv)
      | none => Program.raise (.typeError "expected str, bytes or os.PathLike object")
  | .string _ => Program.raise (.typeError "execv() arg 2 must be a tuple or list")
  | .object _ => Program.raise (.keyError "0")
  | _ => Program.raise (.typeError "object is not subscriptable")

/-- git checks the patch and applies it. -/
def applyPatch (c : TestContainer) : TestProgram Unit :=
  if c.patch ≠ [] then
    if c.checks && c.applies then emit (.applied c.patch) else Program.raise .calledProcessError
  else pure ()

/-- The process becomes the command, if it is an argument array. -/
def execute (nonzero : List Char → Bool) (command : Json) : TestProgram Unit := do
  if truthy nonzero command then
    let arguments ← Program.lift (iterate command)
    if arguments.all isArgument then execvp command
    else Program.raise (.valueError "Test command must be an argument array")
  else Program.raise (.valueError "Test command must be an argument array")

/-- `main` in the mode `test`. -/
def test (c : TestContainer) : TestProgram Unit := do
  applyPatch c
  Program.lift c.mkdir
  Program.lift c.write
  emit (.logged c.patch)
  let command ← Program.lift (loadJson c.command)
  execute c.nonzero command

/-! ## Files that are read back -/

/-- git has taken the patch, or there is none. -/
def TestContainer.Takes (c : TestContainer) : Prop :=
  c.patch = [] ∨ (c.checks = true ∧ c.applies = true)

instance : DecidablePred TestContainer.Takes := fun _ => inferInstanceAs (Decidable (_ ∨ _))

/-- The directory and the file for the log of it. -/
def TestContainer.log (c : TestContainer) : Except HarnessFault Unit := do
  c.mkdir
  c.write

def TestContainer.applied (c : TestContainer) : List TestEvent :=
  if c.patch = [] then [] else [.applied c.patch]

/-- What the harness does with a command that is an array of strings. -/
def outcome (c : TestContainer) (command : List String) :
    Except HarnessFault Unit × List TestEvent :=
  if c.Takes then
    match c.log with
    | .error e => (.error e, c.applied)
    | .ok () =>
        if Executable command then (.ok (), c.applied ++ [.logged c.patch, .execvp command])
        else (.error (.valueError "Test command must be an argument array"),
          c.applied ++ [.logged c.patch])
  else (.error .calledProcessError, [])

/-- What `agent_main` is called with. -/
def payload (instruction id cwd : String) : Json := .object
  [("instruction", .string instruction), ("job_id", .string id), ("workspace", .string cwd)]

end Harness

/-! ## What the worker hands over -/

section Handover

variable {w : Surroundings} {lib : Libraries} {settings : WorkerSettings} {claim : JobClaim}
  {id folder : String}

section Frames

variable {τ : Type} {g : Host → τ}

end Frames

end Handover

end AgentBenchX
