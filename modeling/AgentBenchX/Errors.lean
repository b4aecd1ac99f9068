import Mathlib.Data.Nat.Notation

/-!
# Exceptions of the worker

The exceptions the operations of a worker raise. A handler sees the
class, `str(exc)` the message, and the reports name the class.

Two classes have a constructor of their own, since only one module raises
them: `CleanupError` comes from the sandbox, and `InputError` from the
preparation of inputs, with one of the messages that module has. What
operations outside of the worker raise is an `OtherError`.
-/

namespace AgentBenchX

/-- The classes of the standard library and of the packages in use, except those
that carry data of their own. -/
inductive ErrorClass where
  | valueError | unicodeDecodeError | unicodeEncodeError | jsonDecodeError | sourceError
  | runtimeError | recursionError | sandboxError
  | osError | fileExistsError | fileNotFoundError | isADirectoryError | notADirectoryError
  | permissionError | blockingIOError
  | keyError | indexError | typeError | attributeError | lookupError | memoryError
  | parseError
  | timeoutExpired | readError | streamError
deriving DecidableEq, Repr

/-- The subclasses of `httpx.TransportError`. -/
inductive TransportClass where
  | connectError | connectTimeout | readError | readTimeout | writeError | writeTimeout
  | poolTimeout | closeError | proxyError | localProtocolError | remoteProtocolError
  | unsupportedProtocol
deriving DecidableEq, Repr

/-- The files `prepare_problem` requires. -/
inductive RequiredFile where
  | task | instruction | dockerfile | test
deriving DecidableEq, Repr

def RequiredFile.path : RequiredFile → String
  | .task => "task.toml"
  | .instruction => "instruction.md"
  | .dockerfile => "environment/Dockerfile"
  | .test => "tests/test.sh"

/-- Why inputs are refused. -/
inductive InputFault where
  | workspaceEscapes | agentMismatch | invalidIdentity | commitMismatch | unsafePath
  | unsafeTarget | overBudget
  | missing (file : RequiredFile)
deriving DecidableEq, Repr

def InputFault.text : InputFault → String
  | .workspaceEscapes => "Workspace escapes configured root"
  | .agentMismatch => "Agent identity, size or SHA-256 mismatch"
  | .invalidIdentity => "Invalid immutable problem identity"
  | .commitMismatch => "Problem commit mismatch"
  | .unsafePath => "Unsafe repository path"
  | .unsafeTarget => "Unsafe extracted path"
  | .overBudget => "Task exceeds 50 MB metadata transfer budget"
  | .missing file => "Missing required Harbor file: " ++ file.path

/-- An exception that is neither a `CleanupError` nor an `InputError`. -/
inductive OtherError where
  /-- `httpx.HTTPStatusError`. -/
  | httpStatus (code : ℕ) (text : String)
  | transport (cls : TransportClass) (text : String)
  | raised (cls : ErrorClass) (text : String)
deriving DecidableEq, Repr

inductive Exn where
  | cleanupError (text : String)
  | inputError (fault : InputFault)
  | other (e : OtherError)
deriving DecidableEq, Repr

namespace ErrorClass

def name : ErrorClass → String
  | .valueError => "ValueError"
  | .unicodeDecodeError => "UnicodeDecodeError"
  | .unicodeEncodeError => "UnicodeEncodeError"
  | .jsonDecodeError => "JSONDecodeError"
  | .sourceError => "SourceError"
  | .runtimeError => "RuntimeError"
  | .recursionError => "RecursionError"
  | .sandboxError => "SandboxError"
  | .osError => "OSError"
  | .fileExistsError => "FileExistsError"
  | .fileNotFoundError => "FileNotFoundError"
  | .isADirectoryError => "IsADirectoryError"
  | .notADirectoryError => "NotADirectoryError"
  | .permissionError => "PermissionError"
  | .blockingIOError => "BlockingIOError"
  | .keyError => "KeyError"
  | .indexError => "IndexError"
  | .typeError => "TypeError"
  | .attributeError => "AttributeError"
  | .lookupError => "LookupError"
  | .memoryError => "MemoryError"
  | .parseError => "ParseError"
  | .timeoutExpired => "TimeoutExpired"
  | .readError => "ReadError"
  | .streamError => "StreamError"

theorem name_length (cls : ErrorClass) : cls.name.length ≤ 20 := by
  cases cls <;> decide

end ErrorClass

def TransportClass.name : TransportClass → String
  | .connectError => "ConnectError"
  | .connectTimeout => "ConnectTimeout"
  | .readError => "ReadError"
  | .readTimeout => "ReadTimeout"
  | .writeError => "WriteError"
  | .writeTimeout => "WriteTimeout"
  | .poolTimeout => "PoolTimeout"
  | .closeError => "CloseError"
  | .proxyError => "ProxyError"
  | .localProtocolError => "LocalProtocolError"
  | .remoteProtocolError => "RemoteProtocolError"
  | .unsupportedProtocol => "UnsupportedProtocol"

theorem TransportClass.name_length (cls : TransportClass) : cls.name.length ≤ 20 := by
  cases cls <;> decide

namespace OtherError

/-- `type(exc).__name__`. -/
def className : OtherError → String
  | .httpStatus _ _ => "HTTPStatusError"
  | .transport cls _ => cls.name
  | .raised cls _ => cls.name

/-- `isinstance(exc, ValueError)`. -/
def isValueError : OtherError → Bool
  | .raised cls _ => cls ∈ [.valueError, .unicodeDecodeError, .unicodeEncodeError,
      .jsonDecodeError, .sourceError]
  | _ => false

def isRuntimeError : OtherError → Bool
  | .raised cls _ => cls ∈ [.runtimeError, .recursionError, .sandboxError]
  | _ => false

def isOSError : OtherError → Bool
  | .raised cls _ => cls ∈ [.osError, .fileExistsError, .fileNotFoundError, .isADirectoryError,
      .notADirectoryError, .permissionError, .blockingIOError]
  | _ => false

/-- `isinstance(exc, httpx.HTTPError)`. -/
def isHTTPError : OtherError → Bool
  | .httpStatus _ _ | .transport _ _ => true
  | _ => false

/-- `str(exc)`. -/
def text : OtherError → String
  | .httpStatus _ text | .transport _ text | .raised _ text => text

/-- Names of classes are short. -/
theorem className_length (e : OtherError) : e.className.length ≤ 20 := by
  cases e with
  | httpStatus _ _ => show "HTTPStatusError".length ≤ 20; decide
  | transport cls _ => exact cls.name_length
  | raised cls _ => exact cls.name_length

end OtherError

namespace Exn

def isValueError : Exn → Bool
  | .cleanupError _ => false
  | .inputError _ => true
  | .other e => e.isValueError

def text : Exn → String
  | .cleanupError text => text
  | .inputError fault => fault.text
  | .other e => e.text

def className : Exn → String
  | .cleanupError _ => "CleanupError"
  | .inputError _ => "InputError"
  | .other e => e.className

end Exn

/-- The messages of `InputError` are short. -/
theorem InputFault.text_length (fault : InputFault) : fault.text.length ≤ 60 := by
  rcases fault with - | - | - | - | - | - | - | file
  · decide
  · decide
  · decide
  · decide
  · decide
  · decide
  · decide
  · cases file <;> decide

end AgentBenchX
