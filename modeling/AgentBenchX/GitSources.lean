import AgentBenchX.Lib.Program
import AgentBenchX.Lib.Url
import AgentBenchX.DockerSandbox
import AgentBenchX.Models
import AgentBenchX.Toml

/-!
# The Git repository manager

`GitRepositoryManager` reads repositories by running `git`. What the
machine does with a command line is a parameter (`GitHost`), and so is the
part of Python's standard library the server relies on (`Python`); the
manager builds the command lines, writes the log and turns what comes back
into values or exceptions. The token of `GITHUB_TOKEN` is an argument of
`clone`, the only function that reads it.
-/

namespace AgentBenchX

open DockerSandbox (strip startsWith)

/-- The exceptions of source management. `SourceError` is a `ValueError` with
a text for the API; `other` covers what no handler of discovery takes. -/
inductive SyncError where
  | sourceError (text : String)
  | valueError (text : String)
  | typeError (text : String)
  | keyError (text : String)
  | other (cls text : String)
deriving DecidableEq

namespace SyncError

/-- `str(exc)`. -/
def text : SyncError → String
  | .sourceError text => text
  | .valueError text => text
  | .typeError text => text
  | .keyError text => text
  | .other _ text => text

/-- `except (SourceError, ValueError, TypeError, KeyError)`. -/
def Caught : SyncError → Prop
  | .other _ _ => False
  | _ => True

instance (e : SyncError) : Decidable e.Caught := by
  cases e <;> unfold Caught <;> infer_instance

end SyncError

/-- What source management uses of Python. -/
structure Python where
  tables : UrlTables
  lower : String → String
  upper : String → String
  /-- `int(text)`, or the message of its `ValueError`. -/
  int : String → Except String ℤ
  /-- The message of a `UnicodeDecodeError`. -/
  decodeError : Bytes → String
  /-- `repr` of a list of strings. -/
  reprList : List String → String
  /-- `str(UUID(...))` of an identifier. -/
  idText : Uid → String
  /-- `tomllib.loads`. -/
  loads : String → Except SyncError (List (String × Toml))
  /-- How deep `json.dumps` follows containers. -/
  recursionLimit : ℕ
  /-- What the database driver writes to a text column for a value that is not
  text, if it can. -/
  adapt : Toml → Option String

/-- How a child process ends. -/
inductive Completed where
  | exited (code : ℤ) (stdout stderr : Bytes)
  | timedOut
  /-- It was not started. -/
  | failed (text : String)

/-- What the machine does for the manager; `γ` is what it remembers. -/
structure GitHost (γ : Type) where
  pathExists : γ → String → Bool
  /-- `path.mkdir(parents=True, exist_ok=True)`, with the text of its `OSError`. -/
  mkdir : γ → String → Except String Unit × γ
  spawn : γ → List String → Option String → Completed × γ

/-- A warning in the log: the template and its argument. -/
structure LogRecord where
  message : String
  arg : String
deriving DecidableEq

structure Cache (γ : Type) where
  host : γ
  log : List LogRecord := []

abbrev SourceProgram (γ : Type) (α : Type) := Program SyncError (Cache γ) α

/-- The cache directory and the hosts repositories may come from. -/
structure GitSettings where
  root : String
  allowedHosts : List String

/-! ## Repository URLs -/

def isHostChar (c : Char) : Bool := c.isAlphanum || c = '.' || c = '-'

/-- One of `[A-Za-z0-9_.-]`. -/
abbrev isNameChar (c : Char) : Bool := Url.isPlain c

/-- `[A-Za-z0-9_.-]+/[A-Za-z0-9_.-]+`, as owner and name. -/
def ownerAndName (path : List Char) : Option (List Char × List Char) :=
  let (owner, name) := Url.partition '/' path
  if '/' ∈ path ∧ owner ≠ [] ∧ owner.all isNameChar ∧ name ≠ [] ∧ name.all isNameChar then
    some (owner, name)
  else none

/-- `git@([A-Za-z0-9.-]+):([A-Za-z0-9_.-]+/[A-Za-z0-9_.-]+\.git)`, with its two
groups. -/
def sshMatch (url : List Char) : Option (List Char × List Char) :=
  if "git@".toList <+: url then
    let (host, path) := Url.partition ':' (url.drop 4)
    if ':' ∈ url.drop 4 ∧ host ≠ [] ∧ host.all isHostChar ∧ ".git".toList <:+ path then
      match ownerAndName path with
      | some (_, name) => if 4 < name.length then some (host, path) else none
      | none => none
    else none
  else none

/-- The path of an HTTPS repository. -/
def isRepositoryPath : List Char → Bool
  | '/' :: path => (ownerAndName path).isSome
  | _ => false

namespace GitRepositoryManager

/-- The last lines of `validate_url`. -/
def checkHost (settings : GitSettings) (host : Option (List Char)) (url : String) :
    Except SyncError String :=
  match host with
  | some host =>
      if String.ofList host ∈ settings.allowedHosts then .ok url
      else .error (.sourceError "Repository host is not allowed")
  | none => .error (.sourceError "Repository host is not allowed")

def validateUrl (py : Python) (settings : GitSettings) (url : String) : Except SyncError String :=
  match sshMatch url.toList with
  | some (host, _) => checkHost settings (some host) url
  | none =>
      match Url.urlsplit py.tables url.toList with
      | none => .error (.sourceError "Invalid repository URL")
      | some parsed =>
          match parsed.port with
          | none => .error (.sourceError "Invalid repository URL")
          | some port =>
              if parsed.scheme ≠ "https".toList ∨ parsed.username ≠ [] ∨ parsed.password ≠ []
                  ∨ parsed.query ≠ [] ∨ parsed.fragment ≠ [] ∨ ¬(port = none ∨ port = some 443)
                  ∨ ¬isRepositoryPath parsed.path then
                .error (.sourceError "Use an approved Git SSH or HTTPS repository URL")
              else checkHost settings (parsed.hostname py.tables) url

/-- What is returned is the URL itself. -/
theorem validateUrl_ok {py : Python} {settings : GitSettings} {url url' : String}
    (h : validateUrl py settings url = .ok url') : url' = url := by
  have hhost : ∀ host, checkHost settings host url = .ok url' → url' = url := by
    intro host hcheck
    unfold checkHost at hcheck
    split at hcheck
    · split at hcheck
      · exact (Except.ok.inj hcheck).symm
      · cases hcheck
    · cases hcheck
  unfold validateUrl at h
  split at h
  · exact hhost _ h
  · split at h
    · cases h
    · split at h
      · cases h
      · split at h
        · cases h
        · exact hhost _ h

variable {γ : Type} (py : Python) (settings : GitSettings) (git : GitHost γ)

/-- The cached clone of a source. -/
def path (sourceId : Uid) : String :=
  settings.root ++ "/problem_sources/" ++ py.idText sourceId ++ "/repository"

/-- The directory the clone is created in. -/
def parentPath (sourceId : Uid) : String :=
  settings.root ++ "/problem_sources/" ++ py.idText sourceId

def command (args : List String) : List String :=
  ["git", "-c", "core.hooksPath=/dev/null", "-c", "protocol.file.allow=never", "-c",
    "protocol.ext.allow=never"] ++ args

/-- `s[-n:]`. -/
def lastChars (n : ℕ) (s : String) : String :=
  String.ofList (s.toList.drop (s.toList.length - n))

def firstChars (n : ℕ) (s : String) : String := String.ofList (s.toList.take n)

/-- What `run` returns or raises for a child that ended so. -/
def completed (args : List String) : Completed → Except SyncError Bytes
  | .exited code stdout stderr =>
      if code = 0 then .ok stdout
      else .error (.sourceError ("Git operation failed: "
        ++ lastChars 3000 (strip (Utf8.decodeReplace stderr))))
  | .timedOut => .error (.sourceError ("Git operation failed: Command '"
      ++ py.reprList (command args) ++ "' timed out after 120 seconds"))
  | .failed text => .error (.sourceError ("Git operation failed: " ++ text))

/-- `run` with `binary=True`. -/
def run (args : List String) (cwd : Option String) : SourceProgram γ Bytes := fun s =>
  let (ended, host) := git.spawn s.host (command args) cwd
  (completed py args ended, { s with host })

/-- `bytes.decode()`. -/
def decode (content : Bytes) : Except SyncError String :=
  match Utf8.decode content with
  | some text => .ok text
  | none => .error (.valueError (py.decodeError content))

def runText (args : List String) (cwd : Option String) : SourceProgram γ String := do
  let stdout ← run py git args cwd
  let text ← Program.lift (decode py stdout)
  return strip text

def warn (message arg : String) : SourceProgram γ Unit :=
  Program.modify fun s => { s with log := s.log ++ [⟨message, arg⟩] }

/-- `path.mkdir(parents=True, exist_ok=True)`. -/
def mkdir (directory : String) : SourceProgram γ Unit := fun s =>
  let (r, host) := git.mkdir s.host directory
  (r.mapError (.other "OSError"), { s with host })

/-- Whether `part in text`. -/
def contains (part text : List Char) : Bool := text.tails.any part.isPrefixOf

/-- `url.replace(old, new)` for a nonempty `old`; `fuel` bounds the length. -/
def replaceChars (old new : List Char) : ℕ → List Char → List Char
  | 0, s => s
  | _ + 1, [] => []
  | fuel + 1, c :: s =>
      if old <+: c :: s then new ++ replaceChars old new fuel ((c :: s).drop old.length)
      else c :: replaceChars old new fuel s

def replace (old new url : String) : String :=
  String.ofList (replaceChars old.toList new.toList url.toList.length url.toList)

/-- The URL `clone` gives to git: an HTTPS URL of GitHub carries the token. -/
def cloneUrl (token : Option String) (url : String) : String :=
  match token with
  | some token =>
      if token ≠ "" ∧ contains "github.com".toList url.toList then
        replace "https://github.com/" ("https://x-access-token:" ++ token ++ "@github.com/") url
      else url
  | none => url

/-- `clone`; `token` is `os.getenv("GITHUB_TOKEN")`. -/
def clone (token : Option String) (sourceId : Uid) (url : String) : SourceProgram γ String := do
  warn "DEBUG CLONE URL=%r" url
  let path := path py settings sourceId
  let _ ← Program.lift (validateUrl py settings url)
  let url := cloneUrl token url
  mkdir git (parentPath py settings sourceId)
  warn "DEBUG URL=%r" url
  let debug ← runText py git ["ls-remote", url] none
  warn "DEBUG LS-REMOTE RESULT=%r" (firstChars 500 debug)
  let config ← runText py git ["config", "--list", "--show-origin"] none
  warn "DEBUG GIT CONFIG=%r" (firstChars 1000 config)
  let _ ← runText py git ["init", "--bare", path] none
  let _ ← runText py git ["-C", path, "remote", "add", "origin", url] none
  let _ ← runText py git ["-C", path, "remote", "set-url", "origin", url] none
  let _ ← runText py git ["-C", path, "fetch", "origin", "+refs/heads/*:refs/heads/*"] none
  return path

def fetch (path : String) : SourceProgram γ Unit := do
  let _ ← runText py git ["fetch", "--prune", "origin", "+refs/heads/*:refs/heads/*"] (some path)

def getBranch (path : String) : SourceProgram γ String :=
  runText py git ["symbolic-ref", "--short", "HEAD"] (some path)

/-- `[0-9a-f]{40,64}`. -/
def isSha (s : String) : Bool :=
  s.toList.all (fun c => c.isDigit || ('a' ≤ c && c ≤ 'f')) && 40 ≤ s.toList.length
    && s.toList.length ≤ 64

def getCurrentCommit (path ref : String) : SourceProgram γ String := do
  let sha ← runText py git ["rev-parse", "--verify", ref ++ "^\x7bcommit\x7d"] (some path)
  if isSha sha then return sha else Program.raise (.sourceError "Invalid commit SHA")

/-- A letter or digit, then any of `[A-Za-z0-9_.-]` and slashes, without `..`. -/
def isBranch (branch : String) : Bool :=
  branch.toList.head?.any Char.isAlphanum
    && branch.toList.all (fun c => Url.isPlain c || c = '/')
    && !contains "..".toList branch.toList

def checkout (path branch : String) : SourceProgram γ String :=
  if isBranch branch then getCurrentCommit py git path ("refs/heads/" ++ branch)
  else Program.raise (.sourceError "Invalid branch")

def pin (path sha : String) : SourceProgram γ Unit := do
  let _ ← runText py git ["update-ref", "refs/agentbenchx/" ++ sha, sha] (some path)

/-- The names of the regular files in the output of `ls-tree -rz`. -/
def blobNames (listing : String) : Except SyncError (List String) := do
  let entries := (listing.toList.splitOn (Char.ofNat 0)).filter fun e =>
    decide ("100644 blob".toList <+: e ∨ "100755 blob".toList <+: e)
  let names ← entries.mapM fun e =>
    if '\t' ∈ e then .ok (String.ofList (Url.partition '\t' e).2)
    else .error (.other "IndexError" "list index out of range")
  return names.dedup

def files (path sha : String) : SourceProgram γ (List String) := do
  let listing ← run py git ["ls-tree", "-rz", sha] (some path)
  let listing ← Program.lift (decode py listing)
  Program.lift (blobNames listing)

def read (path sha filename : String) : SourceProgram γ Bytes := do
  let text ← runText py git ["cat-file", "-s", sha ++ ":" ++ filename] (some path)
  let size ← Program.lift ((py.int text).mapError .valueError)
  if size > 1000000 then Program.raise (.sourceError "Metadata exceeds 1 MB")
  else run py git ["show", sha ++ ":" ++ filename] (some path)

end GitRepositoryManager

/-! ### A server -/

namespace Sample

def bugfixToml : String := "[metadata]\ncategory = \"bugfix\"\n"

def bugfixTable : List (String × Toml) := [("metadata", .table [("category", .string "bugfix")])]

/-- A date at the top. -/
def datedToml : String := "since = 2026-01-01\n[metadata]\ncategory = \"bugfix\"\n"

def dated : List (String × Toml) :=
  ("since", .moment "datetime.date" "2026-01-01") :: bugfixTable

/-- A difficulty that is a number. -/
def gradedToml : String := "[metadata]\ncategory = \"bugfix\"\ndifficulty = 3\n"

def graded : List (String × Toml) :=
  [("metadata", .table [("category", .string "bugfix"), ("difficulty", .integer 3)])]

/-- The documents of the samples, and what `tomllib` makes of them. -/
def documents : List (String × List (String × Toml)) :=
  [(bugfixToml, bugfixTable), (datedToml, dated), (gradedToml, graded)]

/-- Python as far as plain text goes. -/
def python : Python where
  tables :=
    { lower := fun s => s.map Char.toLower
      normal := fun _ => false
      address := fun _ => false
      lower_ascii := fun _ _ => rfl }
  lower s := String.ofList (s.toList.map Char.toLower)
  upper s := String.ofList (s.toList.map Char.toUpper)
  int s := (s.toList.mapM SplitUrl.digit?).elim (.error "invalid literal for int() with base 10")
    fun digits => .ok (digits.foldl (fun n d => 10 * n + d) 0 : ℕ)
  decodeError _ := "'utf-8' codec can't decode bytes"
  reprList args := String.join args
  idText := toString
  loads text := (documents.lookup text).elim
    (.error (.valueError "Expected '=' after a key in a key/value pair (at end of document)")) .ok
  recursionLimit := 1000
  adapt _ := none

def gitSettings : GitSettings := ⟨"storage", ["github.com"]⟩

/-- Git on a machine without a network. -/
def offline : GitHost Unit where
  pathExists _ _ := false
  mkdir _ _ := (.ok (), ())
  spawn _ _ _ := (.exited 128 [] (ascii "fatal: unable to access the remote"), ())

end Sample

end AgentBenchX
