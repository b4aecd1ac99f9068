import AgentBenchX.Errors
import AgentBenchX.Lib.Except
import AgentBenchX.Lib.Json
import AgentBenchX.Lib.Utf8
import AgentBenchX.Schemas

/-!
# Reading the artifacts of a run

`parse_junit` and `patch_metrics`. Python's XML parser and `float` are
parameters (`Libraries`): nothing is assumed of what they accept, return
or raise, and of the way floats are written only that JSON reads it as a
number. What `parse_junit` returns always fits the schema of the API
(`parseJunit_ok`); what it raises is another matter, since the text of
its exceptions comes from the parameters.
-/

namespace AgentBenchX

/-! ## Slices -/

/-- `s[:n]`. -/
def takeChars (n : ℕ) (s : String) : String := String.ofList (s.toList.take n)

/-- `s[-n:]`. -/
def lastChars (n : ℕ) (s : String) : String := String.ofList (s.toList.drop (s.length - n))

theorem length_takeChars (n : ℕ) (s : String) : (takeChars n s).length ≤ n := by
  simp [takeChars]

theorem length_lastChars (n : ℕ) (s : String) : (lastChars n s).length ≤ n := by
  rw [lastChars, String.length_ofList, List.length_drop, String.length_toList]
  omega

/-! ## XML documents -/

/-- An element of `xml.etree.ElementTree`. -/
inductive Element where
  | node (tag : String) (attrib : List (String × String)) (text : Option String)
      (children : List Element)

namespace Element

def tag : Element → String
  | .node tag _ _ _ => tag

def text : Element → Option String
  | .node _ _ text _ => text

def children : Element → List Element
  | .node _ _ _ children => children

/-- `element.get(key, default)`. -/
def get (e : Element) (key default : String) : String :=
  match e with
  | .node _ attrib _ _ => (attrib.lookup key).getD default

/-- `element.find(tag)`: the first child with that tag. -/
def find (e : Element) (tag : String) : Option Element := e.children.find? (·.tag = tag)

mutual

/-- `element.iter(tag)`: the element and everything below it in document order. -/
def iter (tag : String) : Element → List Element
  | .node t attrib text children =>
      (if t = tag then [.node t attrib text children] else []) ++ iterAll tag children

def iterAll (tag : String) : List Element → List Element
  | [] => []
  | e :: rest => iter tag e ++ iterAll tag rest

end

end Element

/-- The parts of the standard library the evaluation of a job rests on. -/
structure Libraries where
  /-- `ET.fromstring`. -/
  fromstring : Bytes → Except OtherError Element
  /-- The built-in `float`, on a string. -/
  float : String → Except OtherError PyFloat
  /-- `hashlib.sha256(content).hexdigest()`. -/
  sha256 : Bytes → String
  /-- The text of an identifier in a response. -/
  idText : ℕ → String
  /-- What `json.dumps` writes for a float. -/
  floatText : PyFloat → List Char
  floatText_numeral : ∀ x, Json.IsNumeral (floatText x)

/-! ## `parse_junit` -/

/-- An ASCII literal. -/
def ascii (s : String) : Bytes := s.toList.map fun c => UInt8.ofNat c.toNat

/-- `data.upper()`. -/
def upper (data : Bytes) : Bytes := data.map fun b => if 97 ≤ b ∧ b ≤ 122 then b - 32 else b

/-- A plain `ValueError`. -/
def valueError {α : Type} (text : String) : Except OtherError α := .error (.raised .valueError text)

/-- The entry of a `testcase` element that took `duration`. -/
def testEntry (case : Element) (duration : PyFloat) : TestInput :=
  let failed := (case.find "failure").or (case.find "error")
  let skipped := case.find "skipped"
  { name := lastChars 500 (case.get "classname" "" ++ "::" ++ case.get "name" "unnamed")
    status := if failed.isSome then .failed else if skipped.isSome then .skipped else .passed
    durationSeconds := duration
    message :=
      match failed.or skipped with
      | some node => takeChars 10000 (node.get "message" "" ++ "\n" ++ node.text.getD "")
      | none => "" }

/-- One round of the loop over the `testcase` elements. -/
def parseCase (lib : Libraries) (case : Element) : Except OtherError TestInput := do
  let duration ← lib.float (case.get "time" "0")
  if !duration.isFinite || duration.isNegative then valueError "Invalid JUnit duration"
  else return testEntry case duration

def parseJunit (lib : Libraries) (data : Bytes) : Except OtherError (List TestInput) :=
  if data = [] ∨ 5000000 < data.length ∨ ascii "<!DOCTYPE" <:+: upper data
      ∨ ascii "<!ENTITY" <:+: upper data then
    valueError "Missing, oversized or unsafe JUnit XML"
  else do
    let root ← lib.fromstring data
    let tests ← (root.iter "testcase").mapM (parseCase lib)
    if tests = [] ∨ 10000 < tests.length then
      valueError "Verifier did not provide a supported set of JUnit test cases"
    else return tests

/-- A test the schema of the API accepts. -/
structure TestInput.Fits (t : TestInput) : Prop where
  name : t.name.length ≤ 500
  message : t.message.length ≤ 10000
  duration : ∃ q : ℚ, t.durationSeconds = .finite q ∧ 0 ≤ q

theorem length_message (case : Element) (duration : PyFloat) :
    (testEntry case duration).message.length ≤ 10000 := by
  unfold testEntry
  dsimp only
  split
  · exact length_takeChars ..
  · decide

theorem parseCase_ok {lib : Libraries} {case : Element} {t : TestInput}
    (h : parseCase lib case = .ok t) : t.Fits := by
  obtain ⟨duration, -, h⟩ := ok_of_bind h
  split at h
  · cases h
  · rename_i hduration
    obtain rfl := Except.ok.inj h
    refine ⟨length_lastChars .., length_message case duration, ?_⟩
    cases duration with
    | finite q =>
        refine ⟨q, rfl, not_lt.mp fun hq => hduration ?_⟩
        simp [PyFloat.isNegative, hq]
    | inf negative => simp [PyFloat.isFinite] at hduration
    | nan => simp [PyFloat.isFinite] at hduration

theorem parseJunit_ok {lib : Libraries} {data : Bytes} {tests : List TestInput}
    (h : parseJunit lib data = .ok tests) :
    tests ≠ [] ∧ tests.length ≤ 10000 ∧ ∀ t ∈ tests, t.Fits := by
  unfold parseJunit at h
  split at h
  · cases h
  · obtain ⟨root, -, h⟩ := ok_of_bind h
    obtain ⟨parsed, hparsed, h⟩ := ok_of_bind h
    split at h
    · cases h
    · rename_i hcount
      obtain rfl := Except.ok.inj h
      obtain ⟨hne, hlen⟩ := not_or.mp hcount
      refine ⟨hne, not_lt.mp hlen, fun t ht => ?_⟩
      obtain ⟨case, -, hcase⟩ := mapM_ok_mem hparsed t ht
      exact parseCase_ok hcase

/-! ## `patch_metrics` -/

/-- The characters `str.splitlines` breaks lines at. -/
def isLineBreak (c : Char) : Bool :=
  c.toNat ∈ [10, 11, 12, 13, 28, 29, 30, 133, 8232, 8233]

/-- `str.splitlines`. -/
def splitlines : List Char → List (List Char)
  | [] => []
  | '\r' :: '\n' :: rest => [] :: splitlines rest
  | c :: rest =>
      if isLineBreak c then [] :: splitlines rest
      else
        match splitlines rest with
        | [] => [[c]]
        | line :: lines => (c :: line) :: lines

/-- The local variables of `patch_metrics`. -/
structure PatchCounts where
  files : List (List Char) := []
  inHunk : Bool := false
  additions : ℕ := 0
  deletions : ℕ := 0

/-- One line of a patch. -/
def PatchCounts.line (s : PatchCounts) (line : List Char) : PatchCounts :=
  if "diff --git ".toList <+: line then { s with files := s.files.insert line, inHunk := false }
  else if "@@".toList <+: line then { s with inHunk := true }
  else if s.inHunk then
    { s with
      additions := s.additions + if "+".toList <+: line then 1 else 0
      deletions := s.deletions + if "-".toList <+: line then 1 else 0 }
  else s

structure PatchMetrics where
  filesChanged : ℕ
  insertions : ℕ
  deletions : ℕ
deriving DecidableEq, Repr

def patchMetrics (patch : String) : PatchMetrics :=
  let counts := (splitlines patch.toList).foldl PatchCounts.line {}
  ⟨counts.files.length, counts.additions, counts.deletions⟩

example : patchMetrics "diff --git a/f b/f\n--- a/f\n+++ b/f\n@@ -1 +1,2 @@\n-x\n+y\n+z\n" =
    ⟨1, 2, 1⟩ := by
  decide

end AgentBenchX
