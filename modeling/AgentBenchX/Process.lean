import Mathlib.Data.NNRat.Defs
import AgentBenchX.Lib.Utf8
import AgentBenchX.Schemas

/-!
# Bounded child processes

`process.run`: both output streams of a child are drained into buffers
with a cap, and decoded once the child is gone. What the operating system
reports of the child is `Ended`; the function turns it into the `Outcome`
the evaluator works with. However much the child writes, a stream is at
most `limit` characters and a marker (`Outcome.Bounded`).
-/

namespace AgentBenchX

/-- Bounded process groups for trusted orchestration commands. -/
structure Outcome where
  exitCode : ℤ
  stdout : String
  stderr : String
  startedAt : String
  finishedAt : String
  runtimeSeconds : PyFloat
  timedOut : Bool := false
  cancelled : Bool := false
deriving DecidableEq, Repr

/-- The command did not succeed. -/
def Outcome.Failed (o : Outcome) : Prop :=
  o.exitCode ≠ 0 ∨ o.timedOut = true ∨ o.cancelled = true

instance (o : Outcome) : Decidable o.Failed := inferInstanceAs (Decidable (_ ∨ _))

/-- A child that has ended: its exit status, what its streams delivered chunk by
chunk, and how the wait for it ended. -/
structure Ended where
  returncode : ℤ
  stdout : List Bytes
  stderr : List Bytes
  startedAt : String
  finishedAt : String
  /-- The two readings of the monotonic clock are never the wrong way round. -/
  elapsed : ℚ≥0
  timedOut : Bool
  cancelled : Bool

namespace Process

/-- A buffer, and whether something did not fit. -/
structure Buffer where
  bytes : Bytes := []
  truncated : Bool := false

/-- `drain`: one more chunk of a stream. -/
def Buffer.extend (limit : ℕ) (b : Buffer) (chunk : Bytes) : Buffer :=
  let room := limit - b.bytes.length
  { bytes := b.bytes ++ chunk.take room
    truncated := b.truncated || decide (room < chunk.length) }

def drain (limit : ℕ) (chunks : List Bytes) : Buffer := chunks.foldl (Buffer.extend limit) {}

def Buffer.text (b : Buffer) : String :=
  Utf8.decodeReplace b.bytes ++ if b.truncated then "\n[output truncated]" else ""

/-- `run` for a child that ended so. -/
def run (limit : ℕ) (e : Ended) : Outcome where
  exitCode := e.returncode
  stdout := (drain limit e.stdout).text
  stderr := (drain limit e.stderr).text
  startedAt := e.startedAt
  finishedAt := e.finishedAt
  runtimeSeconds := .finite e.elapsed
  timedOut := e.timedOut
  cancelled := e.cancelled

/-- A text that fits is what is read of it. -/
theorem text_drain {limit : ℕ} {cs : List Char} (h : 4 * cs.length ≤ limit) :
    (drain limit [Utf8.encode cs]).text = String.ofList cs := by
  have hfits : (Utf8.encode cs).length ≤ limit := (Utf8.length_encode_le cs).trans h
  have hdrain : drain limit [Utf8.encode cs] = ⟨Utf8.encode cs, false⟩ := by
    show Buffer.mk ([] ++ (Utf8.encode cs).take limit)
      (decide (limit < (Utf8.encode cs).length)) = _
    rw [List.nil_append, List.take_of_length_le hfits, decide_eq_false (not_lt.mpr hfits)]
  rw [hdrain, Buffer.text, Utf8.decodeReplace_encode]
  exact String.append_empty

/-! ## Bounds -/

theorem length_drain (limit : ℕ) (chunks : List Bytes) :
    (drain limit chunks).bytes.length ≤ limit := by
  have hkeep : ∀ (b : Buffer), b.bytes.length ≤ limit →
      (chunks.foldl (Buffer.extend limit) b).bytes.length ≤ limit := by
    induction chunks with
    | nil => exact fun b hb => hb
    | cons chunk chunks ih =>
        intro b hb
        refine ih _ ?_
        simp only [Buffer.extend, List.length_append, List.length_take]
        omega
  exact hkeep {} (Nat.zero_le _)

theorem length_text (b : Buffer) : b.text.length ≤ b.bytes.length + 19 := by
  have hdecode := Utf8.length_decodeReplace b.bytes
  have hmarker : (if b.truncated then "\n[output truncated]" else "").length ≤ 19 := by
    split <;> decide
  rw [Buffer.text, String.length_append]
  omega

end Process

/-- What `run` with its default cap guarantees of an outcome. -/
structure Outcome.Bounded (o : Outcome) : Prop where
  stdout : o.stdout.length ≤ 500019
  stderr : o.stderr.length ≤ 500019
  runtime : ∃ q : ℚ, o.runtimeSeconds = .finite q ∧ 0 ≤ q

theorem Process.run_bounded (e : Ended) : (run 500000 e).Bounded where
  stdout := by
    have hdrain := length_drain 500000 e.stdout
    have htext := length_text (drain 500000 e.stdout)
    show (drain 500000 e.stdout).text.length ≤ 500019
    omega
  stderr := by
    have hdrain := length_drain 500000 e.stderr
    have htext := length_text (drain 500000 e.stderr)
    show (drain 500000 e.stderr).text.length ≤ 500019
    omega
  runtime := ⟨e.elapsed, rfl, e.elapsed.2⟩

end AgentBenchX
