import Mathlib.Tactic.Linarith
import AgentBenchX.Models

/-!
# The lease keeper of a worker

`LeaseKeeper` as a state machine. The threads that call `renew` (the
context manager on entry, the renewal thread, the evaluator) are
serialized by its lock, so its state has one place for the call that
holds the lock: `Renewal` says how far that call has come. Everything
between two readings of the clock or two looks at `cancel` is one step,
because the other threads can act there.

Times are readings of `time.monotonic()`.
-/

namespace AgentBenchX

/-- Where the call of `renew` that holds the lock stands. -/
inductive Renewal where
  /-- It has the lock and has not looked at `cancel` yet. -/
  | locked
  /-- It is at the head of the loop. -/
  | looping
  /-- The heartbeat with this number is out; the clock was read just before. -/
  | sent (request : ℕ) (sentAt : Time)
  /-- The heartbeat was answered. -/
  | acknowledged (sentAt : Time)
  /-- The answer was in time; the deadline is about to move. -/
  | confirmed (sentAt : Time)
deriving DecidableEq

/-- Whether `__enter__` is still running, has returned, or has raised. -/
inductive Phase where
  | entering | entered | failed
deriving DecidableEq

/-- How a heartbeat request ends for its sender. -/
inductive Reply where
  /-- A success answer. -/
  | accepted
  /-- An answer with a status below 500. -/
  | rejected
  /-- A transport error, or an answer with a status from 500 on. -/
  | failed
deriving DecidableEq

structure LeaseKeeper where
  leaseSeconds : Time
  cancel : Bool := false
  deadline : Time
  phase : Phase := .entering
  renewal : Option Renewal := none
  /-- The clock readings of the heartbeats sent so far, in their order. -/
  sent : List Time := []
deriving DecidableEq

namespace LeaseKeeper

/-- `lease_seconds * 0.75`. -/
def window (k : LeaseKeeper) : Time := k.leaseSeconds * (3 / 4)

/-- `__init__`, with its reading of the clock. -/
def new (leaseSeconds : Time) (reading : Time) : LeaseKeeper where
  leaseSeconds := leaseSeconds
  deadline := reading + leaseSeconds * (3 / 4)

/-- A call of `renew` takes the lock; after a failed entry nobody calls. -/
def lock (k : LeaseKeeper) : Option LeaseKeeper :=
  if k.renewal = none ∧ k.phase ≠ .failed then some { k with renewal := some .locked } else none

/-- The call raises: it gives the lock back, and `__enter__` raises with it. -/
def giveUp (k : LeaseKeeper) : LeaseKeeper :=
  { k with
    renewal := none
    phase := if k.phase = .entering then .failed else k.phase }

/-- `self.cancel.set()` and raise. -/
def abandon (k : LeaseKeeper) : LeaseKeeper := { k.giveUp with cancel := true }

/-- The next step of the call of `renew` that holds the lock. `reading` is its
reading of the clock, `reply` how its request ends. -/
def renew (k : LeaseKeeper) (reading : Time) (reply : Reply) : LeaseKeeper :=
  match k.renewal with
  | none => k
  | some .locked => if k.cancel then k.giveUp else { k with renewal := some .looping }
  | some .looping =>
      if k.cancel then k.giveUp
      else if k.deadline ≤ reading then k.abandon
      else { k with renewal := some (.sent k.sent.length reading), sent := k.sent ++ [reading] }
  | some (.sent _ sentAt) =>
      match reply with
      | .accepted => { k with renewal := some (.acknowledged sentAt) }
      | .rejected => k.abandon
      -- Wait for `cancel`, at most two seconds, and continue the loop.
      | .failed => { k with renewal := some .looping }
  | some (.acknowledged sentAt) =>
      if k.cancel ∨ k.deadline ≤ reading then k.abandon
      else { k with renewal := some (.confirmed sentAt) }
  | some (.confirmed sentAt) =>
      { k with
        deadline := sentAt + k.window
        renewal := none
        phase := .entered }

/-- One round of `watchdog`. -/
def watch (k : LeaseKeeper) (reading : Time) : LeaseKeeper :=
  if k.deadline ≤ reading then { k with cancel := true } else k

/-- `cancel.set()` from outside: the renewal thread after a failed renewal, or
the signal handler of the worker. -/
def cancelled (k : LeaseKeeper) : LeaseKeeper := { k with cancel := true }

/-! ## What a step leaves alone -/

variable {k : LeaseKeeper} {reading : Time} {reply : Reply}

@[simp] theorem giveUp_deadline : k.giveUp.deadline = k.deadline := rfl
@[simp] theorem giveUp_cancel : k.giveUp.cancel = k.cancel := rfl
@[simp] theorem giveUp_renewal : k.giveUp.renewal = none := rfl
@[simp] theorem giveUp_sent : k.giveUp.sent = k.sent := rfl
@[simp] theorem giveUp_leaseSeconds : k.giveUp.leaseSeconds = k.leaseSeconds := rfl
@[simp] theorem abandon_deadline : k.abandon.deadline = k.deadline := rfl
@[simp] theorem abandon_cancel : k.abandon.cancel = true := rfl
@[simp] theorem abandon_renewal : k.abandon.renewal = none := rfl
@[simp] theorem abandon_sent : k.abandon.sent = k.sent := rfl
@[simp] theorem abandon_leaseSeconds : k.abandon.leaseSeconds = k.leaseSeconds := rfl

theorem giveUp_phase (h : k.giveUp.phase = .entered) : k.phase = .entered := by
  simp only [giveUp] at h
  split at h
  · cases h
  · exact h

/-- The lock is taken when it is free, and nothing else changes. -/
theorem lock_eq {k' : LeaseKeeper} (h : k.lock = some k') :
    k.renewal = none ∧ k' = { k with renewal := some .locked } := by
  unfold lock at h
  split at h
  · rename_i hfree
    exact ⟨hfree.1, (Option.some.inj h).symm⟩
  · cases h

/-- What a step of `renew` can do, with what it has checked. -/
inductive Renews (k : LeaseKeeper) (reading : Time) (reply : Reply) : LeaseKeeper → Prop
  | idle : k.renewal = none → Renews k reading reply k
  | raises : k.cancel = true → Renews k reading reply k.giveUp
  | abandons : Renews k reading reply k.abandon
  | starts : k.renewal = some .locked → k.cancel = false →
      Renews k reading reply { k with renewal := some .looping }
  | retries {request : ℕ} {sentAt : Time} : k.renewal = some (.sent request sentAt) →
      Renews k reading reply { k with renewal := some .looping }
  | sends : k.renewal = some .looping → k.cancel = false → reading < k.deadline →
      Renews k reading reply
        { k with renewal := some (.sent k.sent.length reading), sent := k.sent ++ [reading] }
  | hears {request : ℕ} {sentAt : Time} :
      k.renewal = some (.sent request sentAt) → reply = .accepted →
      Renews k reading reply { k with renewal := some (.acknowledged sentAt) }
  | confirms {sentAt : Time} :
      k.renewal = some (.acknowledged sentAt) → k.cancel = false → reading < k.deadline →
      Renews k reading reply { k with renewal := some (.confirmed sentAt) }
  | moves {sentAt : Time} :
      k.renewal = some (.confirmed sentAt) →
      Renews k reading reply
        { k with deadline := sentAt + k.window, renewal := none, phase := .entered }

theorem renew_renews (k : LeaseKeeper) (reading : Time) (reply : Reply) :
    Renews k reading reply (k.renew reading reply) := by
  unfold renew
  split
  · exact .idle ‹_›
  · split
    · exact .raises ‹_›
    · exact .starts ‹_› (by simpa using ‹¬k.cancel = true›)
  · split
    · exact .raises ‹_›
    · split
      · exact .abandons
      · exact .sends ‹_› (by simpa using ‹¬k.cancel = true›) (not_le.mp ‹_›)
  · split
    · exact .hears ‹_› rfl
    · exact .abandons
    · exact .retries ‹_›
  · split
    · exact .abandons
    · rename_i hok
      obtain ⟨hcancel, hlt⟩ := not_or.mp hok
      exact .confirms ‹_› (by simpa using hcancel) (not_le.mp hlt)
  · exact .moves ‹_›

/-- `cancel` is never cleared. -/
theorem Renews.cancel {k' : LeaseKeeper} (h : Renews k reading reply k') (hc : k.cancel = true) :
    k'.cancel = true := by
  cases h <;> first | exact hc | rfl

end LeaseKeeper

end AgentBenchX
