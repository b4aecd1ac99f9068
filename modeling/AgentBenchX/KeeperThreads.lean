import Mathlib.Algebra.Order.Floor.Semiring
import Mathlib.Data.Rat.Floor
import Mathlib.Tactic.Linarith
import AgentBenchX.LeaseKeeper
import AgentBenchX.Lib.Transition

/-!
# The threads of a lease keeper

The keeper with its clock and its threads: the main thread, which enters the
context and renews when the evaluator asks for it, the renewal loop and the
watchdog. Code takes no time; time passes while a request is out, in the timed
waits and at the lock. How long a request takes and when a thread comes to run
is left to the environment, except that a timed wait lasts as long as it was
asked to unless the event it waits for is set.

A call of `renew` sends only before the deadline and waits two seconds, or up
to the deadline, after each failure. So what is left of the window bounds the
heartbeats of a call (`renew_bounded`).
-/

namespace AgentBenchX

/-- The threads that call `renew`. -/
inductive Caller where
  | main | renewLoop
deriving DecidableEq

/-- How a call of `renew` ends. -/
inductive CallEnd where
  | returned
  | runtimeError (text : String)
  /-- The `HTTPStatusError` of an answer below 500. -/
  | statusError
deriving DecidableEq

/-- Where `renew_loop` stands. -/
inductive LoopAt where
  | unstarted
  /-- In `done.wait(self.interval)`, until this time. -/
  | waiting (wakes : Time)
  /-- At the lock or in its call of `renew`. -/
  | renewing
  | ended
deriving DecidableEq

structure KeeperState where
  clock : Time
  keeper : LeaseKeeper
  interval : Time
  /-- The thread in the lock, if a call of `renew` is running. -/
  holder : Caller := .main
  /-- The main thread is at the lock or in its call of `renew`. -/
  mainRenews : Bool := true
  loop : LoopAt := .unstarted
  /-- The running call waits until then before its next heartbeat. -/
  retryAt : Time
  /-- How the heartbeats ended, with the readings of the clock at that moment. -/
  replies : List (Reply × Time) := []
  /-- How the last call that is over ended. -/
  lastCall : Option CallEnd := none
  /-- Somebody outside of the keeper has set `cancel`. -/
  stopped : Bool := false
deriving DecidableEq

inductive KeeperEvent where
  /-- Time passes until the clock shows `c`. -/
  | pass (c : Time)
  /-- The evaluator asks for a renewal. -/
  | call
  /-- The wait of the renewal loop is over. -/
  | wake
  | acquire (caller : Caller)
  /-- The running call of `renew` goes on. -/
  | renew (reply : Reply)
  | poll
  /-- The signal handler of the worker sets `cancel`. -/
  | stop
deriving DecidableEq

namespace KeeperState

/-- `LeaseKeeper(…, interval)` and the call of `renew` in `__enter__`. -/
def enter (leaseSeconds interval reading : Time) : KeeperState where
  clock := reading
  keeper := .new leaseSeconds reading
  interval := min interval (leaseSeconds / 4)
  retryAt := reading

/-- The thread wants the lock and does not have it. -/
def AtLock (s : KeeperState) (caller : Caller) : Prop :=
  (match caller with
    | .main => s.mainRenews = true
    | .renewLoop => s.loop = .renewing)
  ∧ (s.keeper.renewal = none ∨ s.holder ≠ caller)

/-- `done.wait(self.interval)` begins. -/
def rest (s : KeeperState) : KeeperState :=
  { s with loop := .waiting (s.clock + max 0 s.interval) }

/-- The call returns. `__enter__` starts the threads then. -/
def returns (s : KeeperState) : KeeperState :=
  let t := { s with lastCall := some .returned }
  match s.holder with
  | .main => { (if s.loop = .unstarted then t.rest else t) with mainRenews := false }
  | .renewLoop => t.rest

/-- The call raises. The renewal loop then sets `cancel` and ends. -/
def raises (s : KeeperState) (e : CallEnd) : KeeperState :=
  let t := { s with lastCall := some e }
  match s.holder with
  | .main => { t with mainRenews := false }
  | .renewLoop => { t with keeper := s.keeper.cancelled, loop := .ended }

/-- The next step of the running call. -/
def renew (s : KeeperState) (reply : Reply) : KeeperState :=
  let t := { s with keeper := s.keeper.renew s.clock reply }
  match s.keeper.renewal with
  | none => s
  | some .locked =>
      if s.keeper.cancel then t.raises (.runtimeError "Lease no longer valid") else t
  | some .looping =>
      if s.keeper.cancel then t.raises (.runtimeError "Lease no longer valid")
      else if s.keeper.deadline ≤ s.clock then
        t.raises (.runtimeError "Lease renewal deadline exceeded")
      else t
  | some (.sent _ _) =>
      let u := { t with replies := s.replies ++ [(reply, s.clock)] }
      match reply with
      | .accepted => u
      | .rejected => u.raises .statusError
      | .failed =>
          { u with retryAt := s.clock + min 2 (max 0 (s.keeper.deadline - s.clock)) }
  | some (.acknowledged _) =>
      if s.keeper.cancel ∨ s.keeper.deadline ≤ s.clock then
        t.raises (.runtimeError "Lease acknowledgment arrived after safety deadline")
      else t
  | some (.confirmed _) => t.returns

end KeeperState

/-- The steps of the threads and of the clock. -/
def KeeperStep (s : KeeperState) : KeeperEvent → KeeperState → Prop
  | .pass c, t => s.clock ≤ c ∧ t = { s with clock := c }
  | .call, t =>
      s.keeper.phase = .entered ∧ s.mainRenews = false ∧ t = { s with mainRenews := true }
  | .wake, t => (∃ w, s.loop = .waiting w ∧ w ≤ s.clock) ∧ t = { s with loop := .renewing }
  | .acquire caller, t =>
      s.AtLock caller ∧ ∃ k, s.keeper.lock = some k
        ∧ t = { s with keeper := k, holder := caller, retryAt := s.clock }
  | .renew reply, t =>
      s.keeper.renewal ≠ none
        ∧ (s.keeper.renewal = some .looping → s.retryAt ≤ s.clock ∨ s.keeper.cancel = true)
        ∧ t = s.renew reply
  | .poll, t =>
      s.keeper.phase = .entered ∧ t = { s with keeper := s.keeper.watch s.clock }
  | .stop, t => t = { s with keeper := s.keeper.cancelled, stopped := true }

/-- A keeper from `__init__` on. -/
def keeperThreads (leaseSeconds interval : Time) : Transition KeeperState KeeperEvent where
  init s := ∃ reading, s = .enter leaseSeconds interval reading
  step := KeeperStep

/-! ## What a step can do -/

namespace KeeperState

variable {s : KeeperState} {e : CallEnd}

@[simp] theorem returns_keeper : s.returns.keeper = s.keeper := by
  unfold returns
  split
  · split <;> rfl
  · rfl

@[simp] theorem returns_clock : s.returns.clock = s.clock := by
  unfold returns
  split
  · split <;> rfl
  · rfl

@[simp] theorem returns_replies : s.returns.replies = s.replies := by
  unfold returns
  split
  · split <;> rfl
  · rfl

@[simp] theorem returns_lastCall : s.returns.lastCall = some .returned := by
  unfold returns
  split
  · split <;> rfl
  · rfl

@[simp] theorem returns_stopped : s.returns.stopped = s.stopped := by
  unfold returns
  split
  · split <;> rfl
  · rfl

@[simp] theorem raises_stopped : (s.raises e).stopped = s.stopped := by
  unfold raises
  split <;> rfl

@[simp] theorem raises_replies : (s.raises e).replies = s.replies := by
  unfold raises
  split <;> rfl

@[simp] theorem raises_lastCall : (s.raises e).lastCall = some e := by
  unfold raises
  split <;> rfl

@[simp] theorem raises_deadline : (s.raises e).keeper.deadline = s.keeper.deadline := by
  unfold raises
  split <;> rfl

@[simp] theorem raises_sent : (s.raises e).keeper.sent = s.keeper.sent := by
  unfold raises
  split <;> rfl

@[simp] theorem raises_renewal : (s.raises e).keeper.renewal = s.keeper.renewal := by
  unfold raises
  split <;> rfl

theorem raises_cancel (h : s.keeper.cancel = true) : (s.raises e).keeper.cancel = true := by
  unfold raises
  split
  · exact h
  · rfl

end KeeperState

/-- What a step of the running call can do, with what it has checked. -/
inductive Goes (s : KeeperState) (reply : Reply) : KeeperState → Prop
  | starts : s.keeper.renewal = some .locked → s.keeper.cancel = false →
      Goes s reply { s with keeper := { s.keeper with renewal := some .looping } }
  | sends : s.keeper.renewal = some .looping → s.keeper.cancel = false →
      s.clock < s.keeper.deadline →
      Goes s reply { s with keeper := { s.keeper with
        renewal := some (.sent s.keeper.sent.length s.clock)
        sent := s.keeper.sent ++ [s.clock] } }
  | hears {n : ℕ} {sentAt : Time} : s.keeper.renewal = some (.sent n sentAt) →
      reply = .accepted →
      Goes s reply { s with
        keeper := { s.keeper with renewal := some (.acknowledged sentAt) }
        replies := s.replies ++ [(.accepted, s.clock)] }
  | retries {n : ℕ} {sentAt : Time} : s.keeper.renewal = some (.sent n sentAt) →
      reply = .failed →
      Goes s reply { s with
        keeper := { s.keeper with renewal := some .looping }
        replies := s.replies ++ [(.failed, s.clock)]
        retryAt := s.clock + min 2 (max 0 (s.keeper.deadline - s.clock)) }
  | confirms {sentAt : Time} : s.keeper.renewal = some (.acknowledged sentAt) →
      s.keeper.cancel = false → s.clock < s.keeper.deadline →
      Goes s reply { s with keeper := { s.keeper with renewal := some (.confirmed sentAt) } }
  | returns {sentAt : Time} : s.keeper.renewal = some (.confirmed sentAt) →
      Goes s reply (KeeperState.returns { s with keeper := { s.keeper with
        deadline := sentAt + s.keeper.window, renewal := none, phase := .entered } })
  | raises {k : LeaseKeeper} {more : List (Reply × Time)} {e : CallEnd} :
      s.keeper.cancel = true ∨ s.keeper.deadline ≤ s.clock
        ∨ reply = .rejected ∧ (∃ n sentAt, s.keeper.renewal = some (.sent n sentAt)) →
      k.cancel = true → k.renewal = none → k.deadline = s.keeper.deadline →
      k.sent = s.keeper.sent → e ≠ .returned →
      Goes s reply (KeeperState.raises { s with keeper := k, replies := s.replies ++ more } e)

theorem renew_goes {s : KeeperState} {reply : Reply} (h : s.keeper.renewal ≠ none) :
    Goes s reply (s.renew reply) := by
  have raises {k : LeaseKeeper} {e : CallEnd}
      (hwhy : s.keeper.cancel = true ∨ s.keeper.deadline ≤ s.clock)
      (hk : k = s.keeper.giveUp ∧ s.keeper.cancel = true ∨ k = s.keeper.abandon)
      (he : e ≠ .returned) : Goes s reply (KeeperState.raises { s with keeper := k } e) := by
    have hwhy : s.keeper.cancel = true ∨ s.keeper.deadline ≤ s.clock
        ∨ reply = .rejected ∧ (∃ n sentAt, s.keeper.renewal = some (.sent n sentAt)) :=
      hwhy.imp_right Or.inl
    have hlog : s.replies = s.replies ++ [] := (List.append_nil _).symm
    rcases hk with ⟨rfl, hcancel⟩ | rfl
    all_goals
      show Goes s reply (KeeperState.raises { s with keeper := _, replies := s.replies } e)
      rw [hlog]
    · exact .raises hwhy hcancel rfl rfl rfl he
    · exact .raises hwhy rfl rfl rfl rfl he
  unfold KeeperState.renew LeaseKeeper.renew
  cases hr : s.keeper.renewal with
  | none => exact absurd hr h
  | some r =>
      cases r with
      | locked =>
          dsimp only
          split
          · exact raises (Or.inl ‹_›) (Or.inl ⟨rfl, ‹_›⟩) (by simp)
          · exact .starts hr (by simpa using ‹¬s.keeper.cancel = true›)
      | looping =>
          dsimp only
          split
          · exact raises (Or.inl ‹_›) (Or.inl ⟨rfl, ‹_›⟩) (by simp)
          · split
            · exact raises (Or.inr ‹_›) (Or.inr rfl) (by simp)
            · exact .sends hr (by simpa using ‹¬s.keeper.cancel = true›) (not_le.mp ‹_›)
      | sent n sentAt =>
          cases reply with
          | accepted => exact .hears hr rfl
          | rejected =>
              exact .raises (Or.inr (Or.inr ⟨rfl, n, sentAt, hr⟩)) rfl rfl rfl rfl (by simp)
          | failed => exact .retries hr rfl
      | acknowledged sentAt =>
          dsimp only
          split
          · rename_i hlate
            exact raises hlate (Or.inr rfl) (by simp)
          · rename_i hok
            obtain ⟨hcancel, hlt⟩ := not_or.mp hok
            exact .confirms hr (by simpa using hcancel) (not_le.mp hlt)
      | confirmed sentAt => exact .returns hr

/-- The other steps leave a running call where it is. -/
theorem KeeperStep.others {s t : KeeperState} {event : KeeperEvent} (h : KeeperStep s event t)
    (hrunning : s.keeper.renewal ≠ none) (hevent : ∀ reply, event ≠ .renew reply) :
    t.keeper.renewal = s.keeper.renewal ∧ t.keeper.deadline = s.keeper.deadline
      ∧ t.keeper.sent = s.keeper.sent ∧ t.retryAt = s.retryAt ∧ t.replies = s.replies
      ∧ s.clock ≤ t.clock := by
  cases event with
  | pass c => obtain ⟨hc, rfl⟩ := h; exact ⟨rfl, rfl, rfl, rfl, rfl, hc⟩
  | call => obtain ⟨-, -, rfl⟩ := h; exact ⟨rfl, rfl, rfl, rfl, rfl, le_rfl⟩
  | wake => obtain ⟨-, rfl⟩ := h; exact ⟨rfl, rfl, rfl, rfl, rfl, le_rfl⟩
  | acquire caller =>
      obtain ⟨-, k, hlock, -⟩ := h
      exact absurd (LeaseKeeper.lock_eq hlock).1 hrunning
  | renew reply => exact absurd rfl (hevent reply)
  | poll =>
      obtain ⟨-, rfl⟩ := h
      dsimp only
      unfold LeaseKeeper.watch
      split <;> exact ⟨rfl, rfl, rfl, rfl, rfl, le_rfl⟩
  | stop => obtain rfl := h; exact ⟨rfl, rfl, rfl, rfl, rfl, le_rfl⟩

/-! ## One call of `renew` -/

/-- The states while a call of `renew` runs and when it is over, with the
number of its own steps, from where it got the lock. -/
inductive Calling (s₀ : KeeperState) : ℕ → KeeperState → Prop
  | acquired : Calling s₀ 0 s₀
  | goes {n : ℕ} {s t : KeeperState} {reply : Reply} :
      Calling s₀ n s → KeeperStep s (.renew reply) t → Calling s₀ (n + 1) t
  | waits {n : ℕ} {s t : KeeperState} {event : KeeperEvent} :
      Calling s₀ n s → s.keeper.renewal ≠ none → (∀ reply, event ≠ .renew reply) →
      KeeperStep s event t → Calling s₀ n t

/-- How far a call has come that got the lock in state `r` and has sent `q`
heartbeats. -/
def Standing (r : KeeperState) (q n : ℕ) (heard : List (Reply × Time)) (s : KeeperState) : Prop :=
  match s.keeper.renewal with
  | some .locked => n = 0 ∧ q = 0 ∧ s.keeper.deadline = r.keeper.deadline ∧ s.retryAt = r.clock
  | some .looping => n = 2 * q + 1 ∧ s.keeper.deadline = r.keeper.deadline
      -- The next heartbeat is two seconds away, or as far as the deadline.
      ∧ (r.clock + 2 * q ≤ s.retryAt ∨ r.keeper.deadline ≤ s.retryAt)
  | some (.sent _ _) => n = 2 * q ∧ s.keeper.deadline = r.keeper.deadline
      ∧ r.clock + 2 * q ≤ s.clock + 2
  | some (.acknowledged _) => n = 2 * q + 1 ∧ s.keeper.deadline = r.keeper.deadline
      ∧ ∃ a ∈ heard, a.1 = .accepted ∧ a.2 ≤ s.clock
  | some (.confirmed _) => n = 2 * q + 2 ∧ s.keeper.deadline = r.keeper.deadline
      ∧ ∃ a ∈ heard, a.1 = .accepted ∧ a.2 < r.keeper.deadline
  | none => n ≤ 2 * q + 3
      ∧ (s.keeper.deadline ≠ r.keeper.deadline →
        ∃ a ∈ heard, a.1 = .accepted ∧ a.2 < r.keeper.deadline)
      ∧ s.lastCall ≠ none ∧ (s.lastCall ≠ some .returned → s.keeper.cancel = true)

/-- The heartbeats `new` of the call and the ends `heard` of them. -/
structure Within (r : KeeperState) (n : ℕ) (new : List Time) (heard : List (Reply × Time))
    (s : KeeperState) : Prop where
  sent : s.keeper.sent = r.keeper.sent ++ new
  replies : s.replies = r.replies ++ heard
  early : ∀ x ∈ new, x < r.keeper.deadline
  few : new.length ≤ ⌈(r.keeper.deadline - r.clock) / 2⌉₊
  standing : Standing r new.length n heard s

namespace Within

variable {r s t : KeeperState} {n : ℕ} {new : List Time} {heard : List (Reply × Time)}
  {reply : Reply}

theorem acquired {s₀ : KeeperState} {caller : Caller} (h : KeeperStep r (.acquire caller) s₀) :
    Within r 0 [] [] s₀ := by
  obtain ⟨-, k, hlock, rfl⟩ := h
  obtain ⟨-, rfl⟩ := LeaseKeeper.lock_eq hlock
  exact ⟨(List.append_nil _).symm, (List.append_nil _).symm, by simp, by simp, rfl, rfl, rfl, rfl⟩

theorem waits {event : KeeperEvent} (h : Within r n new heard s)
    (hstep : KeeperStep s event t) (hrunning : s.keeper.renewal ≠ none)
    (hevent : ∀ reply, event ≠ .renew reply) : Within r n new heard t := by
  obtain ⟨hrenewal, hdeadline, hsent, hretry, hreplies, hclock⟩ := hstep.others hrunning hevent
  refine ⟨hsent.trans h.sent, hreplies.trans h.replies, h.early, h.few, ?_⟩
  have hstanding := h.standing
  unfold Standing at hstanding ⊢
  rw [hrenewal, hdeadline, hretry]
  cases hr : s.keeper.renewal with
  | none => exact absurd hr hrunning
  | some p =>
      rw [hr] at hstanding
      cases p with
      | locked => exact hstanding
      | looping => exact hstanding
      | sent m x => exact ⟨hstanding.1, hstanding.2.1, by linarith [hstanding.2.2]⟩
      | acknowledged x =>
          obtain ⟨hn, hd, a, ha, hok, hle⟩ := hstanding
          exact ⟨hn, hd, a, ha, hok, hle.trans hclock⟩
      | confirmed x => exact hstanding

/-- One more heartbeat fits: the wait before it has used up two seconds. -/
theorem room {q : ℕ} {d x y : Time} (h : x + 2 * q ≤ y ∨ d ≤ y) (hy : y < d) :
    q + 1 ≤ ⌈(d - x) / 2⌉₊ := by
  refine Nat.lt_ceil.mpr ?_
  rcases h with h | h <;> linarith

theorem running (h : Within r n new heard s) (hrunning : s.keeper.renewal ≠ none) :
    n ≤ 2 * new.length + 2 ∧ s.keeper.deadline = r.keeper.deadline := by
  have hstanding := h.standing
  unfold Standing at hstanding
  split at hstanding
  · exact ⟨by omega, hstanding.2.2.1⟩
  · exact ⟨by omega, hstanding.2.1⟩
  · exact ⟨by omega, hstanding.2.1⟩
  · exact ⟨by omega, hstanding.2.1⟩
  · exact ⟨by omega, hstanding.2.1⟩
  · exact absurd ‹_› hrunning

theorem goes (h : Within r n new heard s) (hgoes : Goes s reply t)
    (hrunning : s.keeper.renewal ≠ none)
    (hwait : s.keeper.renewal = some .looping → s.retryAt ≤ s.clock ∨ s.keeper.cancel = true) :
    ∃ new' heard', Within r (n + 1) new' heard' t := by
  obtain ⟨hn, hdeadline⟩ := h.running hrunning
  have hstanding := h.standing
  unfold Standing at hstanding
  cases hgoes with
  | starts hr _ =>
      rw [hr] at hstanding
      obtain ⟨rfl, hq, hd, hretry⟩ := hstanding
      refine ⟨new, heard, h.sent, h.replies, h.early, h.few, ?_, hd, Or.inl ?_⟩
      · rw [hq]
      · simp [hq, hretry]
  | sends hr hcancel hlt =>
      rw [hr] at hstanding
      obtain ⟨rfl, hd, hspace⟩ := hstanding
      have hwoken : s.retryAt ≤ s.clock := (hwait hr).resolve_right (by simp [hcancel])
      have hbefore : r.clock + 2 * new.length ≤ s.clock ∨ r.keeper.deadline ≤ s.clock :=
        hspace.imp hwoken.trans' hwoken.trans'
      rw [hd] at hlt
      refine ⟨new ++ [s.clock], heard, ?_, h.replies, ?_, ?_, ?_, hd, ?_⟩
      · show s.keeper.sent ++ [s.clock] = _
        rw [h.sent, List.append_assoc]
      · intro x hx
        rcases List.mem_append.mp hx with hx | hx
        · exact h.early x hx
        · exact (List.mem_singleton.mp hx).trans_lt hlt
      · rw [List.length_append]
        exact room hbefore hlt
      · simp; ring
      · have hpace := hbefore.resolve_right (not_le.mpr hlt)
        simp only [List.length_append, List.length_singleton, Nat.cast_add, Nat.cast_one]
        linarith
  | hears hr _ =>
      rw [hr] at hstanding
      obtain ⟨rfl, hd, -⟩ := hstanding
      refine ⟨new, heard ++ [(.accepted, s.clock)], h.sent, ?_, h.early, h.few, rfl, hd, ?_⟩
      · show s.replies ++ _ = _
        rw [h.replies, List.append_assoc]
      · exact ⟨_, List.mem_append_right _ (List.mem_singleton_self _), rfl, le_rfl⟩
  | retries hr _ =>
      rw [hr] at hstanding
      obtain ⟨rfl, hd, hpace⟩ := hstanding
      refine ⟨new, heard ++ [(.failed, s.clock)], h.sent, ?_, h.early, h.few, rfl, hd, ?_⟩
      · show s.replies ++ _ = _
        rw [h.replies, List.append_assoc]
      · dsimp only
        rw [hd]
        rcases le_total 2 (r.keeper.deadline - s.clock) with hfar | hnear
        · rw [max_eq_right (by linarith), min_eq_left hfar]
          exact Or.inl hpace
        · have hmin : min 2 (max 0 (r.keeper.deadline - s.clock))
              = max 0 (r.keeper.deadline - s.clock) := min_eq_right (max_le (by norm_num) hnear)
          have hmax := le_max_right 0 (r.keeper.deadline - s.clock)
          exact Or.inr (by linarith)
  | confirms hr _ hlt =>
      rw [hr] at hstanding
      obtain ⟨rfl, hd, a, ha, hok, hle⟩ := hstanding
      exact ⟨new, heard, h.sent, h.replies, h.early, h.few, rfl, hd, a, ha, hok,
        hle.trans_lt (hd ▸ hlt)⟩
  | returns hr =>
      rw [hr] at hstanding
      obtain ⟨rfl, hd, hheard⟩ := hstanding
      refine ⟨new, heard, by simpa using h.sent, by simpa using h.replies, h.early, h.few, ?_⟩
      simp [Standing, hheard]
  | @raises k more e _ hcancel hrenewal hd hsent he =>
      refine ⟨new, heard ++ more, ?_, ?_, h.early, h.few, ?_⟩
      · rw [KeeperState.raises_sent]
        exact hsent.trans h.sent
      · rw [KeeperState.raises_replies]
        show s.replies ++ more = _
        rw [h.replies, List.append_assoc]
      · unfold Standing
        rw [KeeperState.raises_renewal, KeeperState.raises_deadline]
        dsimp only
        rw [hrenewal, hd, hdeadline]
        exact ⟨by omega, fun hne => absurd rfl hne, by simp,
          fun _ => KeeperState.raises_cancel hcancel⟩

end Within

theorem Calling.within {r s₀ s : KeeperState} {caller : Caller} {n : ℕ}
    (hacquire : KeeperStep r (.acquire caller) s₀) (h : Calling s₀ n s) :
    ∃ new heard, Within r n new heard s := by
  induction h with
  | acquired => exact ⟨[], [], .acquired hacquire⟩
  | goes _ hstep ih =>
      obtain ⟨new, heard, hwithin⟩ := ih
      obtain ⟨hrunning, hwait, rfl⟩ := hstep
      exact hwithin.goes (renew_goes hrunning) hrunning hwait
  | waits _ hrunning hevent hstep ih =>
      obtain ⟨new, heard, hwithin⟩ := ih
      exact ⟨new, heard, hwithin.waits hstep hrunning hevent⟩

/-- A heartbeat leaves before the deadline and before `cancel` is set. -/
theorem Goes.sends_early {s t : KeeperState} {reply : Reply} (h : Goes s reply t)
    (hsent : t.keeper.sent ≠ s.keeper.sent) :
    s.keeper.cancel = false ∧ s.clock < s.keeper.deadline := by
  cases h with
  | sends _ hcancel hlt => exact ⟨hcancel, hlt⟩
  | starts _ _ => exact absurd rfl hsent
  | hears _ _ => exact absurd rfl hsent
  | retries _ _ => exact absurd rfl hsent
  | confirms _ _ _ => exact absurd rfl hsent
  | returns _ => simp at hsent
  | raises _ _ _ _ hsame _ => exact absurd (KeeperState.raises_sent.trans hsame) hsent

/-- A running call goes on once its wait is over. -/
theorem renew_not_stuck {s : KeeperState} (h : s.keeper.renewal ≠ none) :
    ∃ c t, KeeperStep s (.pass c) t ∧ ∀ reply, KeeperStep t (.renew reply) (t.renew reply) :=
  ⟨max s.clock s.retryAt, { s with clock := max s.clock s.retryAt }, ⟨le_max_left _ _, rfl⟩,
    fun _ => ⟨h, fun _ => Or.inl (le_max_right _ _), rfl⟩⟩

/-- **Bounded renewals.** A call of `renew` that gets the lock in state `r`
sends at most one heartbeat for every two seconds that are left of the window,
each before the deadline and before `cancel` is set. It takes a bounded number
of steps. The deadline moves only after a success that came before it, and
`cancel` is set when the call raises. -/
theorem renew_bounded {r s₀ s : KeeperState} {caller : Caller} {n : ℕ}
    (hacquire : KeeperStep r (.acquire caller) s₀) (hcall : Calling s₀ n s) :
    (∃ new, s.keeper.sent = r.keeper.sent ++ new
        ∧ new.length ≤ ⌈(r.keeper.deadline - r.clock) / 2⌉₊
        ∧ ∀ x ∈ new, x < r.keeper.deadline)
      ∧ n ≤ 2 * ⌈(r.keeper.deadline - r.clock) / 2⌉₊ + 3
      ∧ (s.keeper.renewal ≠ none →
        ∃ c t, KeeperStep s (.pass c) t ∧ ∀ reply, KeeperStep t (.renew reply) (t.renew reply))
      ∧ (∀ reply t, KeeperStep s (.renew reply) t → t.keeper.sent ≠ s.keeper.sent →
        s.keeper.cancel = false ∧ s.clock < s.keeper.deadline)
      ∧ (s.keeper.deadline ≠ r.keeper.deadline →
        ∃ a ∈ s.replies.drop r.replies.length, a.1 = .accepted ∧ a.2 < r.keeper.deadline)
      ∧ (s.keeper.renewal = none →
        s.lastCall ≠ none ∧ (s.lastCall ≠ some .returned → s.keeper.cancel = true)) := by
  obtain ⟨new, heard, h⟩ := hcall.within hacquire
  have hfew := h.few
  have hstanding := h.standing
  refine ⟨⟨new, h.sent, hfew, h.early⟩, ?_, renew_not_stuck, fun reply t hstep hsent => ?_,
    fun hmoved => ?_, fun hover => ?_⟩
  · by_cases hrunning : s.keeper.renewal = none
    · rw [Standing, hrunning] at hstanding
      have := hstanding.1
      omega
    · have := (h.running hrunning).1
      omega
  · obtain ⟨hrunning, -, rfl⟩ := hstep
    exact (renew_goes hrunning).sends_early hsent
  · rw [h.replies, List.drop_left]
    by_cases hrunning : s.keeper.renewal = none
    · rw [Standing, hrunning] at hstanding
      exact hstanding.2.1 hmoved
    · exact absurd (h.running hrunning).2 hmoved
  · rw [Standing, hover] at hstanding
    exact hstanding.2.2

namespace Sample

/-- `LeaseKeeper` for a lease of two minutes, made at time 0. -/
def entering : KeeperState := .enter 120 20 0

def locked : KeeperState :=
  { entering with keeper := { entering.keeper with renewal := some .locked } }

def pass (c : Time) (s : KeeperState) : KeeperState := { s with clock := c }

/-- The first heartbeat is out. -/
def asking : KeeperState := (locked.renew .failed).renew .failed

/-- It has failed at time 5, and two seconds have passed since. -/
def retrying : KeeperState := pass 7 ((pass 5 asking).renew .failed)

/-- The second one was answered at time 8. -/
def renewed : KeeperState :=
  (((pass 8 (retrying.renew .failed)).renew .accepted).renew .failed).renew .failed

theorem acquired : KeeperStep entering (.acquire .main) locked :=
  ⟨⟨rfl, Or.inl rfl⟩, _, rfl, rfl⟩

theorem calling : Calling locked 7 renewed := by
  have goes {n : ℕ} {s : KeeperState} (reply : Reply) (h : Calling locked n s)
      (hrunning : s.keeper.renewal ≠ none)
      (hwait : s.keeper.renewal = some .looping → s.retryAt ≤ s.clock ∨ s.keeper.cancel = true) :
      Calling locked (n + 1) (s.renew reply) := h.goes ⟨hrunning, hwait, rfl⟩
  have waits {n : ℕ} {s : KeeperState} (c : Time) (h : Calling locked n s)
      (hrunning : s.keeper.renewal ≠ none) (hc : s.clock ≤ c) : Calling locked n (pass c s) :=
    @Calling.waits _ n s _ (.pass c) h hrunning (by simp) ⟨hc, rfl⟩
  have hasking : Calling locked 2 asking :=
    goes _ (goes _ .acquired (by decide +kernel) (by decide +kernel)) (by decide +kernel)
      (by decide +kernel)
  have hretrying : Calling locked 3 retrying :=
    waits 7 (goes .failed (waits 5 hasking (by decide +kernel) (by decide +kernel))
      (by decide +kernel) (by decide +kernel)) (by decide +kernel) (by decide +kernel)
  have hsent : Calling locked 4 (pass 8 (retrying.renew .failed)) :=
    waits 8 (goes .failed hretrying (by decide +kernel) (by decide +kernel)) (by decide +kernel)
      (by decide +kernel)
  exact goes .failed (goes .failed (goes .accepted hsent (by decide +kernel) (by decide +kernel))
    (by decide +kernel) (by decide +kernel)) (by decide +kernel) (by decide +kernel)

end Sample

/-- A heartbeat that failed and one that succeeded. -/
theorem renew_bounded_retry :
    Sample.renewed.keeper.deadline = 97 ∧ Sample.renewed.keeper.sent = [0, 7]
      ∧ ∃ a ∈ Sample.renewed.replies, a.1 = .accepted ∧ a.2 < 90 := by
  have hdeadlines : Sample.renewed.keeper.deadline = 97 ∧ Sample.entering.keeper.deadline = 90
      ∧ Sample.renewed.keeper.sent = [0, 7] := by decide +kernel
  obtain ⟨hnew, hold, hsent⟩ := hdeadlines
  obtain ⟨a, ha, hok, hlt⟩ := (renew_bounded Sample.acquired Sample.calling).2.2.2.2.1
    (by rw [hnew, hold]; norm_num)
  exact ⟨hnew, hsent, a, List.mem_of_mem_drop ha, hok, hold ▸ hlt⟩

end AgentBenchX
