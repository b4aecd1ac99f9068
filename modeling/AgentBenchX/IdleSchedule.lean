import Mathlib.Tactic.Linarith
import Mathlib.Tactic.NormNum
import AgentBenchX.Services
import AgentBenchX.Lib.Transition

/-!
# The idle schedule of a worker

Two deadlines tell a worker without a job what to do next: when to ask for one,
backing off while there is none, and when to report that it is alive. The loop
of `run_worker` waits for the earlier of the two. A request takes no time here
and a wait as long as it was asked to; the random source may return any value
of the interval it draws from.
-/

namespace AgentBenchX

/-! ## Settings -/

/-- What the schedule reads of `WorkerSettings`, as configured. -/
structure IdleSettings where
  workerPollInterval : Time := 5
  workerIdlePollMinSeconds : Option Time := none
  workerIdlePollMaxSeconds : Option Time := none
  workerIdleHeartbeatSeconds : Time := 45
deriving DecidableEq

/-- What the schedule reads of validated settings. -/
structure IdleBounds where
  workerIdlePollMinSeconds : Time
  workerIdlePollMaxSeconds : Time
  workerIdleHeartbeatSeconds : Time
  one_le_min : 1 ≤ workerIdlePollMinSeconds
  min_le_max : workerIdlePollMinSeconds ≤ workerIdlePollMaxSeconds
  one_le_heartbeat : 1 ≤ workerIdleHeartbeatSeconds
  heartbeat_le : workerIdleHeartbeatSeconds ≤ 60
deriving DecidableEq

inductive SettingsError where
  /-- A field is not in the range it is declared with. -/
  | field
  | valueError (text : String)
deriving DecidableEq

namespace IdleSettings

variable (s : IdleSettings)

/-- The `ge` and `le` of the fields. -/
def InRange : Prop :=
  1 ≤ s.workerPollInterval ∧ (∀ x ∈ s.workerIdlePollMinSeconds, 1 ≤ x)
    ∧ (∀ x ∈ s.workerIdlePollMaxSeconds, 1 ≤ x)
    ∧ 1 ≤ s.workerIdleHeartbeatSeconds ∧ s.workerIdleHeartbeatSeconds ≤ 60

instance : Decidable s.InRange := inferInstanceAs (Decidable (_ ∧ _))

/-- The minimum `valid` fills in. -/
def minimum : Time := s.workerIdlePollMinSeconds.getD s.workerPollInterval

/-- The maximum `valid` fills in. -/
def maximum : Time := s.workerIdlePollMaxSeconds.getD (max 30 s.minimum)

theorem one_le_minimum (h : s.InRange) : 1 ≤ s.minimum := by
  unfold minimum
  cases hmin : s.workerIdlePollMinSeconds with
  | none => exact h.1
  | some x => exact h.2.1 x hmin

/-- `WorkerSettings.valid`. -/
def valid : Except SettingsError IdleBounds :=
  if h : s.InRange then
    if hle : s.maximum < s.minimum then
      .error (.valueError "Idle poll maximum must be at least the minimum")
    else
      .ok
        { workerIdlePollMinSeconds := s.minimum
          workerIdlePollMaxSeconds := s.maximum
          workerIdleHeartbeatSeconds := s.workerIdleHeartbeatSeconds
          one_le_min := s.one_le_minimum h
          min_le_max := not_lt.mp hle
          one_le_heartbeat := h.2.2.2.1
          heartbeat_le := h.2.2.2.2 }
  else .error .field

end IdleSettings

/-! ## The schedule -/

structure IdleSchedule where
  minimum : Time
  maximum : Time
  heartbeatInterval : Time
  delay : Time
  nextPoll : Time := 0
  nextHeartbeat : Time := 0
deriving DecidableEq

namespace IdleSchedule

/-- `IdleSchedule(settings)`. -/
def new (settings : IdleBounds) : IdleSchedule where
  minimum := settings.workerIdlePollMinSeconds
  maximum := settings.workerIdlePollMaxSeconds
  heartbeatInterval := settings.workerIdleHeartbeatSeconds
  delay := settings.workerIdlePollMinSeconds

variable (s : IdleSchedule)

/-- A value `startup_delay` may return. -/
def StartupDelay (drawn : Time) : Prop := 0 ≤ drawn ∧ drawn ≤ min s.minimum 5

def heartbeatDue (now : Time) : Prop := s.nextHeartbeat ≤ now

def pollDue (now : Time) : Prop := s.nextPoll ≤ now

/-- A value `heartbeat_sent` may draw. -/
def HeartbeatDraw (drawn : Time) : Prop := 9 / 10 ≤ drawn ∧ drawn ≤ 1

def heartbeatSent (now drawn : Time) : IdleSchedule :=
  { s with nextHeartbeat := now + s.heartbeatInterval * drawn }

/-- A value `empty` may draw. -/
def EmptyDraw (drawn : Time) : Prop :=
  max s.minimum (s.delay * (8 / 10)) ≤ drawn ∧ drawn ≤ s.delay

def empty (now drawn : Time) : IdleSchedule :=
  { s with nextPoll := now + drawn, delay := min s.maximum (s.delay * 2) }

def found : IdleSchedule := { s with delay := s.minimum, nextPoll := 0 }

def waitSeconds (now : Time) : Time := max 0 (min s.nextPoll s.nextHeartbeat - now)

end IdleSchedule

/-! ## The loop -/

/-- Where `run_worker` stands. -/
inductive IdleAt where
  /-- In front of `startup_delay`. -/
  | starting
  /-- At the head of the loop. -/
  | top
  /-- Past the idle heartbeat. -/
  | polling
  /-- No job: in front of the wait. -/
  | resting
  | working
  | returned
deriving DecidableEq

inductive IdleEvent where
  | start (drawn : Time)
  | heartbeat (drawn : Time)
  | empty (drawn : Time)
  | found
  /-- The evaluation is over when the clock shows `c`. -/
  | finish (c drawn : Time)
  | wait
deriving DecidableEq

namespace IdleEvent

def isHeartbeat : IdleEvent → Bool
  | .heartbeat _ => true
  | _ => false

def isEmpty : IdleEvent → Bool
  | .empty _ => true
  | _ => false

/-- A request is sent. -/
def IsRequest (e : IdleEvent) : Prop := e.isHeartbeat = true ∨ e.isEmpty = true ∨ e = .found

end IdleEvent

structure IdleState where
  clock : Time
  schedule : IdleSchedule
  place : IdleAt
deriving DecidableEq

namespace IdleState

/-- The loop has come to `poll_due`. -/
def Polls (s : IdleState) : Prop :=
  s.place = .polling ∨ s.place = .top ∧ ¬s.schedule.heartbeatDue s.clock

end IdleState

/-- The steps of `run_worker`; `once` is its argument. -/
inductive IdleStep (once : Bool) (s : IdleState) : IdleEvent → IdleState → Prop
  | start {drawn : Time} : s.place = .starting → s.schedule.StartupDelay drawn →
      IdleStep once s (.start drawn) { s with clock := s.clock + drawn, place := .top }
  | heartbeat {drawn : Time} : s.place = .top → s.schedule.heartbeatDue s.clock →
      IdleSchedule.HeartbeatDraw drawn →
      IdleStep once s (.heartbeat drawn)
        { s with schedule := s.schedule.heartbeatSent s.clock drawn, place := .polling }
  /-- `claim` returns no job. -/
  | empty {drawn : Time} : s.Polls → s.schedule.pollDue s.clock → s.schedule.EmptyDraw drawn →
      IdleStep once s (.empty drawn)
        (if once then { s with place := .returned }
          else { s with schedule := s.schedule.empty s.clock drawn, place := .resting })
  /-- `claim` returns a job. -/
  | found : s.Polls → s.schedule.pollDue s.clock →
      IdleStep once s .found { s with schedule := s.schedule.found, place := .working }
  | finish {c drawn : Time} :
      s.place = .working → s.clock ≤ c → IdleSchedule.HeartbeatDraw drawn →
      IdleStep once s (.finish c drawn)
        { s with
          clock := c
          schedule := s.schedule.heartbeatSent c drawn
          place := if once then .returned else .top }
  | wait : s.place = .resting ∨ s.Polls ∧ ¬s.schedule.pollDue s.clock →
      IdleStep once s .wait
        { s with clock := s.clock + s.schedule.waitSeconds s.clock, place := .top }

/-- `run_worker(settings, once)` from the making of the schedule on. -/
def idleLoop (settings : IdleBounds) (once : Bool) : Transition IdleState IdleEvent where
  init s := s.schedule = .new settings ∧ s.place = if once then .top else .starting
  step := IdleStep once

/-! ## The backoff -/

variable {settings : IdleBounds} {once : Bool}

/-- The bounds stay, and the delay is between them. -/
structure IdleSchedule.Bounded (settings : IdleBounds) (s : IdleSchedule) : Prop where
  minimum : s.minimum = settings.workerIdlePollMinSeconds
  maximum : s.maximum = settings.workerIdlePollMaxSeconds
  interval : s.heartbeatInterval = settings.workerIdleHeartbeatSeconds
  min_le : s.minimum ≤ s.delay
  le_max : s.delay ≤ s.maximum

namespace IdleSchedule

variable {s : IdleSchedule} {now drawn : Time}

theorem new_bounded : (new settings).Bounded settings :=
  ⟨rfl, rfl, rfl, le_rfl, settings.min_le_max⟩

namespace Bounded

theorem one_le_delay (h : s.Bounded settings) : 1 ≤ s.delay :=
  settings.one_le_min.trans (h.minimum ▸ h.min_le)

theorem heartbeatSent (h : s.Bounded settings) : (s.heartbeatSent now drawn).Bounded settings :=
  ⟨h.minimum, h.maximum, h.interval, h.min_le, h.le_max⟩

theorem found (h : s.Bounded settings) : s.found.Bounded settings :=
  ⟨h.minimum, h.maximum, h.interval, le_rfl, h.min_le.trans h.le_max⟩

theorem empty (h : s.Bounded settings) : (s.empty now drawn).Bounded settings := by
  refine ⟨h.minimum, h.maximum, h.interval, le_min (h.min_le.trans h.le_max) ?_, min_le_left _ _⟩
  have hdelay := h.one_le_delay
  have hmin := h.min_le
  show s.minimum ≤ s.delay * 2
  linarith

end Bounded

end IdleSchedule

theorem IdleStep.bounded {s t : IdleState} {e : IdleEvent} (hstep : IdleStep once s e t)
    (h : s.schedule.Bounded settings) : t.schedule.Bounded settings := by
  cases hstep with
  | start _ _ => exact h
  | heartbeat _ _ _ => exact h.heartbeatSent
  | empty _ _ _ =>
      split
      · exact h
      · exact h.empty
  | found _ _ => exact h.found
  | finish _ _ _ => exact h.heartbeatSent
  | wait _ => exact h

theorem idle_bounded {s : IdleState} (hs : (idleLoop settings once).Reachable s) :
    s.schedule.Bounded settings :=
  hs.rec_on (P := fun s => s.schedule.Bounded settings)
    (fun _ hinit => hinit.1 ▸ IdleSchedule.new_bounded) fun _ _ _ _ h hstep =>
      IdleStep.bounded hstep h

/-- Doubling below a cap is doubling and capping. -/
theorem double_capped {m x : Time} (hm : 0 ≤ m) : min m (min m x * 2) = min m (x * 2) := by
  rcases le_total m x with h | h
  · rw [min_eq_left h, min_eq_left (by linarith), min_eq_left (by linarith)]
  · rw [min_eq_right h]

theorem IdleState.Polls.place {s : IdleState} (h : s.Polls) : s.place = .polling ∨ s.place = .top :=
  h.imp_right fun htop => htop.1

/-- Nothing happens after `run_worker` has returned. -/
theorem IdleStep.not_returned {s t : IdleState} {e : IdleEvent} (h : IdleStep once s e t) :
    s.place ≠ .returned := by
  have polls (hp : s.Polls) : s.place ≠ .returned := by
    rcases hp.place with hp | hp <;> simp [hp]
  cases h with
  | start hp _ => simp [hp]
  | heartbeat hp _ _ => simp [hp]
  | empty hp _ _ => exact polls hp
  | found hp _ => exact polls hp
  | finish hp _ _ => simp [hp]
  | wait hp =>
      rcases hp with hp | ⟨hp, -⟩
      · simp [hp]
      · exact polls hp

/-- The delay after `k` empty claims in a row. -/
def Backoff (settings : IdleBounds) (k : ℕ) (s : IdleState) : Prop :=
  s.schedule.delay
    = min settings.workerIdlePollMaxSeconds (settings.workerIdlePollMinSeconds * 2 ^ k)

theorem backoff_init {s : IdleState} (h : (idleLoop settings once).init s) :
    Backoff settings 0 s := by
  rw [Backoff, h.1, pow_zero, mul_one, min_eq_right settings.min_le_max]
  rfl

theorem backoff_found {s t : IdleState} (hs : s.schedule.Bounded settings)
    (h : IdleStep once s .found t) : Backoff settings 0 t := by
  cases h with
  | found _ _ =>
      rw [Backoff, pow_zero, mul_one, min_eq_right settings.min_le_max]
      exact hs.minimum

theorem backoff_step {s t : IdleState} {e : IdleEvent} {k : ℕ} (hs : s.schedule.Bounded settings)
    (hstep : IdleStep once s e t) (hfound : e ≠ .found) (hgoing : t.place ≠ .returned)
    (h : Backoff settings k s) : Backoff settings (if e.isEmpty then k + 1 else k) t := by
  cases hstep with
  | start _ _ => exact h
  | heartbeat _ _ _ => exact h
  | @empty drawn _ _ _ =>
      cases once with
      | true => exact absurd rfl hgoing
      | false =>
          have hmax : 0 ≤ settings.workerIdlePollMaxSeconds := by
            linarith [settings.one_le_min, settings.min_le_max]
          show min s.schedule.maximum (s.schedule.delay * 2) = _
          rw [hs.maximum, h, double_capped hmax, mul_assoc, ← pow_succ]
          rfl
  | found _ _ => exact absurd rfl hfound
  | finish _ _ _ => exact h
  | wait _ => exact h

/-- Induction on the run: each empty claim doubles the delay. -/
theorem backoff_run {s t : IdleState} {tr : List IdleEvent}
    (hs : (idleLoop settings once).Reachable s) (h : Backoff settings 0 s)
    (hrun : (idleLoop settings once).Run s tr t) (hfound : .found ∉ tr)
    (hgoing : t.place ≠ .returned) : Backoff settings (tr.countP IdleEvent.isEmpty) t := by
  induction hrun with
  | nil => exact h
  | @snoc tr u v e hpre hlast ih =>
      have hu := ih (fun hmem => hfound (List.mem_append_left _ hmem)) (IdleStep.not_returned hlast)
      have hne : e ≠ .found := fun he =>
        hfound (he ▸ List.mem_append_right _ (List.mem_singleton_self _))
      have hv := backoff_step (idle_bounded (hs.run hpre)) hlast hne hgoing hu
      rw [List.countP_append, List.countP_singleton]
      split at hv <;> simp_all

/-- A poll is scheduled between the bounds from now. -/
theorem empty_between {s : IdleSchedule} {now drawn : Time} (h : s.Bounded settings)
    (hdrawn : s.EmptyDraw drawn) :
    now + settings.workerIdlePollMinSeconds ≤ (s.empty now drawn).nextPoll
      ∧ (s.empty now drawn).nextPoll ≤ now + settings.workerIdlePollMaxSeconds := by
  have hmin := (le_max_left _ _).trans hdrawn.1
  have hmax := hdrawn.2.trans h.le_max
  rw [h.minimum] at hmin
  rw [h.maximum] at hmax
  exact ⟨add_le_add_right hmin now, add_le_add_right hmax now⟩

/-! ## Heartbeats and waits -/

/-- A heartbeat was sent at time `c`, and the next one is not overdue. -/
def Alive (settings : IdleBounds) (c : Time) (s : IdleState) : Prop :=
  s.clock ≤ s.schedule.nextHeartbeat
    ∧ s.schedule.nextHeartbeat ≤ c + settings.workerIdleHeartbeatSeconds
    ∧ s.place ≠ .starting ∧ s.place ≠ .working

namespace Alive

variable {c : Time} {s t : IdleState} {e : IdleEvent}

theorem sent {drawn : Time} (hs : s.schedule.Bounded settings)
    (hstep : IdleStep once s (.heartbeat drawn) t) : Alive settings s.clock t := by
  cases hstep with
  | heartbeat _ _ hdrawn =>
      have hinterval := settings.one_le_heartbeat
      have hlow : 0 ≤ settings.workerIdleHeartbeatSeconds * drawn :=
        mul_nonneg (by linarith) (by linarith [hdrawn.1])
      have hhigh : settings.workerIdleHeartbeatSeconds * drawn
          ≤ settings.workerIdleHeartbeatSeconds := mul_le_of_le_one_right (by linarith) hdrawn.2
      refine ⟨?_, ?_, nofun, nofun⟩
      · show s.clock ≤ s.clock + s.schedule.heartbeatInterval * drawn
        rw [hs.interval]
        linarith
      · show s.clock + s.schedule.heartbeatInterval * drawn ≤ _
        rw [hs.interval]
        linarith

/-- A wait ends at the next heartbeat at the latest. -/
theorem step (h : Alive settings c s) (hstep : IdleStep once s e t)
    (he : e.isHeartbeat = false ∧ e ≠ .found) : Alive settings c t := by
  obtain ⟨hdue, hle, hstarting, hworking⟩ := h
  cases hstep with
  | start hp _ => exact absurd hp hstarting
  | heartbeat _ _ _ => exact absurd he.1 (by simp [IdleEvent.isHeartbeat])
  | empty _ _ _ =>
      split
      · exact ⟨hdue, hle, nofun, nofun⟩
      · exact ⟨hdue, hle, nofun, nofun⟩
  | found _ _ => exact absurd rfl he.2
  | finish hp _ _ => exact absurd hp hworking
  | wait _ =>
      refine ⟨?_, hle, nofun, nofun⟩
      have hearlier := min_le_right s.schedule.nextPoll s.schedule.nextHeartbeat
      have hwait : s.schedule.waitSeconds s.clock ≤ s.schedule.nextHeartbeat - s.clock :=
        max_le (by linarith) (by linarith)
      show s.clock + s.schedule.waitSeconds s.clock ≤ s.schedule.nextHeartbeat
      linarith

theorem run {tr : List IdleEvent} (h : Alive settings c s)
    (hrun : (idleLoop settings once).Run s tr t)
    (hquiet : ∀ e ∈ tr, e.isHeartbeat = false ∧ e ≠ .found) : Alive settings c t := by
  induction hrun with
  | nil => exact h
  | @snoc tr u v e _ hlast ih =>
      have hu := ih fun e' he' => hquiet e' (List.mem_append_left _ he')
      exact hu.step hlast (hquiet e (List.mem_append_right _ (List.mem_singleton_self _)))

end Alive

/-- After a wait one of the deadlines has come. -/
theorem due_after_wait {s t : IdleState} (hstep : IdleStep once s .wait t) :
    t.place = .top ∧ (t.schedule.heartbeatDue t.clock ∨ t.schedule.pollDue t.clock) := by
  cases hstep with
  | wait _ =>
      refine ⟨rfl, ?_⟩
      have hwait : min s.schedule.nextPoll s.schedule.nextHeartbeat - s.clock
          ≤ s.schedule.waitSeconds s.clock := le_max_right _ _
      have hreached : min s.schedule.nextPoll s.schedule.nextHeartbeat
          ≤ s.clock + s.schedule.waitSeconds s.clock := by linarith
      exact (min_le_iff.mp hreached).symm

/-- Where one of the deadlines has come, the loop sends a request. -/
theorem request_when_due {s t : IdleState} {e : IdleEvent} (hstep : IdleStep once s e t)
    (hplace : s.place = .top)
    (hdue : s.schedule.heartbeatDue s.clock ∨ s.schedule.pollDue s.clock) : e.IsRequest := by
  cases hstep with
  | start hp _ => exact nomatch hplace.symm.trans hp
  | heartbeat _ _ _ => exact Or.inl rfl
  | empty _ _ _ => exact Or.inr (Or.inl rfl)
  | found _ _ => exact Or.inr (Or.inr rfl)
  | finish hp _ _ => exact nomatch hplace.symm.trans hp
  | wait hp =>
      rcases hp with hp | ⟨hp, hnot⟩
      · exact nomatch hplace.symm.trans hp
      · rcases hp with hp | ⟨-, hquiet⟩
        · exact nomatch hplace.symm.trans hp
        · exact absurd hdue (not_or.mpr ⟨hquiet, hnot⟩)

/-- After `startup_delay` both deadlines have come, if the clock counts from a
moment in the past. -/
theorem due_after_start {s t : IdleState} {drawn : Time}
    (hs : (idleLoop settings once).init s) (hstep : IdleStep once s (.start drawn) t)
    (hclock : 0 ≤ s.clock) : t.schedule.heartbeatDue t.clock ∧ t.schedule.pollDue t.clock := by
  cases hstep with
  | start _ hdrawn =>
      have hdue : (0 : Time) ≤ s.clock + drawn := add_nonneg hclock hdrawn.1
      rw [IdleSchedule.heartbeatDue, IdleSchedule.pollDue, hs.1]
      exact ⟨hdue, hdue⟩

/-- **The idle schedule.** With validated settings, the delay doubles with each
empty claim up to the maximum and starts anew with each job; a poll is scheduled
between the minimum and the maximum from now; two idle heartbeats without a job
in between are at most the configured interval apart, which is less than any
server waits for a worker; and after a wait the loop sends a request. -/
theorem idle_schedule {raw : IdleSettings} {settings : IdleBounds} {once : Bool}
    (hvalid : raw.valid = .ok settings) :
    (∀ s t tr, (idleLoop settings once).init s
        ∨ (∃ r, (idleLoop settings once).Reachable r ∧ (idleLoop settings once).step r .found s) →
      (idleLoop settings once).Run s tr t → .found ∉ tr → t.place ≠ .returned →
      t.schedule.delay = min raw.maximum (raw.minimum * 2 ^ tr.countP IdleEvent.isEmpty))
    ∧ (∀ s t drawn, (idleLoop settings once).Reachable s →
      (idleLoop settings once).step s (.empty drawn) t → t.place ≠ .returned →
      t.clock + raw.minimum ≤ t.schedule.nextPoll
        ∧ t.schedule.nextPoll ≤ t.clock + raw.maximum)
    ∧ (∀ r s t u tr drawn drawn', (idleLoop settings once).Reachable r →
      (idleLoop settings once).step r (.heartbeat drawn) s →
      (idleLoop settings once).Run s tr t →
      (∀ e ∈ tr, e.isHeartbeat = false ∧ e ≠ .found) →
      (idleLoop settings once).step t (.heartbeat drawn') u →
      t.clock - r.clock ≤ raw.workerIdleHeartbeatSeconds
        ∧ ∀ server : Settings, t.clock - r.clock < server.workerOfflineSeconds)
    ∧ (∀ s t, (idleLoop settings once).step s .wait t →
      (t.schedule.heartbeatDue t.clock ∨ t.schedule.pollDue t.clock)
        ∧ ∀ e u, (idleLoop settings once).step t e u → e.IsRequest)
    ∧ ∀ s t drawn, (idleLoop settings once).init s → 0 ≤ s.clock →
      (idleLoop settings once).step s (.start drawn) t →
      t.schedule.heartbeatDue t.clock ∧ t.schedule.pollDue t.clock := by
  have hraw : raw.minimum = settings.workerIdlePollMinSeconds
      ∧ raw.maximum = settings.workerIdlePollMaxSeconds
      ∧ raw.workerIdleHeartbeatSeconds = settings.workerIdleHeartbeatSeconds := by
    unfold IdleSettings.valid at hvalid
    split at hvalid
    · split at hvalid
      · nomatch hvalid
      · obtain rfl := Except.ok.inj hvalid
        exact ⟨rfl, rfl, rfl⟩
    · nomatch hvalid
  obtain ⟨hmin, hmax, hinterval⟩ := hraw
  rw [hmin, hmax, hinterval]
  refine ⟨fun s t tr hs hrun hfound hgoing => ?_, fun s t drawn hs hstep hgoing => ?_,
    fun r s t u tr drawn drawn' hr hsent hrun hquiet hagain => ?_, fun s t hstep => ?_,
    fun s t drawn hinit hclock hstep => due_after_start hinit hstep hclock⟩
  · rcases hs with hinit | ⟨r, hr, hstep⟩
    · exact backoff_run (.init hinit) (backoff_init hinit) hrun hfound hgoing
    · exact backoff_run (hr.step hstep) (backoff_found (idle_bounded hr) hstep) hrun hfound hgoing
  · cases hstep with
    | empty _ _ hdrawn =>
        cases once with
        | true => exact absurd rfl hgoing
        | false => exact empty_between (idle_bounded hs) hdrawn
  · obtain ⟨hdue, hle, -⟩ := (Alive.sent (idle_bounded hr) hsent).run hrun hquiet
    have hgap : t.clock - r.clock ≤ settings.workerIdleHeartbeatSeconds := by linarith
    refine ⟨hgap, fun server => ?_⟩
    have hserver : (120 : Time) ≤ server.workerOfflineSeconds :=
      mod_cast server.workerOfflineSeconds_ge
    linarith [settings.heartbeat_le]
  · obtain ⟨hplace, hdue⟩ := due_after_wait hstep
    exact ⟨hdue, fun e u hnext => request_when_due hnext hplace hdue⟩

namespace Sample

/-- The defaults. -/
def idle : IdleBounds where
  workerIdlePollMinSeconds := 5
  workerIdlePollMaxSeconds := 30
  workerIdleHeartbeatSeconds := 45
  one_le_min := by norm_num
  min_le_max := by norm_num
  one_le_heartbeat := by norm_num
  heartbeat_le := by norm_num

def idleStart : IdleState := ⟨100, .new idle, .starting⟩

def idleTop : IdleState := { idleStart with clock := 100 + 2, place := .top }

def idlePolling : IdleState :=
  { idleTop with schedule := idleTop.schedule.heartbeatSent idleTop.clock 1, place := .polling }

def idleResting : IdleState :=
  { idlePolling with schedule := idlePolling.schedule.empty idlePolling.clock 5, place := .resting }

end Sample

/-- With the defaults, the delay is ten seconds after one empty claim. -/
theorem idle_schedule_defaults :
    ∃ t, (idleLoop Sample.idle false).Reachable t ∧ t.schedule.delay = 10
      ∧ t.schedule.nextPoll = 107 := by
  have hvalid : ({} : IdleSettings).valid = .ok Sample.idle := by decide +kernel
  have hinit : (idleLoop Sample.idle false).init Sample.idleStart := ⟨rfl, rfl⟩
  have hstart : (idleLoop Sample.idle false).step Sample.idleStart (.start 2) Sample.idleTop :=
    .start rfl ⟨by norm_num, by decide +kernel⟩
  have hsent : (idleLoop Sample.idle false).step Sample.idleTop (.heartbeat 1)
      Sample.idlePolling := by
    have hdue : Sample.idleTop.schedule.nextHeartbeat ≤ Sample.idleTop.clock := by decide +kernel
    exact .heartbeat rfl hdue ⟨by norm_num, le_rfl⟩
  have hempty : (idleLoop Sample.idle false).step Sample.idlePolling (.empty 5)
      Sample.idleResting := by
    have hdue : Sample.idlePolling.schedule.nextPoll ≤ Sample.idlePolling.clock := by
      decide +kernel
    exact .empty (Or.inl rfl) hdue ⟨by decide +kernel, by decide +kernel⟩
  have hrun := ((Transition.Run.single hstart).snoc hsent).snoc hempty
  have hdelay := (idle_schedule hvalid).1 _ _ _ (Or.inl hinit) hrun (by decide) nofun
  exact ⟨_, ⟨_, _, hinit, hrun⟩, hdelay.trans (by decide +kernel), by decide +kernel⟩

end AgentBenchX
