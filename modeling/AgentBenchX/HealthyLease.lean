import AgentBenchX.KeeperThreads

/-!
# Healthy leases

A network that answers every heartbeat with success, in less than a quarter of
the lease, and timed waits that end on time. The window is three quarters: the
renewal loop rests for one quarter at most, the heartbeat of the evaluator that
may then hold the lock takes another, and its own the third.

`Punctual` counts from the heartbeat that was acknowledged last, three quarters
before the deadline: the next one leaves within half of the lease, and its
answer arrives in front of the deadline.
-/

namespace AgentBenchX

/-- What the environment promises of a step from state `s`. -/
def Prompt (s : KeeperState) : KeeperEvent → Prop
  | .pass c =>
      -- Time passes for a call only while its heartbeat is out.
      (∀ p, s.keeper.renewal = some p →
        ∃ n sentAt, p = .sent n sentAt ∧ c < sentAt + s.keeper.leaseSeconds / 4)
      -- Nobody waits for a lock that is free.
      ∧ (s.keeper.renewal = none → ∀ caller, ¬s.AtLock caller)
      ∧ ∀ w, s.loop = .waiting w → c ≤ w
  | .renew reply => ∀ n sentAt, s.keeper.renewal = some (.sent n sentAt) → reply = .accepted
  | _ => True

/-- The keeper in such an environment. -/
def promptThreads (leaseSeconds interval : Time) : Transition KeeperState KeeperEvent where
  init := (keeperThreads leaseSeconds interval).init
  step s event t := KeeperStep s event t ∧ Prompt s event

/-- How far the clock is at most, `last` being when the last acknowledged
heartbeat was sent. -/
def OnTime (L last : Time) (s : KeeperState) : Prop :=
  match s.keeper.renewal with
  | none | some .locked | some .looping => s.clock < last + L / 2
  | some (.sent _ sentAt) | some (.acknowledged sentAt) | some (.confirmed sentAt) =>
      last ≤ sentAt ∧ sentAt ≤ s.clock ∧ sentAt < last + L / 2 ∧ s.clock < sentAt + L / 4

/-- A keeper nobody has stopped, on schedule. -/
structure Punctual (L : Time) (s : KeeperState) (last : Time) : Prop where
  lease : s.keeper.leaseSeconds = L
  interval : s.interval ≤ L / 4
  going : s.keeper.cancel = false
  unraised : s.lastCall = none ∨ s.lastCall = some .returned
  deadline : s.keeper.deadline = last + L * (3 / 4)
  past : last ≤ s.clock
  onTime : OnTime L last s
  phase : s.keeper.phase ≠ .failed
  /-- Before the threads start, the main thread is in `__enter__`. -/
  entering : s.loop = .unstarted → s.mainRenews = true
  resting : ∀ w, s.loop = .waiting w → s.clock ≤ w ∧ w < last + L / 2
  alive : s.loop ≠ .ended

namespace Punctual

variable {L last : Time} {s t : KeeperState}

/-- The clock is in front of the deadline. -/
theorem before (h : Punctual L s last) (hL : 0 < L) : s.clock < s.keeper.deadline := by
  have honTime := h.onTime
  rw [h.deadline]
  unfold OnTime at honTime
  split at honTime
  · linarith
  · linarith
  · linarith
  · linarith [honTime.2.2.1, honTime.2.2.2]
  · linarith [honTime.2.2.1, honTime.2.2.2]
  · linarith [honTime.2.2.1, honTime.2.2.2]

theorem pass {c : Time} (h : Punctual L s last) (hc : s.clock ≤ c) (hprompt : Prompt s (.pass c)) :
    Punctual L { s with clock := c } last := by
  obtain ⟨hout, hfree, hrest⟩ := hprompt
  have honTime := h.onTime
  refine ⟨h.lease, h.interval, h.going, h.unraised, h.deadline, h.past.trans hc, ?_, h.phase,
    h.entering, fun w hw => ⟨hrest w hw, (h.resting w hw).2⟩, h.alive⟩
  unfold OnTime at honTime ⊢
  cases hr : s.keeper.renewal with
  | none =>
      -- The renewal loop is at rest, or somebody would be at the lock.
      cases hloop : s.loop with
      | unstarted => exact absurd ⟨h.entering hloop, Or.inl hr⟩ (hfree hr .main)
      | waiting w => exact (hrest w hloop).trans_lt (h.resting w hloop).2
      | renewing => exact absurd ⟨hloop, Or.inl hr⟩ (hfree hr .renewLoop)
      | ended => exact absurd hloop h.alive
  | some p =>
      obtain ⟨n, sentAt, rfl, hlt⟩ := hout p hr
      rw [hr] at honTime
      exact ⟨honTime.1, honTime.2.1.trans hc, honTime.2.2.1, h.lease ▸ hlt⟩

/-- The running call goes on as it should. -/
theorem renew {reply : Reply} (h : Punctual L s last) (hL : 0 < L) (hgoes : Goes s reply t)
    (hprompt : Prompt s (.renew reply)) : ∃ last', Punctual L t last' := by
  have honTime := h.onTime
  unfold OnTime at honTime
  cases hgoes with
  | starts hr _ =>
      rw [hr] at honTime
      exact ⟨last, h.lease, h.interval, h.going, h.unraised, h.deadline, h.past, honTime, h.phase,
        h.entering, h.resting, h.alive⟩
  | sends hr _ _ =>
      rw [hr] at honTime
      exact ⟨last, h.lease, h.interval, h.going, h.unraised, h.deadline, h.past,
        ⟨h.past, le_rfl, honTime, by linarith⟩, h.phase, h.entering, h.resting, h.alive⟩
  | hears hr _ =>
      rw [hr] at honTime
      exact ⟨last, h.lease, h.interval, h.going, h.unraised, h.deadline, h.past, honTime, h.phase,
        h.entering, h.resting, h.alive⟩
  | retries hr hfailed =>
      cases (hprompt _ _ hr).symm.trans hfailed
  | confirms hr _ _ =>
      rw [hr] at honTime
      exact ⟨last, h.lease, h.interval, h.going, h.unraised, h.deadline, h.past, honTime, h.phase,
        h.entering, h.resting, h.alive⟩
  | @returns sentAt hr =>
      rw [hr] at honTime
      obtain ⟨hlast, hpast, -, hanswered⟩ := honTime
      have hdeadline : sentAt + s.keeper.window = sentAt + L * (3 / 4) := by
        rw [LeaseKeeper.window, h.lease]
      have hresting : ∀ w, s.loop = .waiting w → s.clock ≤ w ∧ w < sentAt + L / 2 := fun w hw =>
        ⟨(h.resting w hw).1, by linarith [(h.resting w hw).2]⟩
      have hrests : s.clock ≤ s.clock + max 0 s.interval
          ∧ s.clock + max 0 s.interval < sentAt + L / 2 := by
        have hmax : max 0 s.interval ≤ L / 4 := max_le (by linarith) h.interval
        exact ⟨by linarith [le_max_left 0 s.interval], by linarith⟩
      have hclock : s.clock < sentAt + L / 2 := by linarith
      refine ⟨sentAt, ?_⟩
      unfold KeeperState.returns
      cases s.holder with
      | main =>
          dsimp only
          split
          · exact ⟨h.lease, h.interval, h.going, Or.inr rfl, hdeadline, hpast, hclock, nofun, nofun,
              fun w hw => LoopAt.waiting.inj hw ▸ hrests, nofun⟩
          · exact ⟨h.lease, h.interval, h.going, Or.inr rfl, hdeadline, hpast, hclock, nofun,
              fun hloop => absurd hloop ‹_›, hresting, h.alive⟩
      | renewLoop =>
          exact ⟨h.lease, h.interval, h.going, Or.inr rfl, hdeadline, hpast, hclock, nofun, nofun,
            fun w hw => LoopAt.waiting.inj hw ▸ hrests, nofun⟩
  | raises hwhy _ _ _ _ _ =>
      rcases hwhy with hcancel | hlate | ⟨hrejected, n, sentAt, hr⟩
      · rw [h.going] at hcancel
        cases hcancel
      · exact absurd (h.before hL) (not_lt.mpr hlate)
      · cases (hprompt _ _ hr).symm.trans hrejected

theorem init {interval : Time} (hL : 0 < L) (hinit : (promptThreads L interval).init s) :
    ∃ last, Punctual L s last := by
  obtain ⟨reading, rfl⟩ := hinit
  have honTime : reading < reading + L / 2 := by linarith
  exact ⟨reading, rfl, min_le_right _ _, rfl, Or.inl rfl, rfl, le_rfl, honTime, nofun, fun _ => rfl,
    nofun, nofun⟩

/-- Every step keeps a lease healthy, unless it stops the keeper from outside. -/
theorem step {event : KeeperEvent} (h : Punctual L s last) (hL : 0 < L)
    (hstep : KeeperStep s event t) (hprompt : Prompt s event) :
    t.stopped = true ∨ ∃ last', Punctual L t last' := by
  cases event with
  | pass c =>
      obtain ⟨hc, rfl⟩ := hstep
      exact Or.inr ⟨last, h.pass hc hprompt⟩
  | call =>
      obtain ⟨-, -, rfl⟩ := hstep
      exact Or.inr ⟨last, h.lease, h.interval, h.going, h.unraised, h.deadline, h.past, h.onTime,
        h.phase, fun _ => rfl, h.resting, h.alive⟩
  | wake =>
      obtain ⟨-, rfl⟩ := hstep
      exact Or.inr ⟨last, h.lease, h.interval, h.going, h.unraised, h.deadline, h.past, h.onTime,
        h.phase, nofun, nofun, nofun⟩
  | acquire caller =>
      obtain ⟨-, k, hlock, rfl⟩ := hstep
      obtain ⟨hfree, rfl⟩ := LeaseKeeper.lock_eq hlock
      have honTime := h.onTime
      rw [OnTime, hfree] at honTime
      exact Or.inr ⟨last, h.lease, h.interval, h.going, h.unraised, h.deadline, h.past, honTime,
        h.phase, h.entering, h.resting, h.alive⟩
  | renew reply =>
      obtain ⟨hrunning, -, rfl⟩ := hstep
      exact Or.inr (h.renew hL (renew_goes hrunning) hprompt)
  | poll =>
      obtain ⟨-, rfl⟩ := hstep
      have hsame : s.keeper.watch s.clock = s.keeper := if_neg (not_le.mpr (h.before hL))
      rw [hsame]
      exact Or.inr ⟨last, h⟩
  | stop =>
      obtain rfl := hstep
      exact Or.inl rfl

end Punctual

theorem Goes.stopped {s t : KeeperState} {reply : Reply} (h : Goes s reply t) :
    t.stopped = s.stopped := by
  cases h with
  | returns _ => simp
  | raises _ _ _ _ _ _ => simp
  | _ => rfl

/-- A keeper that was stopped from outside stays so. -/
theorem KeeperStep.stopped {s t : KeeperState} {event : KeeperEvent} (h : KeeperStep s event t)
    (hs : s.stopped = true) : t.stopped = true := by
  cases event with
  | pass c => obtain ⟨-, rfl⟩ := h; exact hs
  | call => obtain ⟨-, -, rfl⟩ := h; exact hs
  | wake => obtain ⟨-, rfl⟩ := h; exact hs
  | acquire caller => obtain ⟨-, k, -, rfl⟩ := h; exact hs
  | renew reply =>
      obtain ⟨hrunning, -, rfl⟩ := h
      exact (renew_goes hrunning).stopped.trans hs
  | poll => obtain ⟨-, rfl⟩ := h; exact hs
  | stop => obtain rfl := h; rfl

theorem prompt_punctual {L interval : Time} {s : KeeperState} (hL : 0 < L)
    (hs : (promptThreads L interval).Reachable s) :
    s.stopped = true ∨ ∃ last, Punctual L s last := by
  refine hs.rec_on (P := fun s => s.stopped = true ∨ ∃ last, Punctual L s last)
    (fun _ hinit => Or.inr (Punctual.init hL hinit)) fun s event t _ h hstep => ?_
  rcases h with hstopped | ⟨last, h⟩
  · exact Or.inl (hstep.1.stopped hstopped)
  · exact h.step hL hstep.1 hstep.2

/-- **Healthy leases.** While every heartbeat is answered with success in less
than a quarter of the lease, timed waits end on time and nobody outside sets
`cancel`, it is not set and no call of `renew` raises. -/
theorem healthy_lease {L interval : Time} {s : KeeperState} (hL : 0 < L)
    (hs : (promptThreads L interval).Reachable s) (hstopped : s.stopped = false) :
    s.keeper.cancel = false ∧ (s.lastCall = none ∨ s.lastCall = some .returned) := by
  rcases prompt_punctual hL hs with h | ⟨last, h⟩
  · rw [h] at hstopped
    cases hstopped
  · exact ⟨h.going, h.unraised⟩

namespace Sample

/-- A lease of 0.4 seconds, from `__enter__` on. -/
def short : KeeperState := .enter (2 / 5) (1 / 50) 0

def shortLocked : KeeperState :=
  { short with keeper := { short.keeper with renewal := some .locked } }

def shortAsking : KeeperState := (shortLocked.renew .accepted).renew .accepted

/-- The answer came after 0.05 seconds, and the threads are running. -/
def entered : KeeperState :=
  (((pass (1 / 20) shortAsking).renew .accepted).renew .accepted).renew .accepted

end Sample

/-- The renewal loop rests for 0.02 seconds after the heartbeat of `__enter__`. -/
theorem healthy_lease_short :
    ∃ s, (promptThreads (2 / 5) (1 / 50)).Reachable s ∧ s.loop = .waiting (7 / 100)
      ∧ s.keeper.deadline = 3 / 10 ∧ s.keeper.cancel = false := by
  have goes {s : KeeperState} (h : (promptThreads (2 / 5) (1 / 50)).Reachable s)
      (hrunning : s.keeper.renewal ≠ none)
      (hwait : s.keeper.renewal = some .looping → s.retryAt ≤ s.clock ∨ s.keeper.cancel = true) :
      (promptThreads (2 / 5) (1 / 50)).Reachable (s.renew .accepted) :=
    h.step (l := .renew .accepted) ⟨⟨hrunning, hwait, rfl⟩, fun _ _ _ => rfl⟩
  have hinit : (promptThreads (2 / 5) (1 / 50)).init Sample.short := ⟨0, rfl⟩
  have hlocked : (promptThreads (2 / 5) (1 / 50)).Reachable Sample.shortLocked :=
    (Transition.Reachable.init hinit).step (l := .acquire .main)
      ⟨⟨⟨rfl, Or.inl rfl⟩, _, rfl, rfl⟩, trivial⟩
  have hsent : Sample.shortAsking.keeper.renewal = some (.sent 0 0)
      ∧ Sample.shortAsking.loop = .unstarted := by decide +kernel
  have hasked : (promptThreads (2 / 5) (1 / 50)).Reachable Sample.shortAsking :=
    goes (goes hlocked (by decide +kernel) (by decide +kernel)) (by decide +kernel)
      (by decide +kernel)
  have hpassed : (promptThreads (2 / 5) (1 / 50)).Reachable
      (Sample.pass (1 / 20) Sample.shortAsking) := by
    refine hasked.step (l := .pass (1 / 20)) ⟨⟨by decide +kernel, rfl⟩, fun p hp => ?_,
      fun hnone => ?_, fun w hw => ?_⟩
    · exact ⟨0, 0, Option.some.inj (hp.symm.trans hsent.1), by decide +kernel⟩
    · exact nomatch hsent.1.symm.trans hnone
    · exact nomatch hsent.2.symm.trans hw
  have hentered : (promptThreads (2 / 5) (1 / 50)).Reachable Sample.entered :=
    goes (goes (goes hpassed (by decide +kernel) (by decide +kernel)) (by decide +kernel)
      (by decide +kernel)) (by decide +kernel) (by decide +kernel)
  have hstate : Sample.entered.loop = .waiting (7 / 100)
      ∧ Sample.entered.keeper.deadline = 3 / 10 ∧ Sample.entered.stopped = false := by
    decide +kernel
  exact ⟨_, hentered, hstate.1, hstate.2.1,
    (healthy_lease (by norm_num) hentered hstate.2.2).1⟩

end AgentBenchX
