import AgentBenchX.Attempts
import AgentBenchX.Fencing
import AgentBenchX.LeaseKeeper

/-!
# Lease safety

One worker's lease keeper next to the control plane. Heartbeats travel
through a network that may delay them, lose them or their answers, and
have one request processed any number of times; everybody else may send
the control plane whatever they like in between. The two clocks run at
the same rate, so the worker's is the server's plus a constant `offset`.

`Guarded s x` is the fact that carries the argument: up to the worker's
time `x` the job is in the worker's hands. A processed heartbeat
guarantees it up to `lease_seconds` past the moment it was sent
(`guarded_of_delivered`), no step of anybody takes it back
(`Guarded.serve`), and the keeper stops at three quarters of that
(`Safe`).
-/

namespace AgentBenchX

/-! ## The two parties -/

/-- The claim a keeper was made for. -/
structure Holding where
  workerId : Uid
  jobId : Uid
  token : Token

/-- The control plane, the keeper and the heartbeats between them. -/
structure LeaseState where
  server : State
  offset : Time
  keeper : LeaseKeeper
  /-- The heartbeats that were processed with success at least once. -/
  answered : List ℕ := []
  /-- The worker has sent a result for the job. -/
  posted : Bool := false

namespace LeaseState

/-- `time.monotonic()` of the worker. -/
def time (s : LeaseState) : Time := s.server.clock + s.offset

/-- Time passes until the server's clock shows `c`. -/
def elapse (s : LeaseState) (c : Time) : LeaseState :=
  { s with server := { s.server with clock := c } }

end LeaseState

/-- The call reports a result for the job as its worker. -/
def Call.Posts (call : Call) (h : Holding) : Prop :=
  ∃ auth data, call.request = .result h.workerId auth h.jobId data

/-- The call is a heartbeat of the holder for its job. -/
def Call.Beats (call : Call) (h : Holding) : Prop :=
  ∃ auth event, call.request = .heartbeat h.workerId auth h.jobId ⟨h.token.text, event⟩

instance (r : Response) : Decidable (∃ j, r = .job j) :=
  match r with
  | .job j => isTrue ⟨j, rfl⟩
  | .error _ | .invalid _ | .done | .credentials _ _ | .worker _ | .claimed _ | .agentFile _
  | .evaluation _ => isFalse fun ⟨_, h⟩ => by cases h

/-- One step of the two parties. A step of the worker takes the time until the
clock shows `c`. -/
inductive LeaseStep (cfg : Config) (h : Holding) (s : LeaseState) : LeaseState → Prop
  /-- A request of anybody, but a result for the job only once the worker has
  sent one. -/
  | serve {call : Call} {server : State} :
      (controlPlane cfg).step s.server call server → (call.Posts h → s.posted = true) →
      LeaseStep cfg h s { s with server }
  /-- The control plane processes a heartbeat that was sent, maybe again. -/
  | deliver {n : ℕ} {call : Call} {server : State} :
      n < s.keeper.sent.length → call.Beats h →
      (controlPlane cfg).step s.server call server →
      LeaseStep cfg h s { s with
        server
        answered := if ∃ j, call.response = .job j then n :: s.answered else s.answered }
  | lock {c : Time} {k : LeaseKeeper} :
      s.server.clock ≤ c → s.keeper.lock = some k → LeaseStep cfg h s
        { s.elapse c with keeper := k }
  /-- The call of `renew` goes on. A success answer only comes for a heartbeat
  that was processed with success. -/
  | renew {c : Time} {reply : Reply} :
      s.server.clock ≤ c →
      (∀ n sentAt, s.keeper.renewal = some (.sent n sentAt) → reply = .accepted →
        n ∈ s.answered) →
      LeaseStep cfg h s { s.elapse c with keeper := s.keeper.renew (c + s.offset) reply }
  | watch {c : Time} :
      s.server.clock ≤ c → LeaseStep cfg h s
        { s.elapse c with keeper := s.keeper.watch (c + s.offset) }
  | cancel {c : Time} :
      s.server.clock ≤ c → LeaseStep cfg h s { s.elapse c with keeper := s.keeper.cancelled }
  | post {c : Time} :
      s.server.clock ≤ c → LeaseStep cfg h s { s.elapse c with posted := true }

/-- The system from the moment `__init__` has run for a job the worker has
claimed. -/
def leaseSystem (cfg : Config) (h : Holding) : Transition LeaseState Unit where
  init s := (controlPlane cfg).Reachable s.server
    ∧ (∃ j ∈ s.server.db.jobs, j.id = h.jobId ∧ j.workerId = some h.workerId
        ∧ j.leaseToken = some h.token)
    ∧ s.keeper = .new cfg.leaseSeconds s.time ∧ s.answered = [] ∧ s.posted = false
  step s _ t := LeaseStep cfg h s t

/-! ## Time passing on the server -/

/-- A request that fails lets time pass and changes nothing. -/
theorem pass_step {cfg : Config} {s : State} {c : Time} (hc : s.clock ≤ c) :
    ∃ call, call.request = .reapWorkers ∧ (controlPlane cfg).step s call { s with clock := c } :=
  ⟨⟨.reapWorkers, { Env.quiet c 0 ⟨"", by decide⟩ with commit := false }, .error internalError⟩,
    rfl, ⟨fun _ _ _ => le_rfl, hc, fun _ => le_rfl⟩, rfl⟩

/-! ## The job in the worker's hands -/

/-- The job is active, belongs to the holder, and its lease lasts to `x`. -/
def Owned (h : Holding) (x : Time) (db : Database) : Prop :=
  ∃ j ∈ db.jobs, j.id = h.jobId ∧ j.status.IsActive ∧ j.workerId = some h.workerId
    ∧ j.leaseToken = some h.token ∧ ∃ e, j.leaseExpiresAt = some e ∧ x ≤ e

namespace Owned

variable {cfg : Config} {h : Holding} {x : Time} {c c' : Time} {kind : ChangeKind}
  {db db' : Database}

/-- Nothing but a result, or the clock passing `x`, takes the job away. -/
theorem change (hch : Change cfg c c' kind db db') (hx : x ≤ c + cfg.leaseSeconds)
    (hkind : kind ≠ .finish) (hown : Owned h x db) : c' > x ∨ Owned h x db' := by
  obtain ⟨j, hj, hid, ha, hw, htok, e, he, hxe⟩ := hown
  rcases hch.jobs.after j hj with hj' | ⟨j', hj', hrow⟩
  · exact Or.inr ⟨j, hj', hid, ha, hw, htok, e, he, hxe⟩
  · cases hrow with
    | claim _ hq => exact absurd hq ha.ne_queued
    | @renew env w event e' ht _ _ _ _ =>
        have hread := ht.start_le 3
        exact Or.inr ⟨_, hj', hid, Or.inr rfl, hw, htok, _, rfl, by linarith⟩
    | finish _ _ _ _ _ => exact absurd rfl hkind
    | @expire e' t₀ t₁ h₀ h₁ h₂ _ he' hlt =>
        obtain rfl := Option.some.inj (he.symm.trans he')
        exact Or.inl (by linarith)

theorem changes (hch : Changes cfg c c' kind db db') (hx : x ≤ c + cfg.leaseSeconds)
    (hkind : kind ≠ .finish) (hown : Owned h x db) : c' > x ∨ Owned h x db' := by
  induction hch with
  | refl => exact Or.inr hown
  | tail _ hlast ih => exact ih.elim Or.inl (change hlast hx hkind)

/-- The same for a whole request, if it is not a result of the holder. -/
theorem step {s t : State} {call : Call} (hs : (controlPlane cfg).Reachable s)
    (hstep : (controlPlane cfg).step s call t) (hposts : ¬call.Posts h)
    (hx : x ≤ s.clock + cfg.leaseSeconds) (hown : Owned h x s.db) :
    t.clock > x ∨ Owned h x t.db := by
  by_cases hkind : call.request.kind = .finish
  · obtain ⟨id, auth, jobId, data, hreq⟩ :
        ∃ id auth jobId data, call.request = .result id auth jobId data := by
      cases hr : call.request <;> simp [hr, Request.kind] at hkind ⊢
    rcases result_step (reachable_consistent hs).ownership hstep hreq with
      hdb | ⟨k, ev, haccepts, -, hothers, -⟩
    · exact Or.inr (hdb ▸ hown)
    · obtain ⟨j, hj, hid, ha, hw, hrest⟩ := hown
      obtain ⟨hk, hkid⟩ := haccepts.job
      refine Or.inr ⟨j, hothers j hj fun hjk => hposts ?_, hid, ha, hw, hrest⟩
      -- The only row a result rewrites is the one it reports as its owner.
      obtain rfl := Table.eq_of_key_eq hj hk hjk
      have hworker : h.workerId = ev.workerId := Option.some.inj (hw.symm.trans haccepts.worker)
      obtain ⟨auth', data', -, hreq', -⟩ := haccepts.request
      exact ⟨auth', data', by rw [hreq', hworker, ← hid, hkid]⟩
  · exact changes (step_changes hstep) hx hkind hown

end Owned

/-- Up to the worker's time `x` the job is in its hands, unless the worker has
reported a result itself. -/
def LeaseState.Guarded (s : LeaseState) (h : Holding) (x : Time) : Prop :=
  s.posted = true ∨ x < s.time ∨ Owned h (x - s.offset) s.server.db

namespace LeaseState.Guarded

variable {cfg : Config} {h : Holding} {x : Time} {s t : LeaseState}

/-- Requests take nothing away. -/
theorem serve {call : Call} (hg : s.Guarded h x) (hs : (controlPlane cfg).Reachable s.server)
    (hstep : (controlPlane cfg).step s.server call t.server) (hoff : t.offset = s.offset)
    (hposted : t.posted = s.posted) (hposts : call.Posts h → s.posted = true)
    (hx : x ≤ s.time + cfg.leaseSeconds) : t.Guarded h x := by
  have hclock := step_clock hstep
  rcases hg with hp | hlt | hown
  · exact Or.inl (hposted.trans hp)
  · refine Or.inr (Or.inl ?_)
    simp only [LeaseState.time, hoff] at hlt ⊢
    linarith
  · by_cases hpost : call.Posts h
    · exact Or.inl (hposted.trans (hposts hpost))
    · simp only [LeaseState.time] at hx
      rcases hown.step hs hstep hpost (by linarith) with hlt | hown
      · refine Or.inr (Or.inl ?_)
        simp only [LeaseState.time, hoff]
        linarith
      · exact Or.inr (Or.inr (hoff ▸ hown))

end LeaseState.Guarded

/-- A processed heartbeat guards the job for a whole lease from any earlier
moment on. -/
theorem owned_of_heartbeat {cfg : Config} {h : Holding} {s t : State} {call : Call}
    {j' : RunnerJob} {x : Time} (hs : (controlPlane cfg).Reachable s)
    (hstep : (controlPlane cfg).step s call t) (hbeats : call.Beats h)
    (hok : call.response = .job j') (hx : x ≤ s.clock + cfg.leaseSeconds) : Owned h x t.db := by
  obtain ⟨ht, hhandle⟩ := hstep
  obtain ⟨auth, event, hreq⟩ := hbeats
  rw [hreq] at hhandle
  rcases respond_eq (Prod.mk.injEq .. |>.mp hhandle).1 with ⟨a, hok', -⟩ | ⟨e, -, -, herr⟩
  · obtain ⟨w, hw, hbeat⟩ := ok_of_bind hok'
    obtain ⟨-, hwid⟩ := mem_of_workerAuth hw
    obtain ⟨j, e, hj, hid, hworker, htoken, ha, he, hlt, rfl, hdb⟩ := heartbeat_ok hbeat
    obtain ⟨-, ⟨tok, htok⟩, -⟩ :=
      ((reachable_consistent hs).ownership.rows j hj).owned ha.ne_queued
    have htext : tok.text = h.token.text := by
      rw [htok] at htoken
      exact compareDigest_true htoken
    have hsame : tok = h.token := by
      cases tok
      cases hh : h.token
      simp_all
    have hread := ht.start_le 3
    refine ⟨(heartbeatRows cfg call.env j w event).1, ?_, hid, Or.inr rfl, ?_, ?_, _, rfl, ?_⟩
    · rw [hdb]
      exact (Table.mem_update (heartbeatRows cfg call.env j w event).1 hj rfl).mpr (Or.inl rfl)
    · exact hworker.trans (congrArg some hwid)
    · exact htok.trans (congrArg some hsame)
    · linarith
  · rw [hok] at herr
    cases herr

/-! ## The invariant of the two parties -/

/-- What holds between the keeper and the control plane at every moment. -/
structure Safe (cfg : Config) (h : Holding) (s : LeaseState) : Prop where
  server : (controlPlane cfg).Reachable s.server
  lease : s.keeper.leaseSeconds = cfg.leaseSeconds
  ahead : s.keeper.deadline ≤ s.time + s.keeper.window
  past : ∀ sentAt ∈ s.keeper.sent, sentAt ≤ s.time
  delivered : ∀ n ∈ s.answered, n < s.keeper.sent.length
  /-- A processed heartbeat guards the job for a lease from its sending on. -/
  answered : ∀ n ∈ s.answered, ∀ sentAt, s.keeper.sent[n]? = some sentAt →
    s.Guarded h (sentAt + cfg.leaseSeconds)
  sent : ∀ n sentAt, s.keeper.renewal = some (.sent n sentAt) →
    s.keeper.sent[n]? = some sentAt ∧ s.keeper.deadline ≤ sentAt + s.keeper.window
  acknowledged : ∀ sentAt, s.keeper.renewal = some (.acknowledged sentAt) ∨
      s.keeper.renewal = some (.confirmed sentAt) →
    sentAt ≤ s.time ∧ s.keeper.deadline ≤ sentAt + s.keeper.window
      ∧ s.Guarded h (sentAt + cfg.leaseSeconds)
  entered : s.keeper.phase = .entered → s.Guarded h (s.keeper.deadline + cfg.leaseSeconds / 4)

namespace Safe

variable {cfg : Config} {h : Holding} {s t : LeaseState}

theorem window_eq (hsafe : Safe cfg h s) :
    s.keeper.window = cfg.leaseSeconds - cfg.leaseSeconds / 4 := by
  rw [LeaseKeeper.window, hsafe.lease]
  ring

theorem init (hinit : (leaseSystem cfg h).init s) : Safe cfg h s := by
  obtain ⟨hserver, -, hkeeper, hanswered, -⟩ := hinit
  refine ⟨hserver, ?_, ?_, ?_, ?_, ?_, ?_, ?_, ?_⟩ <;>
    simp [hkeeper, hanswered, LeaseKeeper.new, LeaseKeeper.window]

/-- A request leaves the keeper alone and keeps every guarantee. -/
theorem serve {call : Call} (hsafe : Safe cfg h s)
    (hstep : (controlPlane cfg).step s.server call t.server) (hkeeper : t.keeper = s.keeper)
    (hoff : t.offset = s.offset) (hposted : t.posted = s.posted)
    (hposts : call.Posts h → s.posted = true)
    (hdelivered : ∀ n ∈ t.answered, n < s.keeper.sent.length)
    (hanswered : ∀ n ∈ t.answered, ∀ sentAt, s.keeper.sent[n]? = some sentAt →
      n ∈ s.answered ∨ t.Guarded h (sentAt + cfg.leaseSeconds)) : Safe cfg h t := by
  have htime : s.time ≤ t.time := by
    have hclock := step_clock hstep
    simp only [LeaseState.time, hoff]
    linarith
  have hlater : ∀ x, x ≤ s.time + cfg.leaseSeconds → s.Guarded h x → t.Guarded h x :=
    fun x hx hg => hg.serve hsafe.server hstep hoff hposted hposts hx
  have hwindow := hsafe.window_eq
  refine ⟨hsafe.server.step hstep, by rw [hkeeper, hsafe.lease], ?_, ?_, ?_, ?_, ?_, ?_, ?_⟩ <;>
    rw [hkeeper]
  · linarith [hsafe.ahead]
  · exact fun sentAt hmem => (hsafe.past sentAt hmem).trans htime
  · exact hdelivered
  · intro n hn sentAt hsent
    rcases hanswered n hn sentAt hsent with hold | hnew
    · have hpast := hsafe.past sentAt (List.mem_of_getElem? hsent)
      exact hlater _ (by linarith) (hsafe.answered n hold sentAt hsent)
    · exact hnew
  · exact hsafe.sent
  · intro sentAt hr
    obtain ⟨hpast, hahead, hg⟩ := hsafe.acknowledged sentAt hr
    exact ⟨hpast.trans htime, hahead, hlater _ (by linarith) hg⟩
  · intro hphase
    exact hlater _ (by linarith [hsafe.ahead]) (hsafe.entered hphase)

/-- Time passing keeps every guarantee. -/
theorem elapse (hsafe : Safe cfg h s) {c : Time} (hc : s.server.clock ≤ c) :
    Safe cfg h (s.elapse c) := by
  obtain ⟨call, hreq, hstep⟩ := pass_step hc
  refine hsafe.serve hstep rfl rfl rfl (fun ⟨auth, data, hposts⟩ => ?_) hsafe.delivered
    fun n hn _ _ => Or.inl hn
  rw [hreq] at hposts
  cases hposts

/-- Every guarantee is void once the worker has reported a result. -/
theorem post (hsafe : Safe cfg h s) : Safe cfg h { s with posted := true } where
  server := hsafe.server
  lease := hsafe.lease
  ahead := hsafe.ahead
  past := hsafe.past
  delivered := hsafe.delivered
  answered _ _ _ _ := Or.inl rfl
  sent := hsafe.sent
  acknowledged sentAt hr := by
    obtain ⟨hpast, hahead, -⟩ := hsafe.acknowledged sentAt hr
    exact ⟨hpast, hahead, Or.inl rfl⟩
  entered _ := Or.inl rfl

/-- A keeper that only sets `cancel` or puts its call elsewhere, but not on the
way to a new deadline, keeps every guarantee. -/
theorem keeper {k : LeaseKeeper} (hsafe : Safe cfg h s)
    (hlease : k.leaseSeconds = s.keeper.leaseSeconds) (hdeadline : k.deadline = s.keeper.deadline)
    (hsent : k.sent = s.keeper.sent) (hphase : k.phase = .entered → s.keeper.phase = .entered)
    (hrenewal : k.renewal = s.keeper.renewal ∨ k.renewal = none ∨ k.renewal = some .locked
      ∨ k.renewal = some .looping) : Safe cfg h { s with keeper := k } := by
  have hwindow : k.window = s.keeper.window := by rw [LeaseKeeper.window, hlease]; rfl
  refine ⟨hsafe.server, hlease.trans hsafe.lease, ?_, ?_, ?_, ?_, fun n sentAt hr => ?_,
    fun sentAt hr => ?_, fun hp => ?_⟩
  · show k.deadline ≤ s.time + k.window
    rw [hdeadline, hwindow]
    exact hsafe.ahead
  · show ∀ sentAt ∈ k.sent, sentAt ≤ s.time
    rw [hsent]
    exact hsafe.past
  · show ∀ n ∈ s.answered, n < k.sent.length
    rw [hsent]
    exact hsafe.delivered
  · show ∀ n ∈ s.answered, ∀ sentAt, k.sent[n]? = some sentAt → s.Guarded h _
    rw [hsent]
    exact hsafe.answered
  · show k.sent[n]? = some sentAt ∧ k.deadline ≤ sentAt + k.window
    rw [hsent, hdeadline, hwindow]
    have hr : k.renewal = some (.sent n sentAt) := hr
    rcases hrenewal with heq | heq | heq | heq <;> rw [heq] at hr
    · exact hsafe.sent n sentAt hr
    all_goals cases hr
  · show sentAt ≤ s.time ∧ k.deadline ≤ sentAt + k.window ∧ s.Guarded h _
    rw [hdeadline, hwindow]
    have hr : k.renewal = some (.acknowledged sentAt) ∨ k.renewal = some (.confirmed sentAt) := hr
    rcases hrenewal with heq | heq | heq | heq <;> rw [heq] at hr
    · exact hsafe.acknowledged sentAt hr
    all_goals rcases hr with hr | hr <;> cases hr
  · show s.Guarded h (k.deadline + _)
    rw [hdeadline]
    exact hsafe.entered (hphase hp)

/-- A step of `renew` keeps every guarantee. -/
theorem renew {k : LeaseKeeper} {reply : Reply} (hsafe : Safe cfg h s)
    (hrenews : LeaseKeeper.Renews s.keeper s.time reply k)
    (hreply : ∀ n sentAt, s.keeper.renewal = some (.sent n sentAt) → reply = .accepted →
      n ∈ s.answered) : Safe cfg h { s with keeper := k } := by
  cases hrenews with
  | idle _ => exact hsafe
  | raises _ =>
      exact hsafe.keeper rfl rfl rfl LeaseKeeper.giveUp_phase (Or.inr (Or.inl rfl))
  | abandons =>
      exact hsafe.keeper rfl rfl rfl LeaseKeeper.giveUp_phase (Or.inr (Or.inl rfl))
  | starts _ _ => exact hsafe.keeper rfl rfl rfl (fun hp => hp) (Or.inr (Or.inr (Or.inr rfl)))
  | retries _ => exact hsafe.keeper rfl rfl rfl (fun hp => hp) (Or.inr (Or.inr (Or.inr rfl)))
  | sends _ _ _ =>
      -- The new heartbeat is the last of the list; nobody has processed it yet.
      refine ⟨hsafe.server, hsafe.lease, hsafe.ahead, fun sentAt hmem => ?_, fun n hn => ?_,
        fun n hn sentAt hs => ?_, fun n sentAt hr => ?_, fun sentAt hr => ?_, hsafe.entered⟩
      · rcases List.mem_append.mp hmem with hmem | hmem
        · exact hsafe.past sentAt hmem
        · exact (List.mem_singleton.mp hmem).le
      · rw [List.length_append]
        exact Nat.lt_add_right _ (hsafe.delivered n hn)
      · have hs : (s.keeper.sent ++ [s.time])[n]? = some sentAt := hs
        rw [List.getElem?_append_left (hsafe.delivered n hn)] at hs
        exact hsafe.answered n hn sentAt hs
      · obtain ⟨rfl, rfl⟩ := by simpa using hr
        exact ⟨by simp, hsafe.ahead⟩
      · rcases hr with hr | hr <;> cases hr
  | @hears n sentAt hr haccepted =>
      obtain ⟨hsent, hahead⟩ := hsafe.sent n sentAt hr
      refine ⟨hsafe.server, hsafe.lease, hsafe.ahead, hsafe.past, hsafe.delivered,
        hsafe.answered, fun m at' hr' => ?_, fun at' hr' => ?_, hsafe.entered⟩
      · cases hr'
      · obtain rfl : sentAt = at' := by simpa using hr'
        exact ⟨hsafe.past sentAt (List.mem_of_getElem? hsent), hahead,
          hsafe.answered n (hreply n sentAt hr haccepted) sentAt hsent⟩
  | @confirms sentAt hr _ _ =>
      refine ⟨hsafe.server, hsafe.lease, hsafe.ahead, hsafe.past, hsafe.delivered,
        hsafe.answered, fun m at' hr' => ?_, fun at' hr' => ?_, hsafe.entered⟩
      · cases hr'
      · obtain rfl : sentAt = at' := by simpa using hr'
        exact hsafe.acknowledged sentAt (Or.inl hr)
  | @moves sentAt hr =>
      obtain ⟨hpast, hahead, hg⟩ := hsafe.acknowledged sentAt (Or.inr hr)
      refine ⟨hsafe.server, hsafe.lease, ?_, hsafe.past, hsafe.delivered, hsafe.answered,
        fun m at' hr' => ?_, fun at' hr' => ?_, fun _ => ?_⟩
      · show sentAt + s.keeper.window ≤ s.time + s.keeper.window
        linarith
      · cases hr'
      · rcases hr' with hr' | hr' <;> cases hr'
      · show s.Guarded h (sentAt + s.keeper.window + cfg.leaseSeconds / 4)
        rw [hsafe.window_eq, add_assoc, sub_add_cancel]
        exact hg

theorem step (hsafe : Safe cfg h s) (hstep : LeaseStep cfg h s t) : Safe cfg h t := by
  cases hstep with
  | serve hcall hposts =>
      exact hsafe.serve hcall rfl rfl rfl hposts hsafe.delivered fun n hn _ _ => Or.inl hn
  | @deliver n call server hn hbeats hcall =>
      refine hsafe.serve hcall rfl rfl rfl (fun ⟨auth, data, hposts⟩ => ?_) (fun m hm => ?_)
        fun m hm sentAt hsent => ?_
      · obtain ⟨auth', event, hreq⟩ := hbeats
        rw [hreq] at hposts
        cases hposts
      · dsimp only at hm
        split at hm
        · rcases List.mem_cons.mp hm with rfl | hm
          · exact hn
          · exact hsafe.delivered m hm
        · exact hsafe.delivered m hm
      · dsimp only at hm
        split at hm
        · rename_i hok
          obtain ⟨j, hj⟩ := hok
          rcases List.mem_cons.mp hm with rfl | hm
          · have hpast := hsafe.past sentAt (List.mem_of_getElem? hsent)
            simp only [LeaseState.time] at hpast
            exact Or.inr (Or.inr (Or.inr
              (owned_of_heartbeat hsafe.server hcall hbeats hj (by linarith))))
          · exact Or.inl hm
        · exact Or.inl hm
  | lock hc hlock =>
      obtain ⟨-, rfl⟩ := LeaseKeeper.lock_eq hlock
      exact (hsafe.elapse hc).keeper rfl rfl rfl (fun hp => hp) (Or.inr (Or.inr (Or.inl rfl)))
  | @renew c reply hc hreply =>
      exact (hsafe.elapse hc).renew (LeaseKeeper.renew_renews s.keeper _ reply) hreply
  | watch hc =>
      unfold LeaseKeeper.watch
      split
      · exact (hsafe.elapse hc).keeper rfl rfl rfl (fun hp => hp) (Or.inl rfl)
      · exact hsafe.elapse hc
  | cancel hc => exact (hsafe.elapse hc).keeper rfl rfl rfl (fun hp => hp) (Or.inl rfl)
  | post hc => exact (hsafe.elapse hc).post

end Safe

theorem reachable_safe {cfg : Config} {h : Holding} {s : LeaseState}
    (hs : (leaseSystem cfg h).Reachable s) : Safe cfg h s :=
  hs.rec_on (fun _ hinit => .init hinit) fun _ _ _ _ hsafe hstep => hsafe.step hstep

/-! ## The keeper's own guarantees -/

/-- The deadline never decreases and `cancel` is never cleared. -/
theorem keeper_step {cfg : Config} {h : Holding} {s t : LeaseState} (hsafe : Safe cfg h s)
    (hstep : LeaseStep cfg h s t) :
    s.keeper.deadline ≤ t.keeper.deadline ∧ (s.keeper.cancel = true → t.keeper.cancel = true) := by
  cases hstep with
  | serve _ _ => exact ⟨le_rfl, fun hc => hc⟩
  | deliver _ _ _ => exact ⟨le_rfl, fun hc => hc⟩
  | lock _ hlock =>
      obtain ⟨-, rfl⟩ := LeaseKeeper.lock_eq hlock
      exact ⟨le_rfl, fun hc => hc⟩
  | @renew c reply _ _ =>
      have hrenews := LeaseKeeper.renew_renews s.keeper (c + s.offset) reply
      refine ⟨?_, hrenews.cancel⟩
      show s.keeper.deadline ≤ (s.keeper.renew (c + s.offset) reply).deadline
      generalize s.keeper.renew (c + s.offset) reply = k at hrenews
      cases hrenews with
      | moves hr => exact (hsafe.acknowledged _ (Or.inr hr)).2.1
      | _ => exact le_rfl
  | watch _ =>
      unfold LeaseKeeper.watch
      split
      · exact ⟨le_rfl, fun _ => rfl⟩
      · exact ⟨le_rfl, fun hc => hc⟩
  | cancel _ => exact ⟨le_rfl, fun _ => rfl⟩
  | post _ => exact ⟨le_rfl, fun hc => hc⟩

/-- An acknowledgement is pending at or after the deadline `d`, or one was, and
the keeper has given up since. -/
def LeaseState.Late (s : LeaseState) (d : Time) : Prop :=
  s.keeper.deadline = d
    ∧ (((∃ sentAt, s.keeper.renewal = some (.acknowledged sentAt)) ∧ d ≤ s.time)
      ∨ (s.keeper.cancel = true ∧ (s.keeper.renewal = none ∨ s.keeper.renewal = some .locked)))

theorem LeaseState.Late.step {cfg : Config} {h : Holding} {s t : LeaseState} {d : Time}
    (hlate : s.Late d) (hstep : LeaseStep cfg h s t) : t.Late d := by
  obtain ⟨rfl, hcase⟩ := hlate
  -- While nobody calls `renew`, time only makes it later.
  have hwait : ∀ {server : State} {k : LeaseKeeper} {answered : List ℕ} {posted : Bool},
      s.server.clock ≤ server.clock → k.deadline = s.keeper.deadline →
      k.renewal = s.keeper.renewal → (s.keeper.cancel = true → k.cancel = true) →
      (⟨server, s.offset, k, answered, posted⟩ : LeaseState).Late s.keeper.deadline := by
    intro server k answered posted hclock hdeadline hrenewal hcancel
    refine ⟨hdeadline, hcase.imp (fun ⟨hack, hle⟩ => ⟨by rwa [hrenewal], ?_⟩) fun ⟨hc, hr⟩ =>
      ⟨hcancel hc, by rwa [hrenewal]⟩⟩
    simp only [LeaseState.time] at hle ⊢
    linarith
  cases hstep with
  | serve hcall _ => exact hwait (step_clock hcall) rfl rfl fun hc => hc
  | deliver _ _ hcall => exact hwait (step_clock hcall) rfl rfl fun hc => hc
  | lock hc hlock =>
      obtain ⟨hfree, rfl⟩ := LeaseKeeper.lock_eq hlock
      rcases hcase with ⟨⟨sentAt, hack⟩, -⟩ | ⟨hcancel, -⟩
      · rw [hfree] at hack
        cases hack
      · exact ⟨rfl, Or.inr ⟨hcancel, Or.inr rfl⟩⟩
  | @renew c reply hc _ =>
      have hrenews := LeaseKeeper.renew_renews s.keeper (c + s.offset) reply
      generalize s.keeper.renew (c + s.offset) reply = k at hrenews
      rcases hcase with ⟨⟨sentAt, hack⟩, hle⟩ | ⟨hcancel, hr⟩
      · cases hrenews with
        | abandons => exact ⟨rfl, Or.inr ⟨rfl, Or.inl rfl⟩⟩
        | raises hcancel => exact ⟨rfl, Or.inr ⟨hcancel, Or.inl rfl⟩⟩
        | confirms _ _ hlt =>
            simp only [LeaseState.time] at hle
            linarith
        | idle hr => rw [hr] at hack; cases hack
        | starts hr _ => rw [hr] at hack; cases hack
        | retries hr => rw [hr] at hack; cases hack
        | sends hr _ _ => rw [hr] at hack; cases hack
        | hears hr _ => rw [hr] at hack; cases hack
        | moves hr => rw [hr] at hack; cases hack
      · cases hrenews with
        | idle _ => exact ⟨rfl, Or.inr ⟨hcancel, hr⟩⟩
        | raises _ => exact ⟨rfl, Or.inr ⟨hcancel, Or.inl rfl⟩⟩
        | abandons => exact ⟨rfl, Or.inr ⟨rfl, Or.inl rfl⟩⟩
        | starts _ hc => rw [hcancel] at hc; cases hc
        | sends _ hc _ => rw [hcancel] at hc; cases hc
        | confirms _ hc _ => rw [hcancel] at hc; cases hc
        | retries hr' => rcases hr with hr | hr <;> rw [hr] at hr' <;> cases hr'
        | hears hr' _ => rcases hr with hr | hr <;> rw [hr] at hr' <;> cases hr'
        | moves hr' => rcases hr with hr | hr <;> rw [hr] at hr' <;> cases hr'
  | watch hc =>
      unfold LeaseKeeper.watch
      split
      · exact hwait hc rfl rfl fun _ => rfl
      · exact hwait hc rfl rfl fun hc => hc
  | cancel hc => exact hwait hc rfl rfl fun _ => rfl
  | post hc => exact hwait hc rfl rfl fun hc => hc

/-! ## Lease safety -/

namespace Sample

/-- The claim of the sample deployment. -/
def holding : Holding := ⟨10, 21, token⟩

/-- The first heartbeat for it. -/
def beat : Timely := ⟨.heartbeat 10 credential 21 ⟨"t", .jobStarted⟩, 4, 40, token⟩

/-- The control plane after the claim and the first heartbeat. -/
def beaten : State := ((replay config start claimed).1.after config beat).1

/-- The keeper of the claim, made at time 3. -/
def keeping : LeaseState := ⟨(replay config start claimed).1, 0, .new 120 3, [], false⟩

/-- It has sent its first heartbeat. -/
def beating : LeaseState :=
  { keeping with
    keeper := ({ keeping.keeper with renewal := some .looping } : LeaseKeeper).renew
      (3 + 0) .failed }

/-- It has entered, with the answer it got at time 5. -/
def leased : LeaseState where
  server := { beaten with clock := 5 }
  offset := 0
  keeper := ((beating.keeper.renew (5 + 0) .accepted).renew (5 + 0) .failed).renew (5 + 0) .failed
  answered := [0]

theorem keeping_init : (leaseSystem config holding).init keeping := by
  refine ⟨replay_reachable init (by decide), by decide +kernel, ?_, rfl, rfl⟩
  have htime : keeping.time = 3 := by decide +kernel
  rw [htime]
  rfl

/-- The claim, the first heartbeat and its answer. -/
theorem leased_run : (leaseSystem config holding).Run keeping (List.replicate 7 ()) leased := by
  have hthree : keeping.server.clock ≤ 3 := by decide +kernel
  have hsent : beating.keeper.renewal = some (.sent 0 3) ∧ 0 < beating.keeper.sent.length := by
    decide +kernel
  have h₁ : (leaseSystem config holding).Run keeping [(), (), ()] beating :=
    ((Transition.Run.nil (M := leaseSystem config holding)).snoc (.lock hthree rfl)).snoc
      (@LeaseStep.renew _ _ _ 3 .failed le_rfl fun _ _ h => by cases h) |>.snoc
      (@LeaseStep.renew _ _ _ 3 .failed le_rfl fun _ _ h => by cases h)
  let call : Call :=
    ⟨beat.request, .quiet 4 40 token, (beating.server.after config beat).2⟩
  have hbeats : call.Beats holding := ⟨credential, .jobStarted, rfl⟩
  have hcall : (controlPlane config).step beating.server call
      (beating.server.after config beat).1 := after_step (by decide +kernel)
  have hjob : ∃ j, call.response = .job j := by decide +kernel
  let answered : LeaseState :=
    { beating with server := (beating.server.after config beat).1, answered := [0] }
  have h₂ : LeaseStep config holding beating answered := by
    have hstep := LeaseStep.deliver hsent.2 hbeats hcall
    rwa [if_pos hjob] at hstep
  have hfour : answered.server.clock ≤ 5 := by decide +kernel
  have h₃ := (h₁.snoc (l := ()) h₂).snoc (l := ())
    (@LeaseStep.renew _ _ answered 5 .accepted hfour fun n sentAt h _ => by
      cases hsent.1.symm.trans h
      exact List.mem_cons_self ..)
  exact (h₃.snoc (l := ()) (@LeaseStep.renew _ _ _ 5 .failed le_rfl fun _ _ _ h => by cases h)).snoc
    (l := ()) (@LeaseStep.renew _ _ _ 5 .failed le_rfl fun _ _ _ h => by cases h)

end Sample

/-- **Lease safety.** Once entered, as long as the worker has posted no result,
`cancel` is not set and the worker's clock is below the deadline, the job is
active in its hands, with a quarter of the lease to spare past the deadline;
up to then no query of the reaper selects it, and it is the last attempt of
its submission. The deadline never decreases, `cancel` is never cleared, and
an acknowledgement that is pending at or after the deadline leaves it as it
is for good. -/
theorem lease_safety {cfg : Config} {h : Holding} {s : LeaseState}
    (hs : (leaseSystem cfg h).Reachable s) :
    (s.keeper.phase = .entered → s.posted = false → s.keeper.cancel = false →
        s.time < s.keeper.deadline →
        ∃ j ∈ s.server.db.jobs, j.id = h.jobId ∧ j.status.IsActive
          ∧ j.workerId = some h.workerId ∧ j.leaseToken = some h.token
          ∧ (∃ e, j.leaseExpiresAt = some e
              ∧ s.keeper.deadline + cfg.leaseSeconds / 4 ≤ e + s.offset)
          ∧ (∀ skipped reading, reading + s.offset ≤ s.keeper.deadline + cfg.leaseSeconds / 4 →
              j ∉ expiredJobs s.server.db skipped reading)
          ∧ ∀ k ∈ s.server.db.jobs, k.submissionId = j.submissionId → k.attempt ≤ j.attempt)
      ∧ (∀ t, LeaseStep cfg h s t → s.keeper.deadline ≤ t.keeper.deadline
          ∧ (s.keeper.cancel = true → t.keeper.cancel = true))
      ∧ ∀ sentAt, s.keeper.renewal = some (.acknowledged sentAt) →
          s.keeper.deadline ≤ s.time →
          ∀ tr t, (leaseSystem cfg h).Run s tr t → t.keeper.deadline = s.keeper.deadline := by
  have hsafe := reachable_safe hs
  refine ⟨fun hentered hposted _ hlt => ?_, fun t hstep => keeper_step hsafe hstep,
    fun sentAt hack hle tr t hrun => ?_⟩
  · rcases hsafe.entered hentered with hp | hpast | hown
    · rw [hposted] at hp
      cases hp
    · have hquarter : (0 : ℚ) ≤ cfg.leaseSeconds := Nat.cast_nonneg _
      linarith
    · obtain ⟨j, hj, hid, ha, hw, htok, e, he, hle⟩ := hown
      refine ⟨j, hj, hid, ha, hw, htok, ⟨e, he, by linarith⟩, fun skipped reading hread hexp => ?_,
        fun k hk hsub => ?_⟩
      · obtain ⟨-, -, -, e', he', hlt'⟩ := mem_expiredJobs.mp hexp
        obtain rfl := Option.some.inj (he.symm.trans he')
        linarith
      · exact (reachable_attempts hsafe.server).last hj ha.not_terminal hk hsub
  · have hlate : s.Late s.keeper.deadline := ⟨rfl, Or.inl ⟨⟨sentAt, hack⟩, hle⟩⟩
    exact (hrun.preserves (P := fun (t : LeaseState) => t.Late s.keeper.deadline)
      (fun u l v _ hu hstep => hu.step hstep) hs hlate).1

/-- A keeper that entered at time 5 with the heartbeat it sent at time 3. -/
theorem lease_safety_entered :
    ∃ s, (leaseSystem Sample.config Sample.holding).Reachable s
      ∧ s.time = 5 ∧ s.keeper.deadline = 93
      ∧ ∃ j ∈ s.server.db.jobs, j.status.IsActive
          ∧ ∃ e, j.leaseExpiresAt = some e ∧ s.keeper.deadline + 30 ≤ e + s.offset := by
  have hreach := (Transition.Reachable.init Sample.keeping_init).run Sample.leased_run
  have hkeeper : Sample.leased.keeper.phase = .entered ∧ Sample.leased.keeper.cancel = false
      ∧ Sample.leased.time = 5 ∧ Sample.leased.keeper.deadline = 93 := by decide +kernel
  obtain ⟨hentered, hcancel, htime, hdeadline⟩ := hkeeper
  obtain ⟨j, hj, -, ha, -, -, ⟨e, he, hle⟩, -⟩ :=
    (lease_safety hreach).1 hentered rfl hcancel (by rw [htime, hdeadline]; norm_num)
  have hquarter : (Sample.config.leaseSeconds : ℚ) / 4 = 30 := by decide +kernel
  exact ⟨Sample.leased, hreach, htime, hdeadline, j, hj, ha, e, he, hquarter ▸ hle⟩

end AgentBenchX
