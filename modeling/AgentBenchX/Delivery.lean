import AgentBenchX.Fencing
import AgentBenchX.Transactions
import AgentBenchX.Worker

/-!
# Delivery of results

A worker that uploads results over a network that loses requests and answers,
and that may be killed between any two operations on its files, against the
interleaved transactions of the server. What was sent stays under way: the
server may take it up at any later time, again, or never, and an answer reaches
the worker only while it waits for it.

The server refuses a result for its lease only when the job is past saving, and
then no transaction that is open or comes later can record a result for it
(`Spent`). Everything else follows from the order of the operations on files.
-/

namespace AgentBenchX

/-! ## Leases among open transactions -/

/-- The transaction has checked the lease of the job. -/
def Stage.Leases : Stage → Uid → Prop
  | .owned _ j _, id => j.id = id
  | .targeted _ j _ _, id => j.id = id
  | _, _ => False

theorem holds_of_leases {stage : Stage} {id : Uid} (h : stage.Leases id) :
    stage.Holds (.job id) := by
  cases stage with
  | owned w j event => exact Or.inr (congrArg Row.job (Eq.symm h))
  | targeted w j problem data => exact Or.inr (congrArg Row.job (Eq.symm h))
  | _ => nomatch h

/-- A transaction that has moved and is still open reads the clock at `c` or later. -/
def Server.After (c : Time) (s t : Server) : Prop :=
  ∀ i tx, t.sessions i = some tx → s.sessions i = some tx ∨ c ≤ tx.env.tick 0

theorem Server.After.put {c : Time} {s : Server} {i : ℕ} {tx : Transaction}
    (h : c ≤ tx.env.tick 0) : s.After c (s.put i tx) := fun _ _ hk =>
  (World.put_sessions hk).elim (fun heq => Or.inr (heq.2 ▸ h)) fun hold => Or.inl hold.2

theorem Server.After.close (c : Time) (s : Server) (i : ℕ) (db : Database) :
    s.After c (s.close i db) :=
  fun _ _ hk => Or.inl (World.close_sessions hk).2

/-- The job is past saving, and no open transaction has found otherwise. -/
structure Spent (c : Time) (id : Uid) (s : Server) : Prop where
  lapsed : Lapsed c id s.store
  idle : ∀ i tx, s.sessions i = some tx → ¬tx.stage.Leases id

section Statements

variable {cfg : Config} {c c' : Time} {id : Uid} {s t : Server} {l : Option Call}

/-- A statement makes a change that no lease is checked for, or a transaction
that has checked the lease of its job changes what it has locked. -/
theorem executes_cases (h : (Transaction.discipline cfg).Sound s) (hex : Executes cfg s l t) :
    (∃ c c' kind, ¬(kind = .renew ∨ kind = .finish) ∧ Changes cfg c c' kind s.store t.store)
      ∨ ∃ i tx, s.sessions i = some tx
        ∧ ∀ k, ¬tx.stage.Leases k → (Row.job k).Keeps s.store t.store := by
  cases hex with
  | submit hok => exact Or.inl ⟨0, 0, _, by decide, submit_changes hok⟩
  | register hok => exact Or.inl ⟨0, 0, _, by decide, .single (register_change hok)⟩
  | @report i env w active status request hi =>
      obtain ⟨⟨c, c', ht⟩, hw⟩ := h.learnt i _ hi
      exact Or.inl ⟨c, c', _, by decide, .single (Change.report ht hw)⟩
  | @assign i env w j submission problem agent request hi _ _ _ =>
      obtain ⟨⟨c, c', ht⟩, ⟨hw, hclaimable, hnone⟩, hj, hq⟩ := h.learnt i _ hi
      exact Or.inl ⟨c, c', _, by decide, .single (Change.claim ht hw hclaimable hnone hj hq)⟩
  | @renew i env w j event request hi =>
      obtain ⟨-, -, hj, hworker, -⟩ := h.learnt i _ hi
      exact Or.inr ⟨i, _, hi, fun k hk => keeps_commit (heartbeatRows cfg env j w event).2
        (heartbeatRows cfg env j w event).1 hj rfl rfl rfl rfl (fun ev hev => Or.inl hev)
        (fun _ => hworker) (by rintro (hr | hr); exacts [(nomatch hr), hk (Row.job.inj hr).symm])⟩
  | @record i env w j problem data db ev request hi _ hrec =>
      obtain ⟨-, -, hj, -⟩ := h.learnt i _ hi
      obtain ⟨rfl, -, evs, hins, hret⟩ := recordResult_ok hrec
      refine Or.inr ⟨i, _, hi, fun k hk => Row.Keeps.trans ?_ (keeps_retried hret)⟩
      refine keeps_commit (releasedRow env w) (finishedRow env j data) hj rfl rfl rfl rfl
        (fun ev hev => ?_) (fun ha => absurd finishedRow_terminal ha.not_terminal)
        (by rintro (hr | hr); exacts [(nomatch hr), hk (Row.job.inj hr).symm])
      rcases (Table.mem_insert? hins).mp hev with hev | rfl
      · exact Or.inl hev
      · exact Or.inr rfl
  | @expire i env jobs db request hi hfold =>
      obtain ⟨⟨c, c', ht⟩, hnodup, hjobs⟩ := h.learnt i _ hi
      exact Or.inl ⟨c, c', _, by decide, expireJobs_changes ht (.of_jobs hnodup hjobs) hfold⟩
  | @offline i env workers request hi =>
      obtain ⟨⟨c, c', ht⟩, hnodup, hworkers⟩ := h.learnt i _ hi
      exact Or.inl ⟨c, c', _, by decide, markOffline_changes ht hnodup hworkers⟩
  | _ => exact Or.inl ⟨0, 0, .enqueue, by decide, .refl⟩

/-- A row that is kept stays lapsed. -/
theorem Lapsed.keeps {db db' : Database} (h : Lapsed c id db) (hkeeps : (Row.job id).Keeps db db') :
    Lapsed c id db' := by
  obtain ⟨j, hj, hid, hcase⟩ := h.1
  exact ⟨⟨j, hkeeps.1 j hj hid, hid, hcase⟩, hkeeps.2 h.2⟩

theorem Lapsed.mono {db : Database} (h : Lapsed c id db) (hc : c ≤ c') : Lapsed c' id db := by
  obtain ⟨⟨j, hj, hid, hcase⟩, hfree⟩ := h
  refine ⟨⟨j, hj, hid, hcase.imp (fun h => h) ?_⟩, hfree⟩
  rintro ⟨ha, e, he, hle⟩
  exact ⟨ha, e, he, hle.trans hc⟩

/-- No transaction that reads the clock from `c` on finds the lease of a lapsed
job valid. -/
theorem executes_leases (hsound : (Transaction.discipline cfg).Sound s)
    (hlapsed : Lapsed c id s.store) (hafter : s.After c t) (hex : Executes cfg s l t)
    {i : ℕ} {tx : Transaction} (ht : t.sessions i = some tx) (hleases : tx.stage.Leases id) :
    s.sessions i = some tx := by
  have hput {k : ℕ} {tx' : Transaction} (ht : (s.put k tx').sessions i = some tx)
      (hafter : s.After c (s.put k tx')) (hno : tx'.stage.Leases id → ¬c ≤ tx'.env.tick 0) :
      s.sessions i = some tx := by
    rcases hafter i tx ht with h | hc
    · exact h
    · rcases World.put_sessions ht with ⟨-, rfl⟩ | ⟨-, h⟩
      · exact absurd hc (hno hleases)
      · exact h
  cases hex with
  | submit _ => exact ht
  | register _ => exact ht
  | authenticate _ _ _ _ => exact hput ht hafter nofun
  | count _ => exact hput ht hafter nofun
  | search _ _ _ => exact hput ht hafter nofun
  | pick _ _ _ => exact hput ht hafter nofun
  | own _ _ hown =>
      refine hput ht hafter fun hid hc => ?_
      obtain ⟨hj, -, -, hvalid⟩ := ownedJob_ok hown
      obtain ⟨hactive, e, he, hlt⟩ := leaseValid_ok (hvalid.resolve_left (by simp))
      exact hlapsed.not_valid (Table.get?_eq_some.mp hj).1 hid hactive he hc hlt
  | @target k env w jobId data j problem request hk _ _ htarget =>
      refine hput ht hafter fun hid hc => ?_
      obtain ⟨⟨c₁, c₂, htimed⟩, -⟩ := hsound.learnt k _ hk
      obtain ⟨hj, -, -, -, -, hactive, e, he, hlt⟩ := resultTarget_ok htarget
      exact hlapsed.not_valid hj hid hactive he (hc.trans (htimed.mono (Nat.zero_le 1))) hlt
  | select _ _ _ => exact hput ht hafter nofun
  | selectWorkers _ _ _ => exact hput ht hafter nofun
  | _ => exact (World.close_sessions ht).2

/-- A job that is spent stays so. -/
theorem Spent.executes (h : Spent c id s) (hsound : (Transaction.discipline cfg).Sound s)
    (hex : Executes cfg s l t) (hafter : s.After c t) : Spent c id t where
  lapsed := by
    rcases executes_cases hsound hex with ⟨c₁, c₂, kind, hkind, hch⟩ | ⟨i, tx, hi, hkeeps⟩
    · exact h.lapsed.changes_of hch fun hk => absurd hk hkind
    · exact h.lapsed.keeps (hkeeps id (h.idle i tx hi))
  idle i tx hi hleases := h.idle i tx
    (executes_leases hsound h.lapsed hafter hex hi hleases) hleases

theorem Spent.mono (h : Spent c id s) (hc : c ≤ c') : Spent c' id s :=
  ⟨h.lapsed.mono hc, h.idle⟩

end Statements

/-! ## Answers to results -/

/-- One of the refusals `EvaluationManager.result` gives for the lease. -/
def HttpError.IsLeaseRejection (e : HttpError) : Prop :=
  e.code = 409 ∧ (e.detail = "Job lease expired or job is terminal"
    ∨ e.detail = "Stale result; lease no longer valid"
    ∨ e.detail = "Result storage exceeded job lease")

/-- The transaction `i` ends with the answer to a result of the worker for the
job, between `c` and `c'`. -/
inductive Answers (cfg : Config) (s : Server) (i : ℕ) (workerId jobId : Uid) (c c' : Time)
    (body : Option ResultInput) : Response → Server → Prop
  | previous {env : Env} {w : Worker} {data : ResultInput} {ev : Evaluation}
      {request : Request} :
      s.sessions i = some ⟨env, .authenticated w (.result jobId data), request⟩ → w.id = workerId →
      body = some data → data.Valid → s.Free cfg i (.job jobId) → c ≤ env.tick 0 →
      env.tick 1 ≤ c' → resultTarget env s.store w jobId data = .ok (.inl ev) →
      Answers cfg s i workerId jobId c c' body (.evaluation ev) (s.close i s.store)
  | refused {env : Env} {w : Worker} {data : ResultInput} {e : HttpError}
      {request : Request} :
      s.sessions i = some ⟨env, .authenticated w (.result jobId data), request⟩ → w.id = workerId →
      body = some data → data.Valid → s.Free cfg i (.job jobId) → c ≤ env.tick 0 →
      env.tick 1 ≤ c' → resultTarget env s.store w jobId data = .error e →
      Answers cfg s i workerId jobId c c' body (.error e) (s.close i s.store)
  /-- Storing the artifacts has taken too long. -/
  | stalled {env : Env} {w : Worker} {j : RunnerJob} {problem : ProblemVersion}
      {data : ResultInput} {e : HttpError} {request : Request} :
      s.sessions i = some ⟨env, .targeted w j problem data, request⟩ → w.id = workerId →
        j.id = jobId →
      body = some data → env.tick 2 ≤ c' →
      leaseUnexpired j (env.tick 2) "Result storage exceeded job lease" = .error e →
      Answers cfg s i workerId jobId c c' body (.error e) (s.close i s.store)
  | recorded {env : Env} {w : Worker} {j : RunnerJob} {problem : ProblemVersion}
      {data : ResultInput} {db : Database} {ev : Evaluation} {request : Request} :
      s.sessions i = some ⟨env, .targeted w j problem data, request⟩ → w.id = workerId →
        j.id = jobId →
      body = some data → env.tick 2 ≤ c' →
      leaseUnexpired j (env.tick 2) "Result storage exceeded job lease" = .ok () →
      recordResult cfg env s.store w j problem data = .ok (db, ev) →
      Answers cfg s i workerId jobId c c' body (.evaluation ev) (s.close i db)
  /-- The body does not fit the schema. -/
  | invalid {errors : List FieldError} :
      Answers cfg s i workerId jobId c c' body (.invalid errors) (s.close i s.store)
  /-- Any other failure: of the authentication, the storage or the database. -/
  | failed {e : HttpError} : ¬e.IsLeaseRejection →
      Answers cfg s i workerId jobId c c' body (.error e) (s.close i s.store)

section Answered

variable {cfg : Config} {s t : Server} {i : ℕ} {workerId jobId : Uid} {c c' : Time}
  {body : Option ResultInput} {r : Response}

/-- An answer is the end of a transaction. -/
theorem Answers.executes (h : Answers cfg s i workerId jobId c c' body r t) :
    ∃ l, Executes cfg s l t := by
  cases h with
  | recorded hi _ _ _ _ hlease hrec => exact ⟨_, .record hi hlease hrec⟩
  | _ => exact ⟨none, .rollback⟩

/-- It ends only the transaction it is of. -/
theorem Answers.after (h : Answers cfg s i workerId jobId c c' body r t) : s.After c t := by
  cases h <;> exact .close c s i _

/-- The server holds the evaluation it answers with. -/
theorem Answers.evaluation (h : Answers cfg s i workerId jobId c c' body r t) {ev : Evaluation}
    (hr : r = .evaluation ev) : ev ∈ t.store.evaluations ∧ ev.jobId = jobId := by
  subst hr
  cases h with
  | previous _ _ _ _ _ _ _ htarget => exact resultTarget_previous htarget
  | recorded _ _ hid _ _ _ hrec =>
      obtain ⟨rfl, -, evs, hins, hret⟩ := recordResult_ok hrec
      refine ⟨?_, hid⟩
      rw [World.close_store, hret.frame]
      exact (Table.mem_insert? hins).mpr (Or.inr rfl)

/-- The lease of an owned job is refused because the job is terminal or the
lease has run out. -/
theorem leaseValid_refused {j : RunnerJob} {reading : Time} {detail : String} {e : HttpError}
    (hown : j.WellOwned) {w : Uid} (hworker : j.workerId = some w)
    (h : leaseValid j reading detail = .error e) (he : e.code = 409) :
    j.status.IsTerminal ∨ (j.status.IsActive ∧ ∃ x, j.leaseExpiresAt = some x ∧ x ≤ reading) := by
  unfold leaseValid at h
  split at h
  · rename_i hactive
    refine Or.inr ⟨hactive, ?_⟩
    unfold leaseUnexpired at h
    split at h
    · obtain rfl := Except.error.inj h
      exact absurd he (by decide)
    · rename_i x hx
      split at h
      · exact ⟨x, hx, ‹_›⟩
      · nomatch h
  · rename_i hactive
    refine Or.inl ?_
    have hqueued : j.status ≠ .queued := fun hq => by
      rw [(hown.queued hq).1] at hworker
      nomatch hworker
    exact (j.status.cases_on_phase.resolve_left hqueued).resolve_left hactive

theorem require_error {α : Type} [Keyed Uid α] {model : String} {table : Table α} {id : Uid}
    {e : HttpError} (h : require model table id = .error e) : e.code = 404 := by
  unfold require at h
  split at h
  · nomatch h
  · rw [← Except.error.inj h]

/-- A refusal for the lease finds the job past saving. -/
theorem resultTarget_refused {db : Database} {env : Env} {w : Worker} {data : ResultInput}
    {e : HttpError} (hcons : Consistent db) (htimed : env.tick 0 ≤ env.tick 1)
    (h : resultTarget env db w jobId data = .error e) (he : e.code = 409) :
    Lapsed (env.tick 1) jobId db := by
  unfold resultTarget at h
  rcases error_of_bind h with hown | ⟨job, hown, h⟩
  · unfold ownedJob at hown
    split at hown
    · obtain rfl := Except.error.inj hown
      exact absurd he (by decide)
    · rename_i job hjob
      obtain ⟨hj, hid⟩ := Table.get?_eq_some.mp hjob
      split at hown
      · obtain rfl := Except.error.inj hown
        exact absurd he (by decide)
      · rename_i hworker
        rcases error_of_bind hown with hdigest | ⟨same, -, hown⟩
        · unfold compareDigest at hdigest
          split at hdigest
          · nomatch hdigest
          · obtain rfl := Except.error.inj hdigest
            exact absurd he (by decide)
        · split at hown
          · obtain rfl := Except.error.inj hown
            exact absurd he (by decide)
          · split at hown
            · nomatch hown
            · rename_i hterminal
              rcases error_of_bind hown with hvalid | ⟨-, -, hok⟩
              · obtain ⟨hactive, x, hx, hle⟩ := (leaseValid_refused (hcons.ownership.rows job hj)
                  (not_not.mp hworker) hvalid he).resolve_left fun hterm => hterminal ⟨rfl, hterm⟩
                exact ⟨⟨job, hj, hid, Or.inr ⟨hactive, x, hx, hle.trans htimed⟩⟩,
                  fun ev hev heq => hcons.recorded.not_evaluated hj hactive ev hev
                    (heq.trans hid.symm)⟩
              · nomatch hok
  · obtain ⟨hjob, hworker, -⟩ := ownedJob_ok hown
    obtain ⟨hj, hid⟩ := Table.get?_eq_some.mp hjob
    split at h
    · nomatch h
    · rename_i hnone
      have hfree := Database.evaluationOf_eq_none.mp hnone
      rcases error_of_bind h with hvalid | ⟨-, -, h⟩
      · have hcase := leaseValid_refused (hcons.ownership.rows job hj) hworker hvalid he
        exact ⟨⟨job, hj, hid, hcase⟩, fun ev hev heq => hfree ev hev (heq.trans hid.symm)⟩
      · rcases error_of_bind h with hsub | ⟨submission, -, h⟩
        · exact absurd (require_error hsub) (by rw [he]; decide)
        · rcases error_of_bind h with hproblem | ⟨problem, -, h⟩
          · exact absurd (require_error hproblem) (by rw [he]; decide)
          · nomatch h

/-- After a refusal for the lease the job is spent. -/
theorem Answers.spent (h : Answers cfg s i workerId jobId c c' body r t)
    (hsound : (Transaction.discipline cfg).Sound s) (hcons : Consistent s.store) {e : HttpError}
    (hr : r = .error e) (he : e.IsLeaseRejection) : Spent c' jobId t := by
  subst hr
  have hidle {s' : Database} (hfree : s.Free cfg i (.job jobId)) :
      ∀ k tx, (s.close i s').sessions k = some tx → ¬tx.stage.Leases jobId := by
    intro k tx hk hleases
    obtain ⟨hne, hk⟩ := World.close_sessions hk
    exact hfree k tx hne hk (holds_of_leases hleases)
  cases h with
  | @refused env w data e request hi _ _ _ hfree _ hread htarget =>
      obtain ⟨⟨c₁, c₂, htimed⟩, -⟩ := hsound.learnt i _ hi
      exact ⟨(resultTarget_refused hcons (htimed.mono (Nat.zero_le 1)) htarget he.1).mono hread,
        hidle hfree⟩
  | @stalled env w j problem data e request hi _ hid _ hread hlease =>
      obtain ⟨-, -, hj, hevs, hworker, hactive, -⟩ := hsound.learnt i _ hi
      have hexpired : leaseValid j (env.tick 2) "Result storage exceeded job lease" = .error e := by
        rw [leaseValid, if_pos hactive, hlease]
      have hcase := leaseValid_refused (hcons.ownership.rows j hj) hworker hexpired he.1
      exact ⟨Lapsed.mono ⟨⟨j, hj, hid, hcase⟩, fun ev hev heq => hevs ev hev (heq.trans hid.symm)⟩
        hread, hidle (hid ▸ hsound.free hi (Or.inr rfl))⟩
  | failed hno => exact absurd he hno

end Answered

/-! ## The worker, its files and the network -/

/-- What sends a result: `replay_pending`, or an attempt of the upload loop. -/
inductive Sender where
  | replay
  | upload (attempt : ℕ)

/-- How far the process has come. -/
inductive WorkerPoint where
  | down
  /-- Between two passes, or two files of a replay. -/
  | looping
  /-- The workspace of a job exists. -/
  | created (id : Uid)
  /-- Its result is written. -/
  | evaluated (id : Uid) (result : Json)
  | waiting (sender : Sender) (id : Uid) (request : ℕ)
  | answered (sender : Sender) (id : Uid) (receipt : Json)
  /-- `receipt.json` is written. -/
  | saved (sender : Sender) (id : Uid)
  | refused (id : Uid) (e : HttpError)
  /-- `result.accepted.json` has its name. -/
  | accepted (id : Uid)

/-- The text of `result.pending.json`. -/
def resultText (result : Json) : String := String.ofList (Json.dumps (some 2) result)

/-- The texts a kill or an error may cut short. -/
inductive WorkerPoint.Writes : WorkerPoint → DiskFile → String → Prop
  | pending (id : Uid) (result : Json) : Writes (.created id) (.pending id) (resultText result)
  | receipt (sender : Sender) (id : Uid) (receipt : Json) :
      Writes (.answered sender id receipt) (.receipt id) (Worker.receiptText receipt)

/-- What the frameworks make of the bodies of requests and answers. -/
structure Wire where
  parse : Json → Option ResultInput
  serialize : Evaluation → Json

structure Delivery where
  server : Server
  clock : Time
  /-- The results that were sent, each with the job of its path. -/
  requests : ℕ → Option (Uid × Json) := fun _ => none
  answers : ℕ → Option Response := fun _ => none
  disk : Disk := {}
  point : WorkerPoint := .down

/-- What a step does to the files that were uploaded. -/
inductive DeliveryEvent where
  | other
  | accepted (id : Uid)
  | rejected (id : Uid) (e : HttpError)
  | removed (id : Uid)

namespace Delivery

/-- The result is sent as request `n`. -/
def send (s : Delivery) (sender : Sender) (id : Uid) (body : Json) (n : ℕ) : Delivery :=
  { s with
    requests := Function.update s.requests n (some (id, body))
    point := .waiting sender id n }

/-- An operation on the files of the worker. -/
def perform (s : Delivery) (op : DiskOp) (point : WorkerPoint) : Delivery :=
  { s with disk := s.disk.apply op, point }

end Delivery

inductive DeliveryStep (cfg : Config) (wire : Wire) (workerId : Uid) (s : Delivery) :
    DeliveryEvent → Delivery → Prop
  /-- A statement of any transaction, of this worker or others. -/
  | statement {l : Option Call} {t : Server} {c : Time} :
      Executes cfg s.server l t → s.server.After s.clock t → s.clock ≤ c →
      DeliveryStep cfg wire workerId s .other { s with server := t, clock := c }
  /-- Transaction `n` answers request `n`. -/
  | answer {n : ℕ} {id : Uid} {body : Json} {r : Response} {t : Server} {c : Time} :
      s.requests n = some (id, body) →
      Answers cfg s.server n workerId id s.clock c (wire.parse body) r t → s.clock ≤ c →
      DeliveryStep cfg wire workerId s .other
        { s with server := t, clock := c, answers := Function.update s.answers n (some r) }
  | start : s.point = .down →
      DeliveryStep cfg wire workerId s .other { s with point := .looping }
  /-- The process is killed, an exception ends it or the pass, or the lease is lost
  before the upload. -/
  | leave {point : WorkerPoint} {disk : Disk} :
      s.point ≠ .down → (point = .down ∨ point = .looping) →
      (disk = s.disk ∨ ∃ file text n, s.point.Writes file text
        ∧ disk = s.disk.apply (.write file (takeChars n text))) →
      DeliveryStep cfg wire workerId s .other { s with disk, point }
  | create {id : Uid} : s.point = .looping →
      DeliveryStep cfg wire workerId s .other (s.perform (.create id) (.created id))
  | evaluate {id : Uid} {result : Json} : s.point = .created id →
      DeliveryStep cfg wire workerId s .other
        (s.perform (.write (.pending id) (resultText result)) (.evaluated id result))
  | upload {id : Uid} {result : Json} {n : ℕ} :
      s.point = .evaluated id result → s.requests n = none →
      DeliveryStep cfg wire workerId s .other (s.send (.upload 0) id result n)
  /-- A transport error, and the next attempt. -/
  | retry {attempt : ℕ} {id : Uid} {m n : ℕ} {body : Json} :
      s.point = .waiting (.upload attempt) id m → attempt + 1 < 3 →
      s.requests m = some (id, body) → s.requests n = none →
      DeliveryStep cfg wire workerId s .other (s.send (.upload (attempt + 1)) id body n)
  | replay {id : Uid} {text : String} {body : Json} {n : ℕ} :
      s.point = .looping → (s.disk.job id).pending = some text →
      Json.loads (DockerSandbox.newlines text.toList) = some body → s.requests n = none →
      DeliveryStep cfg wire workerId s .other (s.send .replay id body n)
  | receive {sender : Sender} {id : Uid} {n : ℕ} {ev : Evaluation} :
      s.point = .waiting sender id n → s.answers n = some (.evaluation ev) →
      DeliveryStep cfg wire workerId s .other
        { s with point := .answered sender id (wire.serialize ev) }
  /-- In the upload loop a refusal ends the pass (`leave`). -/
  | refuse {id : Uid} {n : ℕ} {e : HttpError} :
      s.point = .waiting .replay id n → s.answers n = some (.error e) → e.code ∈ [403, 404, 409] →
      DeliveryStep cfg wire workerId s .other { s with point := .refused id e }
  | save {sender : Sender} {id : Uid} {receipt : Json} : s.point = .answered sender id receipt →
      DeliveryStep cfg wire workerId s .other
        (s.perform (.write (.receipt id) (Worker.receiptText receipt)) (.saved sender id))
  /-- A rename needs the file. -/
  | acceptReplay {id : Uid} : s.point = .saved .replay id → (s.disk.job id).pending.isSome →
      DeliveryStep cfg wire workerId s (.accepted id) (s.perform (.accept id) .looping)
  | acceptUpload {attempt : ℕ} {id : Uid} :
      s.point = .saved (.upload attempt) id → (s.disk.job id).pending.isSome →
      DeliveryStep cfg wire workerId s (.accepted id) (s.perform (.accept id) (.accepted id))
  | reject {id : Uid} {e : HttpError} : s.point = .refused id e → (s.disk.job id).pending.isSome →
      DeliveryStep cfg wire workerId s (.rejected id e) (s.perform (.reject id) .looping)
  | remove {id : Uid} : s.point = .accepted id →
      DeliveryStep cfg wire workerId s (.removed id) (s.perform (.remove id) .looping)

/-- One worker and its server, from an empty database and an empty directory. -/
def delivery (cfg : Config) (wire : Wire) (workerId : Uid) : Transition Delivery DeliveryEvent where
  init s := (transactions cfg).init s.server ∧ (∀ n, s.requests n = none)
    ∧ (∀ n, s.answers n = none) ∧ (∀ id, s.disk.job id = {}) ∧ s.point = .down
  step := DeliveryStep cfg wire workerId

/-! ## What the files and the answers say -/

/-- Only one operation gives a file the name `result.accepted.json`. -/
theorem Disk.accepted_apply {d : Disk} {op : DiskOp} {id : Uid}
    (h : ((d.apply op).job id).accepted.isSome) : (d.job id).accepted.isSome ∨ op = .accept id := by
  cases op with
  | write file text =>
      cases file with
      | identity => exact Or.inl h
      | pending k | receipt k =>
          simp only [Disk.apply, Disk.update] at h
          split at h <;> exact Or.inl h
  | accept k =>
      by_cases hk : id = k
      · exact Or.inr (congrArg _ hk.symm)
      · simp only [Disk.apply, Disk.update, if_neg hk] at h
        exact Or.inl h
  | create k | reject k | remove k =>
      simp only [Disk.apply, Disk.update] at h
      split at h <;> exact Or.inl h

theorem Disk.receipt_written (d : Disk) (id : Uid) (text : String) :
    ((d.apply (.write (.receipt id) text)).job id).receipt = some text := by
  simp [Disk.apply, Disk.update]

theorem Disk.job_accept (d : Disk) (id : Uid) : (d.apply (.accept id)).job id
    = { d.job id with pending := none, accepted := (d.job id).pending.or (d.job id).accepted } := by
  simp [Disk.apply, Disk.update]

namespace Delivery

/-- The server holds an evaluation for the job. -/
def Holds (s : Delivery) (id : Uid) : Prop := ∃ ev ∈ s.server.store.evaluations, ev.jobId = id

/-- What is behind the point the process has come to. -/
def AgreesAt (s : Delivery) : WorkerPoint → Prop
  | .waiting _ id n => ∃ body, s.requests n = some (id, body)
  | .answered _ id _ => s.Holds id
  | .saved _ id => s.Holds id ∧ (s.disk.job id).receipt.isSome
  | .refused id e => e.IsLeaseRejection → Spent s.clock id s.server
  | .accepted id => (s.disk.job id).receipt.isSome ∧ (s.disk.job id).accepted.isSome
  | _ => True

/-- The worker's files and the answers under way agree with the server. -/
structure Agrees (s : Delivery) : Prop where
  evaluation : ∀ n id body ev, s.requests n = some (id, body) →
    s.answers n = some (.evaluation ev) → s.Holds id
  rejection : ∀ n id body e, s.requests n = some (id, body) → s.answers n = some (.error e) →
    e.IsLeaseRejection → Spent s.clock id s.server
  answered : ∀ n r, s.answers n = some r → s.requests n ≠ none
  files : ∀ id, (s.disk.job id).accepted.isSome → s.Holds id
  point : s.AgreesAt s.point

variable {cfg : Config} {wire : Wire} {workerId : Uid} {s t : Delivery} {e : DeliveryEvent}

/-- The server goes on, and may answer. -/
theorem Agrees.serve (h : s.Agrees) {server : Server} {clock : Time}
    {answers : ℕ → Option Response} (hheld : ∀ ev ∈ s.server.store.evaluations,
      ev ∈ server.store.evaluations)
    (hspent : ∀ id, Spent s.clock id s.server → Spent clock id server)
    (hanswers : ∀ n r, answers n = some r → s.answers n = some r ∨ ∃ id body,
      s.requests n = some (id, body)
        ∧ (∀ ev, r = .evaluation ev → ev ∈ server.store.evaluations ∧ ev.jobId = id)
        ∧ ∀ e, r = .error e → e.IsLeaseRejection → Spent clock id server) :
    ({ s with server, clock, answers } : Delivery).Agrees where
  evaluation n id body ev hn hans := by
    rcases hanswers n _ hans with hans | ⟨id', body', hn', hev, -⟩
    · obtain ⟨ev', hev', hid⟩ := h.evaluation n id body ev hn hans
      exact ⟨ev', hheld ev' hev', hid⟩
    · obtain ⟨rfl, -⟩ := Prod.mk.injEq .. |>.mp (Option.some.inj (hn.symm.trans hn'))
      exact ⟨ev, hev ev rfl⟩
  rejection n id body e hn hans he := by
    rcases hanswers n _ hans with hans | ⟨id', body', hn', -, herr⟩
    · exact hspent id (h.rejection n id body e hn hans he)
    · obtain ⟨rfl, -⟩ := Prod.mk.injEq .. |>.mp (Option.some.inj (hn.symm.trans hn'))
      exact herr e rfl he
  answered n r hans := by
    rcases hanswers n r hans with hans | ⟨id, body, hn, -⟩
    · exact h.answered n r hans
    · rw [hn]
      nofun
  files id hid := by
    obtain ⟨ev, hev, hjob⟩ := h.files id hid
    exact ⟨ev, hheld ev hev, hjob⟩
  point := by
    have hpoint := h.point
    show Delivery.AgreesAt _ s.point
    revert hpoint
    cases s.point with
    | answered sender id receipt => exact fun ⟨ev, hev, hid⟩ => ⟨ev, hheld ev hev, hid⟩
    | saved sender id => exact fun ⟨⟨ev, hev, hid⟩, hfile⟩ => ⟨⟨ev, hheld ev hev, hid⟩, hfile⟩
    | refused id e => exact fun hrefused he => hspent id (hrefused he)
    | _ => exact id

/-- The worker goes on without sending anything. -/
theorem Agrees.work (h : s.Agrees) {disk : Disk} {point : WorkerPoint}
    (hfiles : ∀ id, (disk.job id).accepted.isSome → (s.disk.job id).accepted.isSome ∨ s.Holds id)
    (hpoint : ({ s with disk, point } : Delivery).AgreesAt point) :
    ({ s with disk, point } : Delivery).Agrees where
  evaluation := h.evaluation
  rejection := h.rejection
  answered := h.answered
  files id hid := (hfiles id hid).elim (h.files id) fun hheld => hheld
  point := hpoint

/-- The worker sends a new request. -/
theorem Agrees.send (h : s.Agrees) {sender : Sender} {id : Uid} {body : Json} {n : ℕ}
    (hn : s.requests n = none) : (s.send sender id body n).Agrees := by
  have hnew : s.answers n = none := by
    cases hans : s.answers n with
    | none => rfl
    | some r => exact absurd hn (h.answered n r hans)
  have hold {m : ℕ} {r : Response} (hans : s.answers m = some r) :
      (s.send sender id body n).requests m = s.requests m :=
    Function.update_of_ne (by rintro rfl; rw [hnew] at hans; nomatch hans) ..
  exact {
    evaluation := fun m id' body' ev hm hans =>
      h.evaluation m id' body' ev ((hold hans).symm.trans hm) hans
    rejection := fun m id' body' e hm hans he =>
      h.rejection m id' body' e ((hold hans).symm.trans hm) hans he
    answered := fun m r hans => by
      rw [hold hans]
      exact h.answered m r hans
    files := h.files
    point := ⟨body, Function.update_self ..⟩ }

/-- An operation that is not a rename to `result.accepted.json`. -/
theorem Agrees.perform (h : s.Agrees) {op : DiskOp} {point : WorkerPoint}
    (hop : ∀ id, op = .accept id → s.Holds id) (hpoint : (s.perform op point).AgreesAt point) :
    (s.perform op point).Agrees :=
  h.work (fun id hid => (Disk.accepted_apply hid).imp (fun h => h) (hop id)) hpoint

/-- What one step preserves. -/
theorem Agrees.step (h : s.Agrees) (hsound : (Transaction.discipline cfg).Sound s.server)
    (hcons : Consistent s.server.store) (hstep : DeliveryStep cfg wire workerId s e t) :
    t.Agrees := by
  have hgrow {l : Option Call} {server : Server}
      (hex : Executes cfg s.server l server) :
      ∀ ev ∈ s.server.store.evaluations, ev ∈ server.store.evaluations := by
    obtain ⟨c, c', kind, hch⟩ := executes_changes hsound hex
    exact (changes_evolves hch hcons.ownership).1.evaluations
  have hpoint := h.point
  cases hstep with
  | statement hex hafter hc =>
      exact h.serve (hgrow hex) (fun id hspent => (hspent.executes hsound hex hafter).mono hc)
        fun n r hans => Or.inl hans
  | @answer n id body r server c hn hanswers hc =>
      obtain ⟨l, hex⟩ := hanswers.executes
      refine h.serve (hgrow hex)
        (fun id hspent => (hspent.executes hsound hex hanswers.after).mono hc) fun m r' hans => ?_
      by_cases hm : m = n
      · subst hm
        rw [Function.update_self] at hans
        obtain rfl := Option.some.inj hans
        exact Or.inr ⟨id, body, hn, fun ev hr => hanswers.evaluation hr,
          fun e hr he => hanswers.spent hsound hcons hr he⟩
      · rw [Function.update_of_ne hm] at hans
        exact Or.inl hans
  | start _ => exact h.work (fun id hid => Or.inl hid) trivial
  | @leave point disk _ hto hdisk =>
      refine h.work (fun id hid => ?_) (by rcases hto with rfl | rfl <;> trivial)
      rcases hdisk with rfl | ⟨file, text, n, -, rfl⟩
      · exact Or.inl hid
      · exact (Disk.accepted_apply hid).imp (fun h => h) nofun
  | create _ => exact h.perform nofun trivial
  | evaluate _ => exact h.perform nofun trivial
  | upload _ hn => exact h.send hn
  | retry _ _ _ hn => exact h.send hn
  | replay _ _ _ hn => exact h.send hn
  | @receive sender id n ev hat hans =>
      rw [hat] at hpoint
      obtain ⟨body, hn⟩ := hpoint
      exact h.work (fun id hid => Or.inl hid) (h.evaluation n id body ev hn hans)
  | @refuse id n e hat hans _ =>
      rw [hat] at hpoint
      obtain ⟨body, hn⟩ := hpoint
      exact h.work (fun id hid => Or.inl hid) (h.rejection n id body e hn hans)
  | @save sender id receipt hat =>
      rw [hat] at hpoint
      exact h.perform nofun ⟨hpoint, by rw [Delivery.perform, Disk.receipt_written]; rfl⟩
  | @acceptReplay id hat _ =>
      rw [hat] at hpoint
      exact h.perform (fun k hk => DiskOp.accept.inj hk ▸ hpoint.1) trivial
  | @acceptUpload attempt id hat hfile =>
      rw [hat] at hpoint
      refine h.perform (fun k hk => DiskOp.accept.inj hk ▸ hpoint.1) ?_
      rw [AgreesAt, Delivery.perform, Disk.job_accept]
      exact ⟨hpoint.2, by rw [Option.isSome_or, hfile, Bool.true_or]⟩
  | reject _ _ => exact h.perform nofun trivial
  | remove _ => exact h.perform nofun trivial

end Delivery

/-! ## Exactly once -/

section Delivered

variable {cfg : Config} {wire : Wire} {workerId : Uid} {s t : Delivery}

/-- A step of the whole is a statement of the server, or none. -/
theorem DeliveryStep.server {e : DeliveryEvent} (h : DeliveryStep cfg wire workerId s e t) :
    t.server = s.server ∨ ∃ l, Executes cfg s.server l t.server := by
  cases h with
  | statement hex _ _ => exact Or.inr ⟨_, hex⟩
  | answer _ hanswers _ => exact Or.inr hanswers.executes
  | _ => exact Or.inl rfl

theorem delivery_server (hs : (delivery cfg wire workerId).Reachable s) :
    (transactions cfg).Reachable s.server := by
  refine hs.rec_on (P := fun s => (transactions cfg).Reachable s.server) ?_ ?_
  · exact fun s hinit => .init hinit.1
  · intro s e t _ hserver hstep
    rcases DeliveryStep.server hstep with heq | ⟨l, hex⟩
    · rwa [heq]
    · exact hserver.step hex

theorem delivery_agrees (hs : (delivery cfg wire workerId).Reachable s) : s.Agrees := by
  refine hs.rec_on (P := Delivery.Agrees) ?_ ?_
  · rintro s ⟨-, hreq, hans, hdisk, hpoint⟩
    refine ⟨fun n id body ev hn => ?_, fun n id body e hn => ?_, fun n r hr => ?_,
      fun id hid => ?_, by rw [hpoint]; trivial⟩
    · nomatch (hreq n).symm.trans hn
    · nomatch (hreq n).symm.trans hn
    · nomatch (hans n).symm.trans hr
    · rw [hdisk] at hid
      nomatch hid
  · intro s e t hs h hstep
    obtain ⟨hsound, hcons⟩ := reachable_sound (delivery_server hs)
    exact h.step hsound hcons hstep

/-- What is spent stays so along every run. -/
theorem Spent.run {id : Uid} {tr : List DeliveryEvent}
    (hs : (delivery cfg wire workerId).Reachable s) (hrun : (delivery cfg wire workerId).Run s tr t)
    (h : Spent s.clock id s.server) : Spent t.clock id t.server := by
  refine hrun.preserves (P := fun s => Spent s.clock id s.server) ?_ hs h
  intro s e t hs h hstep
  obtain ⟨hsound, -⟩ := reachable_sound (delivery_server hs)
  cases hstep with
  | statement hex hafter hc => exact (h.executes hsound hex hafter).mono hc
  | answer _ hanswers hc =>
      obtain ⟨l, hex⟩ := hanswers.executes
      exact (h.executes hsound hex hanswers.after).mono hc
  | _ => exact h

/-- **Exactly once.** In every state the worker and the server can reach,
whatever was lost, repeated or cut short:

* no job has two evaluations;
* a result file has the name `result.accepted.json` only if the server holds an
  evaluation for its job;
* it is renamed for a refusal of the lease only if the server holds none for its
  job, and never will;
* the workspace is removed only when the receipt and `result.accepted.json`
  exist. -/
theorem exactly_once_delivery (hs : (delivery cfg wire workerId).Reachable s) :
    (∀ ev ∈ s.server.store.evaluations, ∀ ev' ∈ s.server.store.evaluations,
        ev.jobId = ev'.jobId → ev = ev')
      ∧ (∀ id t, (delivery cfg wire workerId).step s (.accepted id) t → s.Holds id ∧ t.Holds id)
      ∧ (∀ id, (s.disk.job id).accepted.isSome → s.Holds id)
      ∧ (∀ id e t, (delivery cfg wire workerId).step s (.rejected id e) t → e.IsLeaseRejection →
          ∀ tr u, (delivery cfg wire workerId).Run s tr u → ¬u.Holds id)
      ∧ ∀ id t, (delivery cfg wire workerId).step s (.removed id) t →
          (s.disk.job id).receipt.isSome ∧ (s.disk.job id).accepted.isSome := by
  have hagrees := delivery_agrees hs
  have hpoint := hagrees.point
  obtain ⟨-, hcons⟩ := reachable_sound (delivery_server hs)
  refine ⟨hcons.recorded.single, fun id t hstep => ?_, hagrees.files,
    fun id e t hstep he tr u hrun => ?_, fun id t hstep => ?_⟩
  · cases hstep with
    | acceptReplay hat _ | acceptUpload hat _ =>
        rw [hat] at hpoint
        exact ⟨hpoint.1, hpoint.1⟩
  · cases hstep with
    | reject hat _ =>
        rw [hat] at hpoint
        rintro ⟨ev, hev, hid⟩
        exact ((hpoint he).run hs hrun).lapsed.2 ev hev hid
  · cases hstep with
    | remove hat =>
        rw [hat] at hpoint
        exact hpoint

end Delivered

/-! ### A delivered result -/

namespace Sample

/-- The body of the report of a failed test. -/
def reportBody : Json := .object
  [("lease_token", .string "t"), ("status", .string "FAILED"),
    ("failure_type", .string "TEST_FAILURE"),
    ("metrics", .object [("runtime_seconds", .number ['7'])]),
    ("tests", .array [.object [("name", .string "test_a"), ("status", .string "FAILED")]])]

def wire : Wire where
  parse _ := some result
  serialize ev := .object [("id", .number (Nat.repr ev.id).toList), ("status", .string "FAILED")]

end Sample

/-- A claimed job is evaluated, its result uploaded and recorded, and its file
renamed. -/
theorem exactly_once_delivery_accepted :
    ∃ s, (delivery Sample.config Sample.wire 10).Reachable s
      ∧ (s.disk.job 21).accepted.isSome ∧ s.Holds 21 := by
  let env := Env.quiet 3 30 Sample.token
  let env' := Env.quiet 50 50 Sample.token
  let db₁ := (replay Sample.config Sample.start (Sample.claimed.take 1)).1.db
  let db₂ := (replay Sample.config Sample.start (Sample.claimed.take 2)).1.db
  let db₃ := Sample.reporting.db
  let s₀ : Delivery := { server := ⟨Sample.start.db, fun _ => none⟩, clock := 0 }
  have hinit : (delivery Sample.config Sample.wire 10).init s₀ :=
    ⟨⟨Sample.init, fun _ => rfl⟩, fun _ => rfl, fun _ => rfl, fun _ => rfl, rfl⟩
  obtain ⟨w, -, hregister⟩ : ∃ w ∈ db₁.workers.rows, register Sample.config
      (Env.quiet 1 10 Sample.token) Sample.start.db ⟨"w", "h", "linux", "1", []⟩
        = .ok (db₁, w) := by decide +kernel
  have hsubmit : submit (Env.quiet 2 20 Sample.token) db₁ ⟨1, [2]⟩ = .ok db₂ := by
    decide +kernel
  obtain ⟨w, -, j, -, hauth, hclaimable, hfree, hnext, hassign, hsub, hproblem, hagent⟩ :
      ∃ w ∈ db₂.workers.rows, ∃ j ∈ db₂.jobs.rows,
        workerAuth Sample.config db₂ 10 Sample.credential = .ok w ∧ claimable w = .ok ()
          ∧ db₂.activeJob w.id = none ∧ nextQueued db₂ [] = some j
          ∧ { db₂ with
              jobs := db₂.jobs.update (claimRows Sample.config env j w).1
              workers := db₂.workers.update (claimRows Sample.config env j w).2 } = db₃
          ∧ require "Submission" db₂.submissions j.submissionId = .ok ⟨20, 1, 2⟩
          ∧ require "ProblemVersion" db₂.problemVersions 2 = .ok Sample.problem
          ∧ require "AgentVersion" db₂.agentVersions 1 = .ok Sample.agent := by
    decide +kernel
  obtain ⟨v, -, k, -, ev, -, hauth', hid, hkid, htarget, hlease, hrecord⟩ :
      ∃ v ∈ db₃.workers.rows, ∃ k ∈ db₃.jobs.rows, ∃ ev ∈ Sample.final.db.evaluations.rows,
        workerAuth Sample.config db₃ 10 Sample.credential = .ok v ∧ v.id = 10 ∧ k.id = 21
          ∧ resultTarget env' db₃ v 21 Sample.result = .ok (.inr (k, Sample.problem))
          ∧ leaseUnexpired k (env'.tick 2) "Result storage exceeded job lease" = .ok ()
          ∧ recordResult Sample.config env' db₃ v k Sample.problem Sample.result
            = .ok (Sample.final.db, ev) := by
    decide +kernel
  have hvalid : Sample.result.Valid := by decide +kernel
  -- The statements of the server, with the readings after its clock.
  have hrun {s t : Server} {l : Option Call} {d : Delivery}
      (hs : (delivery Sample.config Sample.wire 10).Reachable { d with server := s, clock := 0 })
      (hex : Executes Sample.config s l t) (hafter : s.After 0 t) :
      (delivery Sample.config Sample.wire 10).Reachable { d with server := t, clock := 0 } :=
    hs.step (.statement hex hafter le_rfl)
  have hread : (0 : Time) ≤ env.tick 0 := by decide +kernel
  have hread' : (0 : Time) ≤ env'.tick 0 := by decide +kernel
  let a : Server := ⟨db₂, fun _ => none⟩
  let b : Server := ⟨db₃, fun _ => none⟩
  let request : Request := .claim 10 Sample.credential
  have hskips : Server.Skips Sample.config
      ((a.put 0 ⟨env, .authenticated w .claim, request⟩).put 0 ⟨env, .searched w, request⟩) 0 .job
      [] := fun id =>
    iff_of_false List.not_mem_nil
      (not_not.mpr (free_of_alone fun k hk => by simp [World.put, a, hk]))
  have hclaimed : (delivery Sample.config Sample.wire 10).Reachable { s₀ with server := b } := by
    have h := hrun (s := s₀.server) (d := s₀) (.init hinit) (.register hregister)
      fun _ _ h => Or.inl h
    have h := hrun h (.submit hsubmit) fun _ _ h => Or.inl h
    have h := hrun (t := a.put 0 ⟨env, .authenticated w .claim, request⟩) h (.authenticate rfl
      ⟨3, 3, .quiet le_rfl⟩ (free_of_alone fun _ _ => rfl) hauth) (.put hread)
    have h := hrun h (.search (i := 0) (World.put_self ..) hclaimable hfree) (.put hread)
    have h := hrun h (.pick (World.put_self ..) hskips hnext) (.put hread)
    have h := hrun h (.assign (World.put_self ..) hsub hproblem hagent) (.close _ _ _ _)
    rw [World.put_put, World.put_put, World.put_close, World.close_idle rfl] at h
    show (delivery Sample.config Sample.wire 10).Reachable
      { s₀ with server := ⟨db₃, fun _ => none⟩ }
    rw [← hassign]
    exact h
  -- The worker evaluates the job and sends its result.
  let s₁ : Delivery := (({ s₀ with server := b, point := .looping } : Delivery).perform
    (.create 21) (.created 21)).perform (.write (.pending 21) (resultText Sample.reportBody))
    (.evaluated 21 Sample.reportBody)
  let s₂ := s₁.send (.upload 0) 21 Sample.reportBody 0
  have hsent : (delivery Sample.config Sample.wire 10).Reachable s₂ :=
    hclaimed.step (.start rfl) |>.step (.create rfl) |>.step (.evaluate rfl)
      |>.step (.upload rfl rfl)
  -- The server records it.
  have hrecorded : (delivery Sample.config Sample.wire 10).Reachable
      { s₂ with
        server := ⟨Sample.final.db, fun _ => none⟩
        clock := 50
        answers := Function.update s₂.answers 0 (some (.evaluation ev)) } := by
    have h := hrun (t := b.put 0 ⟨env', .authenticated v (.result 21 Sample.result),
        .result 10 Sample.credential 21 Sample.result⟩) (d := s₂)
      hsent (.authenticate rfl ⟨50, 50, .quiet le_rfl⟩ (free_of_alone fun _ _ => rfl) hauth')
      (.put hread')
    have h := hrun h (.target (World.put_self ..) hvalid (free_of_alone fun k hk => by
      simp [World.put, b, hk]) htarget) (.put hread')
    have h := h.step (.answer (Function.update_self ..) (.recorded (World.put_self ..) hid hkid rfl
      le_rfl hlease hrecord) hread')
    rw [World.put_put, World.put_close, World.close_idle rfl] at h
    exact h
  -- The answer reaches the worker, and the file its name.
  have hdone := hrecorded.step (.receive rfl rfl) |>.step (.save rfl)
    |>.step (.acceptUpload rfl rfl)
  exact ⟨_, hdone, rfl, (exactly_once_delivery hdone).2.2.1 21 rfl⟩

end AgentBenchX
