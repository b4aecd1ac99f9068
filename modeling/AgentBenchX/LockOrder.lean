import AgentBenchX.Lib.WaitFor
import AgentBenchX.Transactions

/-!
# The order of row locks

Which rows the statements of worker requests and reapers lock, and in
which order. `worker_auth` locks the worker first, `owned_job` the job
second, and both wait; a claim and the two phases of the reaper only use
`SKIP LOCKED`, and the reaper commits between its phases. What a session
flushes touches rows it has already locked, or references rows of other
tables by foreign keys; the order of the statements within one flush is
left open.

Every request follows `Lockable.order`, so no interleaving of any number
of them deadlocks (`waits_acyclic`). `inLockOrder` relates the
transactions of `Transactions` to these, lock by lock.
-/

namespace AgentBenchX

/-- A row a statement can lock. -/
inductive Lockable where
  | worker (id : Uid)
  | job (id : Uid)
  | submission (id : Uid)
  | evaluation (id : Uid)
deriving DecidableEq

namespace Lockable

def IsWorker (r : Lockable) : Prop := ∃ id, r = .worker id

def IsJob (r : Lockable) : Prop := ∃ id, r = .job id

/-- Workers come before jobs; the rest is only referenced. -/
def order : LockOrder Lockable where
  rank
    | .job _ => 1
    | _ => 0
  shared
    | .submission _ => True
    | .evaluation _ => True
    | _ => False

theorem IsWorker.not_shared {r : Lockable} (h : r.IsWorker) : ¬order.shared r := by
  obtain ⟨id, rfl⟩ := h
  exact fun h => h

theorem IsJob.not_shared {r : Lockable} (h : r.IsJob) : ¬order.shared r := by
  obtain ⟨id, rfl⟩ := h
  exact fun h => h

end Lockable

/-! ## Statements -/

/-- A statement on one row and the lock it takes. -/
abbrev Statement := Lockable × LockMode

/-- An `UPDATE` of the row. -/
def writes (r : Lockable) : Statement := (r, .update)

/-- An `INSERT` of a row with a foreign key to `r`. -/
def references (r : Lockable) : Statement := (r, .share)

namespace RowLocks

def workerAuth (w : Uid) (next : Tx Lockable) : Tx Lockable := .lock (.worker w) .update next

def ownedJob (job : Uid) (next : Tx Lockable) : Tx Lockable := .lock (.job job) .update next

def workerHeartbeat (w : Uid) : Tx Lockable :=
  workerAuth w (.locks [writes (.worker w)] .done)

/-- `flush` is what a claim writes for the job it has found. -/
def claim (w : Uid) (flush : Lockable → List Statement) : Tx Lockable :=
  workerAuth w (.skip (fun rows => ∀ r ∈ rows, r.IsJob) fun
    | [] => .done
    | job :: _ => .locks (flush job) .done)

def heartbeat (w job : Uid) (flush : List Statement) : Tx Lockable :=
  workerAuth w (ownedJob job (.locks flush .done))

def download (w job : Uid) : Tx Lockable := workerAuth w (ownedJob job .done)

/-- The evaluation is flushed before the rows that refer to it. -/
def result (w job : Uid) (flush flush' : List Statement) : Tx Lockable :=
  workerAuth w (ownedJob job (.locks (flush ++ flush') .done))

/-- The first transaction of the reaper. -/
def reapJobs (flush : List Lockable → List Statement) : Tx Lockable :=
  .skip (fun rows => ∀ r ∈ rows, r.IsJob) fun rows => .locks (flush rows) .done

/-- The second transaction of the reaper. -/
def reapWorkers (flush : List Lockable → List Statement) : Tx Lockable :=
  .skip (fun rows => ∀ r ∈ rows, r.IsWorker) fun rows => .locks (flush rows) .done

/-- The transactions of worker requests, on any worker and any job, and of
reapers. A request that fails ends earlier. -/
inductive Serves : Tx Lockable → Prop
  | workerHeartbeat (w : Uid) : Serves (workerHeartbeat w)
  | claim (w : Uid) {flush : Lockable → List Statement} :
      (∀ job, (flush job).Perm [writes job, references (.worker w), writes (.worker w)]) →
      Serves (claim w flush)
  | heartbeat (w job : Uid) {flush : List Statement} :
      flush.Perm [writes (.job job), writes (.worker w)] → Serves (heartbeat w job flush)
  | download (w job : Uid) : Serves (download w job)
  /-- `children` counts the tests, logs, patch and score of the evaluation. -/
  | result (w job submission evaluation : Uid) (children : ℕ) (retry : Bool)
      {flush flush' : List Statement} :
      flush.Perm [references (.job job), references (.submission submission),
        references (.worker w)] →
      flush'.Perm (List.replicate children (references (.evaluation evaluation))
        ++ [writes (.job job), writes (.worker w)]
        ++ if retry then [references (.submission submission)] else []) →
      Serves (result w job flush flush')
  /-- `retries` are the submissions of the expired jobs that are queued
  again. -/
  | reapJobs (retries : List Lockable → List Uid) {flush : List Lockable → List Statement} :
      (∀ rows, (flush rows).Perm
        (rows.map writes ++ (retries rows).map (references ∘ Lockable.submission))) →
      Serves (reapJobs flush)
  | reapWorkers {flush : List Lockable → List Statement} :
      (∀ rows, (flush rows).Perm (rows.map writes)) → Serves (reapWorkers flush)

end RowLocks

/-! ## Every request follows the order -/

namespace RowLocks

open Lockable LockOrder

/-- The job row comes after the worker row. -/
theorem follows_owned {w job : Uid} {next : Tx Lockable}
    (h : order.Follows [(.job job, .update), (.worker w, .update)] next) :
    order.Follows [] (workerAuth w (ownedJob job next)) := by
  refine ⟨Or.inr (Or.inr ⟨fun h => h, nofun⟩), Or.inr (Or.inr ⟨fun h => h, ?_⟩), h⟩
  intro held hheld _
  obtain rfl := List.mem_singleton.mp hheld
  exact Nat.zero_lt_one

theorem follows_auth {w : Uid} {next : Tx Lockable}
    (h : order.Follows [(.worker w, .update)] next) : order.Follows [] (workerAuth w next) :=
  ⟨Or.inr (Or.inr ⟨fun h => h, nofun⟩), h⟩

theorem Serves.follows {tx : Tx Lockable} (h : Serves tx) : order.Follows [] tx := by
  cases h with
  | workerHeartbeat w => exact follows_auth (follows_locks (by simp [writes]))
  | @claim w flush hflush =>
      refine follows_auth fun rows hrows => ⟨fun r hr => (hrows r hr).not_shared, ?_⟩
      cases rows with
      | nil => trivial
      | cons job rows =>
          refine follows_locks fun s hs => Or.inl ?_
          have hs := (hflush job).mem_iff.mp hs
          simp only [List.mem_cons, List.not_mem_nil, or_false] at hs
          rcases hs with rfl | rfl | rfl <;> simp [writes, references]
  | @heartbeat w job flush hflush =>
      refine follows_owned (follows_locks fun s hs => Or.inl ?_)
      have hs := hflush.mem_iff.mp hs
      simp only [List.mem_cons, List.not_mem_nil, or_false] at hs
      rcases hs with rfl | rfl <;> simp [writes]
  | download w job => exact follows_owned trivial
  | @result w job submission evaluation children retry flush flush' hflush hflush' =>
      refine follows_owned (follows_locks fun s hs => ?_)
      rcases List.mem_append.mp hs with hs | hs
      · have hs := hflush.mem_iff.mp hs
        simp only [List.mem_cons, List.not_mem_nil, or_false] at hs
        rcases hs with rfl | rfl | rfl
        · exact Or.inl (by simp [references])
        · exact Or.inr ⟨trivial, rfl⟩
        · exact Or.inl (by simp [references])
      · have hs := hflush'.mem_iff.mp hs
        rcases List.mem_append.mp hs with hs | hs
        · rcases List.mem_append.mp hs with hs | hs
          · obtain rfl := List.eq_of_mem_replicate hs
            exact Or.inr ⟨trivial, rfl⟩
          · simp only [List.mem_cons, List.not_mem_nil, or_false] at hs
            rcases hs with rfl | rfl <;> exact Or.inl (by simp [writes])
        · cases retry with
          | false => cases hs
          | true =>
              obtain rfl := List.mem_singleton.mp hs
              exact Or.inr ⟨trivial, rfl⟩
  | @reapJobs retries flush hflush =>
      refine fun rows hrows => ⟨fun r hr => (hrows r hr).not_shared, follows_locks fun s hs => ?_⟩
      rcases List.mem_append.mp ((hflush rows).mem_iff.mp hs) with hs | hs
      · obtain ⟨r, hr, rfl⟩ := List.mem_map.mp hs
        exact Or.inl (List.mem_append_left _ (List.mem_map_of_mem hr))
      · obtain ⟨id, -, rfl⟩ := List.mem_map.mp hs
        exact Or.inr ⟨trivial, rfl⟩
  | @reapWorkers flush hflush =>
      refine fun rows hrows => ⟨fun r hr => (hrows r hr).not_shared, follows_locks fun s hs => ?_⟩
      obtain ⟨r, hr, rfl⟩ := List.mem_map.mp ((hflush rows).mem_iff.mp hs)
      exact Or.inl (List.mem_append_left _ (List.mem_map_of_mem hr))

end RowLocks

/-- Requests and reapers interleaved, one lock at a time. -/
def lockSystem : Transition (Sessions ℕ Lockable) Unit where
  init w := ∀ i, w i = none
  step w _ w' := w.Step RowLocks.Serves w'

theorem reachable_ordered {w : Sessions ℕ Lockable} (hs : lockSystem.Reachable w) :
    Lockable.order.Ordered w := by
  refine hs.rec_on (P := Lockable.order.Ordered) (fun w hw => LockOrder.ordered_of_idle hw) ?_
  rintro w l w' - hordered hstep
  exact hordered.step (fun tx htx => htx.follows) hstep

/-- **Lock order.** However worker requests and reapers are interleaved, no
transaction ever waits, directly or through others, for itself. -/
theorem waits_acyclic {w : Sessions ℕ Lockable} (hs : lockSystem.Reachable w) :
    ∀ i, ¬Relation.TransGen w.WaitsFor i i :=
  (reachable_ordered hs).acyclic

/-- Two workers ask for the same job while the second worker's heartbeat
waits for its row: a chain of waits, and no circle. -/
theorem waits_acyclic_chain : ∃ w, lockSystem.Reachable w ∧ w.WaitsFor 2 1 ∧ w.WaitsFor 1 0
    ∧ ∀ i, ¬Relation.TransGen w.WaitsFor i i := by
  let done : Session Lockable := ⟨[(.job 7, .update), (.worker 1, .update)], .done⟩
  let waiting : Session Lockable := ⟨[(.worker 2, .update)], .lock (.job 7) .update .done⟩
  let idle : Sessions ℕ Lockable := fun _ => none
  have hfree : ∀ {i r m}, idle.Grants i r m := fun k l m' _ hk => nomatch hk
  have hreach := (Transition.Reachable.init (M := lockSystem) (s := idle) fun _ => rfl)
    |>.step (l := ()) (.opened (i := 0) rfl (.download 1 7))
    |>.step (l := ()) (.granted (i := 0) (Function.update_self ..) rfl
      (hfree.put (Or.inl rfl)))
    |>.step (l := ()) (.granted (i := 0) (Function.update_self ..) rfl
      ((hfree.put (Or.inl rfl)).put (Or.inl rfl)))
  rw [Sessions.put_put, Sessions.put_put] at hreach
  have hreach := hreach.step (l := ()) (.opened (i := 1) rfl (.download 2 7))
    |>.step (l := ()) (.granted (i := 1) (Function.update_self ..) rfl
      ((hfree.put (Or.inr (by simp [Session.Holds]))).put (Or.inl rfl)))
  rw [Sessions.put_put] at hreach
  have hreach := hreach.step (l := ()) (.opened (i := 2) rfl (.workerHeartbeat 2))
  refine ⟨_, hreach, ⟨_, waiting, .worker 2, .update, .update, by decide, rfl, rfl, ⟨_, rfl⟩, ?_,
    Or.inl rfl⟩, ⟨waiting, done, .job 7, .update, .update, by decide, rfl, rfl, ⟨_, rfl⟩, ?_,
    Or.inl rfl⟩, waits_acyclic hreach⟩
  · simp [waiting, Session.Holds]
  · simp [done, Session.Holds]

/-! ## The transactions follow it -/

def Row.lockable : Row → Lockable
  | .worker id => .worker id
  | .job id => .job id

theorem Row.lockable_injective : Function.Injective Row.lockable := by
  intro r r' h
  cases r <;> cases r' <;> cases h <;> rfl

/-- What a transaction at this stage can lock next. -/
def Stage.Continues : Stage → Tx Lockable → Prop
  | .authenticated _ (.heartbeat job _), tx => ∃ next, tx = RowLocks.ownedJob job next
  | .authenticated _ (.result job _), tx => ∃ next, tx = RowLocks.ownedJob job next
  | .authenticated _ .claim, tx => ∃ next, tx = .skip (fun rows => ∀ r ∈ rows, r.IsJob) next
  | .searched _, tx => ∃ next, tx = .skip (fun rows => ∀ r ∈ rows, r.IsJob) next
  | _, _ => True

/-- The session has locked what the transaction holds. -/
structure Session.Tracks (l : Session Lockable) (stage : Stage) : Prop where
  holds : ∀ r m, l.Holds r m ↔ m = .update ∧ ∃ row, stage.Holds row ∧ row.lockable = r
  continues : stage.Continues l.tx

/-- Every open transaction is tracked by a session. -/
def Server.Tracked (s : Server) (w : Sessions ℕ Lockable) : Prop :=
  ∀ i, (s.sessions i = none ∧ w i = none)
    ∨ ∃ t l, s.sessions i = some t ∧ w i = some l ∧ l.Tracks t.stage

section Tracking

variable {cfg : Config} {s t : Server} {w : Sessions ℕ Lockable} {i : ℕ}

theorem Server.Tracked.idle (h : s.Tracked w) (hi : s.sessions i = none) : w i = none := by
  rcases h i with ⟨-, hw⟩ | ⟨t, l, ht, -⟩
  · exact hw
  · rw [hi] at ht
    cases ht

theorem Server.Tracked.session (h : s.Tracked w) {env : Env} {request : Request} {stage : Stage}
    (hi : s.sessions i = some ⟨env, stage, request⟩) : ∃ l, w i = some l ∧ l.Tracks stage := by
  rcases h i with ⟨hs, -⟩ | ⟨t, l, ht, hw, hl⟩
  · rw [hi] at hs
    cases hs
  · obtain rfl := Option.some.inj (hi.symm.trans ht)
    exact ⟨l, hw, hl⟩

theorem Server.Tracked.put (h : s.Tracked w) {l : Session Lockable} {env : Env}
    {request : Request} {stage : Stage}
    (hl : l.Tracks stage) : Server.Tracked (s.put i ⟨env, stage, request⟩) (w.put i (some l)) := by
  intro k
  by_cases hk : k = i
  · subst hk
    exact Or.inr ⟨_, l, World.put_self .., Function.update_self .., hl⟩
  · simpa only [World.put, Sessions.put, Function.update_of_ne hk] using h k

theorem Server.Tracked.close (h : s.Tracked w) (db : Database) :
    Server.Tracked (s.close i db) (w.put i none) := by
  intro k
  by_cases hk : k = i
  · subst hk
    exact Or.inl ⟨Function.update_self .., Function.update_self ..⟩
  · simpa only [World.close, Sessions.put, Function.update_of_ne hk] using h k

/-- A row that is free for a transaction is granted to its session. -/
theorem Server.Tracked.grants (h : s.Tracked w) {row : Row} (hfree : s.Free cfg i row) :
    w.Grants i row.lockable .update := by
  intro k l m hk hl hholds
  rcases h k with ⟨-, hw⟩ | ⟨t, l', ht, hl', htracks⟩
  · rw [hl] at hw
    cases hw
  · obtain rfl := Option.some.inj (hl.symm.trans hl')
    obtain ⟨-, row', hrow', heq⟩ := (htracks.holds _ _).mp hholds
    obtain rfl := Row.lockable_injective heq
    exact absurd hrow' (hfree k t hk ht)

/-- One more row. -/
theorem Session.Tracks.lock {l : Session Lockable} {stage : Stage} (row : Row) (stage' : Stage)
    {tx : Tx Lockable} (h : l.Tracks stage)
    (hholds : ∀ r, stage'.Holds r ↔ stage.Holds r ∨ r = row) (htx : stage'.Continues tx) :
    Session.Tracks ⟨(row.lockable, .update) :: l.held, tx⟩ stage' := by
  refine ⟨fun r m => ?_, htx⟩
  have hl := h.holds r m
  constructor
  · intro hr
    rcases List.mem_cons.mp hr with heq | hr
    · obtain ⟨rfl, rfl⟩ := Prod.mk.inj heq
      exact ⟨rfl, row, (hholds row).mpr (Or.inr rfl), rfl⟩
    · obtain ⟨hm, row', hrow', hr⟩ := hl.mp hr
      exact ⟨hm, row', (hholds row').mpr (Or.inl hrow'), hr⟩
  · rintro ⟨rfl, row', hrow', rfl⟩
    rcases (hholds row').mp hrow' with hrow' | rfl
    · exact List.mem_cons_of_mem _ (hl.mpr ⟨rfl, row', hrow', rfl⟩)
    · exact List.mem_cons_self ..

/-- All the rows a reaper has found. -/
theorem Session.tracks_rows {stage : Stage} (rows : List Row) (tx : Tx Lockable)
    (hholds : ∀ r, stage.Holds r ↔ r ∈ rows) (htx : stage.Continues tx) :
    Session.Tracks ⟨(rows.map Row.lockable).map (·, LockMode.update) ++ [], tx⟩ stage := by
  refine ⟨fun r m => ?_, htx⟩
  simp only [Session.Holds, List.append_nil, List.map_map, List.mem_map, Function.comp_apply,
    Prod.mk.injEq, hholds]
  constructor
  · rintro ⟨row, hrow, rfl, rfl⟩
    exact ⟨rfl, row, hrow, rfl⟩
  · rintro ⟨rfl, row, hrow, rfl⟩
    exact ⟨row, hrow, rfl, rfl⟩

/-- The lock statements of an authenticated request. -/
theorem exists_request {id : Uid} {w : Worker} (hid : w.id = id) (body : Body) :
    ∃ tx, RowLocks.Serves (RowLocks.workerAuth id tx)
      ∧ Session.Tracks ⟨[(.worker id, .update)], tx⟩ (.authenticated w body) := by
  subst hid
  have hholds : ∀ r m, (r, m) ∈ [(Lockable.worker w.id, LockMode.update)]
      ↔ m = .update ∧ ∃ row, row = Row.worker w.id ∧ row.lockable = r := by
    intro r m
    simp only [List.mem_singleton, Prod.mk.injEq, exists_eq_left]
    exact ⟨fun ⟨hr, hm⟩ => ⟨hm, hr.symm⟩, fun ⟨hm, hr⟩ => ⟨hr.symm, hm⟩⟩
  cases body with
  | workerHeartbeat status => exact ⟨_, .workerHeartbeat w.id, hholds, trivial⟩
  | claim => exact ⟨_, .claim w.id fun _ => .refl _, hholds, _, rfl⟩
  | heartbeat job data => exact ⟨_, .heartbeat w.id job (.refl _), hholds, _, rfl⟩
  | result job data => exact ⟨_, .result w.id job 0 0 0 false (.refl _) (.refl _), hholds, _, rfl⟩

/-- A statement without a lock. -/
theorem Server.Tracked.goOn (h : s.Tracked w) {env : Env} {request : Request} {stage stage' : Stage}
    (hi : s.sessions i = some ⟨env, stage, request⟩) (hholds : ∀ r, stage'.Holds r ↔ stage.Holds r)
    (hcont : ∀ tx, stage.Continues tx → stage'.Continues tx) :
    ∃ tr w', lockSystem.Run w tr w' ∧ Server.Tracked (s.put i ⟨env, stage', request⟩) w' := by
  obtain ⟨l, hl, htracks⟩ := h.session hi
  have hput : Server.Tracked (s.put i ⟨env, stage', request⟩) (w.put i (some l)) := h.put
    ⟨fun r m => by simpa only [hholds] using htracks.holds r m, hcont _ htracks.continues⟩
  have hsame : w.put i (some l) = w := by
    rw [← hl]
    exact Function.update_eq_self ..
  rw [hsame] at hput
  exact ⟨_, _, .nil, hput⟩

/-- `owned_job` has locked the job. -/
theorem Server.Tracked.own (h : s.Tracked w) {env : Env} {request : Request} {x : Worker}
    {body : Body}
    {j : RunnerJob} {stage : Stage} (hi : s.sessions i = some ⟨env, .authenticated x body, request⟩)
    (hnext : ∀ tx, (Stage.authenticated x body).Continues tx →
      ∃ next, tx = RowLocks.ownedJob j.id next)
    (hfree : s.Free cfg i (.job j.id))
    (hholds : ∀ r, stage.Holds r ↔ r = .worker x.id ∨ r = .job j.id)
    (hcont : ∀ tx, stage.Continues tx) :
    ∃ tr w', lockSystem.Run w tr w' ∧ Server.Tracked (s.put i ⟨env, stage, request⟩) w' := by
  obtain ⟨l, hl, htracks⟩ := h.session hi
  obtain ⟨next, htx⟩ := hnext _ htracks.continues
  exact ⟨_, _, .single (l := ()) (.granted hl htx (h.grants hfree)),
    h.put (htracks.lock (.job j.id) stage hholds (hcont next))⟩

/-- A claim has found its job. -/
theorem Server.Tracked.pick (h : s.Tracked w) {env : Env} {request : Request} {x : Worker}
    {j : RunnerJob}
    (hi : s.sessions i = some ⟨env, .searched x, request⟩) (hfree : s.Free cfg i (.job j.id)) :
    ∃ tr w', lockSystem.Run w tr w' ∧ Server.Tracked (s.put i ⟨env, .picked x j, request⟩) w' := by
  obtain ⟨l, hl, htracks⟩ := h.session hi
  obtain ⟨next, htx⟩ := htracks.continues
  have hskipped : w.Step RowLocks.Serves
      (w.put i (some ⟨[.job j.id].map (·, .update) ++ l.held, next [.job j.id]⟩)) := by
    refine .skipped hl htx (fun r hr => ⟨j.id, List.mem_singleton.mp hr⟩) fun r hr => ?_
    obtain rfl := List.mem_singleton.mp hr
    exact h.grants hfree
  exact ⟨_, _, .single (l := ()) hskipped,
    h.put (htracks.lock (.job j.id) (.picked x j) (fun _ => Iff.rfl) trivial)⟩

/-- The reaper has opened a transaction and found the rows no one else has
locked. -/
theorem Server.Tracked.found (h : s.Tracked w) {env : Env} {request : Request} {stage : Stage}
    (rows : List Row)
    {among : List Lockable → Prop} {next : List Lockable → Tx Lockable}
    (hserves : RowLocks.Serves (.skip among next)) (hi : s.sessions i = none)
    (hamong : among (rows.map Row.lockable)) (hfree : ∀ row ∈ rows, w.Grants i row.lockable .update)
    (hholds : ∀ r, stage.Holds r ↔ r ∈ rows) (hcont : ∀ tx, stage.Continues tx) :
    ∃ tr w', lockSystem.Run w tr w' ∧ Server.Tracked (s.put i ⟨env, stage, request⟩) w' := by
  have hopened : lockSystem.Run w [()] _ := .single (.opened (h.idle hi) hserves)
  have hskipped := hopened.snoc (l := ())
    (.skipped (Function.update_self ..) rfl hamong fun r hr => by
      obtain ⟨row, hrow, rfl⟩ := List.mem_map.mp hr
      exact (hfree row hrow).put (Or.inl rfl))
  rw [Sessions.put_put] at hskipped
  exact ⟨_, _, hskipped, h.put (Session.tracks_rows rows _ hholds (hcont _))⟩

/-- Every statement of a transaction locks along with its session. -/
theorem executes_tracked {l : Option Call} (h : s.Tracked w)
    (hstep : Executes cfg s l t) : ∃ tr w', lockSystem.Run w tr w' ∧ t.Tracked w' := by
  have hclose : ∀ (i : ℕ) (db : Database),
      ∃ tr w', lockSystem.Run w tr w' ∧ Server.Tracked (s.close i db) w' := fun i db =>
    ⟨_, _, .single (l := ()) .closed, h.close db⟩
  cases hstep with
  | submit _ => exact ⟨_, _, .nil, h⟩
  | register _ => exact ⟨_, _, .nil, h⟩
  | @authenticate i env id auth body x hi _ hfree hauth =>
      obtain ⟨-, hid⟩ := mem_of_workerAuth hauth
      obtain ⟨tx, hserves, htracks⟩ := exists_request hid body
      have hopened : lockSystem.Run w [()] _ := .single (.opened (h.idle hi) hserves)
      have hgranted := hopened.snoc (l := ())
        (.granted (Function.update_self ..) rfl ((h.grants hfree).put (Or.inl rfl)))
      rw [Sessions.put_put] at hgranted
      exact ⟨_, _, hgranted, h.put htracks⟩
  | count hi => exact h.goOn hi (fun _ => Iff.rfl) fun _ _ => trivial
  | report _ => exact hclose _ _
  | search hi _ _ => exact h.goOn hi (fun _ => Iff.rfl) fun _ hcont => hcont
  | pick hi hskips hnext => exact h.pick hi (hskips.free (nextQueued_ok hnext).2.2)
  | assign _ _ _ _ => exact hclose _ _
  | own hi hfree hown =>
      obtain ⟨hj, -⟩ := ownedJob_ok hown
      obtain rfl := Table.key_of_get? hj
      exact h.own hi (fun _ hcont => hcont) hfree (fun _ => Iff.rfl) fun _ => trivial
  | renew _ => exact hclose _ _
  | target hi _ hfree htarget =>
      obtain ⟨-, rfl, -⟩ := resultTarget_ok htarget
      exact h.own hi (fun _ hcont => hcont) hfree (fun _ => Iff.rfl) fun _ => trivial
  | record _ _ _ => exact hclose _ _
  | @select i env skipped hi _ hskips =>
      refine h.found ((expiredJobs s.store skipped (env.tick 0)).map fun j => .job j.id)
        (.reapJobs (fun _ => []) fun _ => .refl _) hi ?_ ?_ (fun r => ?_) fun _ => trivial
      · intro r hr
        simp only [List.map_map, List.mem_map] at hr
        obtain ⟨j, -, rfl⟩ := hr
        exact ⟨j.id, rfl⟩
      · intro row hrow
        obtain ⟨j, hj, rfl⟩ := List.mem_map.mp hrow
        exact h.grants (hskips.free (mem_expiredJobs.mp hj).2.2.1)
      · simp only [Stage.Holds, List.mem_map, eq_comm (a := r)]
  | expire _ _ => exact hclose _ _
  | @selectWorkers i env skipped hi _ hskips =>
      refine h.found ((offlineWorkers cfg s.store skipped (env.tick 0)).map fun w => .worker w.id)
        (.reapWorkers fun _ => .refl _) hi ?_ ?_ (fun r => ?_) fun _ => trivial
      · intro r hr
        simp only [List.map_map, List.mem_map] at hr
        obtain ⟨x, -, rfl⟩ := hr
        exact ⟨x.id, rfl⟩
      · intro row hrow
        obtain ⟨x, hx, rfl⟩ := List.mem_map.mp hrow
        exact h.grants (hskips.free (mem_offlineWorkers.mp hx).2.2.1)
      · simp only [Stage.Holds, List.mem_map, eq_comm (a := r)]
  | offline _ => exact hclose _ _
  | rollback => exact hclose _ _

end Tracking

/-- The transactions lock as the lock system does. -/
def inLockOrder (cfg : Config) : Transition.Simulation (transactions cfg) lockSystem where
  rel := Server.Tracked
  init := fun _ hs => ⟨fun _ => none, fun _ => rfl, fun i => Or.inl ⟨hs.2 i, rfl⟩⟩
  step := fun _ _ _ _ _ _ hrel hstep => executes_tracked hrel hstep

/-- The row `owned_job` is about to lock. -/
def Stage.Wants : Stage → Row → Prop
  | .authenticated _ (.heartbeat job _), r => r = .job job
  | .authenticated _ (.result job _), r => r = .job job
  | _, _ => False

/-- `i` asks for a row `k` holds. -/
def Server.WaitsFor (s : Server) (i k : ℕ) : Prop :=
  ∃ t t' row, i ≠ k ∧ s.sessions i = some t ∧ s.sessions k = some t' ∧ t.stage.Wants row
    ∧ t'.stage.Holds row

theorem Server.Tracked.waitsFor {s : Server} {w : Sessions ℕ Lockable} (h : s.Tracked w) {i k : ℕ}
    (hik : s.WaitsFor i k) : w.WaitsFor i k := by
  obtain ⟨t, t', row, hne, hi, hk, hwants, hholds⟩ := hik
  obtain ⟨l, hl, htracks⟩ := h.session hi
  obtain ⟨l', hl', htracks'⟩ := h.session hk
  have hheld := (htracks'.holds row.lockable .update).mpr ⟨rfl, row, hholds, rfl⟩
  have hnext : l.Wants row.lockable .update := by
    have hcont := htracks.continues
    unfold Stage.Wants at hwants
    split at hwants <;> rename_i heq
    · obtain ⟨next, htx⟩ := heq ▸ hcont
      exact ⟨next, hwants ▸ htx⟩
    · obtain ⟨next, htx⟩ := heq ▸ hcont
      exact ⟨next, hwants ▸ htx⟩
    · exact hwants.elim
  exact ⟨l, l', row.lockable, .update, .update, hne, hl, hl', hnext, hheld, Or.inl rfl⟩

/-- The requests of `Transactions` never wait in a circle either. -/
theorem transactions_acyclic {cfg : Config} {s : Server} (hs : (transactions cfg).Reachable s)
    (i : ℕ) : ¬Relation.TransGen s.WaitsFor i i := by
  obtain ⟨w, hw, htracked⟩ := (inLockOrder cfg).reachable hs
  intro hcycle
  exact (reachable_ordered hw).acyclic i
    (Relation.TransGen.mono (fun _ _ => htracked.waitsFor) _ _ hcycle)

end AgentBenchX
