import AgentBenchX.Lib.Table
import AgentBenchX.Lib.Utf8
import AgentBenchX.Lib.WriteOnce
import AgentBenchX.Keys

/-!
# The storage backends

Both backends create an object under a key that must be free: S3 with a
conditional write (`IfNoneMatch="*"`) that is checked by a `HEAD` request
afterwards, the local one by opening the file exclusively (`"xb"`). Any
number of writers are at work at once, request by request; a request to S3
may be lost, retried by the SDK, and arrive at any later time, other programs
may store objects of their own under free keys of the bucket, and a local
write may break off anywhere.

Both are write-once stores (`S3State.store`, `LocalState.store`): what a
`put` that returned has stored stays as it was handed over, whoever else
writes, and no two of them return for the same key.
-/

namespace AgentBenchX

/-- What a call of the S3 client raises. -/
inductive SdkError where
  | clientError (code : String)
  | botoCoreError
deriving DecidableEq

/-- What a backend raises. -/
inductive BackendError where
  | key (fault : StorageFault)
  | fileNotFoundError (text : String)
  | fileExistsError
  | notADirectoryError
  | isADirectoryError
  | osError
  | storageError (text : String)
deriving DecidableEq

/-- An object of the bucket, with the `sha256` entry of its metadata. -/
structure S3Object where
  key : String
  body : Bytes
  metadata : Option String
  contentType : String
deriving DecidableEq

/-- The answer to a `HEAD` request. -/
structure ObjectHead where
  contentLength : ℕ
  metadata : Option String
deriving DecidableEq

/-! ## The S3 backend -/

namespace S3CompatibleStorageBackend

def contentType (key : String) : String :=
  if ".json".toList.isSuffixOf key.toList then "application/json" else "text/plain; charset=utf-8"

/-- The object a `put` sends. -/
def object (sha256 : Bytes → String) (key : String) (content : Bytes) : S3Object :=
  ⟨key, content, some (sha256 content), contentType key⟩

/-- `head`; `headObject` is the call of the client. -/
def head (headObject : String → Except SdkError ObjectHead) (key : String) :
    Except BackendError ObjectHead :=
  match logicalKey key with
  | .error e => .error (.key e)
  | .ok key =>
      match headObject key with
      | .ok stored => .ok stored
      | .error (.clientError code) =>
          if code ∈ ["NoSuchKey", "404", "NotFound"] then
            .error (.fileNotFoundError "Object unavailable")
          else .error (.storageError "Object storage metadata read failed")
      | .error .botoCoreError => .error (.storageError "Object storage metadata read failed")

/-- The part of `put` after the conditional write. -/
def verify (sha256 : Bytes → String) (content : Bytes) :
    Except BackendError ObjectHead → Except BackendError Unit
  | .ok stored =>
      if stored.contentLength ≠ content.length ∨ stored.metadata ≠ some (sha256 content) then
        .error (.storageError "Object storage integrity check failed")
      else .ok ()
  | .error (.fileNotFoundError _) => .error (.storageError "Uploaded object unavailable")
  | .error e => .error e

/-- `put`; `putObject` and `headObject` are the calls of the client. -/
def put (sha256 : Bytes → String) (putObject : S3Object → Except SdkError Unit)
    (headObject : String → Except SdkError ObjectHead) (key : String) (content : Bytes) :
    Except BackendError Unit :=
  match logicalKey key with
  | .error e => .error (.key e)
  | .ok key =>
      match putObject (object sha256 key content) with
      | .error _ => .error (.storageError "Object storage write failed")
      | .ok () => verify sha256 content (head headObject key)

/-- `open`, with the body of the answer. -/
def openObject (getObject : String → Except SdkError Bytes) (key : String) :
    Except BackendError Bytes :=
  match logicalKey key with
  | .error e => .error (.key e)
  | .ok key =>
      match getObject key with
      | .ok body => .ok body
      | .error (.clientError code) =>
          if code ∈ ["NoSuchKey", "404"] then .error (.fileNotFoundError "Object unavailable")
          else .error (.storageError "Object storage read failed")
      | .error .botoCoreError => .error (.storageError "Object storage read failed")

end S3CompatibleStorageBackend

/-! ## The bucket -/

instance : Keyed String S3Object := ⟨S3Object.key⟩

abbrev Bucket := Table S3Object

namespace Bucket

/-- A conditional write, as the bucket answers it. -/
def putObject (b : Bucket) (o : S3Object) : Except SdkError Bucket :=
  match b.insert? o with
  | some b' => .ok b'
  | none => .error (.clientError "PreconditionFailed")

def headObject (b : Bucket) (key : String) : Except SdkError ObjectHead :=
  match b.get? key with
  | some o => .ok ⟨o.body.length, o.metadata⟩
  | none => .error (.clientError "404")

def getObject (b : Bucket) (key : String) : Except SdkError Bytes :=
  match b.get? key with
  | some o => .ok o.body
  | none => .error (.clientError "NoSuchKey")

theorem putObject_ok {b b' : Bucket} {o : S3Object} (h : b.putObject o = .ok b') :
    b.insert? o = some b' := by
  unfold putObject at h
  split at h
  · rename_i hins
    rw [hins, Except.ok.inj h]
  · cases h

end Bucket

/-! ## Writers at work -/

open S3CompatibleStorageBackend in
/-- How far a `put` has come. -/
inductive S3Writer where
  | sending (key : String) (content : Bytes)
  | created (key : String) (content : Bytes)

/-- The bucket, the open `put`s, the requests nobody has an answer to, and
how the others have ended. -/
structure S3State where
  bucket : Bucket
  writers : ℕ → Option S3Writer
  inFlight : List S3Object
  returned : List (String × Bytes)
  raised : List BackendError

namespace S3State

def set (s : S3State) (i : ℕ) (w : Option S3Writer) : S3State :=
  { s with writers := Function.update s.writers i w }

/-- A `put` ends. -/
def ends (s : S3State) (i : ℕ) (key : String) (content : Bytes) :
    Except BackendError Unit → S3State
  | .ok () => { s.set i none with returned := s.returned ++ [(key, content)] }
  | .error e => { s.set i none with raised := s.raised ++ [e] }

end S3State

open S3CompatibleStorageBackend in
/-- One event of the writers and the bucket. -/
inductive S3Step (sha256 : Bytes → String) (s : S3State) : S3State → Prop
  | start {i : ℕ} {key k : String} {content : Bytes} :
      s.writers i = none → logicalKey key = .ok k →
      S3Step sha256 s (s.set i (some (.sending k content)))
  | refuse {key : String} {e : StorageFault} :
      logicalKey key = .error e → S3Step sha256 s { s with raised := s.raised ++ [.key e] }
  /-- An attempt that gets no answer; the SDK may try again. -/
  | lose {i : ℕ} {key : String} {content : Bytes} :
      s.writers i = some (.sending key content) →
      S3Step sha256 s { s with inFlight := s.inFlight ++ [object sha256 key content] }
  /-- It reaches the bucket all the same. -/
  | arrive {o : S3Object} {b : Bucket} :
      o ∈ s.inFlight → s.bucket.putObject o = .ok b → S3Step sha256 s { s with bucket := b }
  /-- A foreign writer stores an object of its own, whatever it is, and
  overwrites none. -/
  | foreign {o : S3Object} {b : Bucket} :
      s.bucket.putObject o = .ok b → S3Step sha256 s { s with bucket := b }
  | answer {i : ℕ} {key : String} {content : Bytes} {b : Bucket} :
      s.writers i = some (.sending key content) →
      s.bucket.putObject (object sha256 key content) = .ok b →
      S3Step sha256 s (S3State.set { s with bucket := b } i (some (.created key content)))
  /-- The client raises, whatever the reason. -/
  | fail {i : ℕ} {key : String} {content : Bytes} :
      s.writers i = some (.sending key content) →
      S3Step sha256 s (s.ends i key content (.error (.storageError "Object storage write failed")))
  | check {i : ℕ} {key : String} {content : Bytes} {answer : Except SdkError ObjectHead} :
      s.writers i = some (.created key content) →
      (answer = s.bucket.headObject key ∨ ∃ e, answer = .error e) →
      S3Step sha256 s
        (s.ends i key content (verify sha256 content (head (fun _ => answer) key)))

/-- Writers on an empty bucket. -/
def s3Writers (sha256 : Bytes → String) : Transition S3State Unit where
  init s := s.bucket = Table.empty ∧ (∀ i, s.writers i = none) ∧ s.inFlight = []
    ∧ s.returned = [] ∧ s.raised = []
  step s _ t := S3Step sha256 s t

/-! ### A write-once store -/

open S3CompatibleStorageBackend

namespace S3State

/-- The bodies in the bucket, and the `put`s whose object is there. -/
def store (s : S3State) : WriteOnce String Bytes ℕ where
  cells key := (s.bucket.get? key).map S3Object.body
  writing i :=
    match s.writers i with
    | some (.created key _) => some key
    | _ => none
  finished := s.returned

end S3State

/-- The errors of a `put` that hold no more than a fixed text. -/
def BackendError.OfPut (e : BackendError) : Prop :=
  (∃ fault, e = .key fault) ∨ ∃ text ∈ ["Object storage write failed",
    "Object storage metadata read failed", "Uploaded object unavailable"], e = .storageError text

/-- What holds of the bucket and its writers at any time, whatever else is in
the bucket. -/
structure S3State.Intact (sha256 : Bytes → String) (s : S3State) : Prop where
  sending : ∀ i key content, s.writers i = some (.sending key content) → IsLogicalKey key
  created : ∀ i key content, s.writers i = some (.created key content) →
    IsLogicalKey key ∧ object sha256 key content ∈ s.bucket
  returned : ∀ p ∈ s.returned, IsLogicalKey p.1 ∧ object sha256 p.1 p.2 ∈ s.bucket
  raised : ∀ e ∈ s.raised, e.OfPut

section Steps

variable {sha256 : Bytes → String} {s t : S3State}

theorem S3State.writers_set {i j : ℕ} {w w' : Option S3Writer}
    (h : (s.set i w).writers j = w') : (j = i ∧ w' = w) ∨ (j ≠ i ∧ s.writers j = w') := by
  have hj : Function.update s.writers i w j = w' := h
  by_cases hji : j = i
  · rw [hji, Function.update_self] at hj
    exact Or.inl ⟨hji, hj.symm⟩
  · rw [Function.update_of_ne hji] at hj
    exact Or.inr ⟨hji, hj⟩

theorem S3State.ends_frame (s : S3State) (i : ℕ) (key : String) (content : Bytes)
    (r : Except BackendError Unit) :
    (s.ends i key content r).bucket = s.bucket
      ∧ (s.ends i key content r).writers = (s.set i none).writers := by
  cases r <;> exact ⟨rfl, rfl⟩

/-- A `put` that returns is on record. -/
theorem S3State.returned_ends {i : ℕ} {key : String} {content : Bytes}
    {r : Except BackendError Unit} {p : String × Bytes}
    (h : p ∈ (s.ends i key content r).returned) : p ∈ s.returned ∨ p = (key, content) := by
  cases r with
  | ok => exact (List.mem_append.mp h).imp_right List.mem_singleton.mp
  | error e => exact Or.inl h

theorem S3State.raised_ends {i : ℕ} {key : String} {content : Bytes}
    {r : Except BackendError Unit} (h : ∀ e ∈ s.raised, e.OfPut)
    (hr : ∀ e, r = .error e → e.OfPut) : ∀ e ∈ (s.ends i key content r).raised, e.OfPut := by
  cases r with
  | ok => exact h
  | error e =>
      intro e' he'
      rcases List.mem_append.mp he' with he' | he'
      · exact h e' he'
      · exact List.mem_singleton.mp he' ▸ hr e rfl

/-- A `put` of an object that is there as it was sent fails only without an answer. -/
theorem verify_of_mem {key : String} {content : Bytes} {answer : Except SdkError ObjectHead}
    (hkey : IsLogicalKey key) (ho : object sha256 key content ∈ s.bucket)
    (hanswer : answer = s.bucket.headObject key ∨ ∃ e, answer = .error e) :
    (∀ e, verify sha256 content (head (fun _ => answer) key) = .error e → e.OfPut)
      ∧ (answer = s.bucket.headObject key →
        verify sha256 content (head (fun _ => answer) key) = .ok ()) := by
  have hget : s.bucket.get? key = some (object sha256 key content) :=
    Table.get?_eq_some.mpr ⟨ho, rfl⟩
  have hfound : s.bucket.headObject key = .ok ⟨content.length, some (sha256 content)⟩ := by
    rw [Bucket.headObject, hget]
    rfl
  have hlogical : logicalKey key = .ok key := logicalKey_eq_ok.mpr ⟨hkey, rfl⟩
  have hok : verify sha256 content (head (fun _ => s.bucket.headObject key) key) = .ok () := by
    rw [head, hlogical, hfound]
    exact if_neg (by simp)
  refine ⟨fun e he => ?_, fun heq => heq ▸ hok⟩
  rcases hanswer with rfl | ⟨raised, rfl⟩
  · rw [hok] at he
    cases he
  · rw [head, hlogical] at he
    rcases raised with code | - <;> simp only at he
    · split at he
      · obtain rfl := Except.error.inj he
        exact Or.inr ⟨_, by simp, rfl⟩
      · obtain rfl := Except.error.inj he
        exact Or.inr ⟨_, by simp, rfl⟩
    · obtain rfl := Except.error.inj he
      exact Or.inr ⟨_, by simp, rfl⟩

/-- The writers of a state in which one of them has moved on. -/
theorem S3State.writers_moved {i j : ℕ} {w : Option S3Writer} {v : S3Writer}
    (h : (s.set i w).writers j = some v) (hw : w ≠ some v) : s.writers j = some v := by
  rcases writers_set h with ⟨-, heq⟩ | ⟨-, h⟩
  · exact absurd heq.symm hw
  · exact h

theorem S3State.Intact.put (h : s.Intact sha256) {o : S3Object} {b : Bucket}
    (hput : s.bucket.putObject o = .ok b) : S3State.Intact sha256 { s with bucket := b } := by
  have hgrows : ∀ x ∈ s.bucket, x ∈ b := fun x hx =>
    (Table.mem_insert? (Bucket.putObject_ok hput)).mpr (Or.inl hx)
  exact ⟨h.sending, fun i key content hi => (h.created i key content hi).imp_right (hgrows _),
    fun p hp => (h.returned p hp).imp_right (hgrows _), h.raised⟩

/-- A writer that leaves takes nothing with it. -/
theorem S3State.Intact.ends (h : s.Intact sha256) (i : ℕ) {key : String} {content : Bytes}
    {r : Except BackendError Unit} (hr : ∀ e, r = .error e → e.OfPut)
    (hok : r = .ok () → IsLogicalKey key ∧ object sha256 key content ∈ s.bucket) :
    (s.ends i key content r).Intact sha256 := by
  obtain ⟨hbucket, hwriters⟩ := s.ends_frame i key content r
  refine ⟨fun j k c hj => ?_, fun j k c hj => ?_, fun p hp => ?_, raised_ends h.raised hr⟩
  · rw [hwriters] at hj
    exact h.sending j k c (writers_moved hj nofun)
  · rw [hwriters] at hj
    exact hbucket ▸ h.created j k c (writers_moved hj nofun)
  · rw [hbucket]
    rcases returned_ends hp with hold | rfl
    · exact h.returned p hold
    · cases r with
      | ok => exact hok rfl
      | error e => exact h.returned _ hp

theorem S3State.Intact.step (h : s.Intact sha256) (hstep : S3Step sha256 s t) :
    t.Intact sha256 := by
  cases hstep with
  | @start i key k content _ hk =>
      refine ⟨fun j k' c hj => ?_, fun j k' c hj => ?_, h.returned, h.raised⟩
      · rcases writers_set hj with ⟨-, heq⟩ | ⟨-, hj⟩
        · obtain ⟨rfl, -⟩ := S3Writer.sending.inj (Option.some.inj heq)
          exact (logicalKey_eq_ok.mp hk).2 ▸ (logicalKey_eq_ok.mp hk).1
        · exact h.sending j k' c hj
      · exact h.created j k' c (writers_moved hj (by simp))
  | @refuse key e hkey =>
      refine ⟨h.sending, h.created, h.returned, fun e' he' => ?_⟩
      rcases List.mem_append.mp he' with he' | he'
      · exact h.raised e' he'
      · exact Or.inl ⟨e, List.mem_singleton.mp he'⟩
  | lose _ => exact ⟨h.sending, h.created, h.returned, h.raised⟩
  | arrive _ hput => exact h.put hput
  | foreign hput => exact h.put hput
  | @answer i key content b hi hput =>
      have hb := h.put hput
      refine ⟨fun j k c hj => ?_, fun j k c hj => ?_, hb.returned, hb.raised⟩
      · exact hb.sending j k c (writers_moved hj (by simp))
      · rcases writers_set hj with ⟨-, heq⟩ | ⟨-, hj⟩
        · obtain ⟨rfl, rfl⟩ := S3Writer.created.inj (Option.some.inj heq)
          exact ⟨h.sending i k c hi,
            (Table.mem_insert? (Bucket.putObject_ok hput)).mpr (Or.inr rfl)⟩
        · exact hb.created j k c hj
  | fail hi =>
      refine h.ends _ (fun e he => ?_) nofun
      obtain rfl := Except.error.inj he
      exact Or.inr ⟨_, by simp, rfl⟩
  | @check i key content answer hi hanswer =>
      obtain ⟨hkey, ho⟩ := h.created i key content hi
      exact h.ends i (verify_of_mem hkey ho hanswer).1 fun _ => ⟨hkey, ho⟩

/-- What the bucket holds after a conditional write. -/
theorem cells_put {b b' : Bucket} {o : S3Object} (h : b.insert? o = some b') :
    (fun key => (b'.get? key).map S3Object.body)
      = Function.update (fun key => (b.get? key).map S3Object.body) o.key (some o.body) := by
  funext key
  by_cases hkey : key = o.key
  · have hget : b'.get? o.key = some o :=
      Table.get?_eq_some.mpr ⟨(Table.mem_insert? h).mpr (Or.inr rfl), rfl⟩
    rw [hkey, Function.update_self, hget]
    rfl
  · rw [Function.update_of_ne hkey]
    exact congrArg _ (Table.get?_insert?_of_ne h hkey)

theorem cells_free {b b' : Bucket} {o : S3Object} (h : b.insert? o = some b') :
    (b.get? o.key).map S3Object.body = none := by
  have hget : b.get? o.key = none := Table.get?_eq_none.mpr (Table.fresh_of_insert? h)
  rw [hget]
  rfl

/-- The writers' objects, when one of them has moved on. -/
theorem writing_set (s : S3State) (i : ℕ) (w : Option S3Writer) :
    (s.set i w).store.writing = Function.update s.store.writing i
      (match w with
        | some (.created key _) => some key
        | _ => none) := by
  funext j
  by_cases hj : j = i
  · rw [hj, Function.update_self]
    simp only [S3State.store, S3State.set, Function.update_self]
  · rw [Function.update_of_ne hj]
    simp only [S3State.store, S3State.set, Function.update_of_ne hj]

theorem set_store_of_idle {i : ℕ} {w : Option S3Writer}
    (hbefore : s.store.writing i = none)
    (hafter : (match w with
      | some (.created key _) => some key
      | _ => none : Option String) = none) :
    (s.set i w).store = s.store := by
  have hwriting : (s.set i w).store.writing = s.store.writing := by
    rw [writing_set, hafter, ← hbefore, Function.update_eq_self]
  show WriteOnce.mk _ (s.set i w).store.writing _ = _
  rw [hwriting]
  rfl

/-- Every event is a step of the write-once store, or none. -/
theorem S3State.Intact.store_step (h : s.Intact sha256) (hstep : S3Step sha256 s t) :
    t.store = s.store ∨ WriteOnce.Step s.store t.store := by
  cases hstep with
  | @start i key k content hi _ =>
      have hidle : s.store.writing i = none := by simp [store, hi]
      exact Or.inl (set_store_of_idle hidle rfl)
  | refuse => exact Or.inl rfl
  | lose => exact Or.inl rfl
  | @arrive o b _ hput | @foreign o b hput =>
      have hins := Bucket.putObject_ok hput
      have hdeposit := WriteOnce.Step.deposit (s := s.store) (k := o.key) (c := o.body)
        (cells_free hins)
      refine Or.inr ?_
      rw [show S3State.store { s with bucket := b }
        = { s.store with cells := Function.update s.store.cells o.key (some o.body) } from
        congrArg (fun c => WriteOnce.mk c s.store.writing s.returned) (cells_put hins)]
      exact hdeposit
  | @answer i key content b hi hput =>
      have hins := Bucket.putObject_ok hput
      have hidle : s.store.writing i = none := by simp [store, hi]
      have hcreate := WriteOnce.Step.create (c := content) hidle (cells_free hins)
      refine Or.inr ?_
      have hcells := cells_put hins
      have hwriting := writing_set { s with bucket := b } i (some (.created key content))
      show WriteOnce.Step s.store (WriteOnce.mk _ (S3State.store _).writing s.returned)
      rw [hwriting]
      exact hcells ▸ hcreate
  | @fail i key content hi =>
      have hidle : s.store.writing i = none := by simp [store, hi]
      have hsame : (s.set i none).store = s.store := set_store_of_idle hidle rfl
      exact Or.inl hsame
  | @check i key content answer hi hanswer =>
      have hwrites : s.store.writing i = some key := by simp [store, hi]
      obtain ⟨-, ho⟩ := h.created i key content hi
      have hcell : s.store.cells key = some content := by
        have hget : s.bucket.get? key = some (object sha256 key content) :=
          Table.get?_eq_some.mpr ⟨ho, rfl⟩
        show (s.bucket.get? key).map S3Object.body = some content
        rw [hget]
        rfl
      have hwriting := writing_set s i none
      cases hr : verify sha256 content (head (fun _ => answer) key) with
      | ok u =>
          have hfinish := WriteOnce.Step.finish hwrites hcell
          refine Or.inr ?_
          show WriteOnce.Step s.store (WriteOnce.mk _ (s.set i none).store.writing _)
          rw [hwriting]
          exact hfinish
      | error e =>
          have habandon := WriteOnce.Step.abandon (s := s.store) (i := i)
          refine Or.inr ?_
          show WriteOnce.Step s.store (WriteOnce.mk _ (s.set i none).store.writing _)
          rw [hwriting]
          exact habandon

/-- The writers simulate the write-once store. -/
def s3Simulation (sha256 : Bytes → String) :
    Transition.Simulation (s3Writers sha256) (WriteOnce.system String Bytes ℕ) where
  rel s a := s.Intact sha256 ∧ a = s.store
  init s h := by
    obtain ⟨hbucket, hwriters, -, hreturned, hraised⟩ := h
    refine ⟨s.store, ⟨fun key => ?_, fun i => ?_, hreturned⟩, ?_, rfl⟩
    · simp only [S3State.store, hbucket]
      rfl
    · simp [S3State.store, hwriters]
    · refine ⟨?_, ?_, ?_, ?_⟩ <;> simp [hwriters, hreturned, hraised]
  step s l s' a _ _ h hstep := by
    obtain ⟨hintact, rfl⟩ := h
    rcases hintact.store_step hstep with heq | habstract
    · exact ⟨[], s.store, .nil, hintact.step hstep, heq.symm⟩
    · exact ⟨[()], s'.store, .single habstract, hintact.step hstep, rfl⟩

theorem s3_reachable (hs : (s3Writers sha256).Reachable s) :
    s.Intact sha256 ∧ (WriteOnce.system String Bytes ℕ).Reachable s.store := by
  obtain ⟨a, ha, hintact, rfl⟩ := (s3Simulation sha256).reachable hs
  exact ⟨hintact, ha⟩

/-- Objects are never replaced. -/
theorem bucket_grows (hs : (s3Writers sha256).Reachable s) {tr : List Unit}
    (hrun : (s3Writers sha256).Run s tr t) : ∀ o ∈ s.bucket, o ∈ t.bucket := by
  refine hrun.relates (R := fun s t => ∀ o ∈ s.bucket, o ∈ t.bucket) (fun _ _ ho => ho)
    (fun h h' o ho => h' o (h o ho)) ?_ hs
  intro u l v _ hstep o ho
  cases hstep with
  | arrive _ hput => exact (Table.mem_insert? (Bucket.putObject_ok hput)).mpr (Or.inl ho)
  | foreign hput => exact (Table.mem_insert? (Bucket.putObject_ok hput)).mpr (Or.inl ho)
  | answer _ hput => exact (Table.mem_insert? (Bucket.putObject_ok hput)).mpr (Or.inl ho)
  | fail => exact ho
  | check => exact (S3State.ends_frame u _ _ _ _).1 ▸ ho
  | _ => exact ho

theorem openObject_of_mem {b : Bucket} {key : String} {content : Bytes} (hkey : IsLogicalKey key)
    (ho : object sha256 key content ∈ b) : openObject b.getObject key = .ok content := by
  have hget : b.get? key = some (object sha256 key content) := Table.get?_eq_some.mpr ⟨ho, rfl⟩
  rw [openObject, logicalKey_eq_ok.mpr ⟨hkey, rfl⟩]
  simp only [Bucket.getObject, hget]
  rfl

/-- **Immutable objects on S3.** Whatever requests are lost, repeated or
late, and whatever foreign writers store: what a `put` that returned has
stored is its content with the digest of it, two of them never return for the
same key, a `put` raises a fixed text only, and never for a failed integrity
check. From then on no object is replaced, and `open` yields the content. -/
theorem s3_immutable (hs : (s3Writers sha256).Reachable s) :
    (∀ p ∈ s.returned, object sha256 p.1 p.2 ∈ s.bucket)
      ∧ (s.returned.map Prod.fst).Nodup
      ∧ (∀ e ∈ s.raised, e.OfPut)
      ∧ ∀ tr t, (s3Writers sha256).Run s tr t →
        (∀ o ∈ s.bucket, o ∈ t.bucket)
          ∧ ∀ p ∈ s.returned, openObject t.bucket.getObject p.1 = .ok p.2 := by
  obtain ⟨hintact, hstore⟩ := s3_reachable hs
  refine ⟨fun p hp => (hintact.returned p hp).2, (WriteOnce.reachable_sound hstore).nodup,
    hintact.raised, fun tr t hrun => ?_⟩
  have hgrows := bucket_grows hs hrun
  refine ⟨hgrows, fun p hp => ?_⟩
  obtain ⟨hkey, ho⟩ := hintact.returned p hp
  exact openObject_of_mem hkey (hgrows _ ho)

/-- A `put` whose requests are answered returns. -/
theorem put_run {i : ℕ} (hi : s.writers i = none) {key : String} {content : Bytes} {b : Bucket}
    (hkey : IsLogicalKey key) (hput : s.bucket.putObject (object sha256 key content) = .ok b) :
    put sha256 (fun o => (s.bucket.putObject o).map fun _ => ()) b.headObject key content = .ok ()
      ∧ (s3Writers sha256).Run s [(), (), ()]
        { s with bucket := b, returned := s.returned ++ [(key, content)] } := by
  have hlogical : logicalKey key = .ok key := logicalKey_eq_ok.mpr ⟨hkey, rfl⟩
  have hins := Bucket.putObject_ok hput
  have ho : object sha256 key content ∈ b := (Table.mem_insert? hins).mpr (Or.inr rfl)
  let u : S3State := S3State.set { s with bucket := b } i (some (.created key content))
  have hverify : verify sha256 content (head (fun _ => b.headObject key) key) = .ok () :=
    (verify_of_mem (s := u) hkey ho (Or.inl rfl)).2 rfl
  have hhead : head b.headObject key = head (fun _ => b.headObject key) key := by
    rw [head, head, hlogical]
  constructor
  · rw [put, hlogical]
    simp only [hput, Except.map]
    rw [hhead, hverify]
  · have hstart : S3Step sha256 s (s.set i (some (.sending key content))) := .start hi hlogical
    have hsending : (s.set i (some (.sending key content))).writers i
        = some (.sending key content) := Function.update_self ..
    have hanswer : S3Step sha256 (s.set i (some (.sending key content))) _ :=
      .answer hsending hput
    have hset : ∀ (x y : Option S3Writer),
        S3State.set { s.set i x with bucket := b } i y = S3State.set { s with bucket := b } i y :=
      fun x y => congrArg (fun w => S3State.mk b w s.inFlight s.returned s.raised)
        (Function.update_idem ..)
    rw [hset] at hanswer
    have hcreated : u.writers i = some (.created key content) := Function.update_self ..
    have hcheck : S3Step sha256 u _ := .check hcreated (Or.inl rfl)
    rw [show u.bucket.headObject key = b.headObject key from rfl, hverify] at hcheck
    have hends : u.ends i key content (.ok ())
        = { s with bucket := b, returned := s.returned ++ [(key, content)] } := by
      have hwriters : (u.set i none).writers = s.writers := by
        show Function.update (Function.update s.writers i _) i none = s.writers
        rw [Function.update_idem, ← hi, Function.update_eq_self]
      show S3State.mk b (u.set i none).writers _ _ _ = _
      rw [hwriters]
      rfl
    rw [hends] at hcheck
    exact ((Transition.Run.nil.snoc hstart).snoc hanswer).snoc hcheck

end Steps

/-! ### Two `put`s for one key -/

/-- A writer gives up with an attempt still under way, and another one returns,
on a bucket with an object of somebody else. -/
theorem s3_immutable_late :
    ∃ s, (s3Writers fun _ => "digest").Reachable s
      ∧ s.bucket.rows.map S3Object.key = ["a//b", "agents/1/2/agent.py"]
      ∧ s.returned = [("agents/1/2/agent.py", [102])]
      ∧ s.raised = [.storageError "Object storage write failed"]
      ∧ (s.returned.map Prod.fst).Nodup
      ∧ ∀ p ∈ s.returned, openObject s.bucket.getObject p.1 = .ok p.2 := by
  let sha256 : Bytes → String := fun _ => "digest"
  let key := "agents/1/2/agent.py"
  let s₀ : S3State := ⟨Table.empty, fun _ => none, [], [], []⟩
  have hkey : IsLogicalKey key := by decide
  have hinit : (s3Writers sha256).init s₀ := ⟨rfl, fun _ => rfl, rfl, rfl, rfl⟩
  obtain ⟨b₀, hforeign, hrows⟩ : ∃ b₀ : Bucket,
      Bucket.putObject Table.empty ⟨"a//b", [0], none, "text/plain"⟩ = .ok b₀
        ∧ b₀.rows = [⟨"a//b", [0], none, "text/plain"⟩] := ⟨_, rfl, rfl⟩
  have hstored : S3Step sha256 s₀ { s₀ with bucket := b₀ } := .foreign hforeign
  let s₁ : S3State := { s₀ with bucket := b₀ }
  have hstart : S3Step sha256 s₁ (s₁.set 0 (some (.sending key [120]))) :=
    .start rfl (logicalKey_eq_ok.mpr ⟨hkey, rfl⟩)
  let s₂ := s₁.set 0 (some (.sending key [120]))
  have hlose : S3Step sha256 s₂ { s₂ with inFlight := [object sha256 key [120]] } :=
    .lose (Function.update_self ..)
  let s₃ : S3State := { s₂ with inFlight := [object sha256 key [120]] }
  have hsending : s₃.writers 0 = some (.sending key [120]) := rfl
  have hfail : S3Step sha256 s₃
      (s₃.ends 0 key [120] (.error (.storageError "Object storage write failed"))) :=
    .fail hsending
  have hfree : ∀ x ∈ b₀, Keyed.key x ≠ Keyed.key (object sha256 key [102]) := by
    intro x hx
    rw [Table.mem_def, hrows] at hx
    obtain rfl := List.mem_singleton.mp hx
    decide
  obtain ⟨b, hins⟩ := Table.insert?_isSome hfree
  have hput : b₀.putObject (object sha256 key [102]) = .ok b := by
    rw [Bucket.putObject, hins]
  let s₄ := s₃.ends 0 key [120] (.error (.storageError "Object storage write failed"))
  have hreach : (s3Writers sha256).Reachable s₄ :=
    (((Transition.Reachable.init hinit).step (l := ()) hstored).step (l := ()) hstart).step
      (l := ()) hlose |>.step (l := ()) hfail
  have hreturns := hreach.run (put_run (s := s₄) (i := 1) rfl hkey hput).2
  obtain ⟨-, hnodup, -, hopen⟩ := s3_immutable hreturns
  refine ⟨_, hreturns, ?_, rfl, rfl, hnodup, (hopen [] _ .nil).2⟩
  show b.rows.map S3Object.key = _
  rw [Table.rows_insert? hins, hrows]
  rfl

end AgentBenchX
