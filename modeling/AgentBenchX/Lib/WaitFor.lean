import Mathlib.Logic.Function.Basic
import Mathlib.Logic.Relation
import Mathlib.Order.Basic
import Mathlib.Order.Nat

/-!
# Transactions that wait for each other

Transactions take row locks one after the other, keep them to their end,
and wait while a lock they ask for conflicts with one that is held. A
`SKIP LOCKED` statement never waits: it takes some of the rows that are
free. `WaitsFor` is the wait-for relation between open transactions.

Transactions that take contended resources in the order of a rank never
wait in a circle (`Ordered.acyclic`). Resources that are only ever locked
in share mode are not contended, and a lock a transaction already has in
the mode it asks for does not make it wait.
-/

namespace AgentBenchX

inductive LockMode where
  /-- `FOR KEY SHARE`, as a foreign key check takes it. -/
  | share
  /-- `FOR UPDATE`. -/
  | update
deriving DecidableEq, Repr

/-- Two locks on one row are compatible only if both are shared. -/
def LockMode.Conflicts (m m' : LockMode) : Prop := m = .update ∨ m' = .update

theorem LockMode.Conflicts.symm {m m' : LockMode} (h : m.Conflicts m') : m'.Conflicts m :=
  Or.symm h

variable {R : Type}

/-- The locks a transaction takes, statement by statement. -/
inductive Tx (R : Type) where
  | done
  | lock (r : R) (m : LockMode) (next : Tx R)
  /-- `FOR UPDATE SKIP LOCKED` on rows described by `among`. -/
  | skip (among : List R → Prop) (next : List R → Tx R)

/-- Statements that each lock one row. -/
def Tx.locks (stmts : List (R × LockMode)) (next : Tx R) : Tx R :=
  stmts.foldr (fun s tx => .lock s.1 s.2 tx) next

/-- An open transaction. -/
structure Session (R : Type) where
  held : List (R × LockMode)
  tx : Tx R

namespace Session

def Holds (l : Session R) (r : R) (m : LockMode) : Prop := (r, m) ∈ l.held

/-- The next statement asks for a lock and waits for it if it has to. -/
def Wants (l : Session R) (r : R) (m : LockMode) : Prop := ∃ next, l.tx = .lock r m next

end Session

/-- The open transactions. -/
abbrev Sessions (ι R : Type) := ι → Option (Session R)

variable {ι : Type}

namespace Sessions

/-- Nobody else holds a conflicting lock. -/
def Grants (w : Sessions ι R) (i : ι) (r : R) (m : LockMode) : Prop :=
  ∀ k l m', k ≠ i → w k = some l → l.Holds r m' → ¬m.Conflicts m'

/-- `i` cannot go on before `k` ends. -/
def WaitsFor (w : Sessions ι R) (i k : ι) : Prop :=
  ∃ l l' r m m', i ≠ k ∧ w i = some l ∧ w k = some l' ∧ l.Wants r m ∧ l'.Holds r m' ∧ m.Conflicts m'

variable [DecidableEq ι]

def put (w : Sessions ι R) (i : ι) (l : Option (Session R)) : Sessions ι R := Function.update w i l

theorem put_eq {w : Sessions ι R} {i k : ι} {l l' : Option (Session R)} (h : w.put i l k = l') :
    (k = i ∧ l = l') ∨ (k ≠ i ∧ w k = l') := by
  by_cases hk : k = i
  · subst hk
    exact Or.inl ⟨rfl, by simpa [put] using h⟩
  · exact Or.inr ⟨hk, by simpa [put, hk] using h⟩

theorem put_put (w : Sessions ι R) (i : ι) (l l' : Option (Session R)) :
    (w.put i l).put i l' = w.put i l' :=
  Function.update_idem ..

theorem Grants.put {w : Sessions ι R} {i k : ι} {l : Session R} {r : R} {m : LockMode}
    (h : w.Grants i r m) (hl : k = i ∨ ∀ m', ¬l.Holds r m') :
    (w.put k (some l)).Grants i r m := by
  intro n ln m' hn hln hr
  rcases put_eq hln with ⟨rfl, heq⟩ | ⟨-, hln⟩
  · exact absurd (Option.some.inj heq ▸ hr) (hl.resolve_left hn m')
  · exact h n ln m' hn hln hr

/-- One statement of one transaction. -/
inductive Step (opens : Tx R → Prop) (w : Sessions ι R) : Sessions ι R → Prop
  | opened {i : ι} {tx : Tx R} : w i = none → opens tx → Step opens w (w.put i (some ⟨[], tx⟩))
  | granted {i : ι} {l : Session R} {r : R} {m : LockMode} {next : Tx R} :
      w i = some l → l.tx = .lock r m next → w.Grants i r m →
      Step opens w (w.put i (some ⟨(r, m) :: l.held, next⟩))
  | skipped {i : ι} {l : Session R} {among : List R → Prop} {next : List R → Tx R} {rows : List R} :
      w i = some l → l.tx = .skip among next → among rows → (∀ r ∈ rows, w.Grants i r .update) →
      Step opens w (w.put i (some ⟨rows.map (·, .update) ++ l.held, next rows⟩))
  /-- A commit or a rollback, at any point. -/
  | closed {i : ι} : Step opens w (w.put i none)

end Sessions

/-! ## Lock order -/

/-- A rank for contended resources; the others are only ever locked in share mode. -/
structure LockOrder (R : Type) where
  rank : R → ℕ
  shared : R → Prop

namespace LockOrder

/-- A lock a transaction may ask for with the locks it has. -/
def Allows (O : LockOrder R) (held : List (R × LockMode)) (r : R) (m : LockMode) : Prop :=
  (r, LockMode.update) ∈ held ∨ (O.shared r ∧ m = .share)
    ∨ (¬O.shared r ∧ ∀ h ∈ held, ¬O.shared h.1 → O.rank h.1 < O.rank r)

/-- What is still to be locked follows the order. -/
def Follows (O : LockOrder R) : List (R × LockMode) → Tx R → Prop
  | _, .done => True
  | held, .lock r m next => O.Allows held r m ∧ O.Follows ((r, m) :: held) next
  | held, .skip among next => ∀ rows, among rows →
      (∀ r ∈ rows, ¬O.shared r) ∧ O.Follows (rows.map (·, .update) ++ held) (next rows)

variable {O : LockOrder R} {w : Sessions ι R}

/-- Every transaction follows the order, and no two hold conflicting locks. -/
structure Ordered (O : LockOrder R) (w : Sessions ι R) : Prop where
  follows : ∀ i l, w i = some l → O.Follows l.held l.tx
  shares : ∀ i l r m, w i = some l → l.Holds r m → O.shared r → m = .share
  exclusive : ∀ i k l l' r m m', i ≠ k → w i = some l → w k = some l' → l.Holds r m →
    l'.Holds r m' → ¬m.Conflicts m'

/-- Writes to rows already locked, and references to shared ones, follow
every order. -/
theorem follows_locks {stmts : List (R × LockMode)} {held : List (R × LockMode)}
    (h : ∀ s ∈ stmts, (s.1, LockMode.update) ∈ held ∨ (O.shared s.1 ∧ s.2 = .share)) :
    O.Follows held (.locks stmts .done) := by
  induction stmts generalizing held with
  | nil => trivial
  | cons s stmts ih =>
      refine ⟨?_, ih fun s' hs' => ?_⟩
      · rcases h s (List.mem_cons_self ..) with hheld | hshared
        · exact Or.inl hheld
        · exact Or.inr (Or.inl hshared)
      · rcases h s' (List.mem_cons_of_mem _ hs') with hheld | hshared
        · exact Or.inl (List.mem_cons_of_mem _ hheld)
        · exact Or.inr hshared

theorem ordered_of_idle (h : ∀ i, w i = none) : O.Ordered w := by
  refine ⟨fun i l hi => ?_, fun i l r m hi => ?_, fun i k l l' r m m' _ hi => ?_⟩ <;>
    · rw [h i] at hi
      cases hi

/-- What a transaction holds is granted to it. -/
theorem Ordered.grants (h : O.Ordered w) {i : ι} {l : Session R} (hi : w i = some l) {r : R}
    {m : LockMode} (hr : l.Holds r m) : w.Grants i r m :=
  fun k lk m' hk hlk hr' => h.exclusive i k l lk r m m' (Ne.symm hk) hi hlk hr hr'

/-! ### No circle of waits -/

/-- The rank of the lock a transaction asks for next. -/
def wantedRank (O : LockOrder R) (w : Sessions ι R) (i : ι) : ℕ :=
  match w i with
  | some ⟨_, .lock r _ _⟩ => O.rank r
  | _ => 0

theorem wantedRank_eq {i : ι} {l : Session R} {r : R} {m : LockMode} (hi : w i = some l)
    (hr : l.Wants r m) : O.wantedRank w i = O.rank r := by
  obtain ⟨next, htx⟩ := hr
  obtain ⟨held, tx⟩ := l
  obtain rfl : tx = .lock r m next := htx
  simp only [wantedRank, hi]

/-- A transaction that has to wait asks for a contended row that ranks
above every contended row it holds. -/
theorem Ordered.above (h : O.Ordered w) {i k : ι} {l l' : Session R} {r : R} {m m' : LockMode}
    (hne : i ≠ k) (hi : w i = some l) (hk : w k = some l') (hr : l.Wants r m) (hr' : l'.Holds r m')
    (hc : m.Conflicts m') :
    ¬O.shared r ∧ ∀ x ∈ l.held, ¬O.shared x.1 → O.rank x.1 < O.rank r := by
  obtain ⟨next, htx⟩ := hr
  have hfollows := h.follows i l hi
  rw [htx] at hfollows
  rcases hfollows.1 with hheld | ⟨hs, rfl⟩ | habove
  · exact absurd (Or.inl rfl) (h.exclusive i k l l' r .update m' hne hi hk hheld hr')
  · obtain rfl := h.shares k l' r m' hk hr' hs
    rcases hc with hc | hc <;> cases hc
  · exact habove

/-- Who is waited for and waits itself, waits for a higher rank. -/
theorem Ordered.wantedRank_lt (h : O.Ordered w) {i k n : ι} (hik : w.WaitsFor i k)
    (hkn : w.WaitsFor k n) : O.wantedRank w i < O.wantedRank w k := by
  obtain ⟨l, l', r, m, m', hne, hi, hk, hr, hr', hc⟩ := hik
  obtain ⟨l₁, l₂, r₁, m₁, m₂, hne₁, hk₁, hn, hr₁, hr₂, hc₁⟩ := hkn
  obtain rfl : l' = l₁ := Option.some.inj (hk.symm.trans hk₁)
  rw [wantedRank_eq hi hr, wantedRank_eq hk hr₁]
  exact (h.above hne₁ hk hn hr₁ hr₂ hc₁).2 (r, m') hr' (h.above hne hi hk hr hr' hc).1

theorem Ordered.wantedRank_lt_of_path (h : O.Ordered w) {i k n : ι}
    (hpath : Relation.TransGen w.WaitsFor i k) (hkn : w.WaitsFor k n) :
    O.wantedRank w i < O.wantedRank w k := by
  induction hpath generalizing n with
  | single hik => exact h.wantedRank_lt hik hkn
  | tail _ hstep ih => exact (ih hstep).trans (h.wantedRank_lt hstep hkn)

/-- **Deadlock freedom.** Nobody waits, even indirectly, for itself. -/
theorem Ordered.acyclic (h : O.Ordered w) (i : ι) : ¬Relation.TransGen w.WaitsFor i i := by
  intro hcycle
  obtain ⟨n, hn, -⟩ := Relation.TransGen.head'_iff.mp hcycle
  exact absurd (h.wantedRank_lt_of_path hcycle hn) (lt_irrefl _)

/-! ### Every step keeps the order -/

variable [DecidableEq ι] {opens : Tx R → Prop} {w' : Sessions ι R}

/-- A transaction that goes on along the order with locks nobody else holds
in a conflicting mode. -/
theorem Ordered.put (h : O.Ordered w) {i : ι} {l : Session R} (hfollows : O.Follows l.held l.tx)
    (hshares : ∀ r m, l.Holds r m → O.shared r → m = .share)
    (hgrants : ∀ r m, l.Holds r m → w.Grants i r m) : O.Ordered (w.put i (some l)) := by
  refine ⟨fun k lk hk => ?_, fun k lk r m hk hr hs => ?_,
    fun k n lk ln r m m' hne hk hn hm hm' => ?_⟩
  · rcases Sessions.put_eq hk with ⟨rfl, hl⟩ | ⟨-, hk⟩
    · exact Option.some.inj hl ▸ hfollows
    · exact h.follows k lk hk
  · rcases Sessions.put_eq hk with ⟨rfl, hl⟩ | ⟨-, hk⟩
    · exact hshares r m (Option.some.inj hl ▸ hr) hs
    · exact h.shares k lk r m hk hr hs
  · rcases Sessions.put_eq hk with ⟨rfl, hl⟩ | ⟨hki, hk'⟩ <;>
      rcases Sessions.put_eq hn with ⟨rfl, hl'⟩ | ⟨hni, hn'⟩
    · exact absurd rfl hne
    · exact hgrants r m (Option.some.inj hl ▸ hm) n ln m' hni hn' hm'
    · exact fun hc => hgrants r m' (Option.some.inj hl' ▸ hm') k lk m hki hk' hm hc.symm
    · exact h.exclusive k n lk ln r m m' hne hk' hn' hm hm'

theorem Ordered.step (h : O.Ordered w) (hopens : ∀ tx, opens tx → O.Follows [] tx)
    (hstep : w.Step opens w') : O.Ordered w' := by
  cases hstep with
  | @opened i tx _ htx =>
      exact h.put (hopens tx htx) (fun r m hr => (List.not_mem_nil hr).elim)
        fun r m hr => (List.not_mem_nil hr).elim
  | @granted i l r m next hi htx hgrants =>
      have hfollows := h.follows i l hi
      rw [htx] at hfollows
      obtain ⟨hallows, hnext⟩ := hfollows
      refine h.put hnext (fun r' m' hr' hs => ?_) fun r' m' hr' => ?_
      · rcases List.mem_cons.mp hr' with heq | hr'
        · obtain ⟨rfl, rfl⟩ := Prod.mk.inj heq
          rcases hallows with hheld | ⟨-, hm⟩ | ⟨hns, -⟩
          · exact absurd (h.shares i l r' .update hi hheld hs) (by decide)
          · exact hm
          · exact absurd hs hns
        · exact h.shares i l r' m' hi hr' hs
      · rcases List.mem_cons.mp hr' with heq | hr'
        · obtain ⟨rfl, rfl⟩ := Prod.mk.inj heq
          exact hgrants
        · exact h.grants hi hr'
  | @skipped i l among next rows hi htx hamong hgrants =>
      have hfollows := h.follows i l hi
      rw [htx] at hfollows
      obtain ⟨hns, hnext⟩ := hfollows rows hamong
      refine h.put hnext (fun r m hr hs => ?_) fun r m hr => ?_
      · rcases List.mem_append.mp hr with hr | hr
        · obtain ⟨x, hx, heq⟩ := List.mem_map.mp hr
          obtain ⟨rfl, rfl⟩ := Prod.mk.inj heq
          exact absurd hs (hns x hx)
        · exact h.shares i l r m hi hr hs
      · rcases List.mem_append.mp hr with hr | hr
        · obtain ⟨x, hx, heq⟩ := List.mem_map.mp hr
          obtain ⟨rfl, rfl⟩ := Prod.mk.inj heq
          exact hgrants x hx
        · exact h.grants hi hr
  | @closed i =>
      refine ⟨fun k lk hk => ?_, fun k lk r m hk => ?_, fun k n lk ln r m m' hne hk hn => ?_⟩
      · exact h.follows k lk (of_closed hk)
      · exact h.shares k lk r m (of_closed hk)
      · exact h.exclusive k n lk ln r m m' hne (of_closed hk) (of_closed hn)
where
  of_closed {i k : ι} {lk : Session R} (hk : w.put i none k = some lk) : w k = some lk := by
    rcases Sessions.put_eq hk with ⟨-, hl⟩ | ⟨-, hk⟩
    · cases hl
    · exact hk

end LockOrder

end AgentBenchX
