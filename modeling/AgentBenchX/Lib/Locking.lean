import Mathlib.Logic.Function.Basic

/-!
# Sessions that lock what they rely on

A store shared by sessions. A session holds locks on resources and has
learnt something about the store; what it has learnt must rest on the
resources it has locked. Another session commits only changes that keep
every resource it has not locked itself. Under this discipline nothing a
session has learnt is ever invalidated by the others
(`Sound.step`), so a session may commit long after it has looked.

`Locking` collects what an instance has to say: which resources a session
holds, what it has learnt, and when a change of the store keeps a
resource.
-/

namespace AgentBenchX

variable {σ ι L R : Type}

/-- A locking discipline for stores `σ`, sessions in local states `L`, and
resources `R`. -/
structure Locking (σ L R : Type) where
  holds : L → R → Prop
  learnt : L → σ → Prop
  keeps : R → σ → σ → Prop
  /-- What a session has learnt rests on the resources it holds. -/
  stable : ∀ {l s s'}, learnt l s → (∀ r, holds l r → keeps r s s') → learnt l s'

/-- The store and the open sessions. -/
structure World (σ ι L : Type) where
  store : σ
  sessions : ι → Option L

namespace World

variable [DecidableEq ι]

/-- The session `i` goes to the local state `l`. -/
def put (w : World σ ι L) (i : ι) (l : L) : World σ ι L :=
  { w with sessions := Function.update w.sessions i (some l) }

/-- The session `i` ends and leaves the store `s`. -/
def close (w : World σ ι L) (i : ι) (s : σ) : World σ ι L where
  store := s
  sessions := Function.update w.sessions i none

@[simp] theorem put_store (w : World σ ι L) (i : ι) (l : L) : (w.put i l).store = w.store := rfl

@[simp] theorem close_store (w : World σ ι L) (i : ι) (s : σ) : (w.close i s).store = s := rfl

@[simp] theorem put_self (w : World σ ι L) (i : ι) (l : L) : (w.put i l).sessions i = some l :=
  Function.update_self ..

theorem put_sessions {w : World σ ι L} {i k : ι} {l l' : L}
    (h : (w.put i l).sessions k = some l') :
    (k = i ∧ l' = l) ∨ (k ≠ i ∧ w.sessions k = some l') := by
  by_cases hk : k = i
  · subst hk
    simp only [put, Function.update_self] at h
    exact Or.inl ⟨rfl, (Option.some.inj h).symm⟩
  · simp only [put, Function.update_of_ne hk] at h
    exact Or.inr ⟨hk, h⟩

theorem close_sessions {w : World σ ι L} {i k : ι} {s : σ} {l' : L}
    (h : (w.close i s).sessions k = some l') : k ≠ i ∧ w.sessions k = some l' := by
  by_cases hk : k = i
  · subst hk
    simp only [close, Function.update_self] at h
    cases h
  · simp only [close, Function.update_of_ne hk] at h
    exact ⟨hk, h⟩

@[simp] theorem put_put (w : World σ ι L) (i : ι) (l l' : L) :
    (w.put i l).put i l' = w.put i l' := by
  simp [put]

@[simp] theorem put_close (w : World σ ι L) (i : ι) (l : L) (s : σ) :
    (w.put i l).close i s = w.close i s := by
  simp [put, close]

/-- Nothing to close but a change of the store. -/
theorem close_idle {w : World σ ι L} {i : ι} (h : w.sessions i = none) (s : σ) :
    w.close i s = { w with store := s } := by
  rw [close, ← h, Function.update_eq_self]

end World

namespace Locking

variable {D : Locking σ L R} {w w' : World σ ι L}

/-- The resource is locked by no session but possibly `i`. -/
def Free (D : Locking σ L R) (w : World σ ι L) (i : ι) (r : R) : Prop :=
  ∀ k l, k ≠ i → w.sessions k = some l → ¬D.holds l r

/-- Locks are exclusive, and everything learnt holds. -/
structure Sound (D : Locking σ L R) (w : World σ ι L) : Prop where
  exclusive : ∀ i k l l' r, w.sessions i = some l → w.sessions k = some l' →
    D.holds l r → D.holds l' r → i = k
  learnt : ∀ i l, w.sessions i = some l → D.learnt l w.store

/-- No session at all. -/
theorem sound_of_idle (h : ∀ i, w.sessions i = none) : D.Sound w :=
  ⟨fun i k l l' r hi => by simp [h i] at hi, fun i l hi => by simp [h i] at hi⟩

/-- What a session holds is free for nobody else. -/
theorem Sound.free (h : D.Sound w) {i : ι} {l : L} (hi : w.sessions i = some l) {r : R}
    (hr : D.holds l r) : D.Free w i r :=
  fun k l' hne hk hr' => hne (h.exclusive k i l' l r hk hi hr' hr)

variable [DecidableEq ι]

/-- What a step under the discipline may do. -/
inductive Step (D : Locking σ L R) (w : World σ ι L) : World σ ι L → Prop
  /-- A change that keeps every resource. -/
  | outside {s : σ} : (∀ r, D.keeps r w.store s) → Step D w { w with store := s }
  /-- A session locks free resources and learns something. -/
  | learn {i : ι} {l : L} : (∀ r, D.holds l r → D.Free w i r) → D.learnt l w.store →
      Step D w (w.put i l)
  /-- A session writes what it has locked and ends. -/
  | commit {i : ι} {l : L} {s : σ} : w.sessions i = some l →
      (∀ r, ¬D.holds l r → D.keeps r w.store s) → Step D w (w.close i s)
  /-- A session is rolled back. -/
  | abort {i : ι} : Step D w (w.close i w.store)

/-- **Locking rule.** The discipline keeps every session's knowledge true. -/
theorem Sound.step (h : D.Sound w) (hstep : D.Step w w') : D.Sound w' := by
  cases hstep with
  | outside hkeeps =>
      exact ⟨h.exclusive, fun i l hi => D.stable (h.learnt i l hi) fun r _ => hkeeps r⟩
  | @learn i l hfree hl =>
      refine ⟨fun k m lk lm r hk hm hrk hrm => ?_, fun k lk hk => ?_⟩
      · rcases World.put_sessions hk with ⟨rfl, rfl⟩ | ⟨hki, hk'⟩ <;>
          rcases World.put_sessions hm with ⟨rfl, rfl⟩ | ⟨hmi, hm'⟩
        · rfl
        · exact absurd hrm (hfree r hrk m lm hmi hm')
        · exact absurd hrk (hfree r hrm k lk hki hk')
        · exact h.exclusive k m lk lm r hk' hm' hrk hrm
      · rcases World.put_sessions hk with ⟨rfl, rfl⟩ | ⟨-, hk⟩
        · exact hl
        · exact h.learnt k lk hk
  | @commit i l s hi hkeeps =>
      refine ⟨fun k m lk lm r hk hm => ?_, fun k lk hk => ?_⟩
      · exact h.exclusive k m lk lm r (World.close_sessions hk).2 (World.close_sessions hm).2
      · obtain ⟨hki, hk⟩ := World.close_sessions hk
        -- What `k` holds, `i` does not, so the commit has kept it.
        exact D.stable (h.learnt k lk hk) fun r hr =>
          hkeeps r fun hr' => hki (h.exclusive k i lk l r hk hi hr hr')
  | @abort i =>
      refine ⟨fun k m lk lm r hk hm => ?_, fun k lk hk => ?_⟩
      · exact h.exclusive k m lk lm r (World.close_sessions hk).2 (World.close_sessions hm).2
      · exact h.learnt k lk (World.close_sessions hk).2

end Locking

end AgentBenchX
