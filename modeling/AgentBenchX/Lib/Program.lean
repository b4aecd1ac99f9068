import Mathlib.Logic.Basic

/-!
# Programs that raise

A program changes a state and returns a value or raises. What it had
changed before it raised stays changed, as in a language whose handlers
and `finally` blocks run on the state the exception left.

`Spec P x Q` is a triple whose postcondition sees the outcome, returned
or raised. Three special cases need less: `Keeps I x V E`, the invariant
`I` survives `x` whatever is raised where, what is returned satisfies `V`
and what is raised `E`; `KeepsOr I E x`, only exceptions of `E` break the
invariant; and `Returns P x Q`, nothing is raised at all. `Frames g x`
says which part of the state `x` leaves alone, and `Agrees I x y`
compares a program with one that needs no state.
-/

namespace AgentBenchX

/-- From a state, an outcome and the state it leaves. -/
def Program (ε σ α : Type) := σ → Except ε α × σ

namespace Program

variable {ε σ α β : Type}

/-! ## Constructs -/

protected def pure (a : α) : Program ε σ α := fun s => (.ok a, s)

protected def bind (x : Program ε σ α) (f : α → Program ε σ β) : Program ε σ β := fun s =>
  match x s with
  | (.ok a, t) => f a t
  | (.error e, t) => (.error e, t)

instance : Monad (Program ε σ) where
  pure := Program.pure
  bind := Program.bind

def raise (e : ε) : Program ε σ α := fun s => (.error e, s)

/-- An operation outside of the state. -/
def lift (x : Except ε α) : Program ε σ α := fun s => (x, s)

def read : Program ε σ σ := fun s => (.ok s, s)

def modify (f : σ → σ) : Program ε σ Unit := fun s => (.ok (), f s)

/-- `try x except`: `h` says which exceptions it takes by raising the others again. -/
def handle (x : Program ε σ α) (h : ε → Program ε σ α) : Program ε σ α := fun s =>
  match x s with
  | (.ok a, t) => (.ok a, t)
  | (.error e, t) => h e t

/-- `try x finally y`: an exception of `y` replaces the outcome of `x`. -/
def ensure (x : Program ε σ α) (y : Program ε σ Unit) : Program ε σ α := fun s =>
  match x s with
  | (r, t) =>
      match y t with
      | (.ok (), u) => (r, u)
      | (.error e, u) => (.error e, u)

/-- A program on a part of the state. -/
def focus {τ : Type} (get : τ → σ) (set : σ → τ → τ) (x : Program ε σ α) : Program ε τ α := fun t =>
  ((x (get t)).1, set (x (get t)).2 t)

/-! ## Running -/

section
variable {x : Program ε σ α} {f : α → Program ε σ β} {s t : σ} {a : α} {e : ε}

@[simp] theorem pure_apply : (pure a : Program ε σ α) s = (.ok a, s) := rfl
@[simp] theorem raise_apply : (raise e : Program ε σ α) s = (.error e, s) := rfl
@[simp] theorem lift_apply (r : Except ε α) : (lift r : Program ε σ α) s = (r, s) := rfl
@[simp] theorem read_apply : (read : Program ε σ σ) s = (.ok s, s) := rfl
@[simp] theorem modify_apply (g : σ → σ) : (modify g : Program ε σ Unit) s = (.ok (), g s) := rfl

theorem bind_ok (h : x s = (.ok a, t)) : (x >>= f) s = f a t := by
  show Program.bind x f s = f a t
  rw [Program.bind, h]

theorem bind_error (h : x s = (.error e, t)) : (x >>= f) s = (.error e, t) := by
  show Program.bind x f s = _
  rw [Program.bind, h]

theorem bind_congr {y : Program ε σ α} (h : x s = y s) : (x >>= f) s = (y >>= f) s := by
  show Program.bind x f s = Program.bind y f s
  rw [Program.bind, Program.bind, h]

instance : LawfulMonad (Program ε σ) := LawfulMonad.mk' _
  (fun x => by
    funext s
    show Program.bind x (fun a => Program.pure (id a)) s = x s
    rw [Program.bind]
    rcases x s with ⟨e | a, t⟩ <;> rfl)
  (fun _ _ => rfl)
  (fun x f g => by
    funext s
    show Program.bind (Program.bind x f) g s = Program.bind x (fun a => Program.bind (f a) g) s
    simp only [Program.bind]
    rcases x s with ⟨e | a, t⟩ <;> rfl)

theorem ok_of_bind {b : β} {u : σ} (h : (x >>= f) s = (.ok b, u)) :
    ∃ a t, x s = (.ok a, t) ∧ f a t = (.ok b, u) := by
  rcases hx : x s with ⟨e | a, t⟩
  · rw [bind_error hx] at h
    cases h
  · rw [bind_ok hx] at h
    exact ⟨a, t, rfl, h⟩

end

/-! ## Triples -/

/-- From a state with `P`, the outcome and the state it leaves satisfy `Q`. -/
def Spec (P : σ → Prop) (x : Program ε σ α) (Q : Except ε α → σ → Prop) : Prop :=
  ∀ s, P s → Q (x s).1 (x s).2

namespace Spec

variable {P P' : σ → Prop} {x : Program ε σ α} {Q Q' R : Except ε α → σ → Prop}

theorem weaken (h : Spec P x Q) (hQ : ∀ r s, Q r s → Q' r s) : Spec P x Q' :=
  fun s hs => hQ _ _ (h s hs)

theorem bind {f : α → Program ε σ β} {Q : Except ε β → σ → Prop} (hx : Spec P x R)
    (hf : ∀ a, Spec (R (.ok a)) (f a) Q) (he : ∀ e s, R (.error e) s → Q (.error e) s) :
    Spec P (x >>= f) Q := by
  intro s hs
  have hR := hx s hs
  rcases hxs : x s with ⟨e | a, t⟩ <;> rw [hxs] at hR
  · rw [bind_error hxs]
    exact he e t hR
  · rw [bind_ok hxs]
    exact hf a t hR

theorem handle {h : ε → Program ε σ α} (hx : Spec P x R) (hok : ∀ a s, R (.ok a) s → Q (.ok a) s)
    (hh : ∀ e, Spec (R (.error e)) (h e) Q) : Spec P (x.handle h) Q := by
  intro s hs
  have hR := hx s hs
  unfold Program.handle
  rcases hxs : x s with ⟨e | a, t⟩ <;> rw [hxs] at hR
  · exact hh e t hR
  · exact hok a t hR

/-- **Rule for `finally`.** What `y` returns leaves the outcome of `x`; what it
raises takes its place. -/
theorem ensure {y : Program ε σ Unit} {S : Except ε α → Except ε Unit → σ → Prop}
    (hx : Spec P x R) (hy : ∀ r, Spec (R r) y (S r)) (hok : ∀ r s, S r (.ok ()) s → Q r s)
    (he : ∀ r e s, S r (.error e) s → Q (.error e) s) : Spec P (x.ensure y) Q := by
  intro s hs
  have hR := hx s hs
  unfold Program.ensure
  rcases hxs : x s with ⟨r, t⟩
  rw [hxs] at hR
  have hS := hy r t hR
  rcases hyt : y t with ⟨e | u, w⟩ <;> rw [hyt] at hS <;> simp only [hyt]
  · exact he r e w hS
  · exact hok r w hS

end Spec

/-! ## Invariants -/

/-- `I` survives `x`, whether it returns or raises; what `x` returns satisfies
`V`, and what it raises satisfies `E`. -/
def Keeps (I : σ → Prop) (x : Program ε σ α) (V : α → Prop) (E : ε → Prop) : Prop :=
  ∀ s, I s → I (x s).2 ∧ (∀ a, (x s).1 = .ok a → V a) ∧ ∀ e, (x s).1 = .error e → E e

namespace Keeps

variable {I : σ → Prop} {x : Program ε σ α} {V : α → Prop} {E : ε → Prop}

theorem pure {a : α} (h : V a) : Keeps I (Pure.pure a : Program ε σ α) V E :=
  fun _ hs => ⟨hs, fun _ ha => Except.ok.inj ha ▸ h, nofun⟩

theorem raise {e : ε} (h : E e) : Keeps I (Program.raise e : Program ε σ α) V E :=
  fun _ hs => ⟨hs, nofun, fun _ he => Except.error.inj he ▸ h⟩

theorem lift {r : Except ε α} (h : ∀ a, r = .ok a → V a) (hE : ∀ e, r = .error e → E e) :
    Keeps I (Program.lift r : Program ε σ α) V E :=
  fun _ hs => ⟨hs, h, hE⟩

theorem read : Keeps I (Program.read : Program ε σ σ) I E :=
  fun _ hs => ⟨hs, fun _ ha => Except.ok.inj ha ▸ hs, nofun⟩

theorem modify {f : σ → σ} (hf : ∀ s, I s → I (f s)) :
    Keeps I (Program.modify f : Program ε σ Unit) (fun _ => True) E :=
  fun s hs => ⟨hf s hs, fun _ _ => trivial, nofun⟩

theorem weaken {W : α → Prop} {F : ε → Prop} (h : Keeps I x V E) (hV : ∀ a, V a → W a)
    (hE : ∀ e, E e → F e) : Keeps I x W F := by
  intro s hs
  obtain ⟨ht, ha, he⟩ := h s hs
  exact ⟨ht, fun a hok => hV a (ha a hok), fun e herr => hE e (he e herr)⟩

theorem bind {f : α → Program ε σ β} {W : β → Prop} (hx : Keeps I x V E)
    (hf : ∀ a, V a → Keeps I (f a) W E) : Keeps I (x >>= f) W E := by
  intro s hs
  obtain ⟨ht, hV, hE⟩ := hx s hs
  rcases hxs : x s with ⟨e | a, t⟩ <;> rw [hxs] at ht hV hE
  · rw [bind_error hxs]
    refine ⟨ht, nofun, ?_⟩
    rintro e' he'
    obtain rfl := Except.error.inj he'
    exact hE e rfl
  · rw [bind_ok hxs]
    exact hf a (hV a rfl) t ht

/-- Where nothing is asked of the states and exceptions, a value is what the last step makes it. -/
theorem follow {f : α → Program ε σ β} {W : β → Prop}
    (hf : ∀ a, Keeps (fun _ => True) (f a) W fun _ => True) :
    Keeps (fun _ => True) (x >>= f) W fun _ => True := by
  have hx : Keeps (fun _ => True) x (fun _ => True) fun _ => True :=
    fun _ _ => ⟨trivial, fun _ _ => trivial, fun _ _ => trivial⟩
  exact hx.bind fun a _ => hf a

theorem value {a : α} {s t : σ} (hx : Keeps (fun _ => True) x V fun _ => True)
    (h : x s = (.ok a, t)) : V a :=
  (hx s trivial).2.1 a (congrArg Prod.fst h)

/-- A triple for what comes after a program that keeps its precondition. -/
theorem bindSpec {f : α → Program ε σ β} {Q : Except ε β → σ → Prop} (hx : Keeps I x V E)
    (hf : ∀ a, V a → Spec I (f a) Q) (he : ∀ e s, E e → I s → Q (.error e) s) :
    Spec I (x >>= f) Q := by
  intro s hs
  obtain ⟨ht, hV, hE⟩ := hx s hs
  rcases hxs : x s with ⟨e | a, t⟩ <;> rw [hxs] at ht hV hE
  · rw [bind_error hxs]
    exact he e t (hE e rfl) ht
  · rw [bind_ok hxs]
    exact hf a (hV a rfl) t ht

theorem handle {h : ε → Program ε σ α} {F : ε → Prop} (hx : Keeps I x V E)
    (hh : ∀ e, E e → Keeps I (h e) V F) : Keeps I (x.handle h) V F := by
  intro s hs
  obtain ⟨ht, hV, hE⟩ := hx s hs
  unfold Program.handle
  rcases hxs : x s with ⟨e | a, t⟩ <;> rw [hxs] at ht hV hE
  · exact hh e (hE e rfl) t ht
  · exact ⟨ht, hV, nofun⟩

theorem ensure {y : Program ε σ Unit} (hx : Keeps I x V E) (hy : Keeps I y (fun _ => True) E) :
    Keeps I (x.ensure y) V E := by
  intro s hs
  obtain ⟨ht, hV, hE⟩ := hx s hs
  unfold Program.ensure
  rcases hxs : x s with ⟨r, t⟩
  rw [hxs] at ht hV hE
  obtain ⟨hu, -, hF⟩ := hy t ht
  rcases hyt : y t with ⟨e | a, u⟩ <;> rw [hyt] at hu hF <;> simp only [hyt]
  · refine ⟨hu, nofun, ?_⟩
    rintro e' he'
    obtain rfl := Except.error.inj he'
    exact hF e rfl
  · exact ⟨hu, hV, hE⟩

/-- A part of the state keeps an invariant of its own. -/
theorem focus {τ : Type} {get : τ → σ} {set : σ → τ → τ} {J : τ → Prop} (hx : Keeps I x V E)
    (hget : ∀ t, J t → I (get t)) (hset : ∀ s t, J t → I s → J (set s t)) :
    Keeps J (x.focus get set) V E :=
  fun t ht => ⟨hset _ t ht (hx _ (hget t ht)).1, (hx _ (hget t ht)).2⟩

end Keeps

/-! ## Invariants that only some exceptions break -/

/-- `I` survives `x`, unless `x` raises one of the exceptions `E`. -/
def KeepsOr (I : σ → Prop) (E : ε → Prop) (x : Program ε σ α) : Prop :=
  Spec I x fun r s => I s ∨ ∃ e, r = .error e ∧ E e

namespace KeepsOr

variable {I : σ → Prop} {E : ε → Prop} {x : Program ε σ α}

/-- Programs that only look: operations outside of the state, what is returned or raised. -/
theorem of_unchanged (h : ∀ s, (x s).2 = s) : KeepsOr I E x := by
  intro s hs
  rw [h s]
  exact Or.inl hs

theorem modify {f : σ → σ} (hf : ∀ s, I s → I (f s)) :
    KeepsOr I E (Program.modify f : Program ε σ Unit) :=
  fun s hs => Or.inl (hf s hs)

/-- What returned has kept the invariant. -/
theorem of_ok {r : Except ε α} {a : α} {s : σ} (h : I s ∨ ∃ e, r = .error e ∧ E e)
    (hr : r = .ok a) : I s := by
  rcases h with h | ⟨e, he, -⟩
  · exact h
  · rw [hr] at he
    cases he

theorem bind {f : α → Program ε σ β} (hx : KeepsOr I E x) (hf : ∀ a, KeepsOr I E (f a)) :
    KeepsOr I E (x >>= f) := by
  refine Spec.bind hx (fun a s hs => hf a s (of_ok hs rfl)) fun e s hs => hs.imp id ?_
  rintro ⟨e', he', hE⟩
  obtain rfl := Except.error.inj he'
  exact ⟨e, rfl, hE⟩

/-- A handler that raises the exceptions `E` again. -/
theorem handle {h : ε → Program ε σ α} (hx : KeepsOr I E x)
    (hkeep : ∀ e, ¬E e → KeepsOr I E (h e))
    (hraise : ∀ e, E e → ∀ s, ∃ e', (h e s).1 = .error e' ∧ E e') :
    KeepsOr I E (x.handle h) := by
  refine Spec.handle hx (fun a s hs => Or.inl (of_ok hs rfl)) fun e s hs => ?_
  by_cases hE : E e
  · exact Or.inr (hraise e hE s)
  · rcases hs with hs | ⟨e', he', hE'⟩
    · exact hkeep e hE s hs
    · obtain rfl := Except.error.inj he'
      exact absurd hE' hE

theorem focus {τ : Type} {get : τ → σ} {set : σ → τ → τ} {J : τ → Prop} (hx : KeepsOr I E x)
    (hget : ∀ t, J t → I (get t)) (hset : ∀ s t, J t → I s → J (set s t)) :
    KeepsOr J E (x.focus get set) :=
  fun t ht => (hx _ (hget t ht)).imp (hset _ t ht) id

end KeepsOr

/-! ## Parts of the state that stay as they are -/

/-- `x` leaves `g` of the state alone, whether it returns or raises. -/
def Frames {τ : Type} (g : σ → τ) (x : Program ε σ α) : Prop := ∀ s, g (x s).2 = g s

namespace Frames

variable {τ : Type} {g : σ → τ} {x : Program ε σ α}

theorem apply {s t : σ} {r : Except ε α} (hx : Frames g x) (h : x s = (r, t)) :
    g t = g s := by
  have hs := hx s
  rwa [h] at hs

theorem spec {v : τ} (hx : Frames g x) : Spec (fun s => g s = v) x fun _ s => g s = v :=
  fun s hs => (hx s).trans hs

/-- Programs that only look. -/
theorem of_unchanged (h : ∀ s, (x s).2 = s) : Frames g x := fun s => congrArg g (h s)

theorem pure {a : α} : Frames g (Pure.pure a : Program ε σ α) := of_unchanged fun _ => rfl

theorem raise {e : ε} : Frames g (Program.raise e : Program ε σ α) := of_unchanged fun _ => rfl

theorem lift {r : Except ε α} : Frames g (Program.lift r : Program ε σ α) :=
  of_unchanged fun _ => rfl

theorem read : Frames g (Program.read : Program ε σ σ) := of_unchanged fun _ => rfl

theorem modify {f : σ → σ} (hf : ∀ s, g (f s) = g s) :
    Frames g (Program.modify f : Program ε σ Unit) :=
  hf

theorem bind {f : α → Program ε σ β} (hx : Frames g x) (hf : ∀ a, Frames g (f a)) :
    Frames g (x >>= f) := by
  intro s
  rcases hxs : x s with ⟨e | a, t⟩
  · rw [bind_error hxs]
    exact hx.apply hxs
  · rw [bind_ok hxs, hf a t]
    exact hx.apply hxs

theorem handle {h : ε → Program ε σ α} (hx : Frames g x) (hh : ∀ e, Frames g (h e)) :
    Frames g (x.handle h) := by
  intro s
  unfold Program.handle
  rcases hxs : x s with ⟨e | a, t⟩
  · exact (hh e t).trans (hx.apply hxs)
  · exact hx.apply hxs

/-- A program on a part of the state leaves alone what does not depend on it. -/
theorem focus {υ : Type} {get : υ → σ} {set : σ → υ → υ} {k : υ → τ}
    (h : ∀ s u, k (set s u) = k u) : Frames k (x.focus get set) :=
  fun u => h _ u

end Frames

/-! ## Runs that return -/

/-- From a state with `P`, `x` returns, and its value and state satisfy `Q`. -/
def Returns (P : σ → Prop) (x : Program ε σ α) (Q : α → σ → Prop) : Prop :=
  ∀ s, P s → ∃ a t, x s = (.ok a, t) ∧ Q a t

namespace Returns

variable {P : σ → Prop} {x : Program ε σ α} {Q : α → σ → Prop}

theorem bind {f : α → Program ε σ β} {R : β → σ → Prop} (hx : Returns P x Q)
    (hf : ∀ a, Returns (Q a) (f a) R) : Returns P (x >>= f) R := by
  intro s hs
  obtain ⟨a, t, hxs, hQ⟩ := hx s hs
  rw [bind_ok hxs]
  exact hf a t hQ

theorem pure {a : α} (h : ∀ s, P s → Q a s) : Returns P (Pure.pure a : Program ε σ α) Q :=
  fun s hs => ⟨a, s, rfl, h s hs⟩

theorem lift {a : α} {r : Except ε α} (hr : r = .ok a) (h : ∀ s, P s → Q a s) :
    Returns P (Program.lift r : Program ε σ α) Q :=
  fun s hs => ⟨a, s, by rw [hr]; rfl, h s hs⟩

theorem modify {f : σ → σ} {Q : Unit → σ → Prop} (h : ∀ s, P s → Q () (f s)) :
    Returns P (Program.modify f : Program ε σ Unit) Q :=
  fun s hs => ⟨(), f s, rfl, h s hs⟩

theorem weaken {P' : σ → Prop} {Q' : α → σ → Prop} (h : Returns P x Q)
    (hP : ∀ s, P' s → P s) (hQ : ∀ a s, Q a s → Q' a s) : Returns P' x Q' := by
  intro s hs
  obtain ⟨a, t, hxs, ht⟩ := h s (hP s hs)
  exact ⟨a, t, hxs, hQ a t ht⟩

end Returns

/-! ## Stateless counterparts -/

/-- Without a state, a sequence is one of outcomes. -/
theorem bind_unit {x : Program ε Unit α} {f : α → Program ε Unit β} :
    ((x >>= f) ()).1 = (x ()).1 >>= fun a => (f a ()).1 := by
  rcases hx : x () with ⟨e | a, u⟩
  · rw [bind_error hx]
    rfl
  · rw [bind_ok hx]
    rfl

/-- From states with `I`, which it keeps, `x` has the outcome of the stateless `y`. -/
def Agrees (I : σ → Prop) (x : Program ε σ α) (y : Program ε Unit α) : Prop :=
  ∀ s, I s → ∃ t, x s = ((y ()).1, t) ∧ I t

namespace Agrees

variable {I : σ → Prop} {x : Program ε σ α} {y : Program ε Unit α}

theorem pure {a : α} : Agrees I (Pure.pure a : Program ε σ α) (Pure.pure a) :=
  fun s hs => ⟨s, rfl, hs⟩

theorem raise {e : ε} : Agrees I (Program.raise e : Program ε σ α) (Program.raise e) :=
  fun s hs => ⟨s, rfl, hs⟩

theorem lift {r : Except ε α} : Agrees I (Program.lift r : Program ε σ α) (Program.lift r) :=
  fun s hs => ⟨s, rfl, hs⟩

theorem bind {f : α → Program ε σ β} {g : α → Program ε Unit β} (hx : Agrees I x y)
    (hf : ∀ a, (y ()).1 = .ok a → Agrees I (f a) (g a)) : Agrees I (x >>= f) (y >>= g) := by
  intro s hs
  obtain ⟨t, hxs, ht⟩ := hx s hs
  rcases hy : y () with ⟨e | a, u⟩ <;> rw [hy] at hxs
  · exact ⟨t, by rw [bind_error hxs, bind_error hy], ht⟩
  · rw [bind_ok hxs, bind_ok hy]
    exact hf a (by rw [hy]) t ht

theorem handle {h : ε → Program ε σ α} {k : ε → Program ε Unit α} (hx : Agrees I x y)
    (hh : ∀ e, Agrees I (h e) (k e)) : Agrees I (x.handle h) (y.handle k) := by
  intro s hs
  obtain ⟨t, hxs, ht⟩ := hx s hs
  unfold Program.handle
  rcases hy : y () with ⟨e | a, u⟩ <;> rw [hy] at hxs <;> simp only [hxs]
  · exact hh e t ht
  · exact ⟨t, rfl, ht⟩

end Agrees

end Program

end AgentBenchX
