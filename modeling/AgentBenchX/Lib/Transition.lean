import Mathlib.Algebra.GroupWithZero.Nat
import Mathlib.Data.List.Induction

/-!
# Labelled transition systems

Runs of a nondeterministic system with labelled steps, and the rules by
which a fact about one step becomes a fact about whole runs:

* `Reachable.rec_on` carries an invariant to every reachable state;
* `Run.preserves` carries a stable property from a state to all later
  ones;
* `Run.relates` carries a preorder ("everything recorded stays
  recorded") across a run;
* `Run.forall_labels` checks every label of a run against the state in
  which its step was taken;
* `Simulation.reachable` transports invariants from an abstract system
  to a concrete one that it simulates.

The module is about arbitrary states and labels.
-/

namespace AgentBenchX

/-- A transition system with initial states and labelled steps. -/
structure Transition (σ ℓ : Type) where
  init : σ → Prop
  step : σ → ℓ → σ → Prop

namespace Transition

variable {σ ℓ : Type} {M : Transition σ ℓ}

/-- `M.Run s tr t`: the steps labelled `tr`, in this order, lead from `s`
to `t`. -/
inductive Run (M : Transition σ ℓ) (s : σ) : List ℓ → σ → Prop
  | nil : Run M s [] s
  | snoc {tr : List ℓ} {t u : σ} {l : ℓ} :
      Run M s tr t → M.step t l u → Run M s (tr ++ [l]) u

/-- A state some run from an initial state ends in. -/
def Reachable (M : Transition σ ℓ) (s : σ) : Prop :=
  ∃ s₀ tr, M.init s₀ ∧ M.Run s₀ tr s

theorem Run.single {s t : σ} {l : ℓ} (h : M.step s l t) : M.Run s [l] t :=
  Run.snoc Run.nil h

theorem Run.append {s t u : σ} {tr tr' : List ℓ} (h : M.Run s tr t)
    (h' : M.Run t tr' u) : M.Run s (tr ++ tr') u := by
  induction h' with
  | nil => rwa [List.append_nil]
  | snoc _ hstep ih =>
      rw [← List.append_assoc]
      exact ih.snoc hstep

theorem Reachable.init {s : σ} (h : M.init s) : M.Reachable s :=
  ⟨s, [], h, Run.nil⟩

theorem Reachable.run {s t : σ} {tr : List ℓ} (hs : M.Reachable s)
    (h : M.Run s tr t) : M.Reachable t := by
  obtain ⟨s₀, tr₀, h₀, hrun⟩ := hs
  exact ⟨s₀, tr₀ ++ tr, h₀, hrun.append h⟩

theorem Reachable.step {s t : σ} {l : ℓ} (hs : M.Reachable s)
    (h : M.step s l t) : M.Reachable t :=
  hs.run (Run.single h)

/-- **Invariant rule.** What holds initially and is preserved by every
step from a reachable state holds of every reachable state. -/
theorem Reachable.rec_on {P : σ → Prop} (hinit : ∀ s, M.init s → P s)
    (hstep : ∀ s l t, M.Reachable s → P s → M.step s l t → P t)
    {s : σ} (hs : M.Reachable s) : P s := by
  obtain ⟨s₀, tr, h₀, hrun⟩ := hs
  induction hrun with
  | nil => exact hinit _ h₀
  | snoc hpre hs ih => exact hstep _ _ _ ⟨s₀, _, h₀, hpre⟩ ih hs

/-- **Stability rule.** A property every step from a reachable state
preserves, once true, stays true. -/
theorem Run.preserves {P : σ → Prop}
    (hstep : ∀ s l t, M.Reachable s → P s → M.step s l t → P t)
    {s t : σ} {tr : List ℓ} (hs : M.Reachable s) (h : M.Run s tr t)
    (hP : P s) : P t := by
  induction h with
  | nil => exact hP
  | snoc hpre hlast ih => exact hstep _ _ _ (hs.run hpre) ih hlast

/-- **Preorder rule.** A reflexive and transitive relation that every step
from a reachable state respects relates the two ends of a run. -/
theorem Run.relates {R : σ → σ → Prop} (hrefl : ∀ s, R s s)
    (htrans : ∀ {s t u}, R s t → R t u → R s u)
    (hstep : ∀ s l t, M.Reachable s → M.step s l t → R s t)
    {s t : σ} {tr : List ℓ} (hs : M.Reachable s) (h : M.Run s tr t) : R s t := by
  induction h with
  | nil => exact hrefl _
  | snoc hpre hlast ih => exact htrans ih (hstep _ _ _ (hs.run hpre) hlast)

/-- **Label rule.** If a stable property of the start forbids every step
whose label violates `Q`, then every label of the run satisfies `Q`. -/
theorem Run.forall_labels {P : σ → Prop} {Q : ℓ → Prop}
    (hstep : ∀ s l t, M.Reachable s → P s → M.step s l t → P t ∧ Q l)
    {s t : σ} {tr : List ℓ} (hs : M.Reachable s) (h : M.Run s tr t)
    (hP : P s) : P t ∧ ∀ l ∈ tr, Q l := by
  induction h with
  | nil => exact ⟨hP, fun l hl => (List.not_mem_nil hl).elim⟩
  | snoc hpre hlast ih =>
      obtain ⟨hPt, hQ⟩ := ih
      obtain ⟨hPu, hQl⟩ := hstep _ _ _ (hs.run hpre) hPt hlast
      refine ⟨hPu, fun l hl => ?_⟩
      rcases List.mem_append.mp hl with hl | hl
      · exact hQ l hl
      · rwa [List.mem_singleton.mp hl]

/-- **Descent rule.** Where each reachable state short of the goal that satisfies `I` has a
step of the kind `A` to one that does, too, of a smaller rank, the goal can be reached in
as many of these steps as the rank says. -/
theorem Reachable.descends {G I : σ → Prop} {m : σ → ℕ} {A : ℓ → Prop}
    (hstep : ∀ s, M.Reachable s → I s → ¬G s →
      ∃ l t, M.step s l t ∧ A l ∧ I t ∧ m t < m s)
    {s : σ} (hs : M.Reachable s) (hI : I s) :
    ∃ tr t, M.Run s tr t ∧ (∀ l ∈ tr, A l) ∧ I t ∧ G t ∧ tr.length ≤ m s := by
  induction hm : m s using Nat.strongRecOn generalizing s with
  | ind r ih =>
      subst hm
      by_cases hgoal : G s
      · exact ⟨[], s, .nil, nofun, hI, hgoal, Nat.zero_le _⟩
      · obtain ⟨l, t, hst, hl, hIt, hlt⟩ := hstep s hs hI hgoal
        obtain ⟨tr, u, hrun, htr, hIu, hu, hlen⟩ := ih (m t) hlt (hs.step hst) hIt rfl
        refine ⟨[l] ++ tr, u, (Run.single hst).append hrun, fun k hk => ?_, hIu, hu, ?_⟩
        · rcases List.mem_append.mp hk with hk | hk
          · exact List.mem_singleton.mp hk ▸ hl
          · exact htr k hk
        · rw [List.length_append, List.length_singleton]
          omega

/-! ## Simulation -/

/-- Every step of the concrete system `C` is matched by a (possibly empty)
run of the abstract system `A` that keeps the two states related. -/
structure Simulation {τ m : Type} (C : Transition σ ℓ) (A : Transition τ m) where
  rel : σ → τ → Prop
  init : ∀ s, C.init s → ∃ t, A.init t ∧ rel s t
  step : ∀ s l s' t, C.Reachable s → A.Reachable t → rel s t → C.step s l s' →
    ∃ tr t', A.Run t tr t' ∧ rel s' t'

/-- **Refinement rule.** Every reachable concrete state is related to a
reachable abstract one, so abstract invariants hold of it through `rel`. -/
theorem Simulation.reachable {τ m : Type} {C : Transition σ ℓ} {A : Transition τ m}
    (S : Simulation C A) {s : σ} (hs : C.Reachable s) :
    ∃ t, A.Reachable t ∧ S.rel s t := by
  refine hs.rec_on (P := fun s => ∃ t, A.Reachable t ∧ S.rel s t) ?_ ?_
  · intro s₀ h₀
    obtain ⟨t, ht, hrel⟩ := S.init s₀ h₀
    exact ⟨t, Reachable.init ht, hrel⟩
  · rintro s l s' hs ⟨t, ht, hrel⟩ hstep
    obtain ⟨tr, t', hrun, hrel'⟩ := S.step s l s' t hs ht hrel hstep
    exact ⟨t', ht.run hrun, hrel'⟩

end Transition

end AgentBenchX
