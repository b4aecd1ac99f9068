import Mathlib.Logic.Function.Basic
import Mathlib.Data.List.Nodup
import AgentBenchX.Lib.Transition

/-!
# Write-once stores

Writers create contents under keys. A key is created once, by a writer that
may rewrite it until it has finished or given up; from then on nobody
touches it. `deposit` creates a content that nobody waits for.

Finished contents stay (`Run.finished`), and no key is finished twice
(`Sound.nodup`).
-/

namespace AgentBenchX

/-- The contents, the key each writer is about, and what has been finished. -/
structure WriteOnce (κ β ι : Type) where
  cells : κ → Option β
  writing : ι → Option κ
  finished : List (κ × β)

namespace WriteOnce

variable {κ β ι : Type} {s t : WriteOnce κ β ι}

inductive Step [DecidableEq κ] [DecidableEq ι] (s : WriteOnce κ β ι) : WriteOnce κ β ι → Prop
  | create {i : ι} {k : κ} {c : β} : s.writing i = none → s.cells k = none →
      Step s ⟨Function.update s.cells k (some c), Function.update s.writing i (some k), s.finished⟩
  | deposit {k : κ} {c : β} : s.cells k = none →
      Step s { s with cells := Function.update s.cells k (some c) }
  | write {i : ι} {k : κ} {c : β} : s.writing i = some k →
      Step s { s with cells := Function.update s.cells k (some c) }
  | finish {i : ι} {k : κ} {c : β} : s.writing i = some k → s.cells k = some c →
      Step s ⟨s.cells, Function.update s.writing i none, s.finished ++ [(k, c)]⟩
  | abandon {i : ι} : Step s { s with writing := Function.update s.writing i none }

/-- Writers at work on an empty store. -/
def system (κ β ι : Type) [DecidableEq κ] [DecidableEq ι] : Transition (WriteOnce κ β ι) Unit where
  init s := (∀ k, s.cells k = none) ∧ (∀ i, s.writing i = none) ∧ s.finished = []
  step s _ t := Step s t

/-- No key has two writers, and a finished one has none. -/
structure Sound (s : WriteOnce κ β ι) : Prop where
  exclusive : ∀ i j k, s.writing i = some k → s.writing j = some k → i = j
  present : ∀ i k, s.writing i = some k → s.cells k ≠ none
  unfinished : ∀ i k, s.writing i = some k → ∀ p ∈ s.finished, p.1 ≠ k
  kept : ∀ p ∈ s.finished, s.cells p.1 = some p.2
  nodup : (s.finished.map Prod.fst).Nodup

/-- Who still writes after a writer has left. -/
theorem writing_of_left [DecidableEq ι] {i j : ι} {k : κ}
    (h : Function.update s.writing i none j = some k) : j ≠ i ∧ s.writing j = some k := by
  by_cases hj : j = i
  · rw [hj, Function.update_self] at h
    cases h
  · rw [Function.update_of_ne hj] at h
    exact ⟨hj, h⟩

/-- A change under a key that nobody has finished. -/
theorem Sound.set [DecidableEq κ] (h : s.Sound) {k : κ} (c : β) (hk : ∀ p ∈ s.finished, p.1 ≠ k) :
    Sound { s with cells := Function.update s.cells k (some c) } where
  exclusive := h.exclusive
  present i k' hi := by
    show Function.update s.cells k (some c) k' ≠ none
    by_cases hk' : k' = k
    · rw [hk', Function.update_self]
      exact Option.some_ne_none c
    · rw [Function.update_of_ne hk']
      exact h.present i k' hi
  unfinished := h.unfinished
  kept p hp := by
    show Function.update s.cells k (some c) p.1 = some p.2
    rw [Function.update_of_ne (hk p hp)]
    exact h.kept p hp
  nodup := h.nodup

theorem Sound.free (h : s.Sound) {k : κ} (hk : s.cells k = none) :
    (∀ p ∈ s.finished, p.1 ≠ k) ∧ ∀ i, s.writing i ≠ some k := by
  refine ⟨fun p hp heq => ?_, fun i hi => h.present i k hi hk⟩
  have hkept := h.kept p hp
  rw [heq, hk] at hkept
  cases hkept

/-- The key has a content, and no writer. -/
def Settled (s : WriteOnce κ β ι) (k : κ) (c : β) : Prop :=
  s.cells k = some c ∧ ∀ i, s.writing i ≠ some k

theorem Sound.settled (h : s.Sound) {p : κ × β} (hp : p ∈ s.finished) : s.Settled p.1 p.2 :=
  ⟨h.kept p hp, fun i hi => h.unfinished i p.1 hi p hp rfl⟩

variable [DecidableEq κ] [DecidableEq ι]

theorem Sound.step (h : s.Sound) (hstep : Step s t) : t.Sound := by
  cases hstep with
  | @create i k c hi hk =>
      obtain ⟨hfinished, hwriting⟩ := h.free hk
      have hset := h.set c hfinished
      have hnew : ∀ j k', Function.update s.writing i (some k) j = some k' →
          (j = i ∧ k' = k) ∨ (j ≠ i ∧ s.writing j = some k') := by
        intro j k' hj
        by_cases hji : j = i
        · rw [hji, Function.update_self] at hj
          exact Or.inl ⟨hji, (Option.some.inj hj).symm⟩
        · rw [Function.update_of_ne hji] at hj
          exact Or.inr ⟨hji, hj⟩
      refine ⟨fun j j' k' hj hj' => ?_, fun j k' hj => ?_, fun j k' hj p hp => ?_, hset.kept,
        h.nodup⟩
      · rcases hnew j k' hj with ⟨hji, hk'⟩ | ⟨-, hj⟩ <;>
          rcases hnew j' k' hj' with ⟨hji', hk''⟩ | ⟨-, hj'⟩
        · exact hji.trans hji'.symm
        · exact absurd (hk' ▸ hj') (hwriting j')
        · exact absurd (hk'' ▸ hj) (hwriting j)
        · exact h.exclusive j j' k' hj hj'
      · rcases hnew j k' hj with ⟨-, rfl⟩ | ⟨-, hj⟩
        · show Function.update s.cells k' (some c) k' ≠ none
          rw [Function.update_self]
          exact Option.some_ne_none c
        · exact hset.present j k' hj
      · rcases hnew j k' hj with ⟨-, rfl⟩ | ⟨-, hj⟩
        · exact hfinished p hp
        · exact h.unfinished j k' hj p hp
  | deposit hk => exact h.set _ (h.free hk).1
  | write hi => exact h.set _ (h.unfinished _ _ hi)
  | @finish i k c hi hc =>
      have hfinished := h.unfinished i k hi
      refine ⟨fun j j' k' hj hj' => ?_, fun j k' hj => ?_, fun j k' hj p hp => ?_, fun p hp => ?_,
        ?_⟩
      · exact h.exclusive j j' k' (writing_of_left hj).2 (writing_of_left hj').2
      · exact h.present j k' (writing_of_left hj).2
      · obtain ⟨hji, hj⟩ := writing_of_left hj
        rcases List.mem_append.mp hp with hp | hp
        · exact h.unfinished j k' hj p hp
        · obtain rfl := List.mem_singleton.mp hp
          rintro rfl
          exact hji (h.exclusive j i k hj hi)
      · rcases List.mem_append.mp hp with hp | hp
        · exact h.kept p hp
        · obtain rfl := List.mem_singleton.mp hp
          exact hc
      · rw [List.map_append]
        refine h.nodup.append (List.nodup_singleton _) (List.disjoint_singleton.mpr fun hmem => ?_)
        obtain ⟨p, hp, heq⟩ := List.mem_map.mp hmem
        exact hfinished p hp heq
  | abandon =>
      exact ⟨fun j j' k' hj hj' =>
          h.exclusive j j' k' (writing_of_left hj).2 (writing_of_left hj').2,
        fun j k' hj => h.present j k' (writing_of_left hj).2,
        fun j k' hj => h.unfinished j k' (writing_of_left hj).2, h.kept, h.nodup⟩

theorem reachable_sound (hs : (system κ β ι).Reachable s) : s.Sound := by
  refine hs.rec_on (P := fun s => s.Sound) ?_ fun _ _ _ _ h hstep => h.step hstep
  rintro s ⟨hcells, hwriting, hfinished⟩
  refine ⟨?_, ?_, ?_, ?_, ?_⟩ <;> simp [hwriting, hfinished]

theorem Settled.step {k : κ} {c : β} (h : s.Settled k c) (hstep : Step s t) : t.Settled k c := by
  obtain ⟨hcell, hwriting⟩ := h
  have hset : ∀ {k' : κ} (c' : β), k ≠ k' → Function.update s.cells k' (some c') k = some c := by
    intro k' c' hne
    rw [Function.update_of_ne hne]
    exact hcell
  have hleft : ∀ i j, Function.update s.writing i none j ≠ some k :=
    fun i j hj => hwriting j (writing_of_left hj).2
  cases hstep with
  | @create i k' c' _ hk =>
      have hne : k ≠ k' := by
        rintro rfl
        rw [hcell] at hk
        cases hk
      refine ⟨hset c' hne, fun j (hj : Function.update s.writing i (some k') j = some k) => ?_⟩
      by_cases hji : j = i
      · rw [hji, Function.update_self] at hj
        exact hne (Option.some.inj hj).symm
      · rw [Function.update_of_ne hji] at hj
        exact hwriting j hj
  | deposit hk =>
      refine ⟨hset _ ?_, hwriting⟩
      rintro rfl
      rw [hcell] at hk
      cases hk
  | @write i k' c' hi =>
      refine ⟨hset c' ?_, hwriting⟩
      rintro rfl
      exact hwriting i hi
  | finish => exact ⟨hcell, hleft _⟩
  | abandon => exact ⟨hcell, hleft _⟩

end WriteOnce

end AgentBenchX
