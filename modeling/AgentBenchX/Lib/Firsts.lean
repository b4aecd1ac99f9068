import Mathlib.Data.List.Nodup
import Mathlib.Data.List.Induction

/-!
# The first of each key

What a dictionary keeps that is filled with `setdefault`: the first value of
every key, in the order of their arrival. If the values come sorted, the first
of a key is an extreme one (`firsts_first`).
-/

namespace AgentBenchX

variable {α κ : Type} [DecidableEq κ] (key : α → κ)

/-- `dict.setdefault(key(a), a)` on the values of a dictionary. -/
def setDefault (values : List α) (a : α) : List α :=
  if ∃ b ∈ values, key b = key a then values else values ++ [a]

/-- The values after a loop of `setdefault`. -/
def firsts (l : List α) : List α := l.foldl (setDefault key) []

variable {key} {l : List α} {a b : α}

theorem firsts_concat : firsts key (l ++ [a]) = setDefault key (firsts key l) a := by
  rw [firsts, List.foldl_append]
  rfl

theorem mem_of_mem_firsts (h : b ∈ firsts key l) : b ∈ l := by
  induction l using List.reverseRecOn with
  | nil => exact h
  | append_singleton l a ih =>
      rw [firsts_concat, setDefault] at h
      split at h
      · exact List.mem_append_left _ (ih h)
      · exact List.mem_append.mpr ((List.mem_append.mp h).imp_left ih)

/-- Every key has its value. -/
theorem exists_mem_firsts (h : a ∈ l) : ∃ b ∈ firsts key l, key b = key a := by
  induction l using List.reverseRecOn with
  | nil => exact absurd h List.not_mem_nil
  | append_singleton l c ih =>
      rw [firsts_concat, setDefault]
      split
      · rename_i hthere
        rcases List.mem_append.mp h with h | h
        · exact ih h
        · exact List.mem_singleton.mp h ▸ hthere
      · rcases List.mem_append.mp h with h | h
        · obtain ⟨b, hb, hkey⟩ := ih h
          exact ⟨b, List.mem_append_left _ hb, hkey⟩
        · exact ⟨c, List.mem_append_right _ (List.mem_singleton_self c),
            (List.mem_singleton.mp h).symm ▸ rfl⟩

theorem nodup_firsts : ((firsts key l).map key).Nodup := by
  induction l using List.reverseRecOn with
  | nil => exact List.nodup_nil
  | append_singleton l a ih =>
      rw [firsts_concat, setDefault]
      split
      · exact ih
      · rename_i hnew
        rw [List.map_append]
        refine ih.append (List.nodup_singleton _) ?_
        rintro k hk hka
        obtain ⟨b, hb, rfl⟩ := List.mem_map.mp hk
        exact hnew ⟨b, hb, List.mem_singleton.mp hka⟩

/-- Of a sorted list the dictionary keeps the values in front of all others of
their key. -/
theorem firsts_first {R : α → α → Prop} (hsorted : l.Pairwise R) (hb : b ∈ firsts key l)
    (ha : a ∈ l) (hkey : key a = key b) : a = b ∨ R b a := by
  induction l using List.reverseRecOn generalizing a b with
  | nil => exact absurd ha List.not_mem_nil
  | append_singleton l c ih =>
      obtain ⟨hl, -, hlast⟩ := List.pairwise_append.mp hsorted
      rw [firsts_concat, setDefault] at hb
      have hold (hold : b ∈ firsts key l) : a = b ∨ R b a := by
        rcases List.mem_append.mp ha with ha | ha
        · exact ih hl hold ha hkey
        · exact Or.inr (hlast b (mem_of_mem_firsts hold) a ha)
      split at hb
      · exact hold hb
      · rename_i hnew
        rcases List.mem_append.mp hb with hb | hb
        · exact hold hb
        · obtain rfl := List.mem_singleton.mp hb
          rcases List.mem_append.mp ha with ha | ha
          · obtain ⟨d, hd, hda⟩ : ∃ d ∈ firsts key l, key d = key a := exists_mem_firsts ha
            exact absurd ⟨d, hd, hda.trans hkey⟩ hnew
          · exact Or.inl (List.mem_singleton.mp ha)

end AgentBenchX
