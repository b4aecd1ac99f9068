import Mathlib.Data.List.Basic

/-!
# Reading back computations

Inversion rules for `Except` programs: what is known of the parts once
the whole has returned a value. A program is peeled apart bind by bind
with `ok_of_bind`, and a monadic fold is opened with an invariant that
may speak of the items still to come.
-/

namespace AgentBenchX

variable {ε α β : Type}

theorem bind_of_ok {x : Except ε α} {f : α → Except ε β} {a : α} (h : x = .ok a) :
    x >>= f = f a := by
  rw [h]
  rfl

theorem bind_of_error {x : Except ε α} {f : α → Except ε β} {e : ε} (h : x = .error e) :
    x >>= f = .error e := by
  rw [h]
  rfl

theorem ok_of_bind {x : Except ε α} {f : α → Except ε β} {b : β}
    (h : x >>= f = .ok b) : ∃ a, x = .ok a ∧ f a = .ok b := by
  cases x with
  | error e => cases h
  | ok a => exact ⟨a, rfl, h⟩

/-- An error of a sequence is raised by its first part, or by the second
after the first succeeded. -/
theorem error_of_bind {x : Except ε α} {f : α → Except ε β} {e : ε}
    (h : x >>= f = .error e) : x = .error e ∨ ∃ a, x = .ok a ∧ f a = .error e := by
  cases x with
  | error e' =>
      obtain rfl := Except.error.inj h
      exact Or.inl rfl
  | ok a => exact Or.inr ⟨a, rfl, h⟩

/-- **Fold rule.** `P rest b` is an invariant of the accumulator `b` and the
items `rest` not yet folded. -/
theorem foldlM_ok {f : β → α → Except ε β} {P : List α → β → Prop}
    (hstep : ∀ a rest b b', P (a :: rest) b → f b a = .ok b' → P rest b') :
    ∀ {l : List α} {b b' : β}, l.foldlM f b = .ok b' → P l b → P [] b'
  | [], b, b', h, hP => by
      obtain rfl : b = b' := Except.ok.inj h
      exact hP
  | a :: rest, b, b', h, hP => by
      rw [List.foldlM_cons] at h
      obtain ⟨b₁, h₁, h⟩ := ok_of_bind h
      exact foldlM_ok hstep h (hstep a rest b b₁ hP h₁)

/-- **Error rule.** An error no single step can raise is not raised by the
fold. -/
theorem foldlM_ne_error {f : β → α → Except ε β} {P : List α → β → Prop} {e : ε}
    (hstep : ∀ a rest b b', P (a :: rest) b → f b a = .ok b' → P rest b')
    (hne : ∀ a rest b, P (a :: rest) b → f b a ≠ .error e) :
    ∀ {l : List α} {b : β}, P l b → l.foldlM f b ≠ .error e
  | [], b, _ => by
      rw [List.foldlM_nil]
      exact fun h => by cases h
  | a :: rest, b, hP => by
      rw [List.foldlM_cons]
      cases hfa : f b a with
      | error e' => exact fun h => hne a rest b hP (hfa.trans h)
      | ok b' => exact foldlM_ne_error hstep hne (hstep a rest b b' hP hfa)

/-- A map that commutes with the steps commutes with the fold. -/
theorem foldlM_map {f : β → α → Except ε β} {f' : β → α → Except ε β} {g : β → β}
    (hstep : ∀ b a, f' (g b) a = (f b a).map g) :
    ∀ (l : List α) (b : β), l.foldlM f' (g b) = (l.foldlM f b).map g
  | [], _ => rfl
  | a :: rest, b => by
      rw [List.foldlM_cons, List.foldlM_cons, hstep]
      cases f b a with
      | error e => rfl
      | ok b' => exact foldlM_map hstep rest b'

/-- The same rule for a fold that cannot fail. -/
theorem foldl_rec {f : β → α → β} {P : List α → β → Prop}
    (hstep : ∀ a rest b, P (a :: rest) b → P rest (f b a)) :
    ∀ {l : List α} {b : β}, P l b → P [] (l.foldl f b)
  | [], _, hP => hP
  | a :: rest, b, hP => by
      rw [List.foldl_cons]
      exact foldl_rec hstep (hstep a rest b hP)

theorem mapM_ok_mem {f : α → Except ε β} :
    ∀ {l : List α} {bs : List β}, l.mapM f = .ok bs → ∀ b ∈ bs, ∃ a ∈ l, f a = .ok b
  | [], bs, h, b, hb => by
      obtain rfl : [] = bs := Except.ok.inj h
      exact (List.not_mem_nil hb).elim
  | a :: rest, bs, h, b, hb => by
      rw [List.mapM_cons] at h
      obtain ⟨b₀, h₀, h⟩ := ok_of_bind h
      obtain ⟨bs', h', h⟩ := ok_of_bind h
      obtain rfl : b₀ :: bs' = bs := Except.ok.inj h
      rcases List.mem_cons.mp hb with rfl | hb
      · exact ⟨a, List.mem_cons_self .., h₀⟩
      · obtain ⟨a', ha', hfa'⟩ := mapM_ok_mem h' b hb
        exact ⟨a', List.mem_cons_of_mem _ ha', hfa'⟩

end AgentBenchX
