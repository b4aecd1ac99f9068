import AgentBenchX.Lib.Program

/-!
# Scripts

A script lists calls in their order, each with what must have come of it
before the next one is made. What a program has called follows the script
when it is a prefix of it in which every call but the last has passed:
wherever the program raises, nothing later was called, and nothing out of
order.

`Scripted` is the triple for such a program, with an invariant for the states
in which it raises. The rules compose scripts as the programs are composed.
-/

namespace AgentBenchX

/-- A call, and what must hold before the script goes on after it. -/
structure ScriptLine (α : Type) where
  call : α
  passes : Prop

abbrev Script (α : Type) := List (ScriptLine α)

/-- The calls of a script that may have been interrupted. -/
inductive Follows {α : Type} : Script α → List α → Prop
  | stopped {script : Script α} : Follows script []
  | called {c : ScriptLine α} {script : Script α} : Follows (c :: script) [c.call]
  | passed {c : ScriptLine α} {script : Script α} {calls : List α} :
      c.passes → Follows script calls → Follows (c :: script) (c.call :: calls)

/-- The calls of a script that has been gone through. -/
structure Completes {α : Type} (script : Script α) (calls : List α) : Prop where
  calls : calls = script.map ScriptLine.call
  passes : ∀ c ∈ script, c.passes

variable {α : Type} {script script' : Script α} {calls calls' : List α} {c : ScriptLine α}

namespace Completes

theorem nil : Completes ([] : Script α) [] := ⟨rfl, fun _ h => absurd h List.not_mem_nil⟩

theorem single (h : c.passes) : Completes [c] [c.call] :=
  ⟨rfl, fun _ hc => List.mem_singleton.mp hc ▸ h⟩

theorem append (h : Completes script calls) (h' : Completes script' calls') :
    Completes (script ++ script') (calls ++ calls') where
  calls := by rw [h.calls, h'.calls, List.map_append]
  passes c hc := (List.mem_append.mp hc).elim (h.passes c) (h'.passes c)

theorem follows (h : Completes script calls) (h' : Follows script' calls') :
    Follows (script ++ script') (calls ++ calls') := by
  obtain ⟨rfl, hpasses⟩ := h
  induction script with
  | nil => exact h'
  | cons c script ih =>
      exact .passed (hpasses c (List.mem_cons_self ..))
        (ih fun c' hc' => hpasses c' (List.mem_cons_of_mem _ hc'))

/-- Of the last call something else may be asked. -/
theorem regate {a : α} {p q : Prop} (h : Completes (script ++ [⟨a, p⟩]) calls) (hq : q) :
    Completes (script ++ [⟨a, q⟩]) calls where
  calls := by rw [h.calls, List.map_append, List.map_append]; rfl
  passes c hc := by
    rcases List.mem_append.mp hc with hc | hc
    · exact h.passes c (List.mem_append_left _ hc)
    · exact List.mem_singleton.mp hc ▸ hq

end Completes

namespace Follows

theorem append (h : Follows script calls) (script' : Script α) :
    Follows (script ++ script') calls := by
  induction h with
  | stopped => exact .stopped
  | called => exact .called
  | passed hc _ ih => exact .passed hc ih

/-- What is asked of the last call does not matter until there is a next one. -/
theorem regate {a : α} {p q : Prop} (h : Follows (script ++ [⟨a, p⟩]) calls) :
    Follows (script ++ [⟨a, q⟩]) calls := by
  induction script generalizing calls with
  | nil =>
      cases h with
      | stopped => exact .stopped
      | called => exact .called
      | passed _ h =>
          cases h
          exact .called
  | cons c script ih =>
      cases h with
      | stopped => exact .stopped
      | called => exact .called
      | passed hc h => exact .passed hc (ih h)

theorem isPrefix (h : Follows script calls) : calls <+: script.map ScriptLine.call := by
  induction h with
  | stopped => exact List.nil_prefix
  | called => exact List.prefix_cons_inj _ |>.mpr List.nil_prefix
  | passed _ _ ih => exact (List.prefix_cons_inj _).mpr ih

/-- A call that is not the last one has passed. -/
theorem passes_of_lt {l : Script α} (h : Follows (l ++ c :: script) calls)
    (hlt : l.length + 1 < calls.length) : c.passes := by
  induction l generalizing calls with
  | nil =>
      cases h with
      | stopped => simp at hlt
      | called => simp at hlt
      | passed hc _ => exact hc
  | cons _ l ih =>
      cases h with
      | stopped => simp at hlt
      | called => simp at hlt
      | passed _ h =>
          refine ih h ?_
          simp only [List.length_cons] at hlt
          omega

end Follows

/-! ## Programs that follow a script -/

variable {ε σ β γ κ : Type}

/-- From a state with `P`, `x` follows the script and leaves `I`. -/
def Starts (log : σ → List κ) (entry : α → κ) (I P : σ → Prop) (script : Script α)
    (x : Program ε σ β) : Prop :=
  ∀ s, P s → ∃ calls, log (x s).2 = log s ++ calls.map entry ∧ Follows script calls ∧ I (x s).2

/-- When it returns, it has gone through the script and leaves `Q`. -/
def Scripted (log : σ → List κ) (entry : α → κ) (I P : σ → Prop) (script : Script α)
    (x : Program ε σ β) (Q : β → σ → Prop) : Prop :=
  ∀ s, P s → ∃ calls, log (x s).2 = log s ++ calls.map entry ∧ Follows script calls ∧ I (x s).2
    ∧ ∀ b, (x s).1 = .ok b → Completes script calls ∧ Q b (x s).2

variable {log : σ → List κ} {entry : α → κ} {I P : σ → Prop} {x : Program ε σ β}
  {Q : β → σ → Prop}

namespace Starts

/-- A handler that calls nothing. -/
theorem handle {h : ε → Program ε σ β} (hx : Starts log entry I P script x)
    (hh : ∀ e s, I s → log (h e s).2 = log s ∧ I (h e s).2) :
    Starts log entry I P script (x.handle h) := by
  intro s hs
  obtain ⟨calls, hlog, hfollows, hI⟩ := hx s hs
  unfold Program.handle
  rcases hxs : x s with ⟨e | b, t⟩ <;> rw [hxs] at hlog hI
  · obtain ⟨hsame, hI⟩ := hh e t hI
    exact ⟨calls, hsame.trans hlog, hfollows, hI⟩
  · exact ⟨calls, hlog, hfollows, hI⟩

end Starts

namespace Scripted

theorem starts (h : Scripted log entry I P script x Q) : Starts log entry I P script x := by
  intro s hs
  obtain ⟨calls, hlog, hfollows, hI, -⟩ := h s hs
  exact ⟨calls, hlog, hfollows, hI⟩

/-- Programs that call nothing. -/
theorem silent (h : ∀ s, P s → log (x s).2 = log s ∧ I (x s).2
    ∧ ∀ b, (x s).1 = .ok b → Q b (x s).2) : Scripted log entry I P [] x Q := by
  intro s hs
  obtain ⟨hlog, hI, hQ⟩ := h s hs
  exact ⟨[], by rw [hlog, List.map_nil, List.append_nil], .stopped, hI,
    fun b hb => ⟨.nil, hQ b hb⟩⟩

/-- Programs that call nothing and raise. -/
theorem raises (h : Scripted log entry I P [] x fun _ _ => False) (script : Script α) :
    Scripted log entry I P script x Q := by
  intro s hs
  obtain ⟨calls, hlog, hfollows, hI, hraises⟩ := h s hs
  exact ⟨calls, hlog, hfollows.append script, hI, fun b hb => (hraises b hb).2.elim⟩

theorem bind {f : β → Program ε σ γ} {R : γ → σ → Prop} (hx : Scripted log entry I P script x Q)
    (hf : ∀ b, Scripted log entry I (Q b) script' (f b) R) :
    Scripted log entry I P (script ++ script') (x >>= f) R := by
  intro s hs
  obtain ⟨calls, hlog, hfollows, hI, hQ⟩ := hx s hs
  rcases hxs : x s with ⟨e | b, t⟩ <;> rw [hxs] at hlog hI hQ
  · rw [Program.bind_error hxs]
    exact ⟨calls, hlog, hfollows.append _, hI, fun b hb => by cases hb⟩
  · rw [Program.bind_ok hxs]
    obtain ⟨hcompletes, hQ⟩ := hQ b rfl
    obtain ⟨calls', hlog', hfollows', hI', hR⟩ := hf b t hQ
    refine ⟨calls ++ calls', ?_, hcompletes.follows hfollows', hI', fun c hc => ?_⟩
    · rw [hlog', hlog, List.map_append, List.append_assoc]
    · exact ⟨hcompletes.append (hR c hc).1, (hR c hc).2⟩

theorem bindStarts {f : β → Program ε σ γ} (hx : Scripted log entry I P script x Q)
    (hf : ∀ b, Starts log entry I (Q b) script' (f b)) :
    Starts log entry I P (script ++ script') (x >>= f) := by
  intro s hs
  obtain ⟨calls, hlog, hfollows, hI, hQ⟩ := hx s hs
  rcases hxs : x s with ⟨e | b, t⟩ <;> rw [hxs] at hlog hI hQ
  · rw [Program.bind_error hxs]
    exact ⟨calls, hlog, hfollows.append _, hI⟩
  · rw [Program.bind_ok hxs]
    obtain ⟨hcompletes, hQ⟩ := hQ b rfl
    obtain ⟨calls', hlog', hfollows', hI'⟩ := hf b t hQ
    refine ⟨calls ++ calls', ?_, hcompletes.follows hfollows', hI'⟩
    rw [hlog', hlog, List.map_append, List.append_assoc]

theorem skip {f : β → Program ε σ γ} {R : γ → σ → Prop} (hx : Scripted log entry I P [] x Q)
    (hf : ∀ b, Scripted log entry I (Q b) script (f b) R) :
    Scripted log entry I P script (x >>= f) R :=
  hx.bind hf

theorem bindSilent {f : β → Program ε σ γ} {R : γ → σ → Prop}
    (hx : Scripted log entry I P script x Q) (hf : ∀ b, Scripted log entry I (Q b) [] (f b) R) :
    Scripted log entry I P script (x >>= f) R := by
  have h := hx.bind hf
  rwa [List.append_nil] at h

/-- The value decides whether the script goes on. -/
theorem bindGate {a : α} {p q : Prop} {f : β → Program ε σ γ}
    (hx : Scripted log entry I P (script ++ [⟨a, p⟩]) x Q)
    (hf : ∀ b, ((∀ s, Q b s → q) ∧ Starts log entry I (Q b) script' (f b))
      ∨ ∀ s, Q b s → log (f b s).2 = log s ∧ I (f b s).2) :
    Starts log entry I P (script ++ ⟨a, q⟩ :: script') (x >>= f) := by
  have happend : script ++ ⟨a, q⟩ :: script' = (script ++ [⟨a, q⟩]) ++ script' :=
    (List.append_cons ..)
  intro s hs
  rw [happend]
  obtain ⟨calls, hlog, hfollows, hI, hQ⟩ := hx s hs
  rcases hxs : x s with ⟨e | b, t⟩ <;> rw [hxs] at hlog hI hQ
  · rw [Program.bind_error hxs]
    exact ⟨calls, hlog, hfollows.regate.append _, hI⟩
  · rw [Program.bind_ok hxs]
    obtain ⟨hcompletes, hQ⟩ := hQ b rfl
    rcases hf b with ⟨hq, hrest⟩ | hsilent
    · obtain ⟨calls', hlog', hfollows', hI'⟩ := hrest t hQ
      refine ⟨calls ++ calls', ?_, (hcompletes.regate (hq t hQ)).follows hfollows', hI'⟩
      rw [hlog', hlog, List.map_append, List.append_assoc]
    · obtain ⟨hsame, hI⟩ := hsilent t hQ
      exact ⟨calls, hsame.trans hlog, hfollows.regate.append _, hI⟩

theorem regate {a : α} {p q : Prop} (hx : Scripted log entry I P (script ++ [⟨a, p⟩]) x Q)
    (hq : ∀ b s, Q b s → q) : Scripted log entry I P (script ++ [⟨a, q⟩]) x Q := by
  intro s hs
  obtain ⟨calls, hlog, hfollows, hI, hQ⟩ := hx s hs
  refine ⟨calls, hlog, hfollows.regate, hI, fun b hb => ?_⟩
  obtain ⟨hcompletes, hQ⟩ := hQ b hb
  exact ⟨hcompletes.regate (hq b _ hQ), hQ⟩

/-- A fact that is known beforehand. -/
theorem fact {p : Prop} (h : p → Scripted log entry I P script x Q) :
    Scripted log entry I (fun s => P s ∧ p) script x Q :=
  fun s hs => h hs.2 s hs.1

/-- A program on a part of the state. -/
theorem focus {τ : Type} (get : τ → σ) (set : σ → τ → τ) (hget : ∀ s t, get (set s t) = s)
    (h : Scripted log entry I P script x Q) :
    Scripted (fun t => log (get t)) entry (fun t => I (get t)) (fun t => P (get t)) script
      (x.focus get set) fun b t => Q b (get t) := by
  intro t ht
  obtain ⟨calls, hcalls⟩ := h (get t) ht
  refine ⟨calls, ?_⟩
  simpa only [Program.focus, hget] using hcalls

end Scripted

end AgentBenchX
