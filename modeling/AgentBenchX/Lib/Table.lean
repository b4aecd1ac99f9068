import Mathlib.Algebra.GroupWithZero.Nat
import Mathlib.Data.List.Nodup

/-!
# Keyed tables

A relational table whose rows carry their own primary key. The
structure keeps the rows in insertion order together with the proof
that no two rows share a key, so a primary-key violation is not a
representable state: `insert?` refuses a duplicate and `update` can only
replace a row by another one with the same key.

Code reads a table through `get?`; invariants read it through
membership (`r ∈ t`). `get?_eq_some` connects the two views, and
`mem_update` / `mem_insert?` say once what each write does.
-/

namespace AgentBenchX

/-- A row type with a primary-key column. -/
class Keyed (κ : outParam Type) (α : Type) where
  key : α → κ

/-- Rows in insertion order, no two with the same primary key. -/
structure Table {κ : Type} (α : Type) [Keyed κ α] where
  rows : List α
  nodup : (rows.map Keyed.key).Nodup
deriving DecidableEq

/-- A filter that selects a sublist. -/
theorem filter_of_sublist {α : Type} {l rows : List α} {p : α → Bool} (hsub : l.Sublist rows)
    (hnodup : rows.Nodup) (hp : ∀ r ∈ rows, p r = true ↔ r ∈ l) : rows.filter p = l := by
  have hkeep : l.Sublist (rows.filter p) := by
    have hfilter := hsub.filter p
    rwa [List.filter_eq_self.mpr fun x hx => (hp x (hsub.subset hx)).mpr hx] at hfilter
  have hperm : l.Perm (rows.filter p) := by
    refine (List.perm_ext_iff_of_nodup (hnodup.sublist hsub) (hnodup.filter p)).mpr fun x => ?_
    refine ⟨fun hx => hkeep.subset hx, fun hx => ?_⟩
    obtain ⟨hx, hpx⟩ := List.mem_filter.mp hx
    exact (hp x hx).mp hpx
  exact (hkeep.eq_of_length hperm.length_eq).symm

namespace Table

variable {κ α : Type} [Keyed κ α]

def empty : Table α := ⟨[], List.nodup_nil⟩

instance : Membership α (Table α) := ⟨fun t r => r ∈ t.rows⟩

theorem mem_def {t : Table α} {r : α} : r ∈ t ↔ r ∈ t.rows := Iff.rfl

@[simp] theorem not_mem_empty {r : α} : r ∉ (empty : Table α) := by
  simp [mem_def, empty]

/-- Two rows of one table with the same key are the same row. -/
theorem eq_of_key_eq {t : Table α} {r r' : α} (hr : r ∈ t) (hr' : r' ∈ t)
    (h : Keyed.key r = Keyed.key r') : r = r' :=
  List.inj_on_of_nodup_map t.nodup hr hr' h

/-- A bijection of rows that keeps every key keeps the table well formed. -/
theorem nodup_map_key {rows : List α} {f : α → α}
    (hf : ∀ r, Keyed.key (f r) = Keyed.key r)
    (h : (rows.map Keyed.key).Nodup) : ((rows.map f).map Keyed.key).Nodup := by
  rwa [List.map_map, show Keyed.key ∘ f = Keyed.key from funext hf]

/-- The table of other columns of the same rows. -/
def map {β : Type} [Keyed κ β] (t : Table α) (f : α → β)
    (hf : ∀ r, Keyed.key (f r) = Keyed.key r) : Table β where
  rows := t.rows.map f
  nodup := by
    rw [List.map_map, show Keyed.key ∘ f = Keyed.key from funext hf]
    exact t.nodup

theorem mem_map {β : Type} [Keyed κ β] {t : Table α} {f : α → β}
    {hf : ∀ r, Keyed.key (f r) = Keyed.key r} {x : β} : x ∈ t.map f hf ↔ ∃ r ∈ t, f r = x :=
  List.mem_map

/-! ## The rows in their order -/

theorem ext_rows {t t' : Table α} (h : t.rows = t'.rows) : t = t' := by
  cases t
  cases t'
  obtain rfl : _ = _ := h
  rfl

/-- The rows rewritten in their places. -/
theorem exists_map (t : Table α) {f : α → α} (hf : ∀ x ∈ t, Keyed.key (f x) = Keyed.key x) :
    ∃ t' : Table α, t'.rows = t.rows.map f := by
  refine ⟨⟨t.rows.map f, ?_⟩, rfl⟩
  have hkeys : (t.rows.map f).map Keyed.key = t.rows.map Keyed.key := by
    rw [List.map_map]
    exact List.map_congr_left hf
  rw [hkeys]
  exact t.nodup

/-- A query that selects the rows of a list, in the order of their keys. -/
theorem filter_rows {t : Table α} {l : List α} {p : α → Bool} (hmem : ∀ x ∈ l, x ∈ t)
    (hkeys : (l.map Keyed.key).Sublist (t.rows.map Keyed.key))
    (hp : ∀ r ∈ t, p r = true ↔ ∃ x ∈ l, Keyed.key x = Keyed.key r) : t.rows.filter p = l := by
  obtain ⟨l', hsub, hl'⟩ := List.sublist_map_iff.mp hkeys
  have hsame : ∀ x ∈ l, ∀ y ∈ l', Keyed.key x = Keyed.key y → x = y :=
    fun x hx y hy => Table.eq_of_key_eq (hmem x hx) (hsub.subset hy)
  have hl : l = l' := by
    clear hmem hkeys hp hsub
    induction l generalizing l' with
    | nil => exact (List.map_eq_nil_iff.mp hl'.symm).symm
    | cons a rest ih =>
        obtain ⟨b, rest', rfl, hab, hrest⟩ := List.map_eq_cons_iff.mp hl'.symm
        rw [hsame a (List.mem_cons_self ..) b (List.mem_cons_self ..) hab.symm]
        exact congrArg _ (ih rest' hrest.symm fun x hx y hy =>
          hsame x (List.mem_cons_of_mem _ hx) y (List.mem_cons_of_mem _ hy))
  subst hl
  refine filter_of_sublist hsub (List.Nodup.of_map _ t.nodup) fun r hr => ?_
  rw [hp r hr]
  constructor
  · rintro ⟨x, hx, hkey⟩
    rwa [← Table.eq_of_key_eq (hmem x hx) hr hkey]
  · exact fun hr => ⟨r, hr, rfl⟩

/-- One row more is selected. -/
theorem perm_filterMap {β : Type} {t : Table α} {r : α} {b : β} {f g : α → Option β} (hr : r ∈ t)
    (hf : f r = some b) (hg : g r = none) (hsame : ∀ x, x ≠ r → f x = g x) :
    (t.rows.filterMap f).Perm (b :: t.rows.filterMap g) := by
  obtain ⟨l, l', hsplit⟩ := List.append_of_mem (mem_def.mp hr)
  have hnodup : (l ++ r :: l').Nodup := hsplit ▸ t.nodup.of_map _
  obtain ⟨-, hright, hdisjoint⟩ := List.nodup_append.mp hnodup
  have hl : l.filterMap f = l.filterMap g := List.filterMap_congr fun x hx =>
    hsame x (hdisjoint x hx r (List.mem_cons_self ..))
  have hl' : l'.filterMap f = l'.filterMap g := List.filterMap_congr fun x hx =>
    hsame x fun heq => (List.nodup_cons.mp hright).1 (heq ▸ hx)
  rw [hsplit, List.filterMap_append, List.filterMap_append, List.filterMap_cons_some hf,
    List.filterMap_cons_none hg, hl, hl']
  exact List.perm_middle

/-! ## Lookup -/

variable [DecidableEq κ]

/-- The row with primary key `k`, if there is one. -/
def get? (t : Table α) (k : κ) : Option α :=
  t.rows.find? fun r => decide (Keyed.key r = k)

theorem get?_eq_some {t : Table α} {k : κ} {r : α} :
    t.get? k = some r ↔ r ∈ t ∧ Keyed.key r = k := by
  constructor
  · intro h
    exact ⟨List.mem_of_find?_eq_some h, by simpa using List.find?_some h⟩
  · rintro ⟨hmem, rfl⟩
    cases hf : t.get? (Keyed.key r) with
    | none =>
        have := List.find?_eq_none.mp hf r hmem
        simp at this
    | some r' =>
        have hr' : r' ∈ t := List.mem_of_find?_eq_some hf
        have hk : Keyed.key r' = Keyed.key r := by simpa using List.find?_some hf
        rw [eq_of_key_eq hr' hmem hk]

theorem get?_eq_none {t : Table α} {k : κ} :
    t.get? k = none ↔ ∀ r ∈ t, Keyed.key r ≠ k := by
  simp [get?, List.find?_eq_none, mem_def]

theorem mem_of_get? {t : Table α} {k : κ} {r : α} (h : t.get? k = some r) : r ∈ t :=
  (get?_eq_some.mp h).1

theorem key_of_get? {t : Table α} {k : κ} {r : α} (h : t.get? k = some r) :
    Keyed.key r = k :=
  (get?_eq_some.mp h).2

/-- A row is still found in a larger table. -/
theorem get?_of_subset {t t' : Table α} (h : ∀ r ∈ t, r ∈ t') {k : κ} {r : α}
    (hr : t.get? k = some r) : t'.get? k = some r :=
  get?_eq_some.mpr ⟨h r (mem_of_get? hr), key_of_get? hr⟩

/-! ## Insertion -/

/-- Append a row, or refuse it when its primary key is taken. -/
def insert? (t : Table α) (r : α) : Option (Table α) :=
  if h : Keyed.key r ∈ t.rows.map Keyed.key then none
  else some ⟨t.rows ++ [r], by
    rw [List.map_append, List.map_singleton]
    exact List.Nodup.append t.nodup (List.nodup_singleton _)
      (List.disjoint_singleton.mpr h)⟩

theorem rows_insert? {t t' : Table α} {r : α} (h : t.insert? r = some t') :
    t'.rows = t.rows ++ [r] := by
  unfold insert? at h
  split at h
  · cases h
  · rw [← Option.some.inj h]

theorem mem_insert? {t t' : Table α} {r : α} (h : t.insert? r = some t') {x : α} :
    x ∈ t' ↔ x ∈ t ∨ x = r := by
  rw [mem_def, mem_def, rows_insert? h, List.mem_append, List.mem_singleton]

/-- A row that was inserted had a key no row of the table carries. -/
theorem fresh_of_insert? {t t' : Table α} {r : α} (h : t.insert? r = some t') :
    ∀ x ∈ t, Keyed.key x ≠ Keyed.key r := by
  unfold insert? at h
  split at h
  · cases h
  · rename_i hfresh
    intro x hx heq
    exact hfresh (heq ▸ List.mem_map_of_mem hx)

theorem get?_insert?_of_ne {t t' : Table α} {r : α} (h : t.insert? r = some t') {k : κ}
    (hk : k ≠ Keyed.key r) : t'.get? k = t.get? k := by
  unfold get?
  rw [rows_insert? h, List.find?_append]
  simp [Ne.symm hk]

/-- A row under a new key is accepted. -/
theorem insert?_isSome {t : Table α} {r : α} (h : ∀ x ∈ t, Keyed.key x ≠ Keyed.key r) :
    ∃ t', t.insert? r = some t' := by
  unfold insert?
  split
  · rename_i hmem
    obtain ⟨x, hx, heq⟩ := List.mem_map.mp hmem
    exact absurd heq (h x hx)
  · exact ⟨_, rfl⟩

/-! ## Replacement -/

/-- Replace the row that has `r`'s primary key by `r`. -/
def update (t : Table α) (r : α) : Table α where
  rows := t.rows.map fun x => if Keyed.key x = Keyed.key r then r else x
  nodup := nodup_map_key (fun x => by split <;> simp_all) t.nodup

/-- What a replacement does, for a row whose key is present: exactly that
row changes. -/
theorem mem_update {t : Table α} {r₀ : α} (r : α) (h₀ : r₀ ∈ t)
    (hk : Keyed.key r = Keyed.key r₀) {x : α} :
    x ∈ t.update r ↔ x = r ∨ (x ∈ t ∧ x ≠ r₀) := by
  simp only [mem_def, update, List.mem_map]
  constructor
  · rintro ⟨y, hy, hyx⟩
    by_cases hkey : Keyed.key y = Keyed.key r
    · rw [if_pos hkey] at hyx
      exact Or.inl hyx.symm
    · rw [if_neg hkey] at hyx
      subst hyx
      exact Or.inr ⟨hy, fun heq => hkey (heq ▸ hk.symm)⟩
  · rintro (rfl | ⟨hx, hne⟩)
    · exact ⟨r₀, h₀, if_pos hk.symm⟩
    · refine ⟨x, hx, if_neg fun heq => hne ?_⟩
      exact eq_of_key_eq hx h₀ (heq.trans hk)

theorem mem_update_of_ne {t : Table α} {r x : α} (hx : x ∈ t)
    (hne : Keyed.key x ≠ Keyed.key r) : x ∈ t.update r :=
  List.mem_map.mpr ⟨x, hx, if_neg hne⟩

/-- The last of two replacements under one key counts. -/
theorem update_update {t : Table α} {r r' : α} (h : Keyed.key r = Keyed.key r') :
    (t.update r).update r' = t.update r' := by
  have hrows : ((t.update r).update r').rows = (t.update r').rows := by
    refine (List.map_map ..).trans (List.map_congr_left fun x _ => ?_)
    by_cases hx : Keyed.key x = Keyed.key r
    · rw [Function.comp, if_pos hx, if_pos h, if_pos (hx.trans h)]
    · rw [Function.comp, if_neg hx]
  unfold update at hrows ⊢
  simpa using hrows

theorem get?_update {t : Table α} {r r₀ : α} (h₀ : t.get? (Keyed.key r) = some r₀) :
    (t.update r).get? (Keyed.key r) = some r :=
  get?_eq_some.mpr ⟨(mem_update r (mem_of_get? h₀) (key_of_get? h₀).symm).mpr (Or.inl rfl), rfl⟩

theorem get?_update_of_ne {t : Table α} {r : α} {k : κ} (hk : k ≠ Keyed.key r) :
    (t.update r).get? k = t.get? k := by
  refine Option.ext fun x => ?_
  rw [get?_eq_some, get?_eq_some]
  constructor
  · rintro ⟨hx, rfl⟩
    obtain ⟨y, hy, hyx⟩ := List.mem_map.mp hx
    split at hyx
    · exact absurd (congrArg Keyed.key hyx).symm hk
    · exact ⟨hyx ▸ hy, rfl⟩
  · rintro ⟨hx, rfl⟩
    exact ⟨mem_update_of_ne hx hk, rfl⟩

/-- A replacement leaves the keys where they are. -/
theorem keys_update (t : Table α) (r : α) :
    (t.update r).rows.map Keyed.key = t.rows.map Keyed.key := by
  show ((t.rows.map _).map Keyed.key) = _
  rw [List.map_map]
  refine List.map_congr_left fun x _ => ?_
  by_cases hx : Keyed.key x = Keyed.key r
  · rw [Function.comp, if_pos hx, hx]
  · rw [Function.comp, if_neg hx]

theorem keys_insert? {t t' : Table α} {r : α} (h : t.insert? r = some t') :
    t.rows.map Keyed.key <+: t'.rows.map Keyed.key := by
  rw [Table.rows_insert? h, List.map_append]
  exact List.prefix_append _ _

/-- A replacement exchanges one term of a sum over the rows. -/
theorem sum_update {t : Table α} {r r₀ : α} (f : α → ℕ) (h₀ : r₀ ∈ t)
    (hk : Keyed.key r = Keyed.key r₀) :
    ((t.update r).rows.map f).sum + f r₀ = (t.rows.map f).sum + f r := by
  obtain ⟨rows, hnodup⟩ := t
  show (((rows.map fun x => if Keyed.key x = Keyed.key r then r else x).map f).sum) + f r₀
    = (rows.map f).sum + f r
  replace h₀ : r₀ ∈ rows := h₀
  induction rows with
  | nil => cases h₀
  | cons x rows ih =>
      obtain ⟨hnew, hnodup⟩ := List.nodup_cons.mp hnodup
      rw [List.map_cons, List.map_cons, List.map_cons, List.sum_cons, List.sum_cons]
      rcases List.mem_cons.mp h₀ with rfl | h₀
      · have hrest : rows.map (fun y => if Keyed.key y = Keyed.key r then r else y) = rows := by
          refine (List.map_congr_left (g := id) fun y hy => if_neg fun hkey => hnew ?_).trans
            (List.map_id _)
          exact List.mem_map.mpr ⟨y, hy, hkey.trans hk⟩
        rw [if_pos hk.symm, hrest]
        omega
      · have hne : Keyed.key x ≠ Keyed.key r := fun hkey =>
          hnew (List.mem_map.mpr ⟨r₀, h₀, (hkey.trans hk).symm⟩)
        rw [if_neg hne]
        have hsum := ih hnodup h₀
        omega

/-- A row that is there already. -/
theorem update_of_mem {t : Table α} {r : α} (hr : r ∈ t) : t.update r = t := by
  refine Table.ext_rows ?_
  show t.rows.map _ = t.rows
  refine (List.map_congr_left (g := id) fun x hx => ?_).trans (List.map_id _)
  by_cases hkey : Keyed.key x = Keyed.key r
  · rw [if_pos hkey, Table.eq_of_key_eq hx hr hkey]
    rfl
  · exact if_neg hkey

end Table

end AgentBenchX
