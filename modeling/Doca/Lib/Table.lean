import Mathlib.Algebra.Order.BigOperators.Group.List
import Mathlib.Data.List.Nodup
import Mathlib.Data.List.Perm.Subperm
import Mathlib.Data.List.Range
import Mathlib.Algebra.Order.Ring.Nat

/-!
# Tables

Lists of records that are found by a key, as a model of hash tables and of memory that holds records.

* `lookup`, `put`, `others` — find a record, write it back, all records but one.
* `countP_le`, `countP_lt_of_fresh`, `le_countP_of_all` — how often the first component occurs in a set of pairs.
-/

namespace Doca.Lib

open List

variable {α κ : Type*} [DecidableEq κ]

def lookup (key : α → κ) (k : κ) (l : List α) : Option α := l.find? fun x => key x = k

def others (key : α → κ) (k : κ) (l : List α) : List α := l.filter fun x => key x ≠ k

def put (key : α → κ) (x : α) (l : List α) : List α := x :: others key (key x) l

variable {key : α → κ} {k : κ} {l : List α} {x y : α}

@[simp] theorem mem_others : y ∈ others key k l ↔ y ∈ l ∧ key y ≠ k := by
  simp [others]

theorem mem_put : y ∈ put key x l ↔ y = x ∨ (y ∈ l ∧ key y ≠ key x) := by
  simp [put]

theorem lookup_eq_none : lookup key k l = none ↔ ∀ y ∈ l, key y ≠ k := by
  simp [lookup]

theorem mem_of_lookup (h : lookup key k l = some x) : x ∈ l ∧ key x = k :=
  ⟨mem_of_find?_eq_some h, by simpa using find?_some h⟩

@[simp] theorem lookup_put : lookup key (key x) (put key x l) = some x := by
  simp [lookup, put]

theorem lookup_put_ne (h : key x ≠ k) : lookup key k (put key x l) = lookup key k l := by
  induction l with
  | nil => simp [lookup, put, others, h]
  | cons y rest ih =>
    simp only [lookup, put, others, find?_cons, filter_cons, h, decide_false] at ih ⊢
    by_cases hy : key y = k
    · simp [hy, Ne.symm h]
    · split
      · simpa [find?_cons, hy] using ih
      · simpa [hy] using ih

@[simp] theorem lookup_others : lookup key k (others key k l) = none := by
  rw [lookup_eq_none]
  intro y hy
  exact (mem_others.mp hy).2

theorem lookup_others_ne {k' : κ} (h : k ≠ k') : lookup key k' (others key k l) = lookup key k' l := by
  induction l with
  | nil => rfl
  | cons y rest ih =>
    by_cases hy : key y = k
    · have hne : key y ≠ k' := fun heq => h (hy.symm.trans heq)
      simpa [others, lookup, hy, hne, h] using ih
    · by_cases hk : key y = k'
      · simp [others, lookup, hk, Ne.symm h]
      · simpa [others, lookup, hy, hk] using ih

theorem put_put (h : key y = key x) : put key y (put key x l) = put key y l := by
  simp [put, others, h]

theorem others_of_not_mem (h : ∀ y ∈ l, key y ≠ k) : others key k l = l := by
  simpa [others] using h

theorem put_of_lookup_none (h : lookup key (key x) l = none) : put key x l = x :: l := by
  rw [put, others_of_not_mem (lookup_eq_none.mp h)]

theorem le_sum_of_mem (f : α → Nat) (hx : x ∈ l) : f x ≤ (l.map f).sum :=
  single_le_sum (fun _ _ => Nat.zero_le _) _ (mem_map_of_mem hx)

section

variable (hnd : (l.map key).Nodup)

include hnd

omit [DecidableEq κ] in
theorem eq_of_key_eq (hx : x ∈ l) (hy : y ∈ l) (h : key x = key y) : x = y :=
  inj_on_of_nodup_map hnd hx hy h

theorem lookup_of_mem (hx : x ∈ l) : lookup key (key x) l = some x := by
  cases h : lookup key (key x) l with
  | none => exact absurd rfl (lookup_eq_none.mp h x hx)
  | some y =>
    obtain ⟨hy, hkey⟩ := mem_of_lookup h
    rw [eq_of_key_eq hnd hy hx hkey]

theorem nodup_others : ((others key k l).map key).Nodup :=
  (filter_sublist.map key).nodup hnd

theorem nodup_put : ((put key x l).map key).Nodup := by
  have hsub : ((others key (key x) l).map key).Sublist (l.map key) := filter_sublist.map key
  rw [put, map_cons, nodup_cons]
  refine ⟨fun hno => ?_, hsub.nodup hnd⟩
  obtain ⟨y, hy, heq⟩ := mem_map.mp hno
  exact (mem_others.mp hy).2 heq

/-- **A table is one of its records and the others.** -/
theorem perm_cons_others (hx : x ∈ l) : l.Perm (x :: others key (key x) l) := by
  induction l with
  | nil => cases hx
  | cons y rest ih =>
    simp only [map_cons, nodup_cons] at hnd
    by_cases hxy : x = y
    · subst hxy
      have hrest : others key (key x) rest = rest :=
        others_of_not_mem fun z hz hkey => hnd.1 (hkey ▸ mem_map_of_mem hz)
      have hcons : others key (key x) (x :: rest) = others key (key x) rest := by
        simp [others]
      rw [hcons, hrest]
    · have hmem : x ∈ rest := by simpa [hxy] using hx
      have hne : key y ≠ key x := fun hkey => hnd.1 (hkey ▸ mem_map_of_mem hmem)
      have hcons : others key (key x) (y :: rest) = y :: others key (key x) rest := by
        simp [others, hne]
      rw [hcons]
      exact ((ih hnd.2 hmem).cons y).trans (List.Perm.swap x y _)

theorem perm_put (hx : x ∈ l) (h : key y = key x) : (x :: put key y l).Perm (y :: l) := by
  rw [put, h]
  exact (List.Perm.swap y x _).trans ((perm_cons_others hnd hx).symm.cons y)

end

theorem sum_put (f : α → Nat) (hnd : (l.map key).Nodup) (hx : x ∈ l) (h : key y = key x) :
    f x + ((put key y l).map f).sum = f y + (l.map f).sum := by
  simpa using ((perm_put hnd hx h).map f).sum_eq

theorem sum_others (f : α → Nat) (hnd : (l.map key).Nodup) (hx : x ∈ l) :
    (l.map f).sum = f x + ((others key (key x) l).map f).sum := by
  simpa using ((perm_cons_others hnd hx).map f).sum_eq

theorem map_put_perm {β : Type*} (f : α → β) (hnd : (l.map key).Nodup) (hx : x ∈ l)
    (h : key y = key x) (hf : f y = f x) : ((put key y l).map f).Perm (l.map f) := by
  have hperm := (perm_put hnd hx h).map f
  simp only [map_cons, hf] at hperm
  exact (perm_cons (f x)).mp hperm

/-! ## Pairs -/

section Pairs

variable {β : Type*} [DecidableEq β] {ps : List (β × Nat)} {a : β} {j n : Nat}

theorem countP_le (hnd : ps.Nodup) (hle : ∀ p ∈ ps, p.2 < n) : ps.countP (fun p => p.1 = a) ≤ n := by
  have hsub : (ps.filter fun p => p.1 = a) ⊆ (range n).map fun i => (a, i) := by
    intro p hp
    obtain ⟨hp, hfst⟩ := mem_filter.mp hp
    refine mem_map.mpr ⟨p.2, mem_range.mpr (hle p hp), ?_⟩
    rw [← of_decide_eq_true hfst]
  have hlen := (subperm_of_subset (hnd.filter _) hsub).length_le
  rw [countP_eq_length_filter]
  simpa using hlen

theorem countP_lt_of_fresh (hnd : ps.Nodup) (hle : ∀ p ∈ ps, p.2 < n) (hj : j < n)
    (hfresh : (a, j) ∉ ps) : ps.countP (fun p => p.1 = a) < n := by
  have hmore : ((a, j) :: ps).countP (fun p => p.1 = a) ≤ n := by
    refine countP_le (nodup_cons.mpr ⟨hfresh, hnd⟩) fun p hp => ?_
    rcases mem_cons.mp hp with rfl | hp
    · exact hj
    · exact hle p hp
  rw [countP_cons_of_pos (by simp)] at hmore
  omega

theorem le_countP_of_all (hall : ∀ i < n, (a, i) ∈ ps) : n ≤ ps.countP fun p => p.1 = a := by
  have hsub : ((range n).map fun i => (a, i)) ⊆ ps.filter fun p => p.1 = a := by
    intro p hp
    obtain ⟨i, hi, rfl⟩ := mem_map.mp hp
    exact mem_filter.mpr ⟨hall i (mem_range.mp hi), by simp⟩
  have hnd : ((range n).map fun i => (a, i)).Nodup :=
    nodup_range.map fun i j h => (Prod.mk.injEq .. ▸ h).2
  have hlen := (subperm_of_subset hnd hsub).length_le
  rw [countP_eq_length_filter]
  simpa using hlen

end Pairs

end Doca.Lib
