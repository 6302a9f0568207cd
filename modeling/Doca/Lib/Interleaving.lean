import Mathlib.Algebra.BigOperators.Group.Finset.Basic
import Mathlib.Data.Fintype.Card

/-!
# Interleavings

Runs of a partial step function, in any order of its events.

* `Reach step G init s` — `s` is reached from `init` by steps that all meet the condition `G`;
  `Reach.invariant` is the induction rule, `Reach.run` and `Reach.of_run` turn a list of events
  into a run.
* `sideBySide` — many instances of one system, of which every step moves one;
  `Reach.component` and `run_component` project a run of all of them to a run of each.
* `count` — how many parties are in a given state; `count_update_succ`, `count_update_same`,
  `count_update_pred` and `count_eq_iff` follow it when one party moves, `sum_update` follows a
  sum over all parties.
-/

namespace Doca.Lib

open Function Finset

section Reach

variable {S E : Type*}

/-- The states reached from `init` by steps that all meet `G`. -/
inductive Reach (step : S → E → Option S) (G : S → E → Prop) (init : S) : S → Prop
  | init : Reach step G init init
  | tail {s s' : S} {e : E} : Reach step G init s → G s e → step s e = some s' → Reach step G init s'

variable {step : S → E → Option S} {G : S → E → Prop} {init : S}

theorem Reach.invariant {I : S → Prop} (h0 : I init)
    (hstep : ∀ s e s', I s → G s e → step s e = some s' → I s') {s : S}
    (h : Reach step G init s) : I s := by
  induction h with
  | init => exact h0
  | tail _ hg hs ih => exact hstep _ _ _ ih hg hs

def run (step : S → E → Option S) : S → List E → Option S
  | s, [] => some s
  | s, e :: rest => (step s e).bind fun s' => run step s' rest

theorem Reach.run (hG : ∀ s e, G s e) {s s' : S} {l : List E} (h : Reach step G init s)
    (hr : Lib.run step s l = some s') : Reach step G init s' := by
  induction l generalizing s with
  | nil => cases hr; exact h
  | cons e rest ih =>
    simp only [Lib.run, Option.bind_eq_some_iff] at hr
    obtain ⟨t, ht, hr⟩ := hr
    exact ih (h.tail (hG s e) ht) hr

theorem of_guard {p : Prop} [Decidable p] {s s' : S} (h : (if p then some s else none) = some s') :
    p ∧ s = s' := by
  simpa using h

def guarded (step : S → E → Option S) (G : S → E → Prop) [∀ s e, Decidable (G s e)] (s : S) (e : E) :
    Option S :=
  if G s e then step s e else none

theorem Reach.of_run [∀ s e, Decidable (G s e)] {s s' : S} {l : List E}
    (h : Reach step G init s) (hr : Lib.run (guarded step G) s l = some s') :
    Reach step G init s' := by
  induction l generalizing s with
  | nil => cases hr; exact h
  | cons e rest ih =>
    simp only [Lib.run, guarded, Option.bind_eq_some_iff] at hr
    obtain ⟨t, ht, hr⟩ := hr
    split at ht
    · rename_i hG
      exact ih (h.tail hG ht) hr
    · cases ht

end Reach

section SideBySide

variable {ι S E : Type*} [DecidableEq ι]

def sideBySide (step : ι → S → E → Option S) (s : ι → S) (e : ι × E) : Option (ι → S) :=
  (step e.1 (s e.1) e.2).map (Function.update s e.1)

theorem Reach.component {step : ι → S → E → Option S} {G : ι → S → E → Prop} {init s : ι → S}
    (h : Reach (sideBySide step) (fun s e => G e.1 (s e.1) e.2) init s) (i : ι) :
    Reach (step i) (G i) (init i) (s i) := by
  induction h with
  | init => exact .init
  | @tail s s' e _ hg hs ih =>
    simp only [sideBySide, Option.map_eq_some_iff] at hs
    obtain ⟨t, ht, rfl⟩ := hs
    by_cases hi : i = e.1
    · subst hi
      rw [update_self]
      exact ih.tail hg ht
    · rwa [update_of_ne hi]

def eventsOf (i : ι) (es : List (ι × E)) : List E :=
  es.filterMap fun e => if e.1 = i then some e.2 else none

theorem run_component {step : ι → S → E → Option S} {es : List (ι × E)} (i : ι) :
    ∀ {s s' : ι → S}, run (sideBySide step) s es = some s' →
      run (step i) (s i) (eventsOf i es) = some (s' i) := by
  induction es with
  | nil =>
    intro s s' h
    cases h
    rfl
  | cons e rest ih =>
    intro s s' h
    simp only [run, Option.bind_eq_some_iff] at h
    obtain ⟨t, ht, hr⟩ := h
    simp only [sideBySide, Option.map_eq_some_iff] at ht
    obtain ⟨x, hx, rfl⟩ := ht
    have hrest := ih hr
    by_cases hi : e.1 = i
    · subst hi
      rw [update_self] at hrest
      simp only [eventsOf, List.filterMap_cons, if_true, run, hx, Option.bind_some]
      exact hrest
    · rw [update_of_ne (Ne.symm hi)] at hrest
      simp only [eventsOf, List.filterMap_cons, if_neg hi]
      exact hrest

end SideBySide

section Count

variable {ι α : Type*} {t : Finset ι} {p : α → Bool} {f : ι → α} {i j : ι} {a : α}

def count (t : Finset ι) (p : α → Bool) (f : ι → α) : Nat := (t.filter fun j => p (f j) = true).card

theorem count_eq_zero (h : ∀ j ∈ t, p (f j) = false) : count t p f = 0 := by
  rw [count, card_eq_zero, filter_eq_empty_iff]
  intro j hj
  rw [h j hj]
  exact Bool.false_ne_true

variable [DecidableEq ι]

theorem count_update_succ (ht : j ∈ t) (hj : p (f j) = false) (ha : p a = true) :
    count t p (update f j a) = count t p f + 1 := by
  unfold count
  rw [← card_insert_of_notMem (a := j) (by simp [hj])]
  congr 1
  ext l
  by_cases hl : l = j
  · subst hl; simp [ha, ht]
  · simp [hl]

theorem count_update_same (h : p a = p (f j)) : count t p (update f j a) = count t p f := by
  unfold count
  congr 1
  ext l
  by_cases hl : l = j
  · subst hl; simp [h]
  · simp [hl]

theorem count_update_pred (ht : j ∈ t) (hj : p (f j) = true) (ha : p a = false) :
    count t p (update f j a) + 1 = count t p f := by
  have h := count_update_succ (f := update f j a) (a := f j) ht (by rw [update_self]; exact ha) hj
  rwa [update_idem, update_eq_self, eq_comm] at h

theorem sum_update (g : α → Nat) (ht : j ∈ t) :
    ∑ l ∈ t, g (update f j a l) + g (f j) = ∑ l ∈ t, g (f l) + g a := by
  rw [← add_sum_erase t _ ht, ← add_sum_erase t (fun l => g (f l)) ht, update_self]
  have hrest : ∑ l ∈ t.erase j, g (update f j a l) = ∑ l ∈ t.erase j, g (f l) :=
    sum_congr rfl fun l hl => by rw [update_of_ne (ne_of_mem_erase hl)]
  rw [hrest]
  omega

variable [Fintype ι]

theorem filter_subset_erase (hi : p (f i) = false) :
    (univ.filter fun j => p (f j) = true) ⊆ univ.erase i := by
  intro l hl
  refine mem_erase.2 ⟨?_, mem_univ l⟩
  rintro rfl
  simp [hi] at hl

theorem card_univ_erase (i : ι) : (univ.erase i).card = Fintype.card ι - 1 :=
  card_erase_of_mem (mem_univ i)

theorem count_le (hi : p (f i) = false) : count univ p f ≤ Fintype.card ι - 1 :=
  card_univ_erase i ▸ card_le_card (filter_subset_erase hi)

theorem count_eq_iff (hi : p (f i) = false) :
    count univ p f = Fintype.card ι - 1 ↔ ∀ j, j ≠ i → p (f j) = true := by
  constructor
  · intro h j hj
    have heq := eq_of_subset_of_card_le (filter_subset_erase hi) (by rw [card_univ_erase, ← h, count])
    have hm : j ∈ univ.filter fun j => p (f j) = true := by
      rw [heq]; exact mem_erase.2 ⟨hj, mem_univ j⟩
    simpa using hm
  · intro h
    refine Nat.le_antisymm (count_le hi) ?_
    rw [← card_univ_erase i]
    refine card_le_card fun l hl => ?_
    simpa using h l (ne_of_mem_erase hl)

end Count

end Doca.Lib
