import Mathlib.Tactic.Common

/-!
# Rings

A ring of `N` slots into which a producer writes its `k`-th item at slot `k % N`.

* `RingHolds N P Q written ring` — after `written` items the last `N` of them are in their slots, as `P`
  says for each, and the slots not written so far are as `Q` says.
* `RingHolds.write` — one more item; `RingHolds.mono` — a weaker description.
* `RingHolds.read_next` — what is in the slot of the next item: the item of the lap before, or nothing.
-/

namespace Doca.Lib

open Function

variable {α : Type*} {N written : Nat} {P P' : Nat → α → Prop} {Q : α → Prop} {ring : Nat → α}

/-- The last `N` items are in their slots, and the slots not written are as they were. -/
structure RingHolds (N : Nat) (P : Nat → α → Prop) (Q : α → Prop) (written : Nat) (ring : Nat → α) :
    Prop where
  recent : ∀ {k}, k < written → written ≤ k + N → P k (ring (k % N))
  unwritten : ∀ {j}, written ≤ j → j < N → Q (ring j)

theorem RingHolds.empty (h : ∀ j, Q (ring j)) : RingHolds N P Q 0 ring :=
  ⟨fun hk => absurd hk (Nat.not_lt_zero _), fun _ _ => h _⟩

theorem RingHolds.mono (h : RingHolds N P Q written ring)
    (himp : ∀ k a, k < written → P k a → P' k a) : RingHolds N P' Q written ring :=
  ⟨fun hk hle => himp _ _ hk (h.recent hk hle), h.unwritten⟩

theorem mod_ne_of_lt {i j : Nat} (hij : i < j) (hlap : j < i + N) : i % N ≠ j % N := by
  intro heq
  have hzero := Nat.sub_mod_eq_zero_of_mod_eq heq.symm
  rw [Nat.mod_eq_of_lt (by omega)] at hzero
  omega

theorem RingHolds.write (h : RingHolds N P Q written ring) {a : α} (ha : P written a) :
    RingHolds N P Q (written + 1) (update ring (written % N) a) := by
  refine ⟨fun {k} hk hle => ?_, fun {j} hj hlt => ?_⟩
  · rcases Nat.lt_succ_iff_lt_or_eq.mp hk with hk | rfl
    · rw [update_of_ne (mod_ne_of_lt hk (by omega))]
      exact h.recent hk (by omega)
    · rw [update_self]
      exact ha
  · have hne : j ≠ written % N := by
      rw [Nat.mod_eq_of_lt (by omega)]
      omega
    rw [update_of_ne hne]
    exact h.unwritten (by omega) hlt

theorem RingHolds.read_next (h : RingHolds N P Q written ring) (hN : 0 < N) :
    (N ≤ written ∧ P (written - N) (ring (written % N))) ∨ (written < N ∧ Q (ring (written % N))) := by
  rcases Nat.lt_or_ge written N with hlt | hge
  · right
    rw [Nat.mod_eq_of_lt hlt]
    exact ⟨hlt, h.unwritten (Nat.le_refl _) hlt⟩
  · left
    have hold := @RingHolds.recent _ _ _ _ _ _ h (written - N) (by omega) (by omega)
    rw [← Nat.mod_eq_sub_mod hge] at hold
    exact ⟨hge, hold⟩

end Doca.Lib
