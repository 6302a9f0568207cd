import Mathlib.Data.Set.Insert
import Mathlib.Tactic.Common

/-!
# Bitmaps as windows onto a set of numbers

A `w`-bit word together with a base `b` describes the part of a set of natural numbers that
lies in `b … b + w - 1`: bit `i` is set exactly when `b + i` is a member (`Covers`).

* `Covers.test` — the usual mask test reads one membership;
* `Covers.insert` — or-ing a mask adds one number of the window;
* `Covers.slide` — a right shift by `d` moves the base up by `d` and keeps every member that is
  still in the window; the top bit then enters the new last number;
* `Covers.reset` — a slide by `w` or more forgets everything but the new last number.

`Acceptor` is the unbounded acceptor such a window stands for: it keeps every number it has ever
accepted, and the highest one.
-/

namespace Doca.Lib

variable {w : Nat}

def Covers (bm : BitVec w) (b : Nat) (S : Set Nat) : Prop :=
  ∀ i < w, bm.getLsbD i = true ↔ b + i ∈ S

theorem getLsbD_one_shiftLeft {i d : Nat} (hi : i < w) : (1#w <<< d).getLsbD i = decide (i = d) := by
  by_cases h : i < d
  · simp [BitVec.getLsbD_shiftLeft, h]; omega
  · simp only [BitVec.getLsbD_shiftLeft, BitVec.getLsbD_one]
    by_cases he : i = d
    · simp [he]; omega
    · simp [he, hi, h]; omega

theorem and_mask_ne_zero (bm : BitVec w) {d : Nat} (hd : d < w) :
    bm &&& (1#w <<< d) ≠ 0 ↔ bm.getLsbD d = true := by
  constructor
  · intro h
    by_contra hb
    apply h
    apply BitVec.eq_of_getLsbD_eq
    intro i hi
    rw [BitVec.getLsbD_and, getLsbD_one_shiftLeft hi]
    by_cases he : i = d
    · subst he; simp [hb]
    · simp [he]
  · intro hb h
    have hz : (bm &&& (1#w <<< d)).getLsbD d = false := by rw [h]; simp
    rw [BitVec.getLsbD_and, getLsbD_one_shiftLeft hd, hb] at hz
    simp at hz

namespace Covers

variable {bm : BitVec w} {b d : Nat} {S : Set Nat}

theorem empty (b : Nat) : Covers (0#w) b ∅ := by
  intro i _
  simp

theorem test (h : Covers bm b S) (hd : d < w) : bm &&& (1#w <<< d) ≠ 0 ↔ b + d ∈ S := by
  rw [and_mask_ne_zero bm hd, h d hd]

theorem insert (h : Covers bm b S) : Covers (bm ||| (1#w <<< d)) b (insert (b + d) S) := by
  intro i hi
  rw [BitVec.getLsbD_or, getLsbD_one_shiftLeft hi, Bool.or_eq_true, h i hi, decide_eq_true_eq,
    Set.mem_insert_iff, or_comm, Nat.add_left_cancel_iff]

/-- Sliding by a shift.  Members beyond the old window must not exist: they would have to appear
    in the new one. -/
theorem slide (h : Covers bm b S) (hS : ∀ n ∈ S, n < b + w) :
    Covers ((bm >>> d) ||| (1#w <<< (w - 1))) (b + d) (Insert.insert (b + d + (w - 1)) S) := by
  intro i hi
  rw [BitVec.getLsbD_or, getLsbD_one_shiftLeft hi, Bool.or_eq_true, BitVec.getLsbD_ushiftRight,
    decide_eq_true_eq, Set.mem_insert_iff, Nat.add_left_cancel_iff, or_comm]
  by_cases hw : d + i < w
  · rw [h (d + i) hw, Nat.add_assoc]
  · have h1 : ¬ bm.getLsbD (d + i) = true := by
      rw [BitVec.getLsbD_of_ge _ _ (by omega)]; decide
    have h2 : b + d + i ∉ S := fun hm => by have := hS _ hm; omega
    simp [h1, h2]

theorem reset (hS : ∀ n ∈ S, n < b + w) (hd : w ≤ d) :
    Covers (1#w <<< (w - 1)) (b + d) (Insert.insert (b + d + (w - 1)) S) := by
  intro i hi
  have hn : b + d + i ∉ S := fun hm => by have := hS _ hm; omega
  rw [getLsbD_one_shiftLeft hi, decide_eq_true_eq, Set.mem_insert_iff, Nat.add_left_cancel_iff]
  simp [hn]

end Covers

structure Acceptor where
  high : Nat
  seen : Set Nat

namespace Acceptor

def Accepts (w : Nat) (a : Acceptor) (n : Nat) : Prop := n ∉ a.seen ∧ a.high < n + w

def accept (a : Acceptor) (n : Nat) : Acceptor := ⟨max a.high n, insert n a.seen⟩

def Bounded (a : Acceptor) : Prop := ∀ n ∈ a.seen, n ≤ a.high

theorem Bounded.accept {a : Acceptor} (h : a.Bounded) (n : Nat) : (a.accept n).Bounded := by
  intro k hk
  rcases hk with rfl | hk
  · exact Nat.le_max_right _ _
  · exact Nat.le_trans (h k hk) (Nat.le_max_left _ _)

end Acceptor

end Doca.Lib
