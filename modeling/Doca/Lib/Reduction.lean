import Mathlib.Data.Finset.Fold

/-!
# Element-wise reduction

Buffers are functions from indices to elements; what they hold beyond a length is of no interest
(`AgreeOn`).  A commutative, associative operation with a unit reduces any finite family of
values, and the order in which the family is folded does not matter (`foldl_eq_fold`).
-/

namespace Doca.Lib

variable {α ι : Type*}

def AgreeOn (n : Nat) (b c : Nat → α) : Prop := ∀ k < n, b k = c k

theorem AgreeOn.refl (n : Nat) (b : Nat → α) : AgreeOn n b b := fun _ _ => rfl

theorem AgreeOn.trans {n : Nat} {b c d : Nat → α} (h : AgreeOn n b c) (h' : AgreeOn n c d) :
    AgreeOn n b d := fun k hk => (h k hk).trans (h' k hk)

def copyFirst (n : Nat) (src dst : Nat → α) : Nat → α := fun k => if k < n then src k else dst k

theorem copyFirst_agree (n : Nat) (src dst : Nat → α) : AgreeOn n (copyFirst n src dst) src :=
  fun _ hk => if_pos hk

section Fold

variable {op : α → α → α} {e : α} [Std.Commutative op] [Std.Associative op] [DecidableEq ι]

theorem fold_erase (f : ι → α) {s : Finset ι} {i : ι} (hi : i ∈ s) :
    op (f i) ((s.erase i).fold op e f) = s.fold op e f := by
  have h : (insert i (s.erase i)).fold op e f = op (f i) ((s.erase i).fold op e f) :=
    Finset.fold_insert (Finset.notMem_erase i s)
  rw [← h, Finset.insert_erase hi]

variable [Std.LawfulRightIdentity op e]

theorem foldl_eq_fold (f : ι → α) {l : List ι} (hl : l.Nodup) (x : α) :
    l.foldl (fun acc j => op acc (f j)) x = op x (l.toFinset.fold op e f) := by
  induction l generalizing x with
  | nil => exact (Std.LawfulRightIdentity.right_id x).symm
  | cons j rest ih =>
    obtain ⟨hj, hrest⟩ := List.nodup_cons.1 hl
    have hins : (insert j rest.toFinset).fold op e f = op (f j) (rest.toFinset.fold op e f) :=
      Finset.fold_insert (by simpa using hj)
    rw [List.foldl_cons, ih hrest, List.toFinset_cons, hins]
    exact Std.Associative.assoc x (f j) _

end Fold

end Doca.Lib
