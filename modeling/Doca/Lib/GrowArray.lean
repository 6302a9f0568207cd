import Mathlib.Tactic.Common

/-!
# Arrays that grow by `realloc`

* `Block α` — an allocated array: its address and its cells, whose number is the allocated size.
* `Block.realloc` — the allocator chooses the new address, or fails; the cells that both sizes have
  are kept, the others hold whatever was there.
* `grow k` — the growth step of an array of `count` used cells: whenever `count` is a positive
  multiple of `k`, make room for `k` more.

Principal results: `Room.grow` — with the growth step in front of every insertion, the next free
index is inside the array (`count < size`); `Room.succ` — and the insertion keeps this up.
-/

namespace Doca.Lib

variable {α : Type}

structure Block (α : Type) where
  addr : Nat
  cells : List α

/-- The answer of the allocator: `none` is a failure, otherwise the new address and the content of new
    cells. -/
abbrev Alloc (α : Type) := Option (Nat × (Nat → α))

def Block.realloc (b : Block α) (answer : Alloc α) (n : Nat) : Option (Block α) :=
  answer.map fun a =>
    ⟨a.1, b.cells.take n ++ (List.range (n - b.cells.length)).map (fun i => a.2 (b.cells.length + i))⟩

/-- The array, grown by `k` cells whenever its `count` used cells fill whole blocks of `k`. -/
def grow (k : Nat) (answer : Alloc α) (count : Nat) (b : Block α) : Option (Block α) :=
  if count ≠ 0 ∧ count % k = 0 then b.realloc answer (count + k) else some b

structure Room (k count : Nat) (b : Block α) : Prop where
  blocks : k ∣ b.cells.length
  used : count ≤ b.cells.length
  full : count = b.cells.length → count ≠ 0

variable {k count n : Nat} {answer : Alloc α} {b b' : Block α}

theorem Block.realloc_length (h : b.realloc answer n = some b') : b'.cells.length = n := by
  simp only [Block.realloc, Option.map_eq_some_iff] at h
  obtain ⟨a, _, rfl⟩ := h
  simp only [List.length_append, List.length_take, List.length_map, List.length_range]
  omega

theorem grow_of_some (k count : Nat) (a : Nat × (Nat → α)) (b : Block α) :
    ∃ b', Lib.grow k (some a) count b = some b' := by
  unfold Lib.grow
  split <;> exact ⟨_, rfl⟩

theorem Room.grow (hk : 0 < k) (hr : Room k count b) (h : Lib.grow k answer count b = some b') :
    k ∣ b'.cells.length ∧ count < b'.cells.length := by
  unfold Lib.grow at h
  by_cases hc : count ≠ 0 ∧ count % k = 0
  · rw [if_pos hc] at h
    rw [Block.realloc_length h]
    exact ⟨Nat.dvd_add (Nat.dvd_of_mod_eq_zero hc.2) (Nat.dvd_refl k), by omega⟩
  · rw [if_neg hc] at h
    cases h
    refine ⟨hr.blocks, Nat.lt_of_le_of_ne hr.used fun heq => hc ⟨hr.full heq, ?_⟩⟩
    rw [heq]
    exact Nat.mod_eq_zero_of_dvd hr.blocks

theorem Room.succ (hdvd : k ∣ b.cells.length) (hlt : count < b.cells.length) : Room k (count + 1) b :=
  ⟨hdvd, hlt, fun _ => Nat.succ_ne_zero count⟩

theorem Room.start (hk : 0 < k) (hlen : b.cells.length = k) : Room k 0 b :=
  ⟨hlen ▸ Nat.dvd_refl _, Nat.zero_le _, fun h => absurd (h.trans hlen) (Nat.ne_of_lt hk)⟩

end Doca.Lib
