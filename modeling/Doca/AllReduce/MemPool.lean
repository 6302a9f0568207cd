import Doca.Common.Error
import Doca.Lib.Interleaving

/-!
# All-reduce: the memory pools

Model of `_populate_mem_pool_range`, `allreduce_create_mpool`, `allreduce_aloc_vec`,
`allreduce_free_vec` and `allreduce_free_vecs` (`allreduce_mem_pool.c`, CPU build).  The elements are
addresses of any type; what the allocator answers is part of a call.

* `MPool` — `struct mpool`; the slots of `stack` below `head` keep stale pointers, as in the source.
* The functions return `none` where the source leaves the array `stack`: byte counts are `size_t`, so
  the array has `stackSlots n` slots where `n` were asked for.
* `Ledger` — the elements that are taken out, and all that were ever allocated.
* `poolStep` — one call; `Admissible` — the caller only gives back what it has, and the allocator
  returns fresh elements; `Fits` — the bytes of the array can be counted.

Principal results: `populateLoop_spec` and `populateLoop_none` — what a population does, and when it
leaves the array; `PoolInv.alocVec`, `PoolInv.freeVec`, `PoolInv.freeVecs`; `pool_good_iff`.
-/

namespace Doca.AllReduce

open Doca.Lib List Option Nat Function

/-! ## The functions of the source -/

inductive MemType where
  | cpu
  | cuda
  | cudaManaged
  | custom
  deriving DecidableEq

def MemType.known : MemType → Bool
  | .cpu => true
  | .custom => true
  | .cuda => false
  | .cudaManaged => false

structure MPool (E : Type) where
  stack : Nat → Option E
  slots : Nat
  size : Nat
  head : Nat
  mtype : MemType

def stackSlots (n : Nat) : Nat := n * 8 % 2 ^ 64 / 8

variable {E : Type}

namespace MPool

def store (mp : MPool E) (i : Nat) (v : Option E) : Option (MPool E) :=
  if i < mp.slots then some { mp with stack := update mp.stack i v } else none

/-- The loop of `_populate_mem_pool_range` over `k` slots from `i` on; `answers j` comes from `malloc` or
    `faloc` for slot `j`. -/
def populateLoop (answers : Nat → Option E) : Nat → Nat → MPool E → Option (DocaError × MPool E)
  | 0, _, mp => some (.success, mp)
  | k + 1, i, mp => do
    let mp ← mp.store i (answers i)
    match answers i with
    | none => some (.noMemory, { mp with size := i })
    | some _ => populateLoop answers k (i + 1) mp

def populateMemPoolRange (mp : MPool E) (start stop : Nat) (answers : Nat → Option E) :
    Option (DocaError × MPool E) :=
  if mp.mtype.known then populateLoop answers (stop - start) start mp
  else some (.invalidValue, mp)

/-- `allreduce_create_mpool`; `stackOk` tells whether `malloc` returns an array for the stack. -/
def createMpool (nbElems : Nat) (mtype : MemType) (stackOk : Bool) (answers : Nat → Option E) :
    Option (DocaError × MPool E) :=
  let mp : MPool E := ⟨fun _ => none, stackSlots nbElems, nbElems, 0, mtype⟩
  if stackOk then populateMemPoolRange mp 0 nbElems answers else some (.noMemory, mp)

def take (mp : MPool E) : Option (DocaError × Option E × MPool E) :=
  if mp.head < mp.slots then
    some (.success, mp.stack mp.head, { mp with head := mp.head + 1 })
  else none

/-- `allreduce_aloc_vec`.  A `realloc` to no bytes at all releases the array. -/
def alocVec (mp : MPool E) (reallocOk : Bool) (answers : Nat → Option E) :
    Option (DocaError × Option E × MPool E) :=
  if mp.head = mp.size then
    if stackSlots (2 * mp.size) = 0 then none
    else if reallocOk then do
      let grown := { mp with slots := stackSlots (2 * mp.size), size := 2 * mp.size % 2 ^ 64 }
      let r ← grown.populateMemPoolRange grown.head grown.size answers
      if r.1 = .success then r.2.take else some (r.1, none, r.2)
    else some (.noMemory, none, mp)
  else mp.take

def freeVec (mp : MPool E) (vec : E) : Option (MPool E) :=
  if mp.head = 0 then none
  else { mp with head := mp.head - 1 }.store (mp.head - 1) (some vec)

def freeVecs (mp : MPool E) : List E → Option (MPool E)
  | [] => some mp
  | v :: vecs => do
    let mp ← mp.freeVec v
    mp.freeVecs vecs

end MPool

/-! ## Populating a range -/

def allocated (answers : Nat → Option E) : Nat → Nat → List E
  | _, 0 => []
  | i, k + 1 =>
    match answers i with
    | none => []
    | some v => v :: allocated answers (i + 1) k

variable {answers : Nat → Option E} {mp mp' : MPool E}

theorem allocated_length_le (answers : Nat → Option E) :
    ∀ (k i : Nat), (allocated answers i k).length ≤ k := by
  intro k
  induction k with
  | zero => exact fun i => le_refl _
  | succ k ih =>
    intro i
    unfold allocated
    split
    · exact zero_le _
    · have := ih (i + 1)
      simp only [length_cons]
      omega

theorem mem_allocated : ∀ {k i : Nat} {v : E}, v ∈ allocated answers i k →
    ∃ j, i ≤ j ∧ j < i + k ∧ answers j = some v := by
  intro k
  induction k with
  | zero => exact fun h => absurd h not_mem_nil
  | succ k ih =>
    intro i v h
    unfold allocated at h
    split at h
    · exact absurd h not_mem_nil
    rename_i hw
    rcases mem_cons.mp h with rfl | h
    · exact ⟨i, le_refl i, by omega, hw⟩
    · obtain ⟨j, hij, hj, hv⟩ := ih h
      exact ⟨j, by omega, by omega, hv⟩

structure Populated (answers : Nat → Option E) (k i : Nat) (mp : MPool E) (r : DocaError)
    (mp' : MPool E) : Prop where
  below : ∀ j < i, mp'.stack j = mp.stack j
  filled : ∀ j < (allocated answers i k).length, mp'.stack (i + j) = (allocated answers i k)[j]?
  slots : mp'.slots = mp.slots
  head : mp'.head = mp.head
  mtype : mp'.mtype = mp.mtype
  outcome : ((allocated answers i k).length = k ∧ r = .success ∧ mp'.size = mp.size) ∨
    ((allocated answers i k).length < k ∧ r = .noMemory ∧ mp'.size = i + (allocated answers i k).length)

/-- **A population that stays inside the array**: also the slot of a failed allocation is written. -/
theorem populateLoop_spec : ∀ {k i : Nat} {mp : MPool E},
    i + min k ((allocated answers i k).length + 1) ≤ mp.slots →
    ∃ r mp', MPool.populateLoop answers k i mp = some (r, mp') ∧ Populated answers k i mp r mp' := by
  intro k
  induction k with
  | zero =>
    intro i mp _
    exact ⟨_, _, rfl, fun _ _ => rfl, fun j hj => absurd hj (not_lt_zero j), rfl, rfl, rfl,
      .inl ⟨rfl, rfl, rfl⟩⟩
  | succ k ih =>
    intro i mp hfit
    have hi : i < mp.slots := by omega
    simp only [MPool.populateLoop, MPool.store, if_pos hi, bind_eq_bind, bind_some]
    cases hans : answers i with
    | none =>
      refine ⟨_, _, rfl, fun j hj => ?_, fun j hj => ?_, rfl, rfl, rfl, .inr ?_⟩
      · exact update_of_ne (by omega) _ _
      · simp [allocated, hans] at hj
      · simp [allocated, hans]
    | some v =>
      have hcons : allocated answers i (k + 1) = v :: allocated answers (i + 1) k := by
        simp only [allocated, hans]
      rw [hcons, length_cons] at hfit
      obtain ⟨r, mp', hrun, hpop⟩ := @ih (i + 1)
        { mp with stack := update mp.stack i (some v) } (by dsimp only; omega)
      refine ⟨r, mp', hrun, fun j hj => ?_, fun j hj => ?_, hpop.slots, hpop.head, hpop.mtype, ?_⟩
      · rw [hpop.below j (by omega)]
        exact update_of_ne (by omega) _ _
      · rw [hcons] at hj ⊢
        cases j with
        | zero =>
          rw [add_zero, hpop.below i (by omega)]
          simp
        | succ j =>
          have hstep := hpop.filled j (by simpa using hj)
          rw [show i + (j + 1) = i + 1 + j by omega, hstep, getElem?_cons_succ]
      · rw [hcons, length_cons]
        rcases hpop.outcome with ⟨hlen, hr, hsize⟩ | ⟨hlen, hr, hsize⟩
        · exact .inl ⟨by omega, hr, hsize⟩
        · exact .inr ⟨by omega, hr, by omega⟩

theorem populateLoop_none : ∀ {k i : Nat} {mp : MPool E},
    mp.slots < i + min k ((allocated answers i k).length + 1) → i ≤ mp.slots →
    MPool.populateLoop answers k i mp = none := by
  intro k
  induction k with
  | zero =>
    intro i mp h hi
    omega
  | succ k ih =>
    intro i mp h hi
    by_cases hlt : i < mp.slots
    · simp only [MPool.populateLoop, MPool.store, if_pos hlt, bind_eq_bind, bind_some]
      cases hans : answers i with
      | none =>
        simp only [allocated, hans, length_nil] at h
        omega
      | some v =>
        simp only [allocated, hans, length_cons] at h
        exact ih (by dsimp only; omega) (by dsimp only; omega)
    · simp only [MPool.populateLoop, MPool.store, if_neg hlt, bind_eq_bind, bind_none]

/-! ## The invariant -/

structure Ledger (E : Type) where
  outstanding : List E
  ever : List E

structure PoolInv (mp : MPool E) (l : Ledger E) (free : List E) : Prop where
  head : mp.head = l.outstanding.length
  size : mp.size = mp.head + free.length
  room : mp.size ≤ mp.slots
  slots : mp.slots < 2 ^ 61
  pos : 0 < mp.size
  known : mp.mtype.known = true
  stack : ∀ i < free.length, mp.stack (mp.head + i) = free[i]?
  perm : (l.outstanding ++ free).Perm l.ever
  nodup : l.ever.Nodup

structure Fresh (ever : List E) (answers : Nat → Option E) : Prop where
  new : ∀ i v, answers i = some v → v ∉ ever
  distinct : ∀ i j v, answers i = some v → answers j = some v → i = j

theorem Fresh.allocated_nodup {ever : List E} (h : Fresh ever answers) :
    ∀ (k i : Nat), (allocated answers i k).Nodup := by
  intro k
  induction k with
  | zero => exact fun i => nodup_nil
  | succ k ih =>
    intro i
    unfold allocated
    split
    · exact nodup_nil
    rename_i v hv
    refine nodup_cons.mpr ⟨fun hmem => ?_, ih (i + 1)⟩
    obtain ⟨j, hij, -, hj⟩ := mem_allocated hmem
    have := h.distinct i j v hv hj
    omega

theorem Fresh.nodup_append {ever : List E} (h : Fresh ever answers) (hever : ever.Nodup)
    (k i : Nat) : (ever ++ allocated answers i k).Nodup := by
  refine List.Nodup.append hever (h.allocated_nodup k i) fun v hold hnew => ?_
  obtain ⟨j, -, -, hj⟩ := mem_allocated hnew
  exact h.new j v hj hold

theorem stackSlots_eq (n : Nat) : stackSlots n = n % 2 ^ 61 := by
  unfold stackSlots
  omega

variable {l : Ledger E} {free : List E}

theorem PoolInv.take (h : PoolInv mp l free) (hfree : mp.head < mp.size) : ∃ v rest, free = v :: rest ∧
      mp.take = some (.success, some v, { mp with head := mp.head + 1 }) ∧
      PoolInv { mp with head := mp.head + 1 } ⟨l.outstanding ++ [v], l.ever⟩ rest := by
  have hsize := h.size
  have hroom := h.room
  cases free with
  | nil => simp at hsize; omega
  | cons v rest =>
    have hv := h.stack 0 (by simp)
    rw [add_zero, getElem?_cons_zero] at hv
    refine ⟨v, rest, rfl, ?_, ?_, ?_, hroom, h.slots, h.pos, h.known, fun i hi => ?_, ?_, h.nodup⟩
    · rw [MPool.take, if_pos (by omega), hv]
    · simp [h.head]
    · simp only [length_cons] at hsize ⊢
      omega
    · have hi' := h.stack (i + 1) (by simpa using hi)
      rw [getElem?_cons_succ] at hi'
      rw [← hi', add_comm i 1, ← add_assoc]
    · simpa using h.perm

def grownBy (mp : MPool E) (reallocOk : Bool) (answers : Nat → Option E) : List E :=
  if mp.head = mp.size ∧ reallocOk then allocated answers mp.head mp.size else []

def GrowthFits (mp : MPool E) (reallocOk : Bool) : Prop :=
  mp.head = mp.size → mp.size < 2 ^ 60 ∨ (reallocOk = false ∧ mp.size ≠ 2 ^ 60)

theorem PoolInv.grow (h : PoolInv mp l free) (hfull : mp.head = mp.size) (hlt : mp.size < 2 ^ 60)
    (hfresh : Fresh l.ever answers) :
    ∃ r mp', { mp with slots := stackSlots (2 * mp.size), size := 2 * mp.size % 2 ^ 64
        }.populateMemPoolRange mp.head (2 * mp.size % 2 ^ 64) answers = some (r, mp') ∧
      PoolInv mp' ⟨l.outstanding, l.ever ++ allocated answers mp.head mp.size⟩
        (allocated answers mp.head mp.size) ∧
      (r = .success → mp'.head < mp'.size) ∧ mp'.head = mp.head := by
  have hpos := h.pos
  have hfree : free = [] := by
    have hsize := h.size
    exact length_eq_zero_iff.mp (by omega)
  have hdouble : 2 * mp.size % 2 ^ 64 = 2 * mp.size := by omega
  have hcount : 2 * mp.size - mp.head = mp.size := by omega
  have hslots : stackSlots (2 * mp.size) = 2 * mp.size := by
    rw [stackSlots_eq]
    omega
  have hle := allocated_length_le answers mp.size mp.head
  rw [hdouble, hslots, MPool.populateMemPoolRange, if_pos h.known, hcount]
  obtain ⟨r, mp', hrun, hpop⟩ := @populateLoop_spec E answers mp.size mp.head
    { mp with slots := 2 * mp.size, size := 2 * mp.size } (by dsimp only; omega)
  have hhead' : mp'.head = mp.head := hpop.head
  have hslots' : mp'.slots = 2 * mp.size := hpop.slots
  have hsize' : mp'.size = mp.head + (allocated answers mp.head mp.size).length := by
    rcases hpop.outcome with ⟨hlen, -, hs⟩ | ⟨-, -, hs⟩
    · rw [hs, hlen]
      dsimp only
      omega
    · exact hs
  refine ⟨r, mp', hrun, ⟨by rw [hhead', h.head], by rw [hsize', hhead'], by omega, by omega,
    by omega, by rw [hpop.mtype]; exact h.known, fun i hi => ?_, ?_, ?_⟩, fun hr => ?_, hhead'⟩
  · rw [hhead']
    exact hpop.filled i hi
  · have hperm := h.perm
    rw [hfree, append_nil] at hperm
    exact hperm.append_right _
  · exact hfresh.nodup_append h.nodup _ _
  · rcases hpop.outcome with ⟨hlen, -, -⟩ | ⟨-, hr', -⟩
    · omega
    · rw [hr] at hr'
      cases hr'

structure AlocSpec (mp : MPool E) (l : Ledger E) (reallocOk : Bool) (answers : Nat → Option E)
    (r : DocaError) (v : Option E) (mp' : MPool E) : Prop where
  inv : ∃ free, PoolInv mp' ⟨l.outstanding ++ v.toList, l.ever ++ grownBy mp reallocOk answers⟩ free
  taken : r = .success ↔ v.isSome = true
  head : r ≠ .success → mp'.head = mp.head

/-- **Allocation.**  It succeeds with a free element, or fails and takes none out. -/
theorem PoolInv.alocVec (h : PoolInv mp l free) {reallocOk : Bool} (hfits : GrowthFits mp reallocOk)
    (hfresh : Fresh l.ever answers) :
    ∃ r v mp', mp.alocVec reallocOk answers = some (r, v, mp') ∧
      AlocSpec mp l reallocOk answers r v mp' := by
  have hsize := h.size
  by_cases hfull : mp.head = mp.size
  · have hfits := hfits hfull
    have hzero : stackSlots (2 * mp.size) ≠ 0 := by
      have hpos := h.pos
      have hslots := h.slots
      have hroom := h.room
      rw [stackSlots_eq]
      omega
    simp only [MPool.alocVec, if_pos hfull, if_neg hzero]
    cases reallocOk with
    | false =>
      refine ⟨_, _, _, rfl, ⟨free, ?_⟩, by simp, fun _ => rfl⟩
      simpa [grownBy] using h
    | true =>
      have hlt : mp.size < 2 ^ 60 := by
        rcases hfits with hlt | ⟨hno, -⟩
        · exact hlt
        · cases hno
      obtain ⟨r, mp', hpop, hinv, hmore, hhead⟩ := h.grow hfull hlt hfresh
      have hgrown : grownBy mp true answers = allocated answers mp.head mp.size := by
        rw [grownBy, if_pos ⟨hfull, rfl⟩]
      simp only [if_true, hpop, bind_eq_bind, bind_some]
      by_cases hr : r = .success
      · obtain ⟨v, rest, -, htake, hinv'⟩ := hinv.take (hmore hr)
        rw [if_pos hr, htake]
        refine ⟨_, _, _, rfl, ⟨rest, ?_⟩, by simp, fun hne => absurd rfl hne⟩
        rw [hgrown]
        exact hinv'
      · rw [if_neg hr]
        refine ⟨_, _, _, rfl, ⟨allocated answers mp.head mp.size, ?_⟩, by simp [hr], fun _ => hhead⟩
        rw [hgrown, toList_none, append_nil]
        exact hinv
  · obtain ⟨v, rest, -, htake, hinv⟩ := h.take (by omega)
    simp only [MPool.alocVec, if_neg hfull]
    refine ⟨_, _, _, htake, ⟨rest, ?_⟩, by simp, fun hne => absurd rfl hne⟩
    rw [grownBy, if_neg (fun hc => hfull hc.1), append_nil]
    exact hinv

theorem PoolInv.alocVec_none (h : PoolInv mp l free) {reallocOk : Bool}
    (hfits : ¬ GrowthFits mp reallocOk) : mp.alocVec reallocOk answers = none := by
  simp only [GrowthFits, Classical.not_imp, not_or, not_and, Classical.not_not] at hfits
  obtain ⟨hfull, hlarge, hexact⟩ := hfits
  have hroom := h.room
  have hslots := h.slots
  rw [MPool.alocVec, if_pos hfull, stackSlots_eq]
  split
  · rfl
  have hok : reallocOk = true := by
    cases reallocOk with
    | true => rfl
    | false =>
      have := hexact rfl
      omega
  have hdouble : 2 * mp.size % 2 ^ 64 = 2 * mp.size := by omega
  have hcount : 2 * mp.size - mp.head = mp.size := by omega
  -- the array is shorter than the part that is in use
  have hnone : MPool.populateLoop answers mp.size mp.head
      { mp with slots := 2 * mp.size % 2 ^ 61, size := 2 * mp.size } = none := by
    have hpos : mp.size = mp.size - 1 + 1 := by omega
    rw [hpos, MPool.populateLoop, MPool.store, if_neg (by dsimp only; omega)]
    rfl
  simp only [hok, if_true, hdouble, MPool.populateMemPoolRange, h.known, hcount, hnone,
    bind_eq_bind, bind_none]

theorem PoolInv.freeVec [DecidableEq E] (h : PoolInv mp l free) {v : E} (hv : v ∈ l.outstanding) :
    ∃ mp', mp.freeVec v = some mp' ∧ PoolInv mp' ⟨l.outstanding.erase v, l.ever⟩ (v :: free) := by
  have hlen := length_pos_of_mem hv
  have hhead := h.head
  have hroom := h.room
  have hsize := h.size
  rw [MPool.freeVec, if_neg (by omega), MPool.store, if_pos (by dsimp only; omega)]
  refine ⟨_, rfl, ?_, ?_, hroom, h.slots, h.pos, h.known, fun i hi => ?_, ?_, h.nodup⟩
  · simp only [length_erase_of_mem hv, hhead]
  · simp only [length_cons]
    omega
  · cases i with
    | zero => simp
    | succ i =>
      have hi' := h.stack i (by simpa using hi)
      rw [getElem?_cons_succ, ← hi']
      dsimp only
      rw [update_of_ne (by omega)]
      congr 1
      omega
  · refine perm_middle.trans (List.Perm.trans ?_ h.perm)
    exact ((perm_cons_erase hv).append_right free).symm

theorem PoolInv.freeVecs [DecidableEq E] : ∀ {vecs : List E} {mp : MPool E} {l : Ledger E}
    {free : List E}, PoolInv mp l free → vecs.Subperm l.outstanding →
    ∃ mp' free', mp.freeVecs vecs = some mp' ∧ PoolInv mp' ⟨l.outstanding.diff vecs, l.ever⟩ free' := by
  intro vecs
  induction vecs with
  | nil =>
    intro mp l free h _
    exact ⟨mp, free, rfl, h⟩
  | cons v vecs ih =>
    intro mp l free h hsub
    obtain ⟨mp₁, hrun, hinv⟩ := h.freeVec (hsub.subset (mem_cons_self ..))
    have hsub' : vecs.Subperm (l.outstanding.erase v) := by
      simpa using hsub.erase v
    obtain ⟨mp₂, free', hrest, hinv'⟩ := ih hinv hsub'
    refine ⟨mp₂, free', ?_, ?_⟩
    · rw [MPool.freeVecs, hrun]
      exact hrest
    · rw [diff_cons]
      exact hinv'

/-! ## Creation -/

/-- The array of a new pool has a byte count that `size_t` holds, or its population ends before it is
    left. -/
def CreationFits (nbElems : Nat) (mtype : MemType) (stackOk : Bool) (answers : Nat → Option E) : Prop :=
  stackOk = true → mtype.known = true → nbElems < 2 ^ 61 ∨ ∃ i < nbElems % 2 ^ 61, answers i = none

theorem allocated_lt_iff (answers : Nat → Option E) (i : Nat) {k n : Nat} (hk : k ≤ n) :
    (allocated answers i n).length < k ↔ ∃ j < k, answers (i + j) = none := by
  induction k generalizing n i with
  | zero => simp
  | succ k ih =>
    obtain ⟨n, rfl⟩ : ∃ m, n = m + 1 := ⟨n - 1, by omega⟩
    unfold allocated
    cases hi : answers i with
    | none =>
      refine ⟨fun _ => ⟨0, by omega, hi⟩, fun _ => succ_pos k⟩
    | some v =>
      simp only [length_cons, succ_lt_succ_iff, ih (i + 1) (by omega : k ≤ n)]
      constructor
      · rintro ⟨j, hj, hnone⟩
        exact ⟨j + 1, by omega, by rw [← hnone]; congr 1; omega⟩
      · rintro ⟨j, hj, hnone⟩
        cases j with
        | zero => rw [add_zero, hi] at hnone; cases hnone
        | succ j => exact ⟨j, by omega, by rw [← hnone]; congr 1; omega⟩

/-- **Creation.**  A pool that is created has all its elements free. -/
theorem createMpool_spec {nbElems : Nat} {mtype : MemType} {stackOk : Bool} (hpos : 1 ≤ nbElems)
    (hfits : CreationFits nbElems mtype stackOk answers) (hfresh : Fresh [] answers) :
    ∃ r mp, MPool.createMpool nbElems mtype stackOk answers = some (r, mp) ∧
      (r = .success → PoolInv mp ⟨[], allocated answers 0 nbElems⟩ (allocated answers 0 nbElems)) := by
  rw [MPool.createMpool]
  cases stackOk with
  | false => exact ⟨_, _, rfl, nofun⟩
  | true =>
    simp only [if_true, MPool.populateMemPoolRange]
    by_cases hknown : mtype.known = true
    · rw [if_pos hknown]
      have hle := allocated_length_le answers nbElems 0
      have hfits : nbElems < 2 ^ 61 ∨ (allocated answers 0 nbElems).length < nbElems % 2 ^ 61 := by
        rw [allocated_lt_iff answers 0 (mod_le nbElems (2 ^ 61))]
        simpa using hfits rfl hknown
      have hroom : 0 + min nbElems ((allocated answers 0 nbElems).length + 1) ≤ stackSlots nbElems := by
        rw [stackSlots_eq]
        omega
      obtain ⟨r, mp, hrun, hpop⟩ := @populateLoop_spec E answers nbElems 0
        ⟨fun _ => none, stackSlots nbElems, nbElems, 0, mtype⟩ hroom
      refine ⟨r, mp, hrun, fun hr => ?_⟩
      have hhead : mp.head = 0 := hpop.head
      rcases hpop.outcome with ⟨hlen, -, hsize⟩ | ⟨-, hr', -⟩
      · have hslots : mp.slots = nbElems % 2 ^ 61 := hpop.slots.trans (stackSlots_eq nbElems)
        have hlt : nbElems < 2 ^ 61 := hfits.resolve_right (by omega)
        have hsize : mp.size = nbElems := hsize
        rw [mod_eq_of_lt hlt] at hslots
        refine ⟨hhead, by omega, by omega, by omega, by omega, by rw [hpop.mtype]; exact hknown,
          fun i hi => ?_, List.Perm.refl _, hfresh.allocated_nodup _ _⟩
        rw [hhead]
        exact hpop.filled i hi
      · rw [hr] at hr'
        cases hr'
    · rw [if_neg hknown]
      exact ⟨_, _, rfl, nofun⟩

theorem createMpool_none {nbElems : Nat} {mtype : MemType} {stackOk : Bool}
    (hfits : ¬ CreationFits nbElems mtype stackOk answers) :
    MPool.createMpool nbElems mtype stackOk answers = none := by
  simp only [CreationFits, Classical.not_imp, not_or, not_exists, not_and] at hfits
  obtain ⟨hok, hknown, hlarge, hall⟩ := hfits
  have hmod := mod_le nbElems (2 ^ 61)
  have hcount : ¬ (allocated answers 0 nbElems).length < nbElems % 2 ^ 61 := by
    rw [allocated_lt_iff answers 0 hmod]
    rintro ⟨j, hj, hnone⟩
    exact hall j hj (by rwa [zero_add] at hnone)
  rw [MPool.createMpool, if_pos hok, MPool.populateMemPoolRange, if_pos hknown]
  refine populateLoop_none ?_ (zero_le _)
  simp only [stackSlots_eq, Nat.sub_zero]
  omega

/-! ## Runs of calls -/

inductive PoolState (E : Type) where
  | uncreated
  | failed
  | live (mp : MPool E) (l : Ledger E)

inductive PoolCall (E : Type) where
  | create (nbElems : Nat) (mtype : MemType) (stackOk : Bool) (answers : Nat → Option E)
  | aloc (reallocOk : Bool) (answers : Nat → Option E)
  | free (vec : E)
  | freeVecs (vecs : List E)

section Runs

variable [DecidableEq E]

def poolStep : PoolState E → PoolCall E → Option (PoolState E)
  | .uncreated, .create nbElems mtype stackOk answers =>
    (MPool.createMpool nbElems mtype stackOk answers).map fun r =>
      if r.1 = .success then .live r.2 ⟨[], allocated answers 0 nbElems⟩ else .failed
  | .live mp l, .aloc reallocOk answers =>
    (mp.alocVec reallocOk answers).map fun r =>
      .live r.2.2 ⟨l.outstanding ++ r.2.1.toList, l.ever ++ grownBy mp reallocOk answers⟩
  | .live mp l, .free vec =>
    (mp.freeVec vec).map fun mp => .live mp ⟨l.outstanding.erase vec, l.ever⟩
  | .live mp l, .freeVecs vecs =>
    (mp.freeVecs vecs).map fun mp => .live mp ⟨l.outstanding.diff vecs, l.ever⟩
  | _, _ => none

/-- A pool is created once, with at least one element; only elements taken out are given back; the
    allocator returns fresh ones. -/
def Admissible : PoolState E → PoolCall E → Prop
  | .uncreated, .create nbElems _ _ answers => 1 ≤ nbElems ∧ Fresh [] answers
  | .live _ l, .aloc _ answers => Fresh l.ever answers
  | .live _ l, .free vec => vec ∈ l.outstanding
  | .live _ l, .freeVecs vecs => vecs.Subperm l.outstanding
  | _, _ => False

def Fits : PoolState E → PoolCall E → Prop
  | .uncreated, .create nbElems mtype stackOk answers =>
    CreationFits nbElems mtype stackOk answers
  | .live mp _, .aloc reallocOk _ => GrowthFits mp reallocOk
  | _, _ => True

/-- What a pool promises: the free slots hold distinct elements, none taken out, and with those taken out
    they are all that were ever allocated. -/
structure PoolGood (mp : MPool E) (l : Ledger E) : Prop where
  head_le : mp.head ≤ mp.size
  free : ∃ free : List E,
    (List.range' mp.head (mp.size - mp.head)).map mp.stack = free.map some ∧ free.Nodup ∧
      (∀ v ∈ free, v ∉ l.outstanding) ∧ (l.outstanding ++ free).Perm l.ever
  nodup : l.outstanding.Nodup

def Good : PoolState E → Prop
  | .live mp l => PoolGood mp l
  | _ => True

/-- What an allocation returns: an element that is not taken out; or an error, and then `head` stays. -/
def Answered : PoolState E → PoolCall E → PoolState E → Prop
  | .live mp l, .aloc reallocOk answers, .live mp' l' =>
    ∃ r v, mp.alocVec reallocOk answers = some (r, v, mp') ∧
      ((r = .success ∧ ∃ e, v = some e ∧ e ∉ l.outstanding ∧ e ∈ l'.ever ∧
          l'.outstanding = l.outstanding ++ [e]) ∨
        (r ≠ .success ∧ v = none ∧ l'.outstanding = l.outstanding ∧ mp'.head = mp.head))
  | _, _, _ => True

omit [DecidableEq E] in
theorem PoolInv.good (h : PoolInv mp l free) : PoolGood mp l := by
  have hnodup : (l.outstanding ++ free).Nodup := h.perm.nodup_iff.mpr h.nodup
  have hsize := h.size
  refine ⟨by omega, ⟨free, ?_, hnodup.of_append_right, ?_, h.perm⟩, hnodup.of_append_left⟩
  · refine ext_getElem? fun i => ?_
    by_cases hi : i < free.length
    · have hlt : i < mp.size - mp.head := by omega
      simp [hlt, h.stack i hi, getElem?_eq_getElem hi]
    · rw [getElem?_eq_none (by simp; omega), getElem?_eq_none (by simp; omega)]
  · exact fun v hv hout => (disjoint_of_nodup_append hnodup) hout hv

def PoolState.Ok : PoolState E → Prop
  | .live mp l => ∃ free, PoolInv mp l free
  | _ => True

/-- **One call**: it stays inside the array exactly if it fits. -/
theorem poolStep_ok_iff {st : PoolState E} (hst : st.Ok) {c : PoolCall E} (hadm : Admissible st c) :
    (Fits st c → ∃ st', poolStep st c = some st' ∧ st'.Ok ∧ Answered st c st') ∧
      (¬ Fits st c → poolStep st c = none) := by
  match st, c with
  | .uncreated, .create nbElems mtype stackOk answers =>
    obtain ⟨hpos, hfresh⟩ := hadm
    refine ⟨fun hfits => ?_, fun hfits => ?_⟩
    · obtain ⟨r, mp, hrun, hinv⟩ := createMpool_spec hpos hfits hfresh
      by_cases hr : r = .success
      · exact ⟨.live mp _, by simp only [poolStep, hrun, map_some, if_pos hr], ⟨_, hinv hr⟩,
          trivial⟩
      · exact ⟨.failed, by simp only [poolStep, hrun, map_some, if_neg hr], trivial, trivial⟩
    · simp only [poolStep, createMpool_none hfits, map_none]
  | .live mp l, .aloc reallocOk answers =>
    obtain ⟨free, hinv⟩ := hst
    refine ⟨fun hfits => ?_, fun hfits => ?_⟩
    · obtain ⟨r, v, mp', hrun, hspec⟩ := hinv.alocVec hfits hadm
      refine ⟨.live mp' _, by simp only [poolStep, hrun, map_some], hspec.inv, r, v, hrun, ?_⟩
      obtain ⟨free', hinv'⟩ := hspec.inv
      cases v with
      | some e =>
        have hgood := hinv'.good
        have hnew : e ∉ l.outstanding := by
          have hnd := hgood.nodup
          simp only [toList_some] at hnd
          exact fun hmem => (disjoint_of_nodup_append hnd) hmem (mem_singleton_self e)
        refine .inl ⟨hspec.taken.mpr rfl, e, rfl, hnew, ?_, rfl⟩
        exact hinv'.perm.subset (by simp)
      | none =>
        have hne : r ≠ .success := fun hr => by simpa using hspec.taken.mp hr
        exact .inr ⟨hne, rfl, by simp, hspec.head hne⟩
    · simp only [poolStep, hinv.alocVec_none hfits, map_none]
  | .live mp l, .free vec =>
    obtain ⟨free, hinv⟩ := hst
    refine ⟨fun _ => ?_, fun hfits => absurd trivial hfits⟩
    obtain ⟨mp', hrun, hinv'⟩ := hinv.freeVec hadm
    exact ⟨.live mp' _, by simp only [poolStep, hrun, map_some], ⟨_, hinv'⟩, trivial⟩
  | .live mp l, .freeVecs vecs =>
    obtain ⟨free, hinv⟩ := hst
    refine ⟨fun _ => ?_, fun hfits => absurd trivial hfits⟩
    obtain ⟨mp', free', hrun, hinv'⟩ := hinv.freeVecs hadm
    exact ⟨.live mp' _, by simp only [poolStep, hrun, map_some], ⟨_, hinv'⟩, trivial⟩

omit [DecidableEq E] in
theorem PoolState.Ok.good {st : PoolState E} (h : st.Ok) : Good st := by
  match st with
  | .uncreated => exact trivial
  | .failed => exact trivial
  | .live mp l =>
    obtain ⟨free, hinv⟩ := h
    exact hinv.good

theorem pool_reach_ok {st : PoolState E}
    (h : Reach poolStep (fun st c => Admissible st c ∧ Fits st c) .uncreated st) : st.Ok := by
  refine h.invariant trivial fun st c st' hst hc hstep => ?_
  obtain ⟨st'', hstep', hok, -⟩ := (poolStep_ok_iff hst hc.1).1 hc.2
  rw [hstep] at hstep'
  cases hstep'
  exact hok

/-- **A pool never hands out an element that is taken out.**  After every run of calls that fit, the
    next call leaves the pool good exactly if it fits. -/
theorem pool_good_iff {st : PoolState E}
    (h : Reach poolStep (fun st c => Admissible st c ∧ Fits st c) .uncreated st) {c : PoolCall E}
    (hadm : Admissible st c) :
    Good st ∧ ((∃ st', poolStep st c = some st' ∧ Good st' ∧ Answered st c st') ↔ Fits st c) := by
  have hok := pool_reach_ok h
  obtain ⟨hfit, hnofit⟩ := poolStep_ok_iff hok hadm
  refine ⟨hok.good, fun ⟨st', hstep, _⟩ => ?_, fun hf => ?_⟩
  · by_contra hf
    rw [hnofit hf] at hstep
    cases hstep
  · obtain ⟨st', hstep, hok', hans⟩ := hfit hf
    exact ⟨st', hstep, hok'.good, hans⟩

end Runs

/-! ## Two pools -/

def numbered (base i : Nat) : Option Nat := some (base + i)

theorem numbered_fresh (ever : List Nat) (base : Nat) (h : ∀ v ∈ ever, v < base) :
    Fresh ever (numbered base) := by
  refine ⟨fun i v hv hmem => ?_, fun i j v hi hj => ?_⟩
  · cases hv
    have := h _ hmem
    omega
  · simp only [numbered, some.injEq] at hi hj
    omega

def onePool : MPool Nat := ⟨update (fun _ => none) 0 (some 0), 1, 1, 0, .cpu⟩

theorem pool_good_iff_grows :
    ∃ st, Reach poolStep (fun st c => Admissible st c ∧ Fits st c) (.uncreated : PoolState Nat) st ∧
      ∃ mp l, poolStep st (.aloc true (numbered 10)) = some (.live mp l) ∧ PoolGood mp l := by
  have hcreate : poolStep (.uncreated : PoolState Nat) (.create 1 .cpu true (numbered 0)) =
      some (.live onePool ⟨[], [0]⟩) := rfl
  have haloc : poolStep (.live onePool ⟨[], [0]⟩) (.aloc true (numbered 5)) =
      some (.live { onePool with head := 1 } ⟨[0], [0]⟩) := rfl
  have hreach : Reach poolStep (fun st c => Admissible st c ∧ Fits st c) .uncreated
      (.live { onePool with head := 1 } ⟨[0], [0]⟩) := by
    refine (Reach.init.tail ⟨?_, ?_⟩ hcreate).tail ⟨?_, ?_⟩ haloc
    · exact numbered_fresh [0] 5 (by simp)
    · exact fun _ => .inl (by decide)
    · exact ⟨by decide, numbered_fresh [] 0 (by simp)⟩
    · exact fun _ _ => .inl (by decide)
  have hadm : Admissible (.live { onePool with head := 1 } ⟨[0], [0]⟩) (.aloc true (numbered 10)) :=
    numbered_fresh [0] 10 (by simp)
  obtain ⟨st', hlast, hgood, -⟩ := (pool_good_iff hreach hadm).2.mpr fun _ => .inl (by decide)
  simp only [poolStep, map_eq_some_iff] at hlast
  obtain ⟨r, hrun, rfl⟩ := hlast
  exact ⟨_, hreach, _, _, by simp only [poolStep, hrun, map_some], hgood⟩

/-- For `2^61 + 1` elements the byte count wraps to that of one slot, and the second element is
    written behind the array. -/
theorem creation_leaves_array :
    Admissible (.uncreated : PoolState Nat) (.create (2 ^ 61 + 1) .cpu true (numbered 0)) ∧
      stackSlots (2 ^ 61 + 1) = 1 ∧
      poolStep (.uncreated : PoolState Nat) (.create (2 ^ 61 + 1) .cpu true (numbered 0)) = none := by
  refine ⟨⟨by decide, numbered_fresh [] 0 (by simp)⟩, by decide, ?_⟩
  have hnone : MPool.createMpool (2 ^ 61 + 1) .cpu true (numbered 0) = none := by
    refine createMpool_none fun hfits => ?_
    rcases hfits rfl rfl with hlt | ⟨i, -, hno⟩
    · omega
    · cases hno
  simp only [poolStep, hnone, map_none]

end Doca.AllReduce
