import Mathlib.Algebra.Group.Nat.Defs
import Mathlib.Data.List.Range

/-!
# Byte memory

A buffer is a total function from addresses to values; what an operation leaves alone is said by
its frame lemma.

* `store` — overwrite from an address on; `move` — copy a block as if through a temporary;
  `copyDown` — the loop that copies a block from its last element to its first.
* `storeBlocks` — blocks stored one after the other; `patch` — overwrite a stretch of a list.
* `be16`, `be32`, `readBe16`, `readBe32` — big-endian fields; `leBytes`, `readLe` — little-endian
  words of any size.

Principal results: `copyDown_eq_move` — copying downwards to a higher address is a `move`, overlap
or not; `readBe16_of_bytes`, `bytes_of_readBe16`, `readBe32_of_bytes` — a field is read back from
its bytes and determines them.
-/

namespace Doca.Lib

open List Nat

universe u

variable {α : Type u}

/-! ## Storing and moving -/

def store (b : Nat → α) (a : Nat) (xs : List α) : Nat → α := fun i =>
  if h : a ≤ i ∧ i < a + xs.length then xs[i - a] else b i

theorem store_inside (b : Nat → α) (a : Nat) (xs : List α) (i : Nat) (h : i < xs.length) :
    store b a xs (a + i) = xs[i] := by
  have hin : a ≤ a + i ∧ a + i < a + xs.length := by omega
  simp only [store, dif_pos hin, Nat.add_sub_cancel_left]

variable {b : Nat → α} {a : Nat}

theorem store_of_getElem? {i : Nat} {xs : List α} {x : α} (h : xs[i]? = some x) :
    store b a xs (a + i) = x := by
  obtain ⟨hi, hx⟩ := List.getElem?_eq_some_iff.mp h
  rw [store_inside _ _ _ _ hi, hx]

theorem store_outside {b : Nat → α} {a : Nat} {xs : List α} {i : Nat}
    (h : i < a ∨ a + xs.length ≤ i) : store b a xs i = b i := by
  have hout : ¬ (a ≤ i ∧ i < a + xs.length) := by omega
  simp only [store, dif_neg hout]

theorem store_nil (b : Nat → α) (a : Nat) : store b a [] = b := by
  funext i
  exact store_outside (by simp only [length_nil]; omega)

theorem store_append (b : Nat → α) (a : Nat) (xs ys : List α) :
    store (store b a xs) (a + xs.length) ys = store b a (xs ++ ys) := by
  funext i
  rcases lt_or_ge i a with hlo | hlo
  · rw [store_outside (by omega), store_outside (by omega),
      store_outside (by omega)]
  · obtain ⟨j, rfl⟩ := Nat.exists_eq_add_of_le hlo
    rcases lt_or_ge j xs.length with hx | hx
    · rw [store_outside (by omega), store_inside _ _ _ _ hx,
        store_inside _ _ _ _ (by rw [length_append]; omega), getElem_append_left hx]
    · obtain ⟨k, rfl⟩ := Nat.exists_eq_add_of_le hx
      rcases lt_or_ge k ys.length with hy | hy
      · rw [← Nat.add_assoc, store_inside _ _ _ _ hy, Nat.add_assoc,
          store_inside _ _ _ _ (by rw [length_append]; omega),
          getElem_append_right (by omega)]
        simp only [Nat.add_sub_cancel_left]
      · rw [store_outside (by omega), store_outside (by omega),
          store_outside (by rw [length_append]; omega)]

def move (b : Nat → α) (dst src n : Nat) : Nat → α := fun i =>
  if dst ≤ i ∧ i < dst + n then b (src + (i - dst)) else b i

theorem move_inside {b : Nat → α} {dst src n i : Nat} (h : i < n) :
    move b dst src n (dst + i) = b (src + i) := by
  have hin : dst ≤ dst + i ∧ dst + i < dst + n := by omega
  simp only [move, if_pos hin, Nat.add_sub_cancel_left]

theorem move_outside {b : Nat → α} {dst src n i : Nat} (h : i < dst ∨ dst + n ≤ i) :
    move b dst src n i = b i := by
  have hout : ¬ (dst ≤ i ∧ i < dst + n) := by omega
  simp only [move, if_neg hout]

def copyDown (b : Nat → α) (dst src : Nat) : Nat → Nat → α
  | 0 => b
  | n + 1 => copyDown (store b (dst + n) [b (src + n)]) dst src n

theorem copyDown_eq_move (b : Nat → α) (dst src n : Nat) (h : src ≤ dst) :
    copyDown b dst src n = move b dst src n := by
  induction n generalizing b with
  | zero =>
    funext i
    rw [move_outside (by omega)]
    rfl
  | succ n ih =>
    rw [copyDown, ih]
    funext i
    rcases lt_or_ge i dst with hlo | hlo
    · rw [move_outside (.inl hlo), move_outside (.inl hlo),
        store_outside (by omega)]
    · obtain ⟨j, rfl⟩ := Nat.exists_eq_add_of_le hlo
      rcases lt_trichotomy j n with hj | rfl | hj
      · rw [move_inside hj, move_inside (by omega), store_outside (by omega)]
      · rw [move_outside (by omega), move_inside (by omega)]
        exact store_inside _ _ _ 0 (by simp)
      · have hout : dst + (n + 1) ≤ dst + j := by omega
        rw [move_outside (by omega), move_outside (.inr hout),
          store_outside (.inr hout)]

/-! ## Blocks of a buffer -/

def load (b : Nat → α) (a n : Nat) : List α := (List.range n).map fun i => b (a + i)

@[simp] theorem load_length (b : Nat → α) (a n : Nat) : (load b a n).length = n := by
  simp [load]

variable {a' n : Nat}

theorem load_congr {c : Nat → α} (h : ∀ i < n, b (a + i) = c (a' + i)) : load b a n = load c a' n :=
  map_congr_left fun i hi => h i (mem_range.mp hi)

theorem load_getElem (b : Nat → α) (a n i : Nat) (h : i < (load b a n).length) :
    (load b a n)[i] = b (a + i) := by
  simp [load]

def patch (xs : List α) (idx : Nat) (ys : List α) : List α :=
  xs.take idx ++ ys ++ xs.drop (idx + ys.length)

theorem load_store (b : Nat → α) (a n k : Nat) (xs : List α) (h : k + xs.length ≤ n) :
    load (store b (a + k) xs) a n = patch (load b a n) k xs := by
  apply ext_getElem
  · simp only [patch, load_length, length_append, length_take, length_drop]
    omega
  · intro i h1 h2
    have hi : i < n := by simpa using h1
    have htake : ((load b a n).take k).length = k := by
      rw [length_take, load_length]
      omega
    rw [load_getElem]
    simp only [patch, append_assoc]
    rcases lt_or_ge i k with hk | hk
    · rw [store_outside (by omega), getElem_append_left (by omega), getElem_take, load_getElem]
    · obtain ⟨j, rfl⟩ := Nat.exists_eq_add_of_le hk
      rw [getElem_append_right (by omega)]
      rcases lt_or_ge j xs.length with hj | hj
      · rw [← Nat.add_assoc, store_inside _ _ _ _ hj, getElem_append_left (by omega)]
        congr 1
        omega
      · rw [store_outside (by omega), getElem_append_right (by omega), getElem_drop, load_getElem]
        congr 1
        omega

theorem load_store_same (b : Nat → α) (a : Nat) (xs : List α) : load (store b a xs) a xs.length = xs := by
  apply ext_getElem
  · exact load_length _ _ _
  · intro i h1 h2
    rw [load_getElem, store_inside _ _ _ _ h2]

theorem load_store_outside (b : Nat → α) (a : Nat) (xs : List α) {c : Nat}
    (h : c + n ≤ a ∨ a + xs.length ≤ c) : load (store b a xs) c n = load b c n :=
  load_congr fun i hi => store_outside (by omega)

def storeBlocks (b : Nat → α) (off : Nat → Nat) (blocks : Nat → List α) : Nat → Nat → α
  | 0 => b
  | n + 1 => store (storeBlocks b off blocks n) (off n) (blocks n)

theorem load_storeBlocks {off : Nat → Nat} {blocks : Nat → List α} {z j : Nat}
    (h : ∀ j < n, off j = j * z ∧ (blocks j).length = z) (hj : j < n) :
    load (storeBlocks b off blocks n) (j * z) z = blocks j := by
  induction n with
  | zero => omega
  | succ n ih =>
    obtain ⟨hoff, hlen⟩ := h n (lt_succ_self n)
    rw [storeBlocks, hoff]
    rcases Nat.lt_succ_iff_lt_or_eq.mp hj with hlt | rfl
    · have hbelow : j * z + z ≤ n * z := by
        rw [← succ_mul]
        exact mul_le_mul_right z hlt
      rw [load_store_outside _ _ _ (.inl hbelow)]
      exact ih (fun i hi => h i (lt_succ_of_lt hi)) hlt
    · have hsame := load_store_same (storeBlocks b off blocks j) (j * z) (blocks j)
      rwa [hlen] at hsame

theorem store_load (b : Nat → α) (a n : Nat) : store b a (load b a n) = b := by
  funext i
  unfold store
  split
  · rw [load_getElem]
    congr 1
    omega
  · rfl

/-! ## Internet checksum -/

def wordSum : List UInt8 → Nat
  | hi :: lo :: rest => hi.toNat * 256 + lo.toNat + wordSum rest
  | _ => 0

/-- The ones' complement sum of the words is `0xffff`, the negative zero: what a receiver of an
    IPv4 header checks. -/
def ChecksumValid (hdr : List UInt8) : Prop := wordSum hdr % 65535 = 0

def onesFold (s : Nat) : Nat := if s = 0 then 0 else (s - 1) % 65535 + 1

theorem onesFold_complement (s : Nat) :
    65535 - onesFold s < 65536 ∧ (s + (65535 - onesFold s)) % 65535 = 0 := by
  unfold onesFold
  split
  · omega
  · omega

/-! ## Big-endian fields -/

def be16 (v : Nat) : List UInt8 := [UInt8.ofNat (v / 256), UInt8.ofNat v]

def readBe16 (b : Nat → UInt8) (a : Nat) : Nat := (b a).toNat * 256 + (b (a + 1)).toNat

def readBe32 (b : Nat → UInt8) (a : Nat) : Nat :=
  ((b a).toNat * 256 + (b (a + 1)).toNat) * 65536 + ((b (a + 2)).toNat * 256 + (b (a + 3)).toNat)

variable {b : Nat → UInt8} {v : Nat}

theorem readBe16_of_bytes (h0 : b a = UInt8.ofNat (v / 256)) (h1 : b (a + 1) = UInt8.ofNat v) :
    readBe16 b a = v % 65536 := by
  simp only [readBe16, h0, h1, UInt8.toNat_ofNat']
  omega

theorem bytes_of_readBe16 (h : readBe16 b a = v) :
    b a = UInt8.ofNat (v / 256) ∧ b (a + 1) = UInt8.ofNat v := by
  have h0 := (b a).toNat_lt
  have h1 := (b (a + 1)).toNat_lt
  subst h
  simp only [readBe16, ← UInt8.toNat_inj, UInt8.toNat_ofNat']
  omega

variable {c : Nat → UInt8}

theorem bytes_of_readBe16_eq (h : readBe16 b a = readBe16 c a') : b a = c a' ∧ b (a + 1) = c (a' + 1) := by
  obtain ⟨h0, h1⟩ := bytes_of_readBe16 h
  obtain ⟨h0', h1'⟩ := bytes_of_readBe16 (rfl : readBe16 c a' = _)
  exact ⟨h0.trans h0'.symm, h1.trans h1'.symm⟩

theorem readBe32_of_bytes (h0 : b a = UInt8.ofNat (v / 16777216))
    (h1 : b (a + 1) = UInt8.ofNat (v / 65536)) (h2 : b (a + 2) = UInt8.ofNat (v / 256))
    (h3 : b (a + 3) = UInt8.ofNat v) :
    readBe32 b a = v % 4294967296 := by
  simp only [readBe32, h0, h1, h2, h3, UInt8.toNat_ofNat']
  omega

/-! Storing a field or a single byte. -/

theorem store_byte_same (b : Nat → UInt8) (a : Nat) (x : UInt8) : store b a [x] a = x :=
  store_inside b a [x] 0 (by simp)

theorem store_byte_other {b : Nat → UInt8} {a i : Nat} {x : UInt8} (h : i < a ∨ a + 1 ≤ i) :
    store b a [x] i = b i := store_outside h

theorem store_be16_bytes (b : Nat → UInt8) (a v : Nat) : store b a (be16 v) a = UInt8.ofNat (v / 256) ∧
      store b a (be16 v) (a + 1) = UInt8.ofNat v :=
  ⟨store_inside b a (be16 v) 0 (by simp [be16]), store_inside b a (be16 v) 1 (by simp [be16])⟩

theorem store_be16_other {b : Nat → UInt8} {a v i : Nat} (h : i < a ∨ a + 2 ≤ i) :
    store b a (be16 v) i = b i := store_outside h

theorem readBe16_store (b : Nat → UInt8) (a v : Nat) : readBe16 (store b a (be16 v)) a = v % 65536 :=
  readBe16_of_bytes (store_be16_bytes b a v).1 (store_be16_bytes b a v).2

theorem wordSum_patch (c : Nat) (hc : c < 65536) : ∀ (k : Nat) (xs : List UInt8),
    xs[2 * k]? = some 0 → xs[2 * k + 1]? = some 0 →
    wordSum (patch xs (2 * k) (be16 c)) = wordSum xs + c
  | 0, hi :: lo :: rest, h0, h1 => by
    simp only [Nat.mul_zero, getElem?_cons_zero, Option.some.injEq, Nat.zero_add,
      getElem?_cons_succ] at h0 h1
    subst h0 h1
    simp only [patch, be16, wordSum, Nat.mul_zero, take_zero, nil_append,
      length_cons, length_nil, Nat.zero_add, drop_succ_cons, drop_zero,
      cons_append, UInt8.toNat_ofNat', UInt8.toNat_ofNat]
    omega
  | k + 1, hi :: lo :: rest, h0, h1 => by
    have ih := wordSum_patch c hc k rest h0 h1
    have hp : patch (hi :: lo :: rest) (2 * (k + 1)) (be16 c) =
        hi :: lo :: patch rest (2 * k) (be16 c) := by
      simp [patch, be16, Nat.mul_add]
    rw [hp, wordSum, ih, wordSum]
    omega
  | _, [_], _, h1 => by simp at h1
  | _, [], h0, _ => by simp at h0

theorem readBe16_congr (h0 : b a = c a') (h1 : b (a + 1) = c (a' + 1)) : readBe16 b a = readBe16 c a' := by
  rw [readBe16, readBe16, h0, h1]

/-! ## Little-endian words -/

def leBytes : Nat → Nat → List UInt8
  | 0, _ => []
  | n + 1, v => UInt8.ofNat v :: leBytes n (v / 256)

def readLe (b : Nat → UInt8) (a : Nat) : Nat → Nat
  | 0 => 0
  | n + 1 => (b a).toNat + 256 * readLe b (a + 1) n

@[simp] theorem leBytes_length : ∀ n v : Nat, (leBytes n v).length = n
  | 0, _ => rfl
  | n + 1, v => by rw [leBytes, length_cons, leBytes_length n]

theorem readLe_congr : ∀ {a n : Nat}, (∀ i, a ≤ i → i < a + n → b i = c i) → readLe b a n = readLe c a n
  | _, 0, _ => rfl
  | a, n + 1, h => by
    have hrest : readLe b (a + 1) n = readLe c (a + 1) n :=
      readLe_congr fun i h1 h2 => h i (by omega) (by omega)
    rw [readLe, readLe, h a (by omega) (by omega), hrest]

theorem readLe_of_bytes : ∀ {a n v : Nat},
    (∀ i x, (leBytes n v)[i]? = some x → b (a + i) = x) → readLe b a n = v % 256 ^ n
  | _, 0, _, _ => by rw [readLe, Nat.pow_zero, Nat.mod_one]
  | a, n + 1, v, h => by
    have h0 : b a = UInt8.ofNat v := h 0 _ rfl
    have hrest : readLe b (a + 1) n = v / 256 % 256 ^ n := by
      apply readLe_of_bytes
      intro i x hx
      have := h (i + 1) x (by rw [leBytes, getElem?_cons_succ]; exact hx)
      rwa [Nat.add_assoc, Nat.add_comm 1 i]
    have hsplit : v % 256 ^ (n + 1) = v % 256 + 256 * (v / 256 % 256 ^ n) := by
      rw [Nat.pow_succ, Nat.mul_comm, Nat.mod_mul]
    rw [readLe, h0, hrest, UInt8.toNat_ofNat', hsplit]

theorem readLe_store_outside (b : Nat → UInt8) (a : Nat) (xs : List UInt8) {c : Nat}
    (h : c + n ≤ a ∨ a + xs.length ≤ c) : readLe (store b a xs) c n = readLe b c n :=
  readLe_congr fun i h1 h2 => store_outside (by omega)

end Doca.Lib
