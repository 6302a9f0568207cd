import Doca.Lib.Bytes
import Mathlib.Tactic.Ring

/-!
# Packing of numeric values and blobs

Model of `common/pack.h` and `common/pack.c`.  A write head is the list of bytes written so far, a
read head the list of bytes still to be read; reading past the end of the buffer is `none`.

* `getByte`, `setByte` — the macros `GET_BYTE` and `SET_BYTE`.
* `packUint8` … `packBlob`, `unpackUint8` … `unpackBlob` — the functions that move the heads.

Principal results: `unpackUint32_eq` — the fields are big endian; `Reads` with `Reads.bind` — a reader
that uses the functions one after the other finds what was packed; `Takes` with `Takes.bind` — it takes
a fixed number of bytes, and nothing behind them matters.
-/

namespace Doca.Common

open Doca.Lib Nat

/-! ## The macros -/

def getByte (v n : Nat) : UInt8 := UInt8.ofNat ((v >>> (n * 8)) &&& 0xFF)

def setByte (v n : Nat) : Nat := (v &&& 0xFF) <<< (n * 8)

theorem getByte_eq (v n : Nat) : getByte v n = UInt8.ofNat (v / 2 ^ (n * 8)) := by
  have hand : (v >>> (n * 8)) &&& 0xFF = v / 2 ^ (n * 8) % 256 := by
    rw [shiftRight_eq_div_pow]
    exact and_two_pow_sub_one_eq_mod _ 8
  rw [getByte, hand, ← UInt8.toNat_inj, UInt8.toNat_ofNat', UInt8.toNat_ofNat']
  exact mod_mod _ _

theorem setByte_eq (b : UInt8) (n : Nat) : setByte b.toNat n = b.toNat * 2 ^ (n * 8) := by
  have hand : b.toNat &&& 0xFF = b.toNat := by
    rw [show (0xFF : Nat) = 2 ^ 8 - 1 from rfl, and_two_pow_sub_one_eq_mod]
    exact mod_eq_of_lt b.toNat_lt
  rw [setByte, hand, shiftLeft_eq]

theorem or_setByte (hi : Nat) (b : UInt8) (n : Nat) :
    hi * 2 ^ ((n + 1) * 8) ||| setByte b.toNat n = (hi * 256 + b.toNat) * 2 ^ (n * 8) := by
  have hb : b.toNat * 2 ^ (n * 8) < 2 ^ ((n + 1) * 8) := by
    rw [add_mul, pow_add, mul_comm (2 ^ (n * 8))]
    exact Nat.mul_lt_mul_of_pos_right b.toNat_lt (Nat.two_pow_pos _)
  rw [setByte_eq, mul_comm hi, ← two_pow_add_eq_or_of_lt hb, add_mul n, pow_add, add_mul]
  ring

/-! ## Packing -/

def packUint8 (buffer : List UInt8) (value : UInt8) : List UInt8 := buffer ++ [value]

def packUint16 (buffer : List UInt8) (value : UInt16) : List UInt8 :=
  buffer ++ [getByte value.toNat 1, getByte value.toNat 0]

def packUint32 (buffer : List UInt8) (value : UInt32) : List UInt8 :=
  buffer ++ [getByte value.toNat 3, getByte value.toNat 2, getByte value.toNat 1, getByte value.toNat 0]

def packBlob (buffer object : List UInt8) : List UInt8 := buffer ++ object

/-! ## Unpacking -/

def unpackUint8 : List UInt8 → Option (UInt8 × List UInt8)
  | value :: rest => some (value, rest)
  | [] => none

def unpackUint16 : List UInt8 → Option (UInt16 × List UInt8)
  | b1 :: b0 :: rest => some (UInt16.ofNat (setByte b1.toNat 1 ||| setByte b0.toNat 0), rest)
  | _ => none

def unpackUint32 : List UInt8 → Option (UInt32 × List UInt8)
  | b3 :: b2 :: b1 :: b0 :: rest =>
    some (UInt32.ofNat (setByte b3.toNat 3 ||| setByte b2.toNat 2 ||| setByte b1.toNat 1 |||
      setByte b0.toNat 0), rest)
  | _ => none

def unpackBlob (length : Nat) (buffer : List UInt8) : Option (List UInt8 × List UInt8) :=
  if length ≤ buffer.length then some (buffer.take length, buffer.drop length) else none

theorem unpackUint32_eq (b3 b2 b1 b0 : UInt8) (rest : List UInt8) :
    unpackUint32 (b3 :: b2 :: b1 :: b0 :: rest) =
      some (UInt32.ofNat (((b3.toNat * 256 + b2.toNat) * 256 + b1.toNat) * 256 + b0.toNat), rest) := by
  rw [unpackUint32, setByte_eq b3 3, or_setByte b3.toNat b2 2, or_setByte _ b1 1,
    or_setByte _ b0 0, zero_mul, pow_zero, mul_one]

theorem unpackUint32_packUint32 (v : UInt32) (rest : List UInt8) :
    unpackUint32 (packUint32 [] v ++ rest) = some (v, rest) := by
  have hv := v.toNat_lt
  show unpackUint32 (getByte v.toNat 3 :: getByte v.toNat 2 :: getByte v.toNat 1 ::
    getByte v.toNat 0 :: rest) = _
  rw [unpackUint32_eq]
  simp only [getByte_eq, UInt8.toNat_ofNat', Option.some.injEq, Prod.mk.injEq, and_true,
    ← UInt32.toNat_inj, UInt32.toNat_ofNat']
  omega

/-! ## Byte order of 64-bit values -/

/-- `ntohq` on a little-endian machine; `htonq` is the same function. -/
def ntohq (value : Nat) : Nat :=
  setByte (getByte value 0).toNat 7 ||| setByte (getByte value 1).toNat 6 |||
    setByte (getByte value 2).toNat 5 ||| setByte (getByte value 3).toNat 4 |||
    setByte (getByte value 4).toNat 3 ||| setByte (getByte value 5).toNat 2 |||
    setByte (getByte value 6).toNat 1 ||| setByte (getByte value 7).toNat 0

/-- `ntohl` on a little-endian machine; `htonl` is the same function. -/
def ntohl (value : Nat) : Nat :=
  setByte (getByte value 0).toNat 3 ||| setByte (getByte value 1).toNat 2 |||
    setByte (getByte value 2).toNat 1 ||| setByte (getByte value 3).toNat 0

def horner8 (d7 d6 d5 d4 d3 d2 d1 d0 : Nat) : Nat :=
  ((((((d7 * 256 + d6) * 256 + d5) * 256 + d4) * 256 + d3) * 256 + d2) * 256 + d1) * 256 + d0

theorem horner8_lt {d7 d6 d5 d4 d3 d2 d1 d0 : Nat} (h7 : d7 < 256) (h6 : d6 < 256) (h5 : d5 < 256)
    (h4 : d4 < 256) (h3 : d3 < 256) (h2 : d2 < 256) (h1 : d1 < 256) (h0 : d0 < 256) :
    horner8 d7 d6 d5 d4 d3 d2 d1 d0 < 2 ^ 64 := by
  unfold horner8
  omega

theorem horner8_digits {v : Nat} (hv : v < 2 ^ 64) :
    horner8 (v / 2 ^ 56 % 256) (v / 2 ^ 48 % 256) (v / 2 ^ 40 % 256) (v / 2 ^ 32 % 256)
      (v / 2 ^ 24 % 256) (v / 2 ^ 16 % 256) (v / 2 ^ 8 % 256) (v % 256) = v := by
  have hdiv : ∀ k, v / 2 ^ (k + 8) = v / 2 ^ k / 256 := fun k => by
    rw [Nat.div_div_eq_div_mul, Nat.pow_add]
  have h2 := hdiv 8
  have h3 := hdiv 16
  have h4 := hdiv 24
  have h5 := hdiv 32
  have h6 := hdiv 40
  have h7 := hdiv 48
  have h8 : v / 2 ^ 56 < 256 := by omega
  unfold horner8
  omega

theorem ntohq_eq (v : Nat) : ntohq v =
    horner8 (v % 256) (v / 2 ^ 8 % 256) (v / 2 ^ 16 % 256) (v / 2 ^ 24 % 256) (v / 2 ^ 32 % 256)
      (v / 2 ^ 40 % 256) (v / 2 ^ 48 % 256) (v / 2 ^ 56 % 256) := by
  rw [ntohq, setByte_eq _ 7, or_setByte _ _ 6, or_setByte _ _ 5, or_setByte _ _ 4, or_setByte _ _ 3,
    or_setByte _ _ 2, or_setByte _ _ 1, or_setByte _ _ 0]
  simp only [horner8, getByte_eq, UInt8.toNat_ofNat', Nat.zero_mul, Nat.pow_zero, Nat.mul_one,
    Nat.div_one, Nat.reduceMul, Nat.reducePow, Nat.one_mul]

theorem ntohq_lt (v : Nat) : ntohq v < 2 ^ 64 := by
  rw [ntohq_eq]
  have hmod : ∀ x : Nat, x % 256 < 256 := fun x => mod_lt x (by decide)
  exact horner8_lt (hmod _) (hmod _) (hmod _) (hmod _) (hmod _) (hmod _) (hmod _) (hmod _)

theorem ntohq_horner8 {d7 d6 d5 d4 d3 d2 d1 d0 : Nat} (h7 : d7 < 256) (h6 : d6 < 256) (h5 : d5 < 256)
    (h4 : d4 < 256) (h3 : d3 < 256) (h2 : d2 < 256) (h1 : d1 < 256) (h0 : d0 < 256) :
    ntohq (horner8 d7 d6 d5 d4 d3 d2 d1 d0) = horner8 d0 d1 d2 d3 d4 d5 d6 d7 := by
  have e0 : horner8 d7 d6 d5 d4 d3 d2 d1 d0 % 256 = d0 := by unfold horner8; omega
  have e1 : horner8 d7 d6 d5 d4 d3 d2 d1 d0 / 2 ^ 8 % 256 = d1 := by unfold horner8; omega
  have e2 : horner8 d7 d6 d5 d4 d3 d2 d1 d0 / 2 ^ 16 % 256 = d2 := by unfold horner8; omega
  have e3 : horner8 d7 d6 d5 d4 d3 d2 d1 d0 / 2 ^ 24 % 256 = d3 := by unfold horner8; omega
  have e4 : horner8 d7 d6 d5 d4 d3 d2 d1 d0 / 2 ^ 32 % 256 = d4 := by unfold horner8; omega
  have e5 : horner8 d7 d6 d5 d4 d3 d2 d1 d0 / 2 ^ 40 % 256 = d5 := by unfold horner8; omega
  have e6 : horner8 d7 d6 d5 d4 d3 d2 d1 d0 / 2 ^ 48 % 256 = d6 := by unfold horner8; omega
  have e7 : horner8 d7 d6 d5 d4 d3 d2 d1 d0 / 2 ^ 56 % 256 = d7 := by unfold horner8; omega
  rw [ntohq_eq, e0, e1, e2, e3, e4, e5, e6, e7]

theorem ntohq_ntohq {v : Nat} (hv : v < 2 ^ 64) : ntohq (ntohq v) = v := by
  have hmod : ∀ x : Nat, x % 256 < 256 := fun x => mod_lt x (by decide)
  rw [ntohq_eq v, ntohq_horner8 (hmod _) (hmod _) (hmod _) (hmod _) (hmod _) (hmod _) (hmod _) (hmod _),
    horner8_digits hv]

/-! ## Readers of a fixed number of bytes -/

section Takes

variable {α β : Type} {n m : Nat}

def Reads (read : List UInt8 → Option (α × List UInt8)) (bytes : List UInt8) (v : α) : Prop :=
  ∀ rest, read (bytes ++ rest) = some (v, rest)

variable {read : List UInt8 → Option (α × List UInt8)} {bytes bytes' : List UInt8} {v : α}

theorem Reads.bind {next : α × List UInt8 → Option (β × List UInt8)} {w : β}
    (hr : Reads read bytes v) (hn : Reads (fun buf => next (v, buf)) bytes' w) :
    Reads (fun buf => read buf >>= next) (bytes ++ bytes') w := by
  intro rest
  rw [List.append_assoc]
  simp only [hr (bytes' ++ rest), Option.bind_eq_bind, Option.bind_some, hn rest]

theorem Reads.of_eq (hr : Reads read bytes v) (h : bytes' = bytes) : Reads read bytes' v := h ▸ hr

theorem Reads.some (v : α) : Reads (fun buf => some (v, buf)) [] v := fun _ => rfl

theorem unpackUint8_reads (v : UInt8) : Reads unpackUint8 [v] v := fun _ => rfl

theorem unpackUint16_reads (v : UInt16) : Reads unpackUint16 [getByte v.toNat 1, getByte v.toNat 0] v := by
  intro rest
  have hv := v.toNat_lt
  rw [List.cons_append, List.singleton_append, unpackUint16, setByte_eq _ 1, or_setByte _ _ 0]
  simp only [getByte_eq, UInt8.toNat_ofNat', Option.some.injEq, Prod.mk.injEq, and_true,
    ← UInt16.toNat_inj, UInt16.toNat_ofNat']
  omega

theorem unpackUint32_reads (v : UInt32) : Reads unpackUint32
      [getByte v.toNat 3, getByte v.toNat 2, getByte v.toNat 1, getByte v.toNat 0] v :=
  unpackUint32_packUint32 v

theorem unpackBlob_reads {blob : List UInt8} {length : Nat} (h : blob.length = length) :
    Reads (unpackBlob length) blob blob := by
  intro rest
  rw [unpackBlob, if_pos (by rw [List.length_append]; omega), List.take_left' h, List.drop_left' h]

def Takes (n : Nat) (read : List UInt8 → Option (α × List UInt8)) : Prop :=
  ∀ bytes : List UInt8, bytes.length = n → ∃ v, ∀ rest, read (bytes ++ rest) = some (v, rest)

theorem Takes.bind {next : α × List UInt8 → Option (β × List UInt8)} (hr : Takes n read)
    (hn : ∀ v, Takes m fun buf => next (v, buf)) : Takes (n + m) fun buf => read buf >>= next := by
  intro bytes hb
  obtain ⟨v, hv⟩ := hr (bytes.take n) (by rw [List.length_take]; omega)
  obtain ⟨w, hw⟩ := hn v (bytes.drop n) (by rw [List.length_drop]; omega)
  exact ⟨w, Reads.of_eq (Reads.bind hv hw) (List.take_append_drop n bytes).symm⟩

theorem Takes.some (v : α) : Takes 0 fun buf => some (v, buf) := by
  intro bytes hb
  cases List.length_eq_zero_iff.mp hb
  exact ⟨v, fun _ => rfl⟩

theorem unpackUint8_takes : Takes 1 unpackUint8 := by
  intro bytes hb
  match bytes, hb with
  | [v], _ => exact ⟨v, fun _ => rfl⟩

theorem unpackUint16_takes : Takes 2 unpackUint16 := by
  intro bytes hb
  match bytes, hb with
  | [_, _], _ => exact ⟨_, fun _ => rfl⟩

theorem unpackUint32_takes : Takes 4 unpackUint32 := by
  intro bytes hb
  match bytes, hb with
  | [_, _, _, _], _ => exact ⟨_, fun _ => rfl⟩

theorem unpackBlob_takes (length : Nat) : Takes length (unpackBlob length) :=
  fun bytes hb => ⟨bytes, unpackBlob_reads hb⟩

end Takes

end Doca.Common
