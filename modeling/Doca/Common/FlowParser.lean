import Doca.Common.Error
import Doca.Common.Pack
import Mathlib.Tactic.IntervalCases

/-!
# Addresses in text form

Model of `parse_ipv4_str` (`common/flow_parser.c`) with the calls of the C library it makes.  A C
string is the list of its bytes without the terminating NUL.

* `atoi` — white space, a sign and decimal digits; the rest of the string is ignored.  The value is
  that of `(int)strtol(s, NULL, 10)`: clamped to 64 bits and then reduced to 32.
* `decimal` — the text of a number; `atoi_decimal` — `atoi` reads it back.
* `parseIpv4Str` — three numbers that a dot follows, and a fourth.
-/

namespace Doca.Common

def cString (buf : List UInt8) : List UInt8 := buf.takeWhile (· ≠ 0)

def isSpace (c : UInt8) : Bool := c == 0x20 || (0x09 ≤ c && c ≤ 0x0d)

def isDigit (c : UInt8) : Bool := 0x30 ≤ c && c ≤ 0x39

def digitsValue : List UInt8 → Nat → Nat
  | [], acc => acc
  | c :: rest, acc => if isDigit c then digitsValue rest (acc * 10 + (c.toNat - 48)) else acc

def splitSign : List UInt8 → Bool × List UInt8
  | 0x2d :: rest => (true, rest)
  | 0x2b :: rest => (false, rest)
  | s => (false, s)

def atoi (s : List UInt8) : Int :=
  let t := splitSign (s.dropWhile isSpace)
  let value : Int := if t.1 then -(digitsValue t.2 0 : Int) else digitsValue t.2 0
  (max (-9223372036854775808) (min 9223372036854775807 value)).bmod 4294967296

/-! ## Decimal numbers -/

def decimal (n : Nat) : List UInt8 := (Nat.toDigits 10 n).map fun c => c.toNat.toUInt8

section Digits

variable {n : Nat} {text rest : List UInt8}

theorem decimal_of_le (h : 10 ≤ n) : decimal n = decimal (n / 10) ++ decimal (n % 10) := by
  have hlast := @Nat.toDigits_of_lt_base 10 (n % 10) (Nat.mod_lt _ (by decide))
  rw [decimal, decimal, decimal, Nat.toDigits_of_base_le (by decide) h, hlast, List.map_append]

theorem decimal_ne_nil (n : Nat) : decimal n ≠ [] := by
  rw [decimal, ne_eq, List.map_eq_nil_iff]
  exact Nat.toDigits_ne_nil

theorem isDigit_decimal (n : Nat) : ∀ c ∈ decimal n, isDigit c = true := by
  induction n using Nat.strongRecOn with
  | ind n ih =>
    rcases Nat.lt_or_ge n 10 with hlt | hle
    · exact List.all_eq_true.1 (by interval_cases n <;> decide)
    · rw [decimal_of_le hle]
      exact List.forall_mem_append.2 ⟨ih _ (by omega), ih _ (by omega)⟩

theorem decimal_head (h : n ≠ 0) : (decimal n).head? ≠ some 0x30 := by
  induction n using Nat.strongRecOn with
  | ind n ih =>
    rcases Nat.lt_or_ge n 10 with hlt | hle
    · interval_cases n <;> first | exact absurd rfl h | decide
    · rw [decimal_of_le hle, List.head?_append_of_ne_nil _ (decimal_ne_nil _)]
      exact ih _ (by omega) (by omega)

theorem digitsValue_append (h : ∀ c ∈ text, isDigit c = true) (acc : Nat) :
    digitsValue (text ++ rest) acc = digitsValue rest (digitsValue text acc) := by
  induction text generalizing acc with
  | nil => rfl
  | cons c text ih =>
    obtain ⟨hc, htext⟩ := List.forall_mem_cons.1 h
    rw [List.cons_append, digitsValue, digitsValue, if_pos hc, if_pos hc, ih htext]

theorem digitsValue_stop (h : ∀ c ∈ rest.head?, isDigit c = false) (acc : Nat) :
    digitsValue rest acc = acc := by
  cases rest with
  | nil => rfl
  | cons c rest => simp [digitsValue, h c rfl]

theorem digitsValue_decimal (n : Nat) : digitsValue (decimal n) 0 = n := by
  induction n using Nat.strongRecOn with
  | ind n ih =>
    have hone : ∀ m < 10, ∀ acc, digitsValue (decimal m) acc = acc * 10 + m := by
      intro m hm acc
      interval_cases m <;> rfl
    rcases Nat.lt_or_ge n 10 with hlt | hle
    · rw [hone n hlt, Nat.zero_mul, Nat.zero_add]
    · rw [decimal_of_le hle, digitsValue_append (isDigit_decimal _), ih _ (by omega), hone _ (by omega)]
      omega

theorem splitSign_digits (hne : text ≠ []) (h : ∀ c ∈ text, isDigit c = true) :
    splitSign ((text ++ rest).dropWhile isSpace) = (false, text ++ rest) := by
  obtain ⟨c, text, rfl⟩ := List.exists_cons_of_ne_nil hne
  have hc := h c List.mem_cons_self
  have hspace : isSpace c ≠ true := by
    intro hspace
    simp only [isDigit, isSpace, Bool.and_eq_true, Bool.or_eq_true, decide_eq_true_eq, beq_iff_eq,
      UInt8.le_iff_toNat_le, ← UInt8.toNat_inj, UInt8.reduceToNat] at hc hspace
    omega
  rw [List.cons_append, List.dropWhile_cons_of_neg hspace]
  unfold splitSign
  split
  · rename_i h
    cases h
    cases hc
  · rename_i h
    cases h
    cases hc
  · rfl

theorem atoi_digits (hne : text ≠ []) (h : ∀ c ∈ text, isDigit c = true) (hvalue : digitsValue text 0 = n)
    (hn : n < 2147483648) (hrest : ∀ c ∈ rest.head?, isDigit c = false) : atoi (text ++ rest) = n := by
  have htext : digitsValue (text ++ rest) 0 = n := by
    rw [digitsValue_append h, hvalue, digitsValue_stop hrest]
  rw [atoi, splitSign_digits hne h]
  simp only [htext, Bool.false_eq_true, if_false, Int.bmod]
  omega

theorem atoi_decimal (hn : n < 2147483648) : atoi (decimal n) = n := by
  have h := @atoi_digits n (decimal n) [] (decimal_ne_nil n) (isDigit_decimal n) (digitsValue_decimal n) hn
    (by simp)
  rwa [List.append_nil] at h

end Digits

/-! ## IPv4 addresses -/

def afterDot : List UInt8 → Option (List UInt8)
  | [] => none
  | c :: rest => if c = 0x2e then some rest else afterDot rest

def rteBe32 (v : UInt32) : UInt32 :=
  UInt32.ofNat (setByte (getByte v.toNat 0).toNat 3 ||| setByte (getByte v.toNat 1).toNat 2 |||
    setByte (getByte v.toNat 2).toNat 1 ||| setByte (getByte v.toNat 3).toNat 0)

def beIpv4Addr (a b c d : Int) : UInt32 :=
  rteBe32 (UInt32.ofInt (a * 16777216 + b * 65536 + c * 256 + d))

def UINT32_CHANGEABLE_FIELD : List UInt8 :=
  [0x30, 0x78, 0x66, 0x66, 0x66, 0x66, 0x66, 0x66, 0x66, 0x66]

def parseIpv4Str (strIp : List UInt8) : Except DocaError UInt32 :=
  if strIp = UINT32_CHANGEABLE_FIELD then .ok 0xffffffff
  else
    match afterDot strIp with
    | none => .error .invalidValue
    | some s1 =>
      match afterDot s1 with
      | none => .error .invalidValue
      | some s2 =>
        match afterDot s2 with
        | none => .error .invalidValue
        | some s3 => .ok (beIpv4Addr (atoi strIp) (atoi s1) (atoi s2) (atoi s3))

/-- `10.0.0.7`, first byte first in memory. -/
example : parseIpv4Str [0x31, 0x30, 0x2e, 0x30, 0x2e, 0x30, 0x2e, 0x37] = .ok 0x0700000a := by
  decide

end Doca.Common
