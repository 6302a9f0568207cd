import Doca.Common.FlowParser
import Mathlib

/-!
# What the address parsers accept

`parse_ipv4_str`, `parse_mac_address` and `parse_ipv6_str` of `common/flow_parser.c`, the last two with
`strtol`.

Principal results:

* `ipv4Parsed_iff` — an IPv4 string is treated as it should be exactly if it has fewer than three dots or
  is a dotted quad: between and behind its dots nothing is checked;
* `addresses_parse_back_iff`.
-/

namespace Doca.Common

/-! ## What is accepted -/

structure Octet (text : List UInt8) (n : Nat) : Prop where
  nonempty : text ≠ []
  digits : ∀ c ∈ text, isDigit c = true
  value : digitsValue text 0 = n
  le : n ≤ 255

def Quad (s : List UInt8) (a b c d : Nat) : Prop :=
  ∃ t₁ t₂ t₃ t₄, Octet t₁ a ∧ Octet t₂ b ∧ Octet t₃ c ∧ Octet t₄ d ∧
    s = t₁ ++ 0x2e :: (t₂ ++ 0x2e :: (t₃ ++ 0x2e :: t₄))

structure Ipv4Parsed (s : List UInt8) : Prop where
  accepted : (∃ v, parseIpv4Str s = .ok v) ↔ s = UINT32_CHANGEABLE_FIELD ∨ ∃ a b c d, Quad s a b c d
  field : s = UINT32_CHANGEABLE_FIELD → parseIpv4Str s = .ok 0xffffffff
  value : ∀ a b c d, Quad s a b c d →
    parseIpv4Str s = .ok (rteBe32 (UInt32.ofNat (a * 16777216 + b * 65536 + c * 256 + d)))

theorem afterDot_count (s : List UInt8) :
    match afterDot s with
    | none => s.count 0x2e = 0
    | some rest => s.count 0x2e = rest.count 0x2e + 1 := by
  fun_induction afterDot s with
  | case1 => rfl
  | case2 rest => simp
  | case3 c rest hc ih => simpa [List.count_cons, hc] using ih

/-- Only the dots are looked at. -/
theorem parseIpv4Str_ok_iff (s : List UInt8) :
    (∃ v, parseIpv4Str s = .ok v) ↔ s = UINT32_CHANGEABLE_FIELD ∨ 3 ≤ s.count 0x2e := by
  unfold parseIpv4Str
  split
  · simp [*]
  rename_i hfield
  have h₁ := afterDot_count s
  cases hs : afterDot s with
  | none => simp_all
  | some s₁ =>
    have h₂ := afterDot_count s₁
    cases hs₁ : afterDot s₁ with
    | none => simp_all
    | some s₂ =>
      have h₃ := afterDot_count s₂
      cases hs₂ : afterDot s₂ <;> simp_all

theorem Octet.atoi {text rest : List UInt8} {n : Nat} (h : Octet text n)
    (hrest : ∀ c ∈ rest.head?, isDigit c = false) : atoi (text ++ rest) = n :=
  atoi_digits h.nonempty h.digits h.value (by have := h.le; omega) hrest

theorem afterDot_append {text : List UInt8} (h : ∀ c ∈ text, isDigit c = true) (rest : List UInt8) :
    afterDot (text ++ 0x2e :: rest) = some rest := by
  induction text with
  | nil => rfl
  | cons c text ih =>
    have hc : c ≠ 0x2e := by
      rintro rfl
      cases h _ List.mem_cons_self
    rw [List.cons_append, afterDot, if_neg hc]
    exact ih fun c hc => h c (List.mem_cons_of_mem _ hc)

theorem Quad.parse {s : List UInt8} {a b c d : Nat} (h : Quad s a b c d) :
    parseIpv4Str s = .ok (rteBe32 (UInt32.ofNat (a * 16777216 + b * 65536 + c * 256 + d))) := by
  obtain ⟨t₁, t₂, t₃, t₄, h₁, h₂, h₃, h₄, rfl⟩ := h
  have hdot : ∀ r : List UInt8, ∀ c ∈ (0x2e :: r).head?, isDigit c = false := by
    rintro r _ ⟨⟩
    rfl
  have hlast := @Octet.atoi t₄ [] d h₄ nofun
  rw [List.append_nil] at hlast
  have hfield : t₁ ++ 0x2e :: (t₂ ++ 0x2e :: (t₃ ++ 0x2e :: t₄)) ≠ UINT32_CHANGEABLE_FIELD := by
    intro heq
    have hmem : (0x2e : UInt8) ∈ UINT32_CHANGEABLE_FIELD := heq ▸ by simp
    exact absurd hmem (by decide)
  simp only [parseIpv4Str, if_neg hfield, afterDot_append h₁.digits, afterDot_append h₂.digits,
    afterDot_append h₃.digits, h₁.atoi (hdot _), h₂.atoi (hdot _), h₃.atoi (hdot _), hlast, beIpv4Addr]
  have hnat : ((a * 16777216 + b * 65536 + c * 256 + d : Int) % 2 ^ 32).toNat =
      a * 16777216 + b * 65536 + c * 256 + d := by
    have := And.intro h₁.le (And.intro h₂.le (And.intro h₃.le h₄.le))
    omega
  rw [UInt32.ofInt, hnat]

theorem decimal_octet (n : Nat) : Octet (decimal (n % 256)) (n % 256) :=
  ⟨decimal_ne_nil _, isDigit_decimal _, digitsValue_decimal _,
    Nat.le_of_lt_succ (Nat.mod_lt n (by decide))⟩

def dottedQuad (ip : UInt32) : List UInt8 :=
  let text (k : Nat) := decimal (ip.toNat / 256 ^ k % 256)
  text 3 ++ 0x2e :: (text 2 ++ 0x2e :: (text 1 ++ 0x2e :: text 0))

/-- **When an address is parsed right**: if the string has fewer than three dots, or is a dotted quad.  In
    particular the text of an address is. -/
theorem ipv4Parsed_iff (s : List UInt8) (ip : UInt32) :
    (Ipv4Parsed s ↔ s.count 0x2e < 3 ∨ ∃ a b c d, Quad s a b c d) ∧
      parseIpv4Str (dottedQuad ip) = .ok (rteBe32 ip) := by
  refine ⟨⟨fun h => ?_, fun h => ?_⟩, ?_⟩
  · by_cases hdots : s.count 0x2e < 3
    · exact .inl hdots
    · have hok := (parseIpv4Str_ok_iff s).mpr (.inr (Nat.le_of_not_lt hdots))
      refine .inr ((h.accepted.mp hok).resolve_left ?_)
      rintro rfl
      exact hdots (by decide)
  · refine ⟨⟨fun hok => ?_, ?_⟩, fun hfield => if_pos hfield, fun a b c d hquad => hquad.parse⟩
    · rcases (parseIpv4Str_ok_iff s).mp hok with hfield | hdots
      · exact .inl hfield
      · exact .inr (h.resolve_left (Nat.not_lt.mpr hdots))
    · rintro (hfield | ⟨a, b, c, d, hquad⟩)
      · exact ⟨_, if_pos hfield⟩
      · exact ⟨_, hquad.parse⟩
  · have hquad : Quad (dottedQuad ip) _ _ _ _ :=
      ⟨_, _, _, _, decimal_octet _, decimal_octet _, decimal_octet _, decimal_octet _, rfl⟩
    rw [hquad.parse]
    congr 2
    rw [← UInt32.toNat_inj, UInt32.toNat_ofNat']
    have := ip.toNat_lt
    omega

theorem dots_accepted : ¬ Ipv4Parsed [0x2e, 0x2e, 0x2e] := by
  intro h
  rcases h.accepted.mp ⟨_, rfl⟩ with hfield | ⟨a, b, c, d, t₁, t₂, t₃, t₄, h₁, -, -, -, heq⟩
  · cases hfield
  · obtain ⟨x, t, rfl⟩ := List.exists_cons_of_ne_nil h₁.nonempty
    cases (List.cons.inj heq).1
    cases h₁.digits _ List.mem_cons_self

/-! ## `strtol` and the addresses that it reads -/

def digitOf (c : UInt8) : Nat :=
  if isDigit c then c.toNat - 48
  else if 0x61 ≤ c && c ≤ 0x7a then c.toNat - 87
  else if 0x41 ≤ c && c ≤ 0x5a then c.toNat - 55
  else 36

/-- The base and the digits behind the sign: base 0 goes by the text, and bases 0 and 16 skip `0x`. -/
def subject (base : Nat) : List UInt8 → Nat × List UInt8
  | 0x30 :: x :: c :: rest =>
    if (x = 0x78 ∨ x = 0x58) ∧ digitOf c < 16 ∧ (base = 0 ∨ base = 16) then (16, c :: rest)
    else (if base = 0 then 8 else base, 0x30 :: x :: c :: rest)
  | 0x30 :: rest => (if base = 0 then 8 else base, 0x30 :: rest)
  | s => (if base = 0 then 10 else base, s)

/-- `strtol`, with the string at the end pointer.  No subject sequence has the expected form for a base
    that is not 0 or from 2 to 36. -/
def strtol (str : List UInt8) (base : Nat) : Int × List UInt8 :=
  if base = 1 ∨ 36 < base then (0, str)
  else
    let t := splitSign (str.dropWhile isSpace)
    let (radix, digits) := subject base t.2
    let read := digits.takeWhile fun c => digitOf c < radix
    if read = [] then (0, str)
    else
      let value : Int := read.foldl (fun v c => v * radix + digitOf c) 0
      (max (-9223372036854775808) (min 9223372036854775807 (if t.1 then -value else value)),
        digits.drop read.length)

def HEXADECIMAL_BASE : Nat := 1

/-- `parse_mac_address`, with `n` groups in front of the last one to come. -/
def parseMacAddress : Nat → List UInt8 → Except DocaError (List UInt8)
  | 0, str => .ok [UInt8.ofInt (strtol str HEXADECIMAL_BASE).1]
  | n + 1, str =>
    match str.dropWhile (· ≠ 0x3a) with
    | [] => .error .invalidValue
    | _ :: rest => (parseMacAddress n rest).map (UInt8.ofInt (strtol str HEXADECIMAL_BASE).1 :: ·)

/-- `parse_ipv6_str`, with `n` words to come; the end pointer is never NULL. -/
def parseIpv6Str : Nat → List UInt8 → List UInt32
  | 0, _ => []
  | n + 1, str =>
    let (hi, ptr) := strtol str HEXADECIMAL_BASE
    let (lo, ptr) := strtol ptr.tail HEXADECIMAL_BASE
    rteBe32 (UInt32.ofInt (hi * 65536 + lo)) :: parseIpv6Str n ptr.tail

def hexGroup : Nat → Nat → List UInt8
  | 0, _ => []
  | k + 1, v => hexGroup k (v / 16) ++ [((if v % 16 < 10 then 48 else 87) + v % 16).toUInt8]

def macText (mac : Fin 6 → UInt8) : List UInt8 :=
  [0x3a].intercalate ((List.ofFn mac).map fun b => hexGroup 2 b.toNat)

def ipv6Text (ip : Fin 4 → UInt32) : List UInt8 :=
  [0x3a].intercalate ((List.ofFn ip).flatMap fun w =>
    [hexGroup 4 (w.toNat / 65536), hexGroup 4 (w.toNat % 65536)])

theorem parseMacAddress_eq {n : Nat} {str : List UInt8} (h : n ≤ str.count 0x3a) :
    parseMacAddress n str = .ok (List.replicate (n + 1) 0) := by
  induction n generalizing str with
  | zero => rfl
  | succ n ih =>
    obtain ⟨before, rest, rfl, hbefore⟩ :=
      List.eq_append_cons_of_mem (List.count_pos_iff.mp (Nat.zero_lt_of_lt h))
    have hdrop : (before ++ 0x3a :: rest).dropWhile (· ≠ 0x3a) = 0x3a :: rest := by
      rw [List.dropWhile_append_of_pos fun c hc => ?_]
      · rfl
      · simpa using fun heq : c = 0x3a => hbefore (heq ▸ hc)
    rw [List.count_append, List.count_eq_zero_of_not_mem hbefore, List.count_cons_self] at h
    rw [parseMacAddress, hdrop]
    dsimp only
    rw [ih (by omega)]
    rfl

theorem rteBe32_eq_zero {v : UInt32} (h : rteBe32 v = 0) : v = 0 := by
  have hv := v.toNat_lt
  rw [rteBe32, setByte_eq _ 3, or_setByte _ _ 2, or_setByte _ _ 1, or_setByte _ _ 0] at h
  simp only [getByte_eq, ← UInt32.toNat_inj, UInt32.toNat_ofNat', UInt8.toNat_ofNat',
    UInt32.toNat_zero] at h ⊢
  omega

/-- **No MAC and no IPv6 address but zero parses back**, as 1 is not a base. -/
theorem addresses_parse_back_iff (mac : Fin 6 → UInt8) (ip : Fin 4 → UInt32) :
    (parseMacAddress 5 (macText mac) = .ok (List.ofFn mac) ↔ mac = 0) ∧
      (parseIpv6Str 4 (ipv6Text ip) = (List.ofFn ip).map rteBe32 ↔ ip = 0) := by
  constructor
  · have hcolons : 5 ≤ (macText mac).count 0x3a := by
      simp [macText, List.ofFn_succ, List.intercalate]
      omega
    have hzero : List.ofFn (0 : Fin 6 → UInt8) = List.replicate 6 0 := rfl
    rw [parseMacAddress_eq hcolons, Except.ok.injEq, ← hzero, List.ofFn_inj, eq_comm]
  · have hzero : parseIpv6Str 4 (ipv6Text ip) = (List.ofFn (0 : Fin 4 → UInt32)).map rteBe32 := rfl
    rw [hzero, List.map_ofFn, List.map_ofFn, List.ofFn_inj]
    constructor
    · intro h
      funext i
      exact rteBe32_eq_zero ((congrFun h i).symm.trans (show rteBe32 0 = 0 by decide))
    · rintro rfl
      rfl

theorem mac_not_read : parseMacAddress 5 (macText fun i => if i = 0 then 1 else 0) =
    .ok [0, 0, 0, 0, 0, 0] := rfl

end Doca.Common
