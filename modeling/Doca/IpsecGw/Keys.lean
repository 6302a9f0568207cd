import Doca.IpsecGw.DynamicRules
import Doca.IpsecGw.PolicySocket

/-!
# Keys and policy records

The hexadecimal keys of the configuration file (`parse_hex_to_bytes` and `create_key` of `config.c`),
and what the record of a policy says about its key.

* `packPolicy` — the record of a policy, in the order that `policy.h` documents.

Principal results: `hexDecoded_iff`; `unpackPolicyBuffer_packPolicy`; `keyFits_iff` — nothing compares
the length of a record with its `key_type`.
-/

namespace Doca.IpsecGw

open Doca.Common Doca.Lib List Option

def KeyType.size : KeyType → Nat
  | .key128 => 16
  | .key256 => 32

/-! ## Keys of the configuration file -/

def toLower (c : UInt8) : UInt8 := if 65 ≤ c ∧ c ≤ 90 then c + 32 else c

/-- The digit that `parse_hex_to_bytes` computes: `tolower` classifies the character, but is not used for
its value. -/
def hexDigit (c : UInt8) : Option UInt8 :=
  if 48 ≤ c ∧ c ≤ 57 then some (c - 48)
  else if 97 ≤ toLower c ∧ toLower c ≤ 102 then some (c - 97 + 10)
  else none

def appendDigit (b digit : UInt8) : UInt8 := (b <<< 4) + digit

def parseHexToBytes : List UInt8 → Nat → List UInt8 → DocaError × List UInt8
  | [], _, key => (.success, key)
  | c :: rest, i, key =>
    match hexDigit c with
    | none => (.invalidValue, key)
    | some digit => parseHexToBytes rest (i + 1) (key.modify (i / 2) (appendDigit · digit))

inductive JsonKey where
  | missing
  | other
  | string (text : List UInt8)
  deriving DecidableEq

def createKey (json : JsonKey) (keyType : KeyType) (key : List UInt8) : DocaError × List UInt8 :=
  match json with
  | .missing | .other => (.invalidValue, key)
  | .string text =>
    let maxKeySize := if keyType = .key128 then 32 else 64
    let keyLen := min (cString text).length (maxKeySize + 1)
    if keyLen = maxKeySize + 1 then (.invalidValue, key)
    else if keyLen % 2 ≠ 0 then (.invalidValue, key)
    else parseHexToBytes ((cString text).take keyLen) 0 key

def hexValue (c : UInt8) : Option Nat :=
  if 48 ≤ c ∧ c ≤ 57 then some (c.toNat - 48)
  else if 97 ≤ c ∧ c ≤ 102 then some (c.toNat - 87)
  else if 65 ≤ c ∧ c ≤ 70 then some (c.toNat - 55)
  else none

def decodePairs (byte : UInt8 → UInt8 → Option UInt8) : List UInt8 → Option (List UInt8)
  | [] => some []
  | [_] => none
  | hi :: lo :: rest => do
    let b ← byte hi lo
    let bytes ← decodePairs byte rest
    some (b :: bytes)

def decodeHex : List UInt8 → Option (List UInt8) := decodePairs fun hi lo => do
  let h ← hexValue hi
  let l ← hexValue lo
  some (UInt8.ofNat (16 * h + l))

/-- A string of at most the length of the key type that is hexadecimal gives its bytes in front of zeros,
any other is rejected. -/
def HexDecoded (keyType : KeyType) (text : List UInt8) : Prop :=
  match (decodeHex (cString text)).filter fun bytes => bytes.length ≤ keyType.size with
  | some bytes => createKey (.string text) keyType (List.replicate MAX_KEY_LEN 0) =
      (.success, bytes ++ List.replicate (MAX_KEY_LEN - bytes.length) 0)
  | none => (createKey (.string text) keyType (List.replicate MAX_KEY_LEN 0)).1 ≠ .success

def IsUpperHex (c : UInt8) : Prop := 65 ≤ c ∧ c ≤ 70

instance (c : UInt8) : Decidable (IsUpperHex c) := inferInstanceAs (Decidable (_ ∧ _))

theorem hexDigit_eq (c : UInt8) :
    hexDigit c = (hexValue c).map fun v => UInt8.ofNat v + if IsUpperHex c then 224 else 0 := by
  have hall : ∀ n < 256, hexDigit (UInt8.ofNat n) = (hexValue (UInt8.ofNat n)).map fun v =>
      UInt8.ofNat v + if IsUpperHex (UInt8.ofNat n) then 224 else 0 := by
    decide +kernel
  have := hall c.toNat c.toNat_lt
  rwa [UInt8.ofNat_toNat] at this

def parsedByte (hi lo : UInt8) : Option UInt8 := do
  let h ← hexDigit hi
  let l ← hexDigit lo
  some (appendDigit (appendDigit 0 h) l)

theorem parsedByte_eq (hi lo : UInt8) : parsedByte hi lo = (do
      let h ← hexValue hi
      let l ← hexValue lo
      some (UInt8.ofNat (16 * h + l) + if IsUpperHex lo then 224 else 0)) := by
  have hshift : ∀ (h l : Nat) (e e' : UInt8), e.toNat % 16 = 0 →
      appendDigit (appendDigit 0 (UInt8.ofNat h + e)) (UInt8.ofNat l + e') =
        UInt8.ofNat (16 * h + l) + e' := by
    intro h l e e' he
    rw [← UInt8.toNat_inj]
    simp only [appendDigit, UInt8.toNat_add, UInt8.toNat_shiftLeft, UInt8.toNat_ofNat',
      UInt8.reduceToNat, Nat.shiftLeft_eq, Nat.reduceMod, Nat.reducePow]
    omega
  simp only [parsedByte, hexDigit_eq, bind_eq_bind]
  cases hexValue hi with
  | none => rfl
  | some h =>
    cases hexValue lo with
    | none => rfl
    | some l =>
      simp only [map_some, bind_some, some.injEq]
      apply hshift
      split <;> decide

theorem modify_length (l r : List UInt8) (b : UInt8) (f : UInt8 → UInt8) :
    (l ++ b :: r).modify l.length f = l ++ f b :: r := by
  induction l with
  | nil => rfl
  | cons x l ih => simpa using ih

/-- **`parse_hex_to_bytes` decodes two characters at a time**, from the first zero of the array on. -/
theorem parseHexToBytes_eq (s done : List UInt8) (n : Nat) (heven : s.length % 2 = 0)
    (hroom : s.length ≤ 2 * n) :
    match decodePairs parsedByte s with
    | some bytes => parseHexToBytes s (2 * done.length) (done ++ replicate n 0) =
        (.success, done ++ (bytes ++ replicate (n - bytes.length) 0))
    | none => (parseHexToBytes s (2 * done.length) (done ++ replicate n 0)).1 ≠ .success := by
  induction s using decodePairs.induct generalizing done n with
  | case1 => simp [decodePairs, parseHexToBytes]
  | case2 => simp at heven
  | case3 hi lo rest ih =>
    simp only [length_cons] at heven hroom
    obtain ⟨n, rfl⟩ : ∃ m, n = m + 1 := ⟨n - 1, by omega⟩
    have hodd : (2 * done.length + 1) / 2 = done.length := by omega
    have hzero : 2 * done.length / 2 = done.length := by omega
    simp only [decodePairs, parseHexToBytes, parsedByte, bind_eq_bind]
    cases hexDigit hi with
    | none => simp
    | some h =>
      cases hexDigit lo with
      | none => simp
      | some l =>
        have ih := ih (done ++ [appendDigit (appendDigit 0 h) l]) n (by omega) (by omega)
        simp only [bind_some, hzero, hodd, replicate_succ, modify_length]
        rw [length_append, length_singleton, Nat.mul_add] at ih
        simp only [append_assoc, singleton_append] at ih
        cases hrest : decodePairs parsedByte rest with
        | none =>
          rw [hrest] at ih
          exact ih
        | some bytes =>
          rw [hrest] at ih
          simpa using ih

def LowDigitsLower : List UInt8 → Prop
  | _ :: lo :: rest => ¬ IsUpperHex lo ∧ LowDigitsLower rest
  | _ => True

theorem decodePairs_parsedByte (s : List UInt8) :
    match decodeHex s with
    | some bytes => bytes.length * 2 = s.length ∧
        ∃ parsed, decodePairs parsedByte s = some parsed ∧ parsed.length = bytes.length ∧
          (parsed = bytes ↔ LowDigitsLower s)
    | none => decodePairs parsedByte s = none := by
  induction s using decodePairs.induct with
  | case1 => simp [decodeHex, decodePairs, LowDigitsLower]
  | case2 => simp [decodeHex, decodePairs]
  | case3 hi lo rest ih =>
    simp only [decodeHex, decodePairs, parsedByte_eq, LowDigitsLower, bind_eq_bind] at ih ⊢
    cases hexValue hi with
    | none => simp
    | some h =>
      cases hexValue lo with
      | none => simp
      | some l =>
        simp only [bind_some]
        generalize decodePairs _ rest = decoded at ih ⊢
        cases decoded with
        | none => simp [ih]
        | some bytes =>
          obtain ⟨hlen, parsed, hparsed, hsame, hiff⟩ := ih
          have hbyte : ∀ b : UInt8, (b + if IsUpperHex lo then 224 else 0) = b ↔ ¬ IsUpperHex lo := by
            intro b
            by_cases hup : IsUpperHex lo
            · simp [hup]
            · simp [hup]
          refine ⟨by simp only [length_cons]; omega, _, by rw [hparsed]; rfl, ?_, ?_⟩
          · rw [length_cons, length_cons, hsame]
          · rw [cons.injEq, hbyte, hiff]

theorem createKey_string (keyType : KeyType) (text key : List UInt8) :
    createKey (.string text) keyType key =
      if 2 * keyType.size < (cString text).length ∨ (cString text).length % 2 ≠ 0 then
        (.invalidValue, key)
      else parseHexToBytes (cString text) 0 key := by
  have hmax : (if keyType = .key128 then 32 else 64) = 2 * keyType.size := by
    cases keyType <;> rfl
  simp only [createKey, hmax]
  by_cases hlong : 2 * keyType.size < (cString text).length
  · rw [if_pos (by omega), if_pos (.inl hlong)]
  · have hmin : min (cString text).length (2 * keyType.size + 1) = (cString text).length := by omega
    rw [hmin, if_neg (by omega), take_length]
    by_cases hodd : (cString text).length % 2 ≠ 0
    · rw [if_pos hodd, if_pos (.inr hodd)]
    · rw [if_neg hodd, if_neg (by omega)]

/-- **A key is decoded as hexadecimal exactly if it is not accepted or has no upper-case letter for
the low digit of a byte.** -/
theorem hexDecoded_iff (keyType : KeyType) (text : List UInt8) : HexDecoded keyType text ↔
      ((decodeHex (cString text)).isSome → (cString text).length ≤ 2 * keyType.size →
        LowDigitsLower (cString text)) := by
  have hpairs := decodePairs_parsedByte (cString text)
  have hsize : keyType.size ≤ MAX_KEY_LEN := by cases keyType <;> decide
  unfold HexDecoded
  rw [createKey_string]
  generalize cString text = s at *
  have hparse := fun heven hroom => parseHexToBytes_eq s [] MAX_KEY_LEN heven hroom
  cases hdec : decodeHex s with
  | none =>
    rw [hdec] at hpairs
    simp only [hpairs, length_nil, Nat.mul_zero, nil_append] at hparse
    simp only [filter_none, isSome_none, Bool.false_eq_true, false_implies, iff_true]
    split
    · simp
    · exact hparse (by omega) (by omega)
  | some bytes =>
    rw [hdec] at hpairs
    obtain ⟨hlen, parsed, hparsed, hsame, hiff⟩ := hpairs
    simp only [hparsed, length_nil, Nat.mul_zero, nil_append] at hparse
    by_cases hfits : bytes.length ≤ keyType.size
    · have hrun := hparse (by omega) (by omega)
      rw [if_neg (by omega), hrun]
      simp only [filter_some, hfits, decide_true, if_true, isSome_some, forall_const,
        Prod.mk.injEq, true_and, ← hiff]
      constructor
      · intro heq _
        exact (append_inj heq hsame).1
      · intro heq
        rw [heq (by omega)]
    · rw [if_pos (by omega)]
      simp only [filter_some, hfits, decide_false, Bool.false_eq_true, if_false]
      simp
      omega

/-- **The key `0A` is installed as `ea`.** -/
theorem createKey_upper_low : decodeHex [0x30, 0x41] = some [0x0a] ∧
      createKey (.string [0x30, 0x41]) .key128 (List.replicate MAX_KEY_LEN 0) =
        (.success, 0xea :: List.replicate 31 0) ∧ ¬ HexDecoded .key128 [0x30, 0x41] := by
  have hdecode : decodeHex [0x30, 0x41] = some [0x0a] := by decide
  have hkey : createKey (.string [0x30, 0x41]) .key128 (replicate MAX_KEY_LEN 0) =
      (.success, 0xea :: replicate 31 0) := by decide
  refine ⟨hdecode, hkey, fun h => ?_⟩
  have hspec : createKey (.string [0x30, 0x41]) .key128 (replicate MAX_KEY_LEN 0) =
      (.success, [0x0a] ++ replicate (MAX_KEY_LEN - 1) 0) := h
  rw [hkey] at hspec
  exact absurd hspec (by decide)

/-! ## Records -/

def packPolicy (p : Policy) (keyLen : Nat) : List UInt8 :=
  let buf := packUint16 [] p.srcPort
  let buf := packUint16 buf p.dstPort
  let buf := packUint8 buf p.l3Protocol
  let buf := packUint8 buf p.l4Protocol
  let buf := packUint8 buf p.outerL3Protocol
  let buf := packUint8 buf p.policyDirection
  let buf := packUint8 buf p.policyMode
  let buf := packUint8 buf p.esn
  let buf := packUint8 buf p.icvLength
  let buf := packUint8 buf p.keyType
  let buf := packUint32 buf p.spi
  let buf := packUint32 buf p.salt
  let buf := packBlob buf p.srcIpAddr
  let buf := packBlob buf p.dstIpAddr
  let buf := packBlob buf p.outerSrcIp
  let buf := packBlob buf p.outerDstIp
  packBlob buf (p.encKeyData.take keyLen)

/-- A string in the buffer of an address: NUL-padded to 47 bytes, with a NUL in the last one. -/
structure IsAddr (addr : List UInt8) : Prop where
  length : addr.length = MAX_IP_ADDR_LEN + 1
  last : addr[MAX_IP_ADDR_LEN]? = some 0

/-- A policy with a key of `keyLen` bytes: the buffers have their sizes, the rest of the key array is
zero. -/
structure Encodable (p : Policy) (keyLen : Nat) : Prop where
  src : IsAddr p.srcIpAddr
  dst : IsAddr p.dstIpAddr
  outerSrc : IsAddr p.outerSrcIp
  outerDst : IsAddr p.outerDstIp
  key : p.encKeyData.length = MAX_KEY_LEN
  rest : p.encKeyData.drop keyLen = List.replicate (MAX_KEY_LEN - keyLen) 0

theorem IsAddr.reads {addr : List UInt8} (h : IsAddr addr) : Reads unpackAddr addr addr := by
  obtain ⟨hlt, hlast⟩ := List.getElem?_eq_some_iff.mp h.last
  have hset : addr.set MAX_IP_ADDR_LEN 0 = addr := by
    rw [← hlast]
    exact set_getElem_self hlt
  intro rest
  rw [unpackAddr, bind_eq_bind, unpackBlob_reads h.length, bind_some, hset]

/-- **A policy record has the documented length, and decodes to the policy it was packed from, without
a byte more.** -/
theorem unpackPolicyBuffer_packPolicy {p : Policy} {keyLen : Nat} (hkey : keyLen = 16 ∨ keyLen = 32)
    (h : Encodable p keyLen) :
    (packPolicy p keyLen).length =
        (if keyLen = 16 then POLICY_RECORD_MIN_SIZE else POLICY_RECORD_MAX_SIZE) ∧
      ∀ rest, unpackPolicyBuffer (packPolicy p keyLen ++ rest) (packPolicy p keyLen).length
        Policy.zero = some (p, rest) := by
  have htake : (p.encKeyData.take keyLen).length = keyLen := by
    rw [length_take, h.key, MAX_KEY_LEN]
    omega
  have hlen : (packPolicy p keyLen).length = 208 + keyLen := by
    simp only [packPolicy, packUint8, packUint16, packUint32, packBlob, length_append,
      length_cons, length_nil, h.src.length, h.dst.length, h.outerSrc.length,
      h.outerDst.length, htake, MAX_IP_ADDR_LEN]
  have hrecord : recordKeyLen (208 + keyLen) = keyLen := by rcases hkey with rfl | rfl <;> rfl
  have hrest : p.encKeyData.take keyLen ++ Policy.zero.encKeyData.drop keyLen = p.encKeyData := by
    have hzero : Policy.zero.encKeyData.drop keyLen = p.encKeyData.drop keyLen := by
      rw [h.rest]
      simp [Policy.zero]
    rw [hzero, take_append_drop]
  have hreads : Reads (fun buf => unpackPolicyBuffer buf (208 + keyLen) Policy.zero)
      (packPolicy p keyLen) p := by
    refine Reads.of_eq ( (unpackUint16_reads p.srcPort).bind <| (unpackUint16_reads p.dstPort).bind <|
      (unpackUint8_reads p.l3Protocol).bind <| (unpackUint8_reads p.l4Protocol).bind <|
      (unpackUint8_reads p.outerL3Protocol).bind <| (unpackUint8_reads p.policyDirection).bind <|
      (unpackUint8_reads p.policyMode).bind <| (unpackUint8_reads p.esn).bind <|
      (unpackUint8_reads p.icvLength).bind <| (unpackUint8_reads p.keyType).bind <|
      (unpackUint32_reads p.spi).bind <| (unpackUint32_reads p.salt).bind <|
      h.src.reads.bind <| h.dst.reads.bind <| h.outerSrc.reads.bind <| h.outerDst.reads.bind <|
      (unpackBlob_reads (htake.trans hrecord.symm)).bind <| by
        dsimp only
        rw [hrecord, hrest]
        exact .some p) ?_
    simp only [packPolicy, packUint8, packUint16, packUint32, packBlob, nil_append,
      append_nil, append_assoc]
  rw [hlen]
  exact ⟨by rcases hkey with rfl | rfl <;> rfl, hreads⟩

def addrText (c : UInt8) : List UInt8 :=
  [0x31, 0x2e, 0x31, 0x2e, 0x31, 0x2e, c] ++ List.replicate 40 0

def policy256 : Policy where
  srcPort := 1000
  dstPort := 2000
  l3Protocol := POLICY_L3_TYPE_IPV4
  l4Protocol := POLICY_L4_TYPE_UDP
  outerL3Protocol := POLICY_L3_TYPE_IPV4
  policyDirection := POLICY_DIR_IN
  policyMode := POLICY_MODE_TUNNEL
  esn := 1
  icvLength := 16
  keyType := 1
  spi := 0x01020304
  salt := 0x05060708
  encKeyData := (List.range 32).map UInt8.ofNat
  srcIpAddr := addrText 0x31
  dstIpAddr := addrText 0x32
  outerSrcIp := addrText 0x33
  outerDstIp := addrText 0x34

theorem unpackPolicyBuffer_packPolicy_256 : Encodable policy256 32 ∧
      unpackPolicyBuffer (packPolicy policy256 32) 240 Policy.zero = some (policy256, []) := by
  have haddr : ∀ c, IsAddr (addrText c) := fun c => ⟨rfl, rfl⟩
  have hpolicy : Encodable policy256 32 := ⟨haddr _, haddr _, haddr _, haddr _, rfl, rfl⟩
  obtain ⟨hlen, hread⟩ := unpackPolicyBuffer_packPolicy (.inr rfl) hpolicy
  have hback := hread []
  rw [hlen, append_nil] at hback
  exact ⟨hpolicy, hback⟩

/-! ## Keys of policies -/

section KeyLength

variable {Table : Type} {inetPton6 : List UInt8 → Option Ip6Addr} {hash : RteHash Table}

def Installed (g g' : Gateway Table) (attrs : SaAttrs) : Prop :=
  (g'.nbEncryptedRules = g.nbEncryptedRules + 1 ∧ g'.nbDecryptedRules = g.nbDecryptedRules ∧
    g'.nbRules = g.nbRules + 1 ∧
    ∃ rule, g'.encryptRules.cells[g.nbEncryptedRules]? = some rule ∧ rule.saAttrs = attrs) ∨
  (g'.nbDecryptedRules = g.nbDecryptedRules + 1 ∧ g'.nbEncryptedRules = g.nbEncryptedRules ∧
    g'.nbRules = g.nbRules + 1 ∧
    ∃ rule, g'.decryptRules.cells[g.nbDecryptedRules]? = some rule ∧ rule.saAttrs = attrs)

/-- The pass has accepted the policy: no call failed, and its direction is one of the two. -/
def Accepted (policy : Policy) (res : Except DocaError Unit) : Prop :=
  res = .ok () ∧ (policy.policyDirection = POLICY_DIR_OUT ∨ policy.policyDirection = POLICY_DIR_IN)

/-- An accepted record has become a rule with a key of the length of its type; any other counts
nowhere. -/
def KeyFits (r : PolicyRecord) (res : Except DocaError Unit) (g g' : Gateway Table) : Prop :=
  (Accepted r.policy res →
    ∃ attrs, Installed g g' attrs ∧ recordKeyLen r.bytes.length = attrs.keyType.size) ∧
  (¬ Accepted r.policy res → SameCounters g g')

variable {policy : Policy} {u : Unit}

theorem parseSaAttrs_keyType {sa sa' : SaAttrs} (h : parseSaAttrs policy sa = some (.ok u, sa')) :
    sa'.keyType = convertToDocaKeyType policy.keyType := by
  simp only [parseSaAttrs, Prog.bind_ok] at h
  obtain ⟨_, _, h₁, _, _, h₂, h₃⟩ := h
  cases h₁
  simp only [Prog.lift, Prog.step, some.injEq, Prod.mk.injEq] at h₂
  cases h₃
  rw [← h₂.2]

theorem policyEncryptParse_keyType {s s' : EncryptRule × Table}
    (h : policyEncryptParse inetPton6 hash policy s = some (.ok u, s')) :
    s'.1.saAttrs.keyType = convertToDocaKeyType policy.keyType := by
  simp only [policyEncryptParse, Prog.bind_ok] at h
  obtain ⟨_, _, _, _, _, _, _, _, _, h⟩ := h
  simp only [Prog.zoom, map_eq_some_iff] at h
  obtain ⟨⟨r, sa⟩, hsa, h⟩ := h
  cases h
  exact parseSaAttrs_keyType hsa

theorem policyDecryptParse_keyType {mode : Mode} {s s' : DecryptRule}
    (h : policyDecryptParse inetPton6 policy mode s = some (.ok u, s')) :
    s'.saAttrs.keyType = convertToDocaKeyType policy.keyType := by
  simp only [policyDecryptParse, Prog.bind_ok] at h
  obtain ⟨_, _, _, _, _, _, _, _, _, h⟩ := h
  simp only [Prog.zoom, map_eq_some_iff] at h
  obtain ⟨⟨r, sa⟩, hsa, h⟩ := h
  cases h
  exact parseSaAttrs_keyType hsa

/-- A pass that accepts a policy turns it into a rule with the key type of the policy; any other changes
no counter. -/
theorem waitForTrafficPass_installs {ev : PassEnv} {g g' : Gateway Table} {res : Except DocaError Unit}
    (h : waitForTrafficPass inetPton6 hash ev (.ok policy) g = some (res, g')) :
    (Accepted policy res ∧
      ∃ attrs, Installed g g' attrs ∧ attrs.keyType = convertToDocaKeyType policy.keyType) ∨
      (¬ Accepted policy res ∧ SameCounters g g') := by
  simp only [waitForTrafficPass] at h
  split at h
  · rename_i hdir
    rcases receiveEncryptPolicy_cases h with ⟨hne, hsame⟩ | ⟨hacc, hres, hall, s, s', hparse, hget⟩
    · exact .inr ⟨fun hok => hne hok.1, hsame⟩
    · exact .inl ⟨⟨hres, .inl hdir⟩, _, .inl ⟨hacc.nbEncryptedRules, hacc.nbDecryptedRules, hall, _, hget,
        rfl⟩, policyEncryptParse_keyType hparse⟩
  rename_i hout
  split at h
  · rename_i hdir
    rcases receiveDecryptPolicy_cases h with ⟨hne, hsame⟩ | ⟨hacc, hres, hall, s, s', hparse, hget⟩
    · exact .inr ⟨fun hok => hne hok.1, hsame⟩
    · exact .inl ⟨⟨hres, .inr hdir⟩, _, .inr ⟨hacc.nbDecryptedRules, hacc.nbEncryptedRules, hall, _, hget,
        rfl⟩, policyDecryptParse_keyType hparse⟩
  · rename_i hin
    cases h
    exact .inr ⟨fun hok => hok.2.elim hout hin, rfl, rfl, rfl⟩

theorem Installed.unique {g g' : Gateway Table} {attrs attrs' : SaAttrs}
    (h : Installed g g' attrs) (h' : Installed g g' attrs') : attrs = attrs' := by
  rcases h with ⟨hn, _, _, rule, hget, rfl⟩ | ⟨hn, _, _, rule, hget, rfl⟩
  · rcases h' with ⟨_, _, _, rule', hget', rfl⟩ | ⟨_, hn', _⟩
    · rw [hget] at hget'
      cases hget'
      rfl
    · omega
  · rcases h' with ⟨_, hn', _⟩ | ⟨_, _, _, rule', hget', rfl⟩
    · omega
    · rw [hget] at hget'
      cases hget'
      rfl

end KeyLength

def longRecord : PolicyRecord := ⟨packPolicy policy256 32, .inr (by decide +kernel)⟩

def shortRecord : PolicyRecord := ⟨packPolicy policy256 16, .inl (by decide +kernel)⟩

def noRules : Gateway Unit :=
  { cfg := Config.zero
    encryptRules := ⟨1, List.replicate DYN_RESERVED_RULES EncryptRule.zero⟩
    decryptRules := ⟨2, List.replicate DYN_RESERVED_RULES DecryptRule.zero⟩
    nbEncryptedRules := 0
    nbDecryptedRules := 0
    nbRules := 0
    ip6Table := ()
    flow := Flow.empty
    workers := [] }

def recordPass (r : PolicyRecord) : Option (Except DocaError Unit × Gateway Unit) :=
  waitForTrafficPass (fun _ => none) ⟨fun _ _ => 0, fun t _ => (0, t)⟩
    ⟨FlowEnv.ideal, 1, none, none⟩ (.ok r.policy) noRules

end Doca.IpsecGw
