import Doca.Common.FlowParser
import Doca.IpsecGw.RuleEntries

/-!
# IPsec policies

Model of `policy.h`, of the parsers of `policy.c` and of `unpack_policy_buffer`.

* `Policy` — `struct ipsec_security_gw_ipsec_policy`; the address strings are the bytes of their
  buffers, the terminating NUL included.
* `policyEncryptParse`, `policyDecryptParse` — from a policy to the fields of a rule.  They write into
  the rule as they go, and what they have written stays if they fail.

`inet_pton` for IPv6 is a parameter.
-/

namespace Doca.IpsecGw

open Doca.Common Doca.Lib

/-! ## The policy record -/

def POLICY_DIR_IN : UInt8 := 0
def POLICY_DIR_OUT : UInt8 := 1
def POLICY_MODE_TUNNEL : UInt8 := 1
def POLICY_L3_TYPE_IPV4 : UInt8 := 4
def POLICY_L4_TYPE_UDP : UInt8 := IPPROTO_UDP
def POLICY_KEY_TYPE_128 : UInt8 := 0
def POLICY_RECORD_MIN_SIZE : Nat := 224
def POLICY_RECORD_MAX_SIZE : Nat := 240

def MAX_IP_ADDR_LEN : Nat := 46

def MAX_KEY_LEN : Nat := 32

structure Policy where
  srcPort : UInt16
  dstPort : UInt16
  l3Protocol : UInt8
  l4Protocol : UInt8
  outerL3Protocol : UInt8
  policyDirection : UInt8
  policyMode : UInt8
  esn : UInt8
  icvLength : UInt8
  keyType : UInt8
  spi : UInt32
  salt : UInt32
  encKeyData : List UInt8
  srcIpAddr : List UInt8
  dstIpAddr : List UInt8
  outerSrcIp : List UInt8
  outerDstIp : List UInt8
  deriving DecidableEq

def Policy.zero : Policy :=
  ⟨0, 0, 0, 0, 0, 0, 0, 0, 0, 0, 0, 0, List.replicate MAX_KEY_LEN 0,
    List.replicate (MAX_IP_ADDR_LEN + 1) 0, List.replicate (MAX_IP_ADDR_LEN + 1) 0,
    List.replicate (MAX_IP_ADDR_LEN + 1) 0, List.replicate (MAX_IP_ADDR_LEN + 1) 0⟩

def unpackAddr (buf : List UInt8) : Option (List UInt8 × List UInt8) := do
  let r ← unpackBlob (MAX_IP_ADDR_LEN + 1) buf
  some (r.1.set MAX_IP_ADDR_LEN 0, r.2)

def recordKeyLen (nbBytes : Nat) : Nat := if nbBytes = POLICY_RECORD_MAX_SIZE then 32 else 16

/-- `unpack_policy_buffer`: the policy, and the bytes behind the record.  A short key leaves the end
    of `enc_key_data` as it was. -/
def unpackPolicyBuffer (buf : List UInt8) (nbBytes : Nat) (policy : Policy) :
    Option (Policy × List UInt8) := do
  let (srcPort, buf) ← unpackUint16 buf
  let (dstPort, buf) ← unpackUint16 buf
  let (l3Protocol, buf) ← unpackUint8 buf
  let (l4Protocol, buf) ← unpackUint8 buf
  let (outerL3Protocol, buf) ← unpackUint8 buf
  let (policyDirection, buf) ← unpackUint8 buf
  let (policyMode, buf) ← unpackUint8 buf
  let (esn, buf) ← unpackUint8 buf
  let (icvLength, buf) ← unpackUint8 buf
  let (keyType, buf) ← unpackUint8 buf
  let (spi, buf) ← unpackUint32 buf
  let (salt, buf) ← unpackUint32 buf
  let (srcIpAddr, buf) ← unpackAddr buf
  let (dstIpAddr, buf) ← unpackAddr buf
  let (outerSrcIp, buf) ← unpackAddr buf
  let (outerDstIp, buf) ← unpackAddr buf
  let (key, buf) ← unpackBlob (recordKeyLen nbBytes) buf
  some (⟨srcPort, dstPort, l3Protocol, l4Protocol, outerL3Protocol, policyDirection, policyMode, esn,
    icvLength, keyType, spi, salt, key ++ policy.encKeyData.drop (recordKeyLen nbBytes), srcIpAddr,
    dstIpAddr, outerSrcIp, outerDstIp⟩, buf)

theorem unpackAddr_takes : Takes (MAX_IP_ADDR_LEN + 1) unpackAddr := by
  intro bytes hb
  obtain ⟨v, hv⟩ := unpackBlob_takes _ bytes hb
  refine ⟨v.set MAX_IP_ADDR_LEN 0, fun rest => ?_⟩
  simp only [unpackAddr, hv, Option.bind_eq_bind, Option.bind_some]

theorem unpackPolicyBuffer_takes (nbBytes : Nat) (policy : Policy) :
    Takes (208 + recordKeyLen nbBytes) fun buf => unpackPolicyBuffer buf nbBytes policy := by
  have hsum : 208 + recordKeyLen nbBytes = 2 + (2 + (1 + (1 + (1 + (1 + (1 + (1 + (1 + (1 + (4 + (4 +
    (47 + (47 + (47 + (47 + (recordKeyLen nbBytes + 0)))))))))))))))) := by omega
  rw [hsum]
  exact unpackUint16_takes.bind fun _ => unpackUint16_takes.bind fun _ =>
    unpackUint8_takes.bind fun _ => unpackUint8_takes.bind fun _ =>
    unpackUint8_takes.bind fun _ => unpackUint8_takes.bind fun _ =>
    unpackUint8_takes.bind fun _ => unpackUint8_takes.bind fun _ =>
    unpackUint8_takes.bind fun _ => unpackUint8_takes.bind fun _ =>
    unpackUint32_takes.bind fun _ => unpackUint32_takes.bind fun _ =>
    unpackAddr_takes.bind fun _ => unpackAddr_takes.bind fun _ =>
    unpackAddr_takes.bind fun _ => unpackAddr_takes.bind fun _ =>
    (unpackBlob_takes (recordKeyLen nbBytes)).bind fun _ => .some _

/-! ## Security association attributes -/

def convertToDocaIcv (icvLength : UInt8) : Except DocaError IcvLen :=
  if icvLength = 8 then .ok .length8
  else if icvLength = 12 then .ok .length12
  else if icvLength = 16 then .ok .length16
  else .error .notSupported

def convertToDocaKeyType (keyType : UInt8) : KeyType :=
  if keyType = POLICY_KEY_TYPE_128 then .key128 else .key256

def parseSaAttrs (policy : Policy) : Prog SaAttrs DocaError Unit := do
  Prog.modify fun sa => { sa with
    keyType := convertToDocaKeyType policy.keyType
    encKeyData := policy.encKeyData
    salt := policy.salt }
  let icvLength ← Prog.lift (convertToDocaIcv policy.icvLength)
  Prog.modify fun sa => { sa with icvLength := icvLength }

/-! ## Rules -/

section Parse

variable {Table : Type} (inetPton6 : List UInt8 → Option Ip6Addr) (hash : RteHash Table)

def parseIpv6Str (strIp : List UInt8) : Except DocaError Ip6Addr :=
  match inetPton6 strIp with
  | some ip => .ok ip
  | none => .error .invalidValue

def l3TypeOf (protocol : UInt8) : L3Type := if protocol = POLICY_L3_TYPE_IPV4 then .ip4 else .ip6

/-- The rule and the table of addresses, which `ipsec_security_gw_policy_encrypt_parse` writes. -/
abbrev EncryptParse (Table : Type) := Prog (EncryptRule × Table) DocaError

def rememberIp6 (ip : Ip6Addr) : EncryptParse Table Unit := Prog.step fun s =>
  if hash.lookup s.2 ip < 0 then
    if (hash.addKey s.2 ip).1 < 0 then (.error .driver, (s.1, (hash.addKey s.2 ip).2))
    else (.ok (), (s.1, (hash.addKey s.2 ip).2))
  else (.ok (), s)

def parseInnerAddrs (policy : Policy) : EncryptParse Table Unit :=
  if l3TypeOf policy.l3Protocol = .ip4 then do
    let src ← Prog.lift (parseIpv4Str (cString policy.srcIpAddr))
    Prog.modify fun s => ({ s.1 with srcIp4 := src }, s.2)
    let dst ← Prog.lift (parseIpv4Str (cString policy.dstIpAddr))
    Prog.modify fun s => ({ s.1 with dstIp4 := dst }, s.2)
  else do
    let src ← Prog.lift (parseIpv6Str inetPton6 (cString policy.srcIpAddr))
    Prog.modify fun s => ({ s.1 with srcIp6 := src }, s.2)
    rememberIp6 hash src
    let dst ← Prog.lift (parseIpv6Str inetPton6 (cString policy.dstIpAddr))
    Prog.modify fun s => ({ s.1 with dstIp6 := dst }, s.2)
    rememberIp6 hash dst

def parseOuterHeader (policy : Policy) : EncryptParse Table Unit :=
  if policy.policyMode = POLICY_MODE_TUNNEL then do
    Prog.modify fun s => ({ s.1 with encapL3Type := l3TypeOf policy.outerL3Protocol }, s.2)
    if l3TypeOf policy.outerL3Protocol = .ip4 then do
      let dst ← Prog.lift (parseIpv4Str (cString policy.outerDstIp))
      Prog.modify fun s => ({ s.1 with encapDstIp4 := dst }, s.2)
    else do
      let dst ← Prog.lift (parseIpv6Str inetPton6 (cString policy.outerDstIp))
      Prog.modify fun s => ({ s.1 with encapDstIp6 := dst }, s.2)
  else pure ()

def policyEncryptParse (policy : Policy) : EncryptParse Table Unit := do
  Prog.modify fun s => ({ s.1 with
    espSpi := policy.spi
    l3Type := l3TypeOf policy.l3Protocol
    protocol := if policy.l4Protocol = POLICY_L4_TYPE_UDP then .udp else .tcp
    srcPort := policy.srcPort.toNat
    dstPort := policy.dstPort.toNat }, s.2)
  parseInnerAddrs inetPton6 hash policy
  parseOuterHeader inetPton6 policy
  Prog.zoom (fun s => s.1.saAttrs) (fun s sa => ({ s.1 with saAttrs := sa }, s.2)) (parseSaAttrs policy)

def parseDst (l3Type : L3Type) (dstIp : List UInt8) : Prog DecryptRule DocaError Unit :=
  if l3Type = .ip4 then do
    let dst ← Prog.lift (parseIpv4Str (cString dstIp))
    Prog.modify fun rule => { rule with dstIp4 := dst }
  else do
    let dst ← Prog.lift (parseIpv6Str inetPton6 (cString dstIp))
    Prog.modify fun rule => { rule with dstIp6 := dst }

/-- `ipsec_security_gw_policy_decrypt_parse`: the destination is that of the outer header in tunnel
    mode and that of the packet itself otherwise. -/
def policyDecryptParse (policy : Policy) (mode : Mode) : Prog DecryptRule DocaError Unit := do
  let l3Type := if mode = .tunnel then l3TypeOf policy.outerL3Protocol
    else l3TypeOf policy.l3Protocol
  Prog.modify fun rule => { rule with
    innerL3Type := l3TypeOf policy.l3Protocol
    l3Type := l3Type }
  parseDst inetPton6 l3Type (if mode = .tunnel then policy.outerDstIp else policy.dstIpAddr)
  Prog.modify fun rule => { rule with espSpi := policy.spi }
  Prog.zoom DecryptRule.saAttrs (fun rule sa => { rule with saAttrs := sa }) (parseSaAttrs policy)

end Parse

end Doca.IpsecGw
