import Doca.Common.Error

/-!
# IPsec security gateway: constants, rules and configuration

The data model of `ipsec_ctx.h`, `flow_common.h` and the parts of `config.c` that the data path
and the policy socket read.

* `EncryptRule`, `DecryptRule`, `Config` with the fields that the modelled functions use.  Bad
  syndrome entries, pipe names, device and DPDK configuration are not read by them and are left
  out.
* `PktMeta` — the bit fields of `union security_gateway_pkt_meta` and their packing into the
  32-bit metadata register (`PktMeta.toU32`, `PktMeta.ofU32`); `PktMeta.ofU32_toU32` shows that
  every field comes back reduced to its width.
-/

namespace Doca

namespace IpsecGw

/-! ## Limits -/

def MAX_NB_RULES : Nat := 1048576

/-- Rules reserved at start-up for dynamic mode, and the block size of every later growth. -/
def DYN_RESERVED_RULES : Nat := 1024

def ENCRYPT_DUMMY_ID : Nat := MAX_NB_RULES * 2 + 1

def DECRYPT_DUMMY_ID : Nat := MAX_NB_RULES * 2 + 2

def WINDOW_SIZE : Nat := 64

def UINT32_MAX : Nat := 4294967295

/-! ## Enumerations -/

inductive L3Type where
  | none
  | ip4
  | ip6
  deriving DecidableEq

/-- `enum doca_flow_l4_type_ext`, as far as rules use it. -/
inductive L4TypeExt where
  | none
  | tcp
  | udp
  deriving DecidableEq

inductive IcvLen where
  | length8
  | length12
  | length16
  deriving DecidableEq

def getIcvLenInt : IcvLen → Nat
  | .length8 => 8
  | .length12 => 12
  | .length16 => 16

/-- The enumerator's value, which is what the two-bit metadata field `icv_size` receives. -/
def IcvLen.toNat : IcvLen → Nat
  | .length8 => 0
  | .length12 => 1
  | .length16 => 2

inductive KeyType where
  | key128
  | key256
  deriving DecidableEq

inductive Mode where
  | tunnel
  | transport
  | udpTransport
  deriving DecidableEq

inductive Perf where
  | none
  | insertionRate
  | bw
  | both
  deriving DecidableEq

inductive EspOffload where
  | both
  | encap
  | decap
  | none
  deriving DecidableEq

inductive FwdSyndrome where
  | drop
  | rss
  deriving DecidableEq

/-! ## Rules -/

structure SaAttrs where
  icvLength : IcvLen
  keyType : KeyType
  encKeyData : List UInt8
  salt : UInt32
  deriving DecidableEq

/-- `struct antireplay_state`; bit 0 of `bitmap` is the lowest sequence number of the window. -/
structure AntireplayState where
  windowSize : UInt32
  endWinSn : UInt32
  bitmap : BitVec 64
  deriving DecidableEq

/-- An IPv6 address as the four big-endian words of `doca_be32_t[4]`. -/
structure Ip6Addr where
  w0 : UInt32
  w1 : UInt32
  w2 : UInt32
  w3 : UInt32
  deriving DecidableEq

/-- `struct decrypt_rule`; the union of addresses is kept as both members. -/
structure DecryptRule where
  l3Type : L3Type
  dstIp4 : UInt32
  dstIp6 : Ip6Addr
  espSpi : UInt32
  innerL3Type : L3Type
  saAttrs : SaAttrs
  antireplayState : AntireplayState
  deriving DecidableEq

def DecryptRule.zero : DecryptRule :=
  ⟨.none, 0, ⟨0, 0, 0, 0⟩, 0, .none, ⟨.length8, .key128, List.replicate 32 0, 0⟩, ⟨0, 0, 0⟩⟩

/-- `struct encrypt_rule`; each union of addresses is kept as both members. -/
structure EncryptRule where
  l3Type : L3Type
  protocol : L4TypeExt
  srcIp4 : UInt32
  dstIp4 : UInt32
  srcIp6 : Ip6Addr
  dstIp6 : Ip6Addr
  srcPort : Int
  dstPort : Int
  encapL3Type : L3Type
  encapDstIp4 : UInt32
  encapDstIp6 : Ip6Addr
  espSpi : UInt32
  currentSn : UInt32
  saAttrs : SaAttrs
  deriving DecidableEq

def EncryptRule.zero : EncryptRule :=
  ⟨.none, .none, 0, 0, ⟨0, 0, 0, 0⟩, ⟨0, 0, 0, 0⟩, 0, 0, .none, 0, ⟨0, 0, 0, 0⟩, 0, 0,
    ⟨.length8, .key128, List.replicate 32 0, 0⟩⟩

structure Config where
  swSnIncEnable : Bool
  swAntireplay : Bool
  debugMode : Bool
  mode : Mode
  perfMeasurement : Perf
  snInitial : UInt64
  socketConf : Bool
  offload : EspOffload
  syndromeFwd : FwdSyndrome
  deriving DecidableEq

def Config.zero : Config := ⟨false, false, false, .tunnel, .none, 0, false, .both, .drop⟩

def Config.isFwdSyndromeRss (cfg : Config) : Bool := cfg.debugMode ∧ cfg.syndromeFwd = .rss

def Config.isPerfBw (cfg : Config) : Bool := cfg.perfMeasurement = .bw ∨ cfg.perfMeasurement = .both

/-- `struct ipsec_security_gw_core_ctx` as the packet handlers read it, and the static `current_ip_id` of
    `flow_encrypt.c`. -/
structure CoreCtx where
  config : Config
  encryptRules : List EncryptRule
  decryptRules : List DecryptRule
  currentIpId : UInt16
  deriving DecidableEq

/-! ## Packet metadata -/

structure PktMeta where
  encrypt : Nat
  decrypt : Nat
  icvSize : Nat
  innerIpv6 : Nat
  decryptSyndrome : Nat
  antireplaySyndrome : Nat
  rsvd0 : Nat
  ruleId : Nat
  deriving DecidableEq

def PktMeta.zero : PktMeta := ⟨0, 0, 0, 0, 0, 0, 0, 0⟩

/-- The `u32` member: widths 1, 1, 2, 1, 2, 2, 3, 20 from the least significant bit. A bit field keeps
    the low bits only. -/
def PktMeta.toU32 (m : PktMeta) : Nat :=
  m.encrypt % 2 + 2 * (m.decrypt % 2) + 4 * (m.icvSize % 4) + 16 * (m.innerIpv6 % 2) +
    32 * (m.decryptSyndrome % 4) + 128 * (m.antireplaySyndrome % 4) + 512 * (m.rsvd0 % 8) +
    4096 * (m.ruleId % 1048576)

def PktMeta.ofU32 (u : Nat) : PktMeta :=
  ⟨u % 2, u / 2 % 2, u / 4 % 4, u / 16 % 2, u / 32 % 4, u / 128 % 4, u / 512 % 8, u / 4096 % 1048576⟩

theorem PktMeta.ofU32_toU32 (m : PktMeta) :
    PktMeta.ofU32 m.toU32 = ⟨m.encrypt % 2, m.decrypt % 2, m.icvSize % 4, m.innerIpv6 % 2,
      m.decryptSyndrome % 4, m.antireplaySyndrome % 4, m.rsvd0 % 8, m.ruleId % 1048576⟩ := by
  simp only [PktMeta.ofU32, PktMeta.toU32, PktMeta.mk.injEq]
  refine ⟨?_, ?_, ?_, ?_, ?_, ?_, ?_, ?_⟩ <;> omega

/-! ## The initial sequence number -/

/-- A value of the JSON configuration, as far as `parse_sn_initial` tells values apart. -/
inductive JsonValue where
  | int (v : Int)
  | other
  deriving DecidableEq

/-- `parse_sn_initial`: the argument is the value found under `sn-initial`, if any. -/
def parseSnInitial (snInitConfig : Option JsonValue) (cfg : Config) : DocaError × Config :=
  match snInitConfig with
  | none => (.success, cfg)
  | some .other => (.invalidValue, cfg)
  | some (.int snInit) =>
    if snInit < 0 ∨ (UINT32_MAX : Int) < snInit then (.invalidValue, cfg)
    else if UINT32_MAX - snInit.toNat < WINDOW_SIZE then (.invalidValue, cfg)
    else (.success, { cfg with snInitial := UInt64.ofNat snInit.toNat })

/-- The values `parse_sn_initial` lets through leave room for one whole window. -/
def SnAdmitted (cfg : Config) : Prop := cfg.snInitial.toNat + WINDOW_SIZE ≤ UINT32_MAX

theorem parseSnInitial_admitted {json : Option JsonValue} {cfg cfg' : Config}
    (h0 : SnAdmitted cfg) (h : parseSnInitial json cfg = (.success, cfg')) : SnAdmitted cfg' := by
  unfold parseSnInitial at h
  split at h
  · cases h; exact h0
  · cases h
  · split at h
    · cases h
    · split at h
      · cases h
      · cases h
        simp only [SnAdmitted, UINT32_MAX, WINDOW_SIZE, UInt64.toNat_ofNat'] at *
        omega

theorem SnAdmitted.zero : SnAdmitted Config.zero := by
  unfold SnAdmitted; decide

end IpsecGw

end Doca
