import Doca.IpsecGw.Context
import Doca.Lib.Bytes

/-!
# Packet buffers

Model of `struct rte_mbuf` chains as the gateway uses them, of the DPDK operations it calls, and of
`remove_ethernet_padding` (`flow_common.c`).

* `Seg` — one segment: its buffer and the 16-bit `buf_len`, `data_off` and `data_len`.
  `buf` is total, so a read outside the buffer yields some unspecified byte; a write outside it is
  an error (`Seg.write` is `none`).
* `Mbuf` — a chain with its 32-bit `pkt_len`, packet type and flow metadata.
* `Dpdk` — the library calls, with their documented behaviour as laws; `Dpdk.reference` shows that
  the laws can be met.

Principal result: `CarriesIp.removeEthernetPadding` — a frame that carries a datagram, padded or
not, is cut to exactly the Ethernet header and the datagram.
-/

namespace Doca.IpsecGw

open Doca.Lib UInt32

/-! ## Segments and chains -/

structure Seg where
  buf : Nat → UInt8
  bufLen : UInt16
  dataOff : UInt16
  dataLen : UInt16

def Seg.mtod (s : Seg) : Nat := s.dataOff.toNat

def Seg.write (s : Seg) (addr : Nat) (bytes : List UInt8) : Option Seg :=
  if addr + bytes.length ≤ s.bufLen.toNat then some { s with buf := store s.buf addr bytes }
  else none

def Seg.memmove (s : Seg) (dst src n : Nat) : Option Seg :=
  if dst + n ≤ s.bufLen.toNat then some { s with buf := move s.buf dst src n } else none

theorem Seg.write_eq {s : Seg} {addr : Nat} {bytes : List UInt8}
    (h : addr + bytes.length ≤ s.bufLen.toNat) :
    s.write addr bytes = some { s with buf := store s.buf addr bytes } := if_pos h

theorem Seg.write_byte_eq {s : Seg} {addr : Nat} {x : UInt8} (h : addr + 1 ≤ s.bufLen.toNat) :
    s.write addr [x] = some { s with buf := store s.buf addr [x] } := Seg.write_eq h

theorem Seg.write_be16_eq {s : Seg} {addr v : Nat} (h : addr + 2 ≤ s.bufLen.toNat) :
    s.write addr (be16 v) = some { s with buf := store s.buf addr (be16 v) } := Seg.write_eq h

theorem Seg.memmove_eq {s : Seg} {dst src n : Nat} (h : dst + n ≤ s.bufLen.toNat) :
    s.memmove dst src n = some { s with buf := move s.buf dst src n } := if_pos h

theorem Seg.of_write {s s' : Seg} {addr : Nat} {bytes : List UInt8}
    (h : s.write addr bytes = some s') : s' = { s with buf := store s.buf addr bytes } := by
  unfold Seg.write at h
  split at h
  · cases h; rfl
  · cases h

/-- What `RTE_ETH_IS_IPV4_HDR` and `RTE_ETH_IS_IPV6_HDR` answer for a `packet_type`. -/
structure PacketType where
  isIpv4Hdr : Bool
  isIpv6Hdr : Bool
  deriving DecidableEq

structure Mbuf where
  first : Seg
  rest : List Seg
  pktLen : UInt32
  packetType : PacketType
  metadata : UInt32

def Mbuf.seg (m : Mbuf) (k : Nat) : Option Seg := (m.first :: m.rest)[k]?

def Mbuf.setSeg (m : Mbuf) (k : Nat) (s : Seg) : Mbuf :=
  match k with
  | 0 => { m with first := s }
  | k + 1 => { m with rest := m.rest.set k s }

def Mbuf.lastseg (m : Mbuf) : Seg := m.rest.getLast?.getD m.first

def Mbuf.setLast (m : Mbuf) (s : Seg) : Mbuf := m.setSeg m.rest.length s

theorem Mbuf.lastseg_single {m : Mbuf} (h : m.rest = []) : m.lastseg = m.first := by
  simp [Mbuf.lastseg, h]

theorem Mbuf.setLast_single {m : Mbuf} (h : m.rest = []) (s : Seg) :
    m.setLast s = { m with first := s } := by
  simp [Mbuf.setLast, Mbuf.setSeg, h]

def Mbuf.cut (m : Mbuf) (n : Nat) : Mbuf :=
  { m with
    first := { m.first with dataLen := UInt16.ofNat n }
    pktLen := UInt32.ofNat n }

/-! ## The library calls -/

structure Dpdk where
  prepend : Mbuf → UInt16 → Option Mbuf
  adj : Mbuf → UInt16 → Option Mbuf
  trim : Mbuf → UInt16 → Option Mbuf
  /-- `rte_ipv4_cksum` on the bytes of the header it is given, as the value of the field. -/
  ipv4Cksum : List UInt8 → UInt16
  /-- Fails without effect if the headroom of the first segment is too small. -/
  prepend_eq : ∀ m len, prepend m len =
    if len ≤ m.first.dataOff then
      some { m with
        first := { m.first with
          dataOff := m.first.dataOff - len
          dataLen := m.first.dataLen + len }
        pktLen := m.pktLen + len.toUInt32 }
    else none
  /-- Fails without effect if the first segment holds fewer than `len` bytes. -/
  adj_eq : ∀ m len, adj m len =
    if len ≤ m.first.dataLen then
      some { m with
        first := { m.first with
          dataOff := m.first.dataOff + len
          dataLen := m.first.dataLen - len }
        pktLen := m.pktLen - len.toUInt32 }
    else none
  /-- Fails without effect if the last segment holds fewer than `len` bytes. -/
  trim_eq : ∀ m len, trim m len =
    if len ≤ m.lastseg.dataLen then
      some { m.setLast { m.lastseg with dataLen := m.lastseg.dataLen - len } with
        pktLen := m.pktLen - len.toUInt32 }
    else none
  /-- Over a header whose checksum field is zero, the value that makes the header valid. -/
  ipv4Cksum_valid : ∀ hdr, hdr[10]? = some 0 → hdr[11]? = some 0 →
    ChecksumValid (patch hdr 10 (be16 (ipv4Cksum hdr).toNat))

/-- The laws of `Dpdk` hold for the operations written out and the complement of the folded sum. -/
def Dpdk.reference : Dpdk where
  prepend m len :=
    if len ≤ m.first.dataOff then
      some { m with
        first := { m.first with
          dataOff := m.first.dataOff - len
          dataLen := m.first.dataLen + len }
        pktLen := m.pktLen + len.toUInt32 }
    else none
  adj m len :=
    if len ≤ m.first.dataLen then
      some { m with
        first := { m.first with
          dataOff := m.first.dataOff + len
          dataLen := m.first.dataLen - len }
        pktLen := m.pktLen - len.toUInt32 }
    else none
  trim m len :=
    if len ≤ m.lastseg.dataLen then
      some { m.setLast { m.lastseg with dataLen := m.lastseg.dataLen - len } with
        pktLen := m.pktLen - len.toUInt32 }
    else none
  ipv4Cksum hdr := UInt16.ofNat (65535 - onesFold (wordSum hdr))
  prepend_eq _ _ := rfl
  adj_eq _ _ := rfl
  trim_eq _ _ := rfl
  ipv4Cksum_valid hdr h0 h1 := by
    obtain ⟨hlt, hmod⟩ := onesFold_complement (wordSum hdr)
    rw [UInt16.toNat_ofNat', Nat.mod_eq_of_lt hlt, ChecksumValid]
    rw [show (10 : Nat) = 2 * 5 from rfl, wordSum_patch _ hlt 5 hdr h0 h1]
    exact hmod

/-! ## Header arithmetic -/

def ETHER_HDR_LEN : UInt32 := 14

def IPV6_HDR_LEN : UInt32 := 40

def RTE_ETHER_MIN_LEN : UInt32 := 64

/-- `rte_ipv4_hdr_len`: four times the low half of the first header byte. -/
def ipv4HdrLen (buf : Nat → UInt8) (ipv4 : Nat) : UInt32 :=
  UInt32.ofNat ((buf ipv4).toNat % 16 * 4)

/-- The length of the IP header, as the data path computes it from the packet type and the IPv4 header. -/
def l3Len (m : Mbuf) : UInt32 :=
  if m.packetType.isIpv4Hdr then ipv4HdrLen m.first.buf (m.first.mtod + 14) else IPV6_HDR_LEN

def l2L3Len (m : Mbuf) : UInt32 := l3Len m + ETHER_HDR_LEN

/-- `payload_len_l3` of `remove_ethernet_padding`: the payload length the IP header announces. -/
def payloadLenL3 (m : Mbuf) : UInt32 :=
  let ip := m.first.mtod + 14
  if m.packetType.isIpv4Hdr then
    UInt32.ofNat (readBe16 m.first.buf (ip + 2)) - ipv4HdrLen m.first.buf ip
  else UInt32.ofNat (readBe16 m.first.buf (ip + 4))

variable (d : Dpdk)

/-- `remove_ethernet_padding`; the result of `rte_pktmbuf_trim` is ignored. -/
def removeEthernetPadding (m : Mbuf) : Mbuf :=
  if m.pktLen > RTE_ETHER_MIN_LEN then m
  else if (m.pktLen - l2L3Len m) - payloadLenL3 m > 0 then
    (d.trim m ((m.pktLen - l2L3Len m) - payloadLenL3 m).toUInt16).getD m
  else m

theorem removeEthernetPadding_kept (m : Mbuf) :
    let o := removeEthernetPadding d m
    o.first.buf = m.first.buf ∧ o.first.mtod = m.first.mtod ∧ o.first.bufLen = m.first.bufLen ∧
      o.packetType = m.packetType := by
  unfold removeEthernetPadding
  split
  · exact ⟨rfl, rfl, rfl, rfl⟩
  · split
    · rw [d.trim_eq]
      split
      · rcases hr : m.rest with _ | ⟨seg, segs⟩
        · simp [Mbuf.setLast, Mbuf.setSeg, Mbuf.lastseg, hr, Seg.mtod]
        · simp [Mbuf.setLast, Mbuf.setSeg, hr]
      · exact ⟨rfl, rfl, rfl, rfl⟩
    · exact ⟨rfl, rfl, rfl, rfl⟩

/-! ## Length and checksum of a header -/

def setIpv4Length (s : Seg) (ipv4 : Nat) (totalLength : UInt32) : Option Seg := do
  let s ← s.write (ipv4 + 2) (be16 totalLength.toNat)
  let s ← s.write (ipv4 + 10) (be16 0)
  s.write (ipv4 + 10) (be16 (d.ipv4Cksum (load s.buf ipv4 (ipv4HdrLen s.buf ipv4).toNat)).toNat)

variable (b : Nat → UInt8) (ipv4 totalLength : Nat)

def clearedIpv4 : Nat → UInt8 :=
  store (store b (ipv4 + 2) (be16 totalLength)) (ipv4 + 10) (be16 0)

def cksumOf (ipv4 : Nat) : Nat :=
  (d.ipv4Cksum (load b ipv4 ((b ipv4).toNat % 16 * 4))).toNat

def stampIpv4 : Nat → UInt8 :=
  let cleared := clearedIpv4 b ipv4 totalLength
  store cleared (ipv4 + 10) (be16 (cksumOf d cleared ipv4))

theorem ipv4HdrLen_toNat (ipv4 : Nat) :
    (ipv4HdrLen b ipv4).toNat = (b ipv4).toNat % 16 * 4 := by
  simp only [ipv4HdrLen, toNat_ofNat']
  omega

theorem setIpv4Length_eq (s : Seg) (ipv4 : Nat) (totalLength : UInt32)
    (h : ipv4 + 12 ≤ s.bufLen.toNat) :
    setIpv4Length d s ipv4 totalLength =
      some { s with buf := stampIpv4 d s.buf ipv4 totalLength.toNat } := by
  unfold setIpv4Length
  rw [Seg.write_be16_eq (by omega), Option.bind_eq_bind, Option.bind_some,
    Seg.write_be16_eq (by omega), Option.bind_some, Seg.write_be16_eq (by omega),
    ipv4HdrLen_toNat]
  rfl

theorem stampIpv4_other {d : Dpdk} {b : Nat → UInt8} {ipv4 totalLength i : Nat}
    (h : i < ipv4 + 2 ∨ (ipv4 + 4 ≤ i ∧ i < ipv4 + 10) ∨ ipv4 + 12 ≤ i) :
    stampIpv4 d b ipv4 totalLength i = b i := by
  simp only [stampIpv4, clearedIpv4]
  rw [store_be16_other (by omega), store_be16_other (by omega),
    store_be16_other (by omega)]

theorem stampIpv4_length :
    readBe16 (stampIpv4 d b ipv4 totalLength) (ipv4 + 2) = totalLength % 65536 := by
  rw [← readBe16_store b (ipv4 + 2) totalLength]
  simp only [stampIpv4, clearedIpv4]
  apply readBe16_congr
  all_goals rw [store_be16_other (by omega), store_be16_other (by omega)]

theorem clearedIpv4_first :
    clearedIpv4 b ipv4 totalLength ipv4 = b ipv4 := by
  rw [clearedIpv4, store_be16_other (by omega), store_be16_other (by omega)]

theorem stampIpv4_valid
    (h : 20 ≤ (b ipv4).toNat % 16 * 4) :
    ChecksumValid (load (stampIpv4 d b ipv4 totalLength) ipv4 ((b ipv4).toNat % 16 * 4)) := by
  have hzero : ∀ k < 2, (load (clearedIpv4 b ipv4 totalLength) ipv4
      ((b ipv4).toNat % 16 * 4))[10 + k]? = some 0 := by
    intro k hk
    rw [List.getElem?_eq_some_iff]
    refine ⟨by rw [load_length]; omega, ?_⟩
    have hbytes := store_be16_bytes (store b (ipv4 + 2) (be16 totalLength)) (ipv4 + 10) 0
    rw [load_getElem]
    match k, hk with
    | 0, _ => exact hbytes.1
    | 1, _ => exact hbytes.2
  rw [stampIpv4, load_store _ _ _ _ _ (by simp only [be16, List.length_cons, List.length_nil]; omega),
    cksumOf, clearedIpv4_first]
  exact d.ipv4Cksum_valid _ (hzero 0 (by omega)) (hzero 1 (by omega))

/-! ## Frames that carry one datagram -/

inductive IpVersion where
  | v4
  | v6
  deriving DecidableEq

namespace IpVersion

def packetType : IpVersion → PacketType
  | v4 => ⟨true, false⟩
  | v6 => ⟨false, true⟩

def etherType : IpVersion → Nat
  | v4 => 0x0800
  | v6 => 0x86dd

def hdrLen (v : IpVersion) (b : Nat → UInt8) (ip : Nat) : Nat :=
  match v with
  | v4 => (b ip).toNat % 16 * 4
  | v6 => 40

def announced (v : IpVersion) (b : Nat → UInt8) (ip : Nat) : Nat :=
  match v with
  | v4 => readBe16 b (ip + 2)
  | v6 => readBe16 b (ip + 4) + 40

end IpVersion

/-- A single-segment frame with an IP datagram of `len` bytes, as its header announces, followed by
    nothing or, up to 64 bytes, by Ethernet padding. -/
structure CarriesIp (m : Mbuf) (v : IpVersion) (len : Nat) : Prop where
  single : m.rest = []
  pktLen : m.pktLen.toNat = m.first.dataLen.toNat
  inBuf : m.first.mtod + m.first.dataLen.toNat ≤ m.first.bufLen.toNat
  ptype : m.packetType = v.packetType
  etherType : readBe16 m.first.buf (m.first.mtod + 12) = v.etherType
  minHdr : 20 ≤ v.hdrLen m.first.buf (m.first.mtod + 14)
  header : v.hdrLen m.first.buf (m.first.mtod + 14) ≤ len
  length : v.announced m.first.buf (m.first.mtod + 14) = len
  holds : 14 + len ≤ m.first.dataLen.toNat
  padded : m.first.dataLen.toNat ≤ 64 ∨ m.first.dataLen.toNat = 14 + len

namespace CarriesIp

variable {m : Mbuf} {v : IpVersion} {len : Nat}

section

variable (h : CarriesIp m v len)

include h

theorem len_lt : 14 + len < 65536 :=
  Nat.lt_of_le_of_lt h.holds m.first.dataLen.toNat_lt

theorem l3Len_toNat : (l3Len m).toNat = v.hdrLen m.first.buf (m.first.mtod + 14) := by
  cases v with
  | v4 =>
    simp only [l3Len, h.ptype, IpVersion.packetType, if_true, ipv4HdrLen_toNat, IpVersion.hdrLen]
  | v6 =>
    simp only [l3Len, h.ptype, IpVersion.packetType, IpVersion.hdrLen]
    rfl

theorem l2L3Len_toNat : (l2L3Len m).toNat = 14 + v.hdrLen m.first.buf (m.first.mtod + 14) := by
  have hhdr := h.header
  have hlt := h.len_lt
  rw [l2L3Len, UInt32.toNat_add, h.l3Len_toNat, ETHER_HDR_LEN]
  simp only [reduceToNat]
  omega

theorem payloadLen_toNat : (m.pktLen - l2L3Len m).toNat =
      m.first.dataLen.toNat - (14 + v.hdrLen m.first.buf (m.first.mtod + 14)) := by
  have hl2l3 := h.l2L3Len_toNat
  have hhdr := h.header
  have hholds := h.holds
  have hpkt := h.pktLen
  have hlt := m.pktLen.toNat_lt
  rw [UInt32.toNat_sub, hl2l3, hpkt]
  omega

theorem payloadLenL3_toNat : (payloadLenL3 m).toNat = len - v.hdrLen m.first.buf (m.first.mtod + 14) := by
  have hlen := h.length
  have hhdr := h.header
  have hlt := h.len_lt
  cases v with
  | v4 =>
    simp only [IpVersion.announced, IpVersion.hdrLen] at hlen hhdr
    simp only [payloadLenL3, h.ptype, IpVersion.packetType, if_true, ipv4HdrLen, IpVersion.hdrLen,
      UInt32.toNat_sub, UInt32.toNat_ofNat', hlen]
    omega
  | v6 =>
    simp only [IpVersion.announced] at hlen
    simp only [payloadLenL3, h.ptype, IpVersion.packetType, IpVersion.hdrLen, Bool.false_eq_true,
      if_false, toNat_ofNat']
    omega

theorem cut_self (hexact : m.first.dataLen.toNat = 14 + len) : m.cut (14 + len) = m := by
  have hdata : UInt16.ofNat (14 + len) = m.first.dataLen := by
    rw [← hexact]; exact UInt16.ofNat_toNat
  have hpkt : ofNat (14 + len) = m.pktLen := by
    rw [← hexact, ← h.pktLen]; exact UInt32.ofNat_toNat
  rw [Mbuf.cut, hdata, hpkt]

/-- **`remove_ethernet_padding` leaves the Ethernet header and the datagram.** -/
theorem removeEthernetPadding : removeEthernetPadding d m = m.cut (14 + len) := by
  have hholds := h.holds
  have hpkt := h.pktLen
  have hlt := h.len_lt
  unfold IpsecGw.removeEthernetPadding
  split
  · rename_i hlong
    have hlong : 64 < m.pktLen.toNat := hlong
    have hexact : m.first.dataLen.toNat = 14 + len := by
      have := h.padded
      omega
    exact (h.cut_self hexact).symm
  · -- both lengths are exact, so their difference is the number of padding bytes
    have hpad : ((m.pktLen - l2L3Len m) - payloadLenL3 m).toNat = m.first.dataLen.toNat - (14 + len) := by
      have hhdr := h.header
      have hdata := m.first.dataLen.toNat_lt
      rw [UInt32.toNat_sub, h.payloadLen_toNat, h.payloadLenL3_toNat]
      omega
    generalize (m.pktLen - l2L3Len m) - payloadLenL3 m = pad at hpad ⊢
    split
    · have hle : pad.toUInt16 ≤ m.lastseg.dataLen := by
        rw [Mbuf.lastseg_single h.single, UInt16.le_iff_toNat_le, toNat_toUInt16]
        omega
      rw [d.trim_eq, if_pos hle, Mbuf.setLast_single h.single, Mbuf.lastseg_single h.single]
      simp only [Option.getD_some, Mbuf.cut, Mbuf.mk.injEq, Seg.mk.injEq, true_and, and_true,
        ← UInt16.toNat_inj, ← UInt32.toNat_inj, UInt16.toNat_sub, UInt32.toNat_sub,
        toNat_toUInt16, UInt16.toNat_toUInt32, UInt16.toNat_ofNat', toNat_ofNat']
      have hdata := m.first.dataLen.toNat_lt
      omega
    · rename_i hzero
      have hzero : ¬ 0 < pad.toNat := hzero
      exact (h.cut_self (by omega)).symm

end

end CarriesIp

end Doca.IpsecGw
