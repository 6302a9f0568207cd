import Doca.Common.Pack
import Doca.IpsecGw.Mbuf

/-!
# Headers of encapsulated packets

The header templates of `flow_encrypt.c` (`create_transport_encap`, `create_udp_transport_encap`,
`create_ipv4_tunnel_encap`, `create_ipv6_tunnel_encap`) and the part of `prepare_packet_tunnel` and
`prepare_packet_transport` that puts them in front of the payload.

* `tunnelHeader`, `transportHeader` — write the new headers into a packet that already has the
  space; they return the first segment, the next `current_ip_id` and the protocol number for the
  ESP trailer.
* `HeaderWritten` — what a header of `n` bytes at an address guarantees: the bytes around it are
  kept, and it is a header of the stated IP version that announces the packet's length.

Principal results: `tunnelBuffer_written`, `transportBuffer_written`; `tunnelBuffer_sn`,
`transportBuffer_sn` for the sequence number; `transportBuffer_kept` for the bytes of the original
headers in transport mode.
-/

namespace Doca.IpsecGw

open Doca.Lib Doca.Common Option Nat

/-! ## Templates -/

def ENCAP_DST_IP_IDX_IP4 : Nat := 30
def ENCAP_DST_IP_IDX_IP6 : Nat := 38
def ENCAP_IP_ID_IDX_IP4 : Nat := 18
def ENCAP_DST_UDP_PORT_IDX : Nat := 2
def ENCAP_ESP_SPI_IDX_TUNNEL_IP4 : Nat := 34
def ENCAP_ESP_SPI_IDX_TUNNEL_IP6 : Nat := 54
def ENCAP_ESP_SPI_IDX_TRANSPORT : Nat := 0
def ENCAP_ESP_SPI_IDX_UDP_TRANSPORT : Nat := 8
def ENCAP_ESP_SN_IDX_TUNNEL_IP4 : Nat := 38
def ENCAP_ESP_SN_IDX_TUNNEL_IP6 : Nat := 58
def ENCAP_ESP_SN_IDX_TRANSPORT : Nat := 4
def ENCAP_ESP_SN_IDX_UDP_TRANSPORT : Nat := 12

def hostWord (value : UInt32) : List UInt8 :=
  [getByte value.toNat 3, getByte value.toNat 2, getByte value.toNat 1, getByte value.toNat 0]

/-- The assignments of `GET_BYTE(value, 0)` to `GET_BYTE(value, 3)`, for a value in big endian. -/
def networkWord (value : UInt32) : List UInt8 :=
  [getByte value.toNat 0, getByte value.toNat 1, getByte value.toNat 2, getByte value.toNat 3]

variable (rule : EncryptRule) (swSnInc : Bool)

def fillSn (data : List UInt8) (idx : Nat) : List UInt8 :=
  if swSnInc then patch data idx (hostWord rule.currentSn) else data

def createTransportEncap : List UInt8 :=
  let data := List.replicate 16 0
  let data := patch data ENCAP_ESP_SPI_IDX_TRANSPORT (hostWord rule.espSpi)
  fillSn rule swSnInc data ENCAP_ESP_SN_IDX_TRANSPORT

def createUdpTransportEncap : List UInt8 :=
  let data := [0x30, 0x39, 0x00, 0x00, 0x00, 0xa4, 0x00, 0x00] ++ List.replicate 16 0
  let data := patch data ENCAP_ESP_SPI_IDX_UDP_TRANSPORT (hostWord rule.espSpi)
  let data := patch data ENCAP_DST_UDP_PORT_IDX [getByte 4500 1, getByte 4500 0]
  fillSn rule swSnInc data ENCAP_ESP_SN_IDX_UDP_TRANSPORT

def createIpv4TunnelEncap (currentIpId : UInt16) :
    List UInt8 × UInt16 :=
  let data :=
    [0xaa, 0xbb, 0xcc, 0xdd, 0xee, 0xff, 0x11, 0x22, 0x33, 0x44, 0x55, 0x66, 0x08, 0x00,
      0x45, 0x00, 0x00, 0x00, 0x00, 0x00, 0x00, 0x00, 0x00, 0x32, 0x00, 0x00,
      0x02, 0x02, 0x02, 0x02] ++ List.replicate 20 0
  let data := patch data ENCAP_DST_IP_IDX_IP4 (networkWord rule.encapDstIp4)
  let data := patch data ENCAP_ESP_SPI_IDX_TUNNEL_IP4 (hostWord rule.espSpi)
  let data := patch data ENCAP_IP_ID_IDX_IP4 [getByte currentIpId.toNat 1, getByte currentIpId.toNat 0]
  (fillSn rule swSnInc data ENCAP_ESP_SN_IDX_TUNNEL_IP4, currentIpId + 1)

def createIpv6TunnelEncap : List UInt8 :=
  let data :=
    [0xaa, 0xbb, 0xcc, 0xdd, 0xee, 0xff, 0x11, 0x22, 0x33, 0x44, 0x55, 0x66, 0x86, 0xdd,
      0x60, 0x00, 0x00, 0x00, 0x00, 0x00, 0x32, 0x40] ++ List.replicate 16 0x02 ++
      List.replicate 16 0x01 ++ List.replicate 16 0
  let data := patch data ENCAP_DST_IP_IDX_IP6
    (networkWord rule.encapDstIp6.w0 ++ networkWord rule.encapDstIp6.w1 ++
      networkWord rule.encapDstIp6.w2 ++ networkWord rule.encapDstIp6.w3)
  let data := patch data ENCAP_ESP_SPI_IDX_TUNNEL_IP6 (hostWord rule.espSpi)
  fillSn rule swSnInc data ENCAP_ESP_SN_IDX_TUNNEL_IP6

/-! ## Protocol and length of an existing header -/

variable (d : Dpdk)

/-- The assignments that give an IPv4 header its protocol, total length and checksum. -/
def setIpv4Proto (s : Seg) (ipv4 : Nat) (proto : UInt8) (totalLength : UInt32) :
    Option Seg := do
  let s ← s.write (ipv4 + 9) [proto]
  setIpv4Length d s ipv4 totalLength

def setIpv6Proto (s : Seg) (ipv6 : Nat) (proto : UInt8) (payloadLen : UInt32) : Option Seg := do
  let s ← s.write (ipv6 + 6) [proto]
  s.write (ipv6 + 4) (be16 payloadLen.toNat)

def setUdpLength (s : Seg) (udp : Nat) (udpLen : UInt32) : Option Seg := do
  let s ← s.write (udp + 4) (be16 udpLen.toNat)
  s.write (udp + 6) (be16 0)

/-! ## The new headers -/

def IPPROTO_UDP : UInt8 := 17
def IPPROTO_ESP : UInt8 := 50
def IPPROTO_IPV6 : UInt8 := 41

def IPV4_HDR_LEN : UInt32 := 20

/-- The next protocol number of the trailer in tunnel mode, according to the original packet. -/
def tunnelNextProto : UInt8 := if rule.l3Type = .ip4 then 4 else 41

variable (ctx : CoreCtx)

def tunnelHeader (rule : EncryptRule) (m : Mbuf) :
    Option (Seg × UInt16 × UInt8) :=
  let nh := m.first.mtod
  if rule.encapL3Type = .ip4 then do
    let encap := createIpv4TunnelEncap rule ctx.config.swSnIncEnable ctx.currentIpId
    let s ← m.first.write nh encap.1
    let s ← setIpv4Length d s (nh + 14) (m.pktLen - ETHER_HDR_LEN)
    some (s, encap.2, tunnelNextProto rule)
  else do
    let s ← m.first.write nh (createIpv6TunnelEncap rule ctx.config.swSnIncEnable)
    let s ← s.write (nh + 14 + 4) (be16 (m.pktLen - ETHER_HDR_LEN - IPV6_HDR_LEN).toNat)
    some (s, ctx.currentIpId, tunnelNextProto rule)

variable (udpTransport : Bool)

def transportLen : Nat := if udpTransport then 24 else 16

theorem transportLen_true : transportLen true = 24 := rfl

theorem le_transportLen : 16 ≤ transportLen udpTransport := by
  cases udpTransport <;> decide

def transportEncap (swSnInc udpTransport : Bool) : List UInt8 :=
  if udpTransport then createUdpTransportEncap rule swSnInc else createTransportEncap rule swSnInc

def transportProto : UInt8 := if udpTransport then IPPROTO_UDP else IPPROTO_ESP

def completeUdp (s : Seg) (udp : Nat) (udpLen : UInt32) : Option Seg :=
  if udpTransport then setUdpLength s udp udpLen else some s

/-- The end of the header part of `prepare_packet_transport`: protocol, lengths and checksum of the moved
    IP header, and its former protocol. -/
def adaptIpHeader (m : Mbuf) (s : Seg) : Option (Seg × UInt8) :=
  let ip := m.first.mtod + 14
  if m.packetType.isIpv4Hdr then do
    let s' ← setIpv4Proto d s ip (transportProto udpTransport) (m.pktLen - ETHER_HDR_LEN)
    let s' ← completeUdp udpTransport s' (ip + 20) (m.pktLen - ETHER_HDR_LEN - IPV4_HDR_LEN)
    some (s', s.buf (ip + 9))
  else if m.packetType.isIpv6Hdr then do
    let s' ← setIpv6Proto s ip (transportProto udpTransport) (m.pktLen - ETHER_HDR_LEN - IPV6_HDR_LEN)
    let s' ← completeUdp udpTransport s' (ip + 40) (m.pktLen - ETHER_HDR_LEN - IPV6_HDR_LEN)
    some (s', s.buf (ip + 6))
  else some (s, 0)

/-- The headers of `prepare_packet_transport`: the old L2 and L3 headers move to the new start, then the
    template; the IP header is adapted. -/
def transportHeader (rule : EncryptRule) (udpTransport : Bool)
    (oh l2l3 : Nat) (m : Mbuf) : Option (Seg × UInt16 × UInt8) := do
  let s ← m.first.memmove m.first.mtod oh l2l3
  let s ← s.write (m.first.mtod + l2l3) (transportEncap rule ctx.config.swSnIncEnable udpTransport)
  let r ← adaptIpHeader d udpTransport m s
  some (r.1, ctx.currentIpId, r.2)

/-! ## The buffers these assignments leave -/

namespace IpVersion

def protoAt : IpVersion → Nat
  | v4 => 9
  | v6 => 6

def rewrites : IpVersion → Nat → Prop
  | v4, k => k = 2 ∨ k = 3 ∨ k = 9 ∨ k = 10 ∨ k = 11
  | v6, k => k = 4 ∨ k = 5 ∨ k = 6

/-- The buffer with the protocol and the datagram's length set in the header at `ip`. -/
def setProto (v : IpVersion) (d : Dpdk) (b : Nat → UInt8) (ip : Nat) (proto : UInt8)
    (total : Nat) : Nat → UInt8 :=
  match v with
  | v4 => stampIpv4 d (store b (ip + 9) [proto]) ip total
  | v6 => store (store b (ip + 6) [proto]) (ip + 4) (be16 (total - 40))

def minHdrLen : IpVersion → Nat
  | v4 => 20
  | v6 => 40

/-- The buffer with length and checksum of the UDP header set behind an IP header without
    options. -/
def setUdp (v : IpVersion) (b : Nat → UInt8) (ip udpLen : Nat) : Nat → UInt8 :=
  store (store b (ip + v.minHdrLen + 4) (be16 udpLen)) (ip + v.minHdrLen + 6) (be16 0)

def totalOf (v : IpVersion) (pktLen : UInt32) : Nat :=
  match v with
  | v4 => (pktLen - ETHER_HDR_LEN).toNat
  | v6 => (pktLen - ETHER_HDR_LEN - IPV6_HDR_LEN).toNat + 40

def udpLenOf (v : IpVersion) (pktLen : UInt32) : Nat :=
  match v with
  | v4 => (pktLen - ETHER_HDR_LEN - IPV4_HDR_LEN).toNat
  | v6 => (pktLen - ETHER_HDR_LEN - IPV6_HDR_LEN).toNat

variable (v : IpVersion) (d : Dpdk) (b : Nat → UInt8) (ip : Nat) (proto : UInt8) (total : Nat)

theorem setProto_before (i : Nat) (h : i < ip) : v.setProto d b ip proto total i = b i := by
  cases v with
  | v4 =>
    rw [setProto, stampIpv4_other (by omega), store_byte_other (by omega)]
  | v6 =>
    rw [setProto, store_be16_other (by omega), store_byte_other (by omega)]

theorem setProto_other (k : Nat) (h : ¬ v.rewrites k) :
    v.setProto d b ip proto total (ip + k) = b (ip + k) := by
  cases v with
  | v4 =>
    simp only [rewrites] at h
    rw [setProto, stampIpv4_other (by omega), store_byte_other (by omega)]
  | v6 =>
    simp only [rewrites] at h
    rw [setProto, store_be16_other (by omega), store_byte_other (by omega)]

theorem setProto_proto : v.setProto d b ip proto total (ip + v.protoAt) = proto := by
  cases v with
  | v4 =>
    rw [setProto, protoAt, stampIpv4_other (by omega)]
    exact store_byte_same _ _ _
  | v6 =>
    rw [setProto, protoAt, store_be16_other (by omega)]
    exact store_byte_same _ _ _

theorem setProto_announced (hmin : v.minHdrLen ≤ total) (hlt : total < 65536) :
    v.announced (v.setProto d b ip proto total) ip = total := by
  cases v with
  | v4 =>
    rw [announced, setProto, stampIpv4_length]
    exact mod_eq_of_lt hlt
  | v6 =>
    simp only [minHdrLen] at hmin
    rw [announced, setProto, readBe16_store]
    omega

theorem protoAt_lt : v.protoAt < v.minHdrLen := by
  cases v <;> decide

theorem not_rewrites_zero : ¬ v.rewrites 0 := by
  cases v <;> simp [rewrites]

theorem rewrites_lt {k : Nat} (h : v.rewrites k) : k < v.minHdrLen := by
  cases v with
  | v4 | v6 => simp only [rewrites] at h; simp only [minHdrLen]; omega

theorem setUdp_outside (udpLen i : Nat)
    (h : i < ip + v.minHdrLen + 4 ∨ ip + v.minHdrLen + 8 ≤ i) : v.setUdp b ip udpLen i = b i := by
  rw [setUdp, store_be16_other (by omega), store_be16_other (by omega)]

theorem totalOf_eq {pktLen : UInt32} (h : 14 + v.minHdrLen ≤ pktLen.toNat) :
    v.totalOf pktLen = pktLen.toNat - 14 := by
  have hlt := pktLen.toNat_lt
  cases v
  all_goals
    simp only [minHdrLen] at h
    simp only [totalOf, UInt32.toNat_sub, ETHER_HDR_LEN, IPV6_HDR_LEN, UInt32.reduceToNat]
    omega

end IpVersion

theorem setIpv4Proto_eq (s : Seg) (ipv4 : Nat) (proto : UInt8) (totalLength : UInt32)
    (h : ipv4 + 12 ≤ s.bufLen.toNat) :
    setIpv4Proto d s ipv4 proto totalLength =
      some { s with buf := IpVersion.v4.setProto d s.buf ipv4 proto totalLength.toNat } := by
  unfold setIpv4Proto
  rw [Seg.write_byte_eq (by omega), bind_eq_bind, bind_some]
  exact setIpv4Length_eq d _ ipv4 totalLength h

theorem setIpv6Proto_eq (s : Seg) (ipv6 : Nat) (proto : UInt8) (payloadLen : UInt32)
    (h : ipv6 + 7 ≤ s.bufLen.toNat) :
    setIpv6Proto s ipv6 proto payloadLen =
      some { s with buf := IpVersion.v6.setProto d s.buf ipv6 proto (payloadLen.toNat + 40) } := by
  unfold setIpv6Proto
  rw [Seg.write_byte_eq (by omega), bind_eq_bind, bind_some]
  exact Seg.write_be16_eq (by simp only; omega)

/-! ## Sequence numbers in the templates -/

theorem readBe32_hostWord {b : Nat → UInt8} {a i : Nat} {data : List UInt8} {sn : UInt32}
    (h : (data.drop i).take 4 = hostWord sn) :
    readBe32 (store b a data) (a + i) = sn.toNat := by
  have hget : ∀ k < 4, data[i + k]? = (hostWord sn)[k]? := by
    intro k hk
    rw [← h, List.getElem?_take_of_lt hk, List.getElem?_drop]
  have h0 : store b a data (a + i) = getByte sn.toNat 3 := store_of_getElem? (hget 0 (by omega))
  have h1 : store b a data (a + i + 1) = getByte sn.toNat 2 :=
    store_of_getElem? (hget 1 (by omega))
  have h2 : store b a data (a + i + 2) = getByte sn.toNat 1 :=
    store_of_getElem? (hget 2 (by omega))
  have h3 : store b a data (a + i + 3) = getByte sn.toNat 0 :=
    store_of_getElem? (hget 3 (by omega))
  rw [getByte_eq] at h0 h1 h2 h3
  rw [Nat.zero_mul, Nat.pow_zero, Nat.div_one] at h3
  rw [readBe32_of_bytes h0 h1 h2 h3]
  exact mod_eq_of_lt sn.toNat_lt

theorem readBe32_congr {b c : Nat → UInt8} {a : Nat} (h : ∀ k < 4, b (a + k) = c (a + k)) :
    readBe32 b a = readBe32 c a := by
  have h0 : b a = c a := h 0 (by omega)
  simp only [readBe32, h0, h 1 (by omega), h 2 (by omega), h 3 (by omega)]

/-! ## Tunnel headers -/

structure HeaderWritten (b b' : Nat → UInt8) (nh n : Nat) (v : IpVersion) (esp pktLen : Nat) : Prop where
  outside : ∀ i, i < nh ∨ nh + n ≤ i → b' i = b i
  etherType : readBe16 b' (nh + 12) = v.etherType
  size : 14 + v.hdrLen b' (nh + 14) + esp = n
  minHdr : 20 ≤ v.hdrLen b' (nh + 14)
  length : v.announced b' (nh + 14) = pktLen - 14

def tunnelVersion : IpVersion :=
  if rule.encapL3Type = .ip4 then .v4 else .v6

def tunnelBuffer (rule : EncryptRule) (b : Nat → UInt8) (nh : Nat)
    (pktLen : UInt32) : Nat → UInt8 :=
  if rule.encapL3Type = .ip4 then
    stampIpv4 d (store b nh (createIpv4TunnelEncap rule ctx.config.swSnIncEnable ctx.currentIpId).1)
      (nh + 14) (pktLen - ETHER_HDR_LEN).toNat
  else
    store (store b nh (createIpv6TunnelEncap rule ctx.config.swSnIncEnable)) (nh + 14 + 4)
      (be16 (pktLen - ETHER_HDR_LEN - IPV6_HDR_LEN).toNat)

theorem createIpv4TunnelEncap_length (sw : Bool) (id : UInt16) :
    (createIpv4TunnelEncap rule sw id).1.length = 50 := by
  cases sw <;> rfl

theorem createIpv6TunnelEncap_length (sw : Bool) :
    (createIpv6TunnelEncap rule sw).length = 70 := by
  cases sw <;> rfl

theorem tunnelHeader_eq (rule : EncryptRule) (m : Mbuf)
    (hbuf : m.first.mtod + (30 + (tunnelVersion rule).minHdrLen) ≤ m.first.bufLen.toNat) :
    ∃ ipId, tunnelHeader d ctx rule m =
      some ({ m.first with buf := tunnelBuffer d ctx rule m.first.buf m.first.mtod m.pktLen },
        ipId, tunnelNextProto rule) := by
  unfold tunnelHeader tunnelBuffer
  unfold tunnelVersion at hbuf
  rcases Decidable.em (rule.encapL3Type = .ip4) with h4 | h6
  · simp only [if_pos h4, IpVersion.minHdrLen] at hbuf ⊢
    have hwrite := createIpv4TunnelEncap_length rule ctx.config.swSnIncEnable ctx.currentIpId
    rw [bind_eq_bind, Seg.write_eq (by omega), bind_some, setIpv4Length_eq _ _ _ _ (by simp only; omega)]
    exact ⟨_, rfl⟩
  · simp only [if_neg h6, IpVersion.minHdrLen] at hbuf ⊢
    have hwrite := createIpv6TunnelEncap_length rule ctx.config.swSnIncEnable
    rw [bind_eq_bind, Seg.write_eq (by omega), bind_some, Seg.write_be16_eq (by simp only; omega)]
    exact ⟨_, rfl⟩

theorem tunnelBuffer_written (rule : EncryptRule) (b : Nat → UInt8)
    (nh : Nat) (pktLen : UInt32) (hmin : 30 + (tunnelVersion rule).minHdrLen ≤ pktLen.toNat)
    (hlt : pktLen.toNat < 65536) :
    HeaderWritten b (tunnelBuffer d ctx rule b nh pktLen) nh (30 + (tunnelVersion rule).minHdrLen)
      (tunnelVersion rule) 16 pktLen.toNat := by
  unfold tunnelBuffer
  unfold tunnelVersion at *
  rcases Decidable.em (rule.encapL3Type = .ip4) with h4 | h6
  · simp only [if_pos h4, IpVersion.minHdrLen] at hmin ⊢
    have hlen := createIpv4TunnelEncap_length rule ctx.config.swSnIncEnable ctx.currentIpId
    have htotal : (pktLen - ETHER_HDR_LEN).toNat = pktLen.toNat - 14 :=
      IpVersion.v4.totalOf_eq (by simp only [IpVersion.minHdrLen]; omega)
    have hbyte : ∀ {i : Nat} {x : UInt8},
        (createIpv4TunnelEncap rule ctx.config.swSnIncEnable ctx.currentIpId).1[i]? = some x →
        i < 16 → stampIpv4 d
          (store b nh (createIpv4TunnelEncap rule ctx.config.swSnIncEnable ctx.currentIpId).1)
          (nh + 14) (pktLen - ETHER_HDR_LEN).toNat (nh + i) = x := by
      intro i x hx hi
      rw [stampIpv4_other (by omega)]
      exact store_of_getElem? hx
    have hihl := hbyte (i := 14) (x := 0x45) (by cases ctx.config.swSnIncEnable <;> rfl) (by omega)
    refine ⟨?_, ?_, ?_, ?_, ?_⟩
    · intro i hi
      rw [stampIpv4_other (by omega), store_outside (by omega)]
    · rw [readBe16, add_assoc,
        hbyte (i := 12) (x := 0x08) (by cases ctx.config.swSnIncEnable <;> rfl) (by omega),
        hbyte (i := 12 + 1) (x := 0x00) (by cases ctx.config.swSnIncEnable <;> rfl) (by omega)]
      rfl
    · rw [IpVersion.hdrLen, hihl]; rfl
    · rw [IpVersion.hdrLen, hihl]; decide
    · rw [IpVersion.announced, stampIpv4_length, htotal]
      omega
  · simp only [if_neg h6, IpVersion.minHdrLen] at hmin ⊢
    have hlen := createIpv6TunnelEncap_length rule ctx.config.swSnIncEnable
    have htotal : (pktLen - ETHER_HDR_LEN - IPV6_HDR_LEN).toNat + 40 = pktLen.toNat - 14 :=
      IpVersion.v6.totalOf_eq (by simp only [IpVersion.minHdrLen]; omega)
    have hbyte : ∀ {i : Nat} {x : UInt8},
        (createIpv6TunnelEncap rule ctx.config.swSnIncEnable)[i]? = some x → i < 16 →
        store (store b nh (createIpv6TunnelEncap rule ctx.config.swSnIncEnable)) (nh + 14 + 4)
          (be16 (pktLen - ETHER_HDR_LEN - IPV6_HDR_LEN).toNat) (nh + i) = x := by
      intro i x hx hi
      rw [store_be16_other (by omega)]
      exact store_of_getElem? hx
    refine ⟨?_, ?_, rfl, by show 20 ≤ 40; omega, ?_⟩
    · intro i hi
      rw [store_be16_other (by omega), store_outside (by omega)]
    · rw [readBe16, Nat.add_assoc,
        hbyte (i := 12) (x := 0x86) (by cases ctx.config.swSnIncEnable <;> rfl) (by omega),
        hbyte (i := 12 + 1) (x := 0xdd) (by cases ctx.config.swSnIncEnable <;> rfl) (by omega)]
      rfl
    · rw [IpVersion.announced, readBe16_store]
      omega

theorem tunnelBuffer_sn (rule : EncryptRule) (b : Nat → UInt8)
    (nh : Nat) (pktLen : UInt32) (hsw : ctx.config.swSnIncEnable = true) :
    readBe32 (tunnelBuffer d ctx rule b nh pktLen)
      (nh + (18 + (tunnelVersion rule).minHdrLen)) = rule.currentSn.toNat := by
  unfold tunnelBuffer tunnelVersion
  rw [hsw]
  rcases Decidable.em (rule.encapL3Type = .ip4) with h4 | h6
  · simp only [if_pos h4, IpVersion.minHdrLen]
    have hsn : ((createIpv4TunnelEncap rule true ctx.currentIpId).1.drop 38).take 4 =
        hostWord rule.currentSn := rfl
    rw [← readBe32_hostWord (b := b) (a := nh) hsn]
    apply readBe32_congr
    intro k hk
    rw [stampIpv4_other (by omega)]
  · simp only [if_neg h6, IpVersion.minHdrLen]
    have hsn : ((createIpv6TunnelEncap rule true).drop 58).take 4 = hostWord rule.currentSn := rfl
    rw [← readBe32_hostWord (b := b) (a := nh) hsn]
    apply readBe32_congr
    intro k hk
    rw [store_be16_other (by omega)]

/-! ## Transport headers -/

def adaptedBuffer (v : IpVersion) (udpTransport : Bool) (b : Nat → UInt8) (ip : Nat)
    (pktLen : UInt32) : Nat → UInt8 :=
  let adapted := v.setProto d b ip (transportProto udpTransport) (v.totalOf pktLen)
  if udpTransport then v.setUdp adapted ip (v.udpLenOf pktLen) else adapted

def transportBuffer (v : IpVersion) (encap : List UInt8) (udpTransport : Bool)
    (b : Nat → UInt8) (nh oh l2l3 : Nat) (pktLen : UInt32) : Nat → UInt8 :=
  adaptedBuffer d v udpTransport (store (move b nh oh l2l3) (nh + l2l3) encap) (nh + 14) pktLen

theorem transportEncap_length (sw udpTransport : Bool) :
    (transportEncap rule sw udpTransport).length = transportLen udpTransport := by
  cases sw <;> cases udpTransport <;> rfl

theorem completeUdp_eq (s : Seg) (udp : Nat) (udpLen : UInt32)
    (h : udp + 8 ≤ s.bufLen.toNat) :
    completeUdp udpTransport s udp udpLen = some { s with
        buf :=
          if udpTransport then store (store s.buf (udp + 4) (be16 udpLen.toNat)) (udp + 6) (be16 0)
          else s.buf } := by
  cases udpTransport with
  | false => rfl
  | true =>
    simp only [completeUdp, if_true, setUdpLength]
    rw [Seg.write_be16_eq (by omega), bind_eq_bind, bind_some]
    exact Seg.write_be16_eq (by simp only; omega)

theorem adaptIpHeader_eq {m : Mbuf} {v : IpVersion} (s : Seg)
    (hp : m.packetType = v.packetType)
    (hbuf : m.first.mtod + 14 + v.minHdrLen + 8 ≤ s.bufLen.toNat) :
    adaptIpHeader d udpTransport m s = some ({ s with
          buf := adaptedBuffer d v udpTransport s.buf (m.first.mtod + 14) m.pktLen },
        s.buf (m.first.mtod + 14 + v.protoAt)) := by
  cases v with
  | v4 =>
    simp only [IpVersion.minHdrLen] at hbuf
    simp only [adaptIpHeader, hp, IpVersion.packetType, if_true, bind_eq_bind]
    rw [setIpv4Proto_eq _ _ _ _ _ (by omega), bind_some, completeUdp_eq _ _ _ _ (by simp only; omega)]
    rfl
  | v6 =>
    simp only [IpVersion.minHdrLen] at hbuf
    simp only [adaptIpHeader, hp, IpVersion.packetType, if_true, Bool.false_eq_true, if_false,
      bind_eq_bind]
    rw [setIpv6Proto_eq d _ _ _ _ (by omega), bind_some, completeUdp_eq _ _ _ _ (by simp only; omega)]
    rfl

theorem transportHeader_eq (rule : EncryptRule) (udpTransport : Bool)
    (oh l2l3 : Nat) {m : Mbuf} {v : IpVersion} (hp : m.packetType = v.packetType)
    (hl : 14 + v.minHdrLen ≤ l2l3)
    (hbuf : m.first.mtod + (l2l3 + transportLen udpTransport) ≤ m.first.bufLen.toNat) :
    transportHeader d ctx rule udpTransport oh l2l3 m = some ({ m.first with
          buf := transportBuffer d v
            (transportEncap rule ctx.config.swSnIncEnable udpTransport) udpTransport m.first.buf
            m.first.mtod oh l2l3 m.pktLen },
        ctx.currentIpId, m.first.buf (oh + 14 + v.protoAt)) := by
  have hlen := transportEncap_length rule ctx.config.swSnIncEnable udpTransport
  have hesp := le_transportLen udpTransport
  have hproto := v.protoAt_lt
  simp only [transportHeader, bind_eq_bind]
  rw [Seg.memmove_eq (by omega), bind_some, Seg.write_eq (by simp only; omega), bind_some,
    adaptIpHeader_eq d udpTransport _ hp (by simp only; omega), bind_some]
  have hnext : store (move m.first.buf m.first.mtod oh l2l3) (m.first.mtod + l2l3)
      (transportEncap rule ctx.config.swSnIncEnable udpTransport)
      (m.first.mtod + 14 + v.protoAt) = m.first.buf (oh + 14 + v.protoAt) := by
    rw [store_outside (by omega), add_assoc, move_inside (by omega), add_assoc]
  exact congrArg some (Prod.ext rfl (Prod.ext rfl hnext))

variable (d : Dpdk) (v : IpVersion) (encap : List UInt8) (udpTransport : Bool) (b : Nat → UInt8)
  (nh oh l2l3 : Nat) (pktLen : UInt32)

theorem adaptedBuffer_before (ip i : Nat) (h : i < ip) :
    adaptedBuffer d v udpTransport b ip pktLen i = b i := by
  have hset := v.setProto_before d b ip (transportProto udpTransport) (v.totalOf pktLen) i h
  cases udpTransport with
  | false => exact hset
  | true => rw [adaptedBuffer, if_pos rfl, v.setUdp_outside _ _ _ _ (by omega), hset]

theorem adaptedBuffer_eq_setProto (ip k : Nat)
    (h : udpTransport = false ∨ k < v.minHdrLen + 4 ∨ v.minHdrLen + 8 ≤ k) :
    adaptedBuffer d v udpTransport b ip pktLen (ip + k) =
      v.setProto d b ip (transportProto udpTransport) (v.totalOf pktLen) (ip + k) := by
  cases udpTransport with
  | false => rfl
  | true =>
    have hk : k < v.minHdrLen + 4 ∨ v.minHdrLen + 8 ≤ k := by simpa using h
    rw [adaptedBuffer, if_pos rfl, v.setUdp_outside _ _ _ _ (by omega)]

theorem adaptedBuffer_behind (ip k : Nat) (hk : v.minHdrLen ≤ k)
    (h : udpTransport = false ∨ k < v.minHdrLen + 4 ∨ v.minHdrLen + 8 ≤ k) :
    adaptedBuffer d v udpTransport b ip pktLen (ip + k) = b (ip + k) := by
  have hset : v.setProto d b ip (transportProto udpTransport) (v.totalOf pktLen) (ip + k) =
      b (ip + k) := by
    apply v.setProto_other
    intro hw
    have := v.rewrites_lt hw
    omega
  rw [adaptedBuffer_eq_setProto _ _ _ _ _ _ _ h, hset]

variable {v} in
theorem announced_congr {b c : Nat → UInt8} {ip : Nat}
    (h : ∀ k < v.minHdrLen, b (ip + k) = c (ip + k)) : v.announced b ip = v.announced c ip := by
  cases v with
  | v4 =>
    exact readBe16_congr (h 2 (by decide)) (h 3 (by decide))
  | v6 =>
    exact congrArg (· + 40) (readBe16_congr (h 4 (by decide)) (h 5 (by decide)))

variable {v} in
theorem hdrLen_congr {b c : Nat → UInt8} {ip ip' : Nat} (h : b ip = c ip') :
    v.hdrLen b ip = v.hdrLen c ip' := by
  cases v with
  | v4 => rw [IpVersion.hdrLen, IpVersion.hdrLen, h]
  | v6 => rfl

theorem adaptedBuffer_announced (ip : Nat) (hmin : 14 + v.minHdrLen ≤ pktLen.toNat)
    (hlt : pktLen.toNat < 65536) :
    v.announced (adaptedBuffer d v udpTransport b ip pktLen) ip = pktLen.toNat - 14 := by
  have hset := announced_congr (v := v) (fun k hk =>
    adaptedBuffer_eq_setProto d v udpTransport b pktLen ip k (.inr (.inl (by omega))))
  have htotal := v.totalOf_eq hmin
  rw [hset, v.setProto_announced _ _ _ _ _ (by omega) (by omega), htotal]

variable {v encap udpTransport}

theorem transportBuffer_outside (hlen : encap.length = transportLen udpTransport)
    (hl : 14 + v.minHdrLen ≤ l2l3) (i : Nat)
    (h : i < nh ∨ nh + (l2l3 + transportLen udpTransport) ≤ i) :
    transportBuffer d v encap udpTransport b nh oh l2l3 pktLen i = b i := by
  have hesp := le_transportLen udpTransport
  have hkeep : transportBuffer d v encap udpTransport b nh oh l2l3 pktLen i =
      store (move b nh oh l2l3) (nh + l2l3) encap i := by
    rcases h with h | h
    · exact adaptedBuffer_before _ _ _ _ _ _ _ (by omega)
    · obtain ⟨k, rfl⟩ := Nat.exists_eq_add_of_le (show nh + 14 ≤ i by omega)
      exact adaptedBuffer_behind _ _ _ _ _ _ _ (by omega) (.inr (by omega))
  rw [hkeep, store_outside (by omega), move_outside (by omega)]

theorem transportBuffer_kept (j : Nat) (hj : j < l2l3) (hw : 14 ≤ j → ¬ v.rewrites (j - 14))
    (h : udpTransport = false ∨ j < 14 + v.minHdrLen + 4 ∨ 14 + v.minHdrLen + 8 ≤ j) :
    transportBuffer d v encap udpTransport b nh oh l2l3 pktLen (nh + j) = b (oh + j) := by
  have hmoved : store (move b nh oh l2l3) (nh + l2l3) encap (nh + j) = b (oh + j) := by
    rw [store_outside (by omega), move_inside hj]
  rw [← hmoved]
  rcases lt_or_ge j 14 with hlow | hlow
  · exact adaptedBuffer_before _ _ _ _ _ _ _ (by omega)
  · obtain ⟨k, rfl⟩ := Nat.exists_eq_add_of_le hlow
    rw [Nat.add_sub_cancel_left] at hw
    have hk : udpTransport = false ∨ k < v.minHdrLen + 4 ∨ v.minHdrLen + 8 ≤ k :=
      h.imp_right fun h => by omega
    rw [← add_assoc, transportBuffer, adaptedBuffer_eq_setProto _ _ _ _ _ _ _ hk,
      v.setProto_other _ _ _ _ _ _ (hw hlow)]

/-- In transport mode the headers of a datagram stay the headers of a datagram, now of the length
    of the whole packet. -/
theorem transportBuffer_written (hlen : encap.length = transportLen false)
    (hether : readBe16 b (oh + 12) = v.etherType) (hl2l3 : 14 + v.hdrLen b (oh + 14) = l2l3)
    (hhdr : v.minHdrLen ≤ v.hdrLen b (oh + 14)) (hmin : 14 + v.minHdrLen ≤ pktLen.toNat)
    (hlt : pktLen.toNat < 65536) :
    HeaderWritten b (transportBuffer d v encap false b nh oh l2l3 pktLen) nh (l2l3 + 16) v 16
      pktLen.toNat := by
  have hkept := @transportBuffer_kept d v encap false b nh oh l2l3 pktLen
  have hmin20 : 20 ≤ v.minHdrLen := by cases v <;> decide
  have hsame : v.hdrLen (transportBuffer d v encap false b nh oh l2l3 pktLen) (nh + 14) =
      v.hdrLen b (oh + 14) :=
    hdrLen_congr (hkept 14 (by omega) (fun _ => v.not_rewrites_zero) (.inl rfl))
  refine ⟨?_, ?_, ?_, ?_, ?_⟩
  · intro i hi
    exact transportBuffer_outside d b nh oh l2l3 pktLen hlen (by omega) i hi
  · rw [← hether]
    exact readBe16_congr (hkept 12 (by omega) (by omega) (.inl rfl))
      (hkept 13 (by omega) (by omega) (.inl rfl))
  · rw [hsame, hl2l3]
  · rw [hsame]; omega
  · exact adaptedBuffer_announced d v false _ pktLen (nh + 14) hmin hlt

theorem transportEncap_sn (udpTransport : Bool) :
    ((transportEncap rule true udpTransport).drop (transportLen udpTransport - 12)).take 4 =
      hostWord rule.currentSn := by
  cases udpTransport <;> rfl

theorem transportBuffer_sn (udpTransport : Bool) (hl : 14 + v.minHdrLen ≤ l2l3) :
    readBe32 (transportBuffer d v (transportEncap rule true udpTransport) udpTransport b nh oh l2l3
      pktLen) (nh + (l2l3 + transportLen udpTransport - 12)) = rule.currentSn.toNat := by
  have haddr : nh + (l2l3 + transportLen udpTransport - 12) =
      nh + l2l3 + (transportLen udpTransport - 12) := by
    have := le_transportLen udpTransport
    omega
  rw [haddr, ← readBe32_hostWord (b := move b nh oh l2l3) (a := nh + l2l3)
    (transportEncap_sn rule udpTransport)]
  apply readBe32_congr
  intro k hk
  have hoff : nh + l2l3 + (transportLen udpTransport - 12) + k =
      nh + 14 + (l2l3 - 14 + (transportLen udpTransport - 12) + k) := by omega
  rw [hoff]
  apply adaptedBuffer_behind
  · omega
  · cases udpTransport with
    | false => exact .inl rfl
    | true => exact .inr (by rw [transportLen_true]; omega)

end Doca.IpsecGw
