import Doca.IpsecGw.SequenceNumber

/-!
# The UDP header of UDP-transport mode

`prepare_packet_transport` moves an IP header of any length, but completes the UDP header behind an
IPv4 header of 20 bytes.

* `UdpWritten` — a UDP header with the ports of the template and the length of the rest of the packet
  follows the IP header, which is kept apart from protocol, length and checksum.

Principal result: `udpWritten_iff` — without options the UDP header is right for up to 65535 bytes;
behind options it keeps the length of the template, and its ports or the second word of the options are
lost.
-/

namespace Doca.IpsecGw

open Doca.Lib

structure UdpWritten (m m' : Mbuf) (v : IpVersion) (hdr : Nat) : Prop where
  srcPort : readBe16 m'.first.buf (m'.first.mtod + 14 + hdr) = 12345
  dstPort : readBe16 m'.first.buf (m'.first.mtod + 14 + hdr + 2) = 4500
  length : readBe16 m'.first.buf (m'.first.mtod + 14 + hdr + 4) + 14 + hdr = m'.pktLen.toNat
  checksum : readBe16 m'.first.buf (m'.first.mtod + 14 + hdr + 6) = 0
  kept : ∀ k < hdr, ¬ v.rewrites k →
    m'.first.buf (m'.first.mtod + (14 + k)) = m.first.buf (m.first.mtod + (14 + k))

/-- Without the Ethernet padding, the packet gets 24 bytes of headers, the ESP padding with its tail and the
integrity check value. -/
def encapsulatedLen (d : Dpdk) (rule : EncryptRule) (m : Mbuf) : UInt32 :=
  let m := removeEthernetPadding d m
  m.pktLen + 24 +
    (paddingWithTail (m.pktLen - l2L3Len m) + UInt32.ofNat (getIcvLenInt rule.saAttrs.icvLength))

/-- Without options the length fits into 16 bits.  With options of one word the ports are lost; with more it
is the 164 of the template, and the second word of the options is what is written over it. -/
def UdpFits (m : Mbuf) (hdr minHdr pktLen : Nat) : Prop :=
  if hdr = minHdr then 14 + hdr ≤ pktLen ∧ pktLen < 14 + hdr + 65536
  else 24 < hdr ∧ pktLen = 14 + hdr + 164 ∧
    readBe16 m.first.buf (m.first.mtod + (14 + 24)) = hdr + 144 ∧
    readBe16 m.first.buf (m.first.mtod + (14 + 26)) = 0

theorem IpVersion.setUdp_fields (v : IpVersion) (b : Nat → UInt8) (ip udpLen : Nat) :
    readBe16 (v.setUdp b ip udpLen) (ip + v.minHdrLen + 4) = udpLen % 65536 ∧
      readBe16 (v.setUdp b ip udpLen) (ip + v.minHdrLen + 6) = 0 := by
  refine ⟨?_, readBe16_store _ _ _⟩
  rw [← readBe16_store b (ip + v.minHdrLen + 4) udpLen]
  exact readBe16_congr (store_be16_other (by omega)) (store_be16_other (by omega))

theorem IpVersion.udpLenOf_eq (v : IpVersion) (pktLen : UInt32) :
    v.udpLenOf pktLen = (4294967296 + pktLen.toNat - 14 - v.minHdrLen) % 4294967296 := by
  have hlt := pktLen.toNat_lt
  cases v with
  | v4 =>
    simp only [udpLenOf, minHdrLen, UInt32.toNat_sub, ETHER_HDR_LEN, IPV4_HDR_LEN, UInt32.reduceToNat]
    omega
  | v6 =>
    simp only [udpLenOf, minHdrLen, UInt32.toNat_sub, ETHER_HDR_LEN, IPV6_HDR_LEN, UInt32.reduceToNat]
    omega

def udpTemplate : List (Nat × Nat) := [(0, 12345), (2, 4500), (4, 164), (6, 0)]

theorem transportBuffer_template (d : Dpdk) (v : IpVersion) (rule : EncryptRule) (sw : Bool)
    (b : Nat → UInt8) (nh oh hdr : Nat) (pktLen : UInt32) {i w : Nat} (hw : (i, w) ∈ udpTemplate)
    (hhdr : v.minHdrLen ≤ hdr) (hout : hdr + i + 1 < v.minHdrLen + 4 ∨ v.minHdrLen + 8 ≤ hdr + i) :
    readBe16 (transportBuffer d v (transportEncap rule sw true) true b nh oh (14 + hdr) pktLen)
        (nh + 14 + (hdr + i)) = w := by
  have hbyte : ∀ k x, (transportEncap rule sw true)[k]? = some x →
      hdr + k < v.minHdrLen + 4 ∨ v.minHdrLen + 8 ≤ hdr + k →
      transportBuffer d v (transportEncap rule sw true) true b nh oh (14 + hdr) pktLen
        (nh + 14 + (hdr + k)) = x := by
    intro k x hx hout
    rw [transportBuffer, adaptedBuffer_behind _ _ _ _ _ _ _ (by omega) (.inr hout),
      show nh + 14 + (hdr + k) = nh + (14 + hdr) + k by omega]
    exact store_of_getElem? hx
  simp only [udpTemplate, List.mem_cons, Prod.mk.injEq, List.not_mem_nil, or_false] at hw
  rcases hw with ⟨rfl, rfl⟩ | ⟨rfl, rfl⟩ | ⟨rfl, rfl⟩ | ⟨rfl, rfl⟩
  · exact readBe16_of_bytes (v := 12345) (hbyte 0 48 (by cases sw <;> rfl) (by omega))
      (hbyte 1 57 (by cases sw <;> rfl) (by omega))
  · exact readBe16_of_bytes (v := 4500) (hbyte 2 17 (by cases sw <;> rfl) (by omega))
      (hbyte 3 148 (by cases sw <;> rfl) (by omega))
  · exact readBe16_of_bytes (v := 164) (hbyte 4 0 (by cases sw <;> rfl) (by omega))
      (hbyte 5 164 (by cases sw <;> rfl) (by omega))
  · exact readBe16_of_bytes (v := 0) (hbyte 6 0 (by cases sw <;> rfl) (by omega))
      (hbyte 7 0 (by cases sw <;> rfl) (by omega))

theorem preparePacket_pktLen {d : Dpdk} {ctx ctx' : CoreCtx} {ruleIdx : Nat} {rule : EncryptRule}
    {payloadLen espLen : UInt32} {header : Mbuf → Option (Seg × UInt16 × UInt8)} {m m' : Mbuf}
    (h : preparePacket d ctx ruleIdx rule payloadLen espLen header m = some (.success, ctx', m')) :
    m'.pktLen = m.pktLen + espLen.toUInt16.toUInt32 +
      (paddingWithTail payloadLen + UInt32.ofNat (getIcvLenInt rule.saAttrs.icvLength)) := by
  rcases preparePacket_cases h with ⟨hcode, -⟩ | ⟨-, m₁, t, s, ipId, next, hprep, rfl, -, hw, -⟩
  · cases hcode
  · rw [d.prepend_eq] at hprep
    split at hprep <;> cases hprep
    exact (writeTrailer_before 0 hw fun _ => Nat.zero_le _).2.1

section Written

variable {d : Dpdk} {ctx ctx' : CoreCtx} {ruleIdx : Nat} {rule : EncryptRule} {m m' : Mbuf} {v : IpVersion}

theorem preparePacketTransport_pktLen (hrule : ctx.encryptRules[ruleIdx]? = some rule)
    (h : preparePacketTransport d ctx ruleIdx true m = some (.success, ctx', m')) :
    m'.pktLen = encapsulatedLen d rule m := by
  simp only [preparePacketTransport, hrule, Option.bind_eq_bind, Option.bind_some] at h
  have hesp : (UInt32.ofNat (transportLen true)).toUInt16.toUInt32 = 24 := rfl
  rw [preparePacket_pktLen h, hesp]
  rfl

theorem HoldsHeaders.hdrLen_cases (hf : HoldsHeaders d m v) :
    let hdr := v.hdrLen m.first.buf (m.first.mtod + 14)
    hdr = v.minHdrLen ∨ v.minHdrLen = 20 ∧ hdr ≤ 60 ∧ (hdr = 24 ∨ 28 ≤ hdr) := by
  have hmin := hf.minHdr
  cases v with
  | v4 =>
    simp only [IpVersion.hdrLen, IpVersion.minHdrLen, true_and] at hmin ⊢
    omega
  | v6 => exact .inl rfl

/-- What the call leaves of the IP header and of the template, and the two fields that it completes behind
an IP header without options. -/
structure UdpPlaced (m m' : Mbuf) (v : IpVersion) (hdr : Nat) : Prop where
  kept : ∀ k < hdr, ¬ v.rewrites k → k < v.minHdrLen + 4 ∨ v.minHdrLen + 8 ≤ k →
    m'.first.buf (m'.first.mtod + (14 + k)) = m.first.buf (m.first.mtod + (14 + k))
  template : ∀ i w, (i, w) ∈ udpTemplate → i < 8 →
    hdr + i + 1 < v.minHdrLen + 4 ∨ v.minHdrLen + 8 ≤ hdr + i →
    readBe16 m'.first.buf (m'.first.mtod + 14 + hdr + i) = w
  length : readBe16 m'.first.buf (m'.first.mtod + 14 + v.minHdrLen + 4) = v.udpLenOf m'.pktLen % 65536
  checksum : readBe16 m'.first.buf (m'.first.mtod + 14 + v.minHdrLen + 6) = 0

theorem preparePacketTransport_placed (hrule : ctx.encryptRules[ruleIdx]? = some rule)
    (hf : HoldsHeaders d m v)
    (h : preparePacketTransport d ctx ruleIdx true m = some (.success, ctx', m')) :
    UdpPlaced m m' v (v.hdrLen m.first.buf (m.first.mtod + 14)) := by
  obtain ⟨hmtod, hkeep⟩ := preparePacketTransport_written hrule hf h
  rw [transportLen_true] at hmtod
  have hlow := IpVersion.minHdrLen_le hf.minHdr
  generalize v.hdrLen m.first.buf (m.first.mtod + 14) = hdr at *
  have hread : ∀ k, k + 1 < hdr + 24 → readBe16 m'.first.buf (m'.first.mtod + 14 + k) =
      readBe16 (transportBuffer d v (transportEncap rule ctx.config.swSnIncEnable true) true
        m.first.buf m'.first.mtod m.first.mtod (14 + hdr) m'.pktLen) (m'.first.mtod + 14 + k) :=
    fun k hk => readBe16_congr (hkeep _ (by omega)) (hkeep _ (by omega))
  obtain ⟨hlen, hsum⟩ := v.setUdp_fields
    (v.setProto d (store (move m.first.buf m'.first.mtod m.first.mtod (14 + hdr))
      (m'.first.mtod + (14 + hdr)) (transportEncap rule ctx.config.swSnIncEnable true))
      (m'.first.mtod + 14) (transportProto true) (v.totalOf m'.pktLen))
    (m'.first.mtod + 14) (v.udpLenOf m'.pktLen)
  rw [Nat.add_assoc] at hlen hsum
  refine ⟨fun k hk hw hout => ?_, fun i w hw hi hout => ?_, ?_, ?_⟩
  · rw [hkeep _ (by omega)]
    exact transportBuffer_kept _ _ _ _ _ _ (14 + k) (by omega)
      (fun _ => by rwa [Nat.add_sub_cancel_left]) (.inr (by omega))
  · rw [Nat.add_assoc, hread _ (by omega)]
    exact transportBuffer_template d v rule _ _ _ _ _ _ hw hlow hout
  · rw [Nat.add_assoc, hread _ (by omega)]
    exact hlen
  · rw [Nat.add_assoc, hread _ (by omega)]
    exact hsum

variable {hdr : Nat}

theorem UdpPlaced.plain_iff (h : UdpPlaced m m' v v.minHdrLen) : UdpWritten m m' v v.minHdrLen ↔
    14 + v.minHdrLen ≤ m'.pktLen.toNat ∧ m'.pktLen.toNat < 14 + v.minHdrLen + 65536 := by
  have hlen := h.length
  have hudp := v.udpLenOf_eq m'.pktLen
  have hlt := m'.pktLen.toNat_lt
  constructor
  · rintro ⟨-, -, hl, -, -⟩
    omega
  · intro hl
    exact ⟨h.template 0 _ (by decide) (by decide) (by omega),
      h.template 2 _ (by decide) (by decide) (by omega), by omega, h.checksum,
      fun k hk hw => h.kept k hk hw (.inl (by omega))⟩

/-- Behind options of one word the checksum is written over the destination port. -/
theorem UdpPlaced.not_written (h : UdpPlaced m m' v 24) (hmin : v.minHdrLen = 20) :
    ¬ UdpWritten m m' v 24 := by
  intro hw
  have hsum := h.checksum
  rw [hmin] at hsum
  exact absurd (hw.dstPort.symm.trans hsum) (by decide)

theorem UdpPlaced.options_iff (h : UdpPlaced m m' v hdr) (hmin : v.minHdrLen = 20) (hlong : 28 ≤ hdr)
    (hhdr : hdr ≤ 60) : UdpWritten m m' v hdr ↔ m'.pktLen.toNat = 14 + hdr + 164 ∧
      readBe16 m.first.buf (m.first.mtod + (14 + 24)) = hdr + 144 ∧
      readBe16 m.first.buf (m.first.mtod + (14 + 26)) = 0 := by
  have hudp := v.udpLenOf_eq m'.pktLen
  obtain ⟨hkept, hfield, hlen, hsum⟩ := h
  rw [hmin] at hkept hfield hlen hsum hudp
  have h164 := hfield 4 164 (by decide) (by decide) (by omega)
  rw [Nat.add_assoc, Nat.add_assoc] at hlen hsum
  have hopt : ∀ k, 20 ≤ k → ¬ v.rewrites k := fun k hk hw => by
    have := v.rewrites_lt hw
    omega
  constructor
  · rintro ⟨-, -, hl, -, hk⟩
    rw [h164] at hl
    refine ⟨by omega, ?_, ?_⟩
    · rw [← readBe16_congr (hk 24 (by omega) (hopt _ (by omega)))
        (hk 25 (by omega) (hopt _ (by omega))), hlen]
      omega
    · rw [← readBe16_congr (hk 26 (by omega) (hopt _ (by omega)))
        (hk 27 (by omega) (hopt _ (by omega))), hsum]
  · rintro ⟨hl, hw1, hw2⟩
    refine ⟨hfield 0 _ (by decide) (by decide) (by omega), hfield 2 _ (by decide) (by decide) (by omega),
      by omega, hfield 6 0 (by decide) (by decide) (by omega), fun k hk hw => ?_⟩
    by_cases hout : k < 24 ∨ 28 ≤ k
    · exact hkept k hk hw hout
    · obtain ⟨h24, h25⟩ := bytes_of_readBe16_eq (hlen.trans (by rw [hw1]; omega))
      obtain ⟨h26, h27⟩ := bytes_of_readBe16_eq (hsum.trans hw2.symm)
      obtain rfl | rfl | rfl | rfl : k = 24 ∨ k = 25 ∨ k = 26 ∨ k = 27 := by omega
      · exact h24
      · exact h25
      · exact h26
      · exact h27

/-- **The headers are as they should be** exactly for the packets that fit. -/
theorem udpWritten_iff (hrule : ctx.encryptRules[ruleIdx]? = some rule) (hf : HoldsHeaders d m v)
    (h : preparePacketTransport d ctx ruleIdx true m = some (.success, ctx', m')) :
    UdpWritten m m' v (v.hdrLen m.first.buf (m.first.mtod + 14)) ↔
      UdpFits m (v.hdrLen m.first.buf (m.first.mtod + 14)) v.minHdrLen
        (encapsulatedLen d rule m).toNat := by
  have hplaced := preparePacketTransport_placed hrule hf h
  have hshape := hf.hdrLen_cases
  rw [← preparePacketTransport_pktLen hrule h]
  unfold UdpFits
  generalize v.hdrLen m.first.buf (m.first.mtod + 14) = hdr at *
  rcases hshape with rfl | ⟨hmin, hhdr, rfl | hlong⟩
  · rw [if_pos rfl]
    exact hplaced.plain_iff
  · rw [if_neg (by omega)]
    exact iff_of_false (hplaced.not_written hmin) fun hfits => absurd hfits.1 (by decide)
  · rw [if_neg (by omega), hplaced.options_iff hmin hlong hhdr]
    exact (and_iff_right (by omega)).symm

end Written

def plainFrame : Mbuf :=
  { shortFrame with
    first := { shortFrame.first with
      buf := fun i => if i = 142 then 0x45 else shortFrame.first.buf i } }

theorem udpWritten_iff_plain : ∃ ctx' m', preparePacketTransport Dpdk.reference
    (shortCtx .udpTransport) 0 true plainFrame = some (.success, ctx', m') ∧
      UdpWritten plainFrame m' .v4 20 := by
  have hrun : (preparePacketTransport Dpdk.reference (shortCtx .udpTransport) 0 true plainFrame).map
      (·.1) = some .success := by decide +kernel
  obtain ⟨⟨code, ctx', m'⟩, h, rfl⟩ := Option.map_eq_some_iff.mp hrun
  have hf : HoldsHeaders Dpdk.reference plainFrame .v4 :=
    ⟨rfl, by decide, by decide +kernel, by decide +kernel⟩
  have hlen : (encapsulatedLen Dpdk.reference shortEncryptRule plainFrame).toNat = 82 := by decide +kernel
  refine ⟨ctx', m', h, (@udpWritten_iff _ _ _ _ shortEncryptRule _ _ _ rfl hf h).mpr ?_⟩
  rw [hlen]
  exact ⟨by decide, by decide⟩

/-- With 24 bytes of IPv4 header the UDP header says 164 bytes where 44 follow, and its ports are
    overwritten with the length and the checksum. -/
theorem shortFrame_udpLength : HoldsHeaders Dpdk.reference shortFrame .v4 ∧
    (preparePacketTransport Dpdk.reference (shortCtx .udpTransport) 0 true shortFrame).map
      (fun r => (r.1, r.2.2.pktLen, load r.2.2.first.buf (r.2.2.first.mtod + 38) 8)) =
      some (.success, 82, [0, 48, 0, 0, 0, 164, 0, 0]) :=
  ⟨⟨rfl, by decide, by decide +kernel, by decide +kernel⟩, by decide +kernel⟩

end Doca.IpsecGw
