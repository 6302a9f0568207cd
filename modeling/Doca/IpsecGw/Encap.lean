import Doca.IpsecGw.EncapHeader

/-!
# Software encapsulation

Model of `prepare_packet_tunnel`, `prepare_packet_transport` and
`handle_unsecured_packets_received` (`flow_encrypt.c`).

* `preparePacket` — the part the two functions share: padding and trailer lengths, the space in
  front and behind, the headers, the trailer, the increment of the sequence number.

A result is `none` only if a write leaves the buffer of a segment, or the rule index the rule array;
otherwise it is the returned code with the context and the packet.

Principal results: `preparePacket_eq`; `preparePacket_cases` for any number of segments.
-/

namespace Doca.IpsecGw

open Doca.Lib UInt32 Option

/-! ## The functions of the source -/

def PADDING_ALIGN : UInt32 := 4

def ESP_TAIL_LEN : UInt32 := 2

def espPadBytes : List UInt8 := [1, 2, 3, 4, 5, 6, 7, 8, 9, 10, 11, 12, 13, 14, 15]

/-- `RTE_ALIGN_CEIL`: the first multiple of `align` that is not below `val`. -/
def alignCeil (val align : UInt32) : UInt32 := (val + (align - 1)) / align * align

def paddingWithTail (payloadLen : UInt32) : UInt32 :=
  alignCeil (payloadLen + ESP_TAIL_LEN) PADDING_ALIGN - payloadLen

variable (m : Mbuf)

def appendTail (trailerLen : UInt32) : Mbuf :=
  { m.setLast
      { m.lastseg with dataLen := (m.lastseg.dataLen.toUInt32 + trailerLen).toUInt16 } with
    pktLen := m.pktLen + trailerLen }

def trailerPointer : Nat := m.lastseg.mtod + m.lastseg.dataLen.toNat

def writeTrailer (trailer : Nat) (paddingLen : UInt32) (nextProto : UInt8) :
    Option Mbuf := do
  let s ← m.lastseg.write trailer (espPadBytes.take (min paddingLen.toNat espPadBytes.length))
  let s ← s.write (trailer + paddingLen.toNat) [paddingLen.toUInt8, nextProto]
  some (m.setLast s)

def EncryptRule.incrementSn (rule : EncryptRule) : EncryptRule :=
  { rule with currentSn := rule.currentSn + 1 }

def CoreCtx.prepared (ctx : CoreCtx) (ruleIdx : Nat) (ipId : UInt16) : CoreCtx :=
  { ctx with
    currentIpId := ipId
    encryptRules := ctx.encryptRules.modify ruleIdx EncryptRule.incrementSn }

def preparePacket (d : Dpdk) (ctx : CoreCtx) (ruleIdx : Nat) (rule : EncryptRule)
    (payloadLen espLen : UInt32) (header : Mbuf → Option (Seg × UInt16 × UInt8)) (m : Mbuf) :
    Option (DocaError × CoreCtx × Mbuf) :=
  let icvLen := UInt32.ofNat (getIcvLenInt rule.saAttrs.icvLength)
  let trailerLen := paddingWithTail payloadLen + icvLen
  match d.prepend m espLen.toUInt16 with
  | none => some (.noMemory, ctx, m)
  | some m => do
    let r ← header (appendTail m trailerLen)
    let m' ← writeTrailer { appendTail m trailerLen with first := r.1 } (trailerPointer m)
      (paddingWithTail payloadLen - ESP_TAIL_LEN) r.2.2
    some (.success, ctx.prepared ruleIdx r.2.1, m')

/-- `prepare_packet_tunnel`: everything behind the Ethernet header is encrypted. -/
def preparePacketTunnel (d : Dpdk) (ctx : CoreCtx) (ruleIdx : Nat) (m : Mbuf) :
    Option (DocaError × CoreCtx × Mbuf) := do
  let rule ← ctx.encryptRules[ruleIdx]?
  let reformatEncapDataLen : UInt32 := if rule.encapL3Type = .ip4 then 50 else 70
  let m := removeEthernetPadding d m
  preparePacket d ctx ruleIdx rule (m.pktLen - ETHER_HDR_LEN)
    (reformatEncapDataLen - ETHER_HDR_LEN) (tunnelHeader d ctx rule) m

/-- `prepare_packet_transport`: everything behind the L3 header is encrypted. -/
def preparePacketTransport (d : Dpdk) (ctx : CoreCtx) (ruleIdx : Nat) (udpTransport : Bool)
    (m : Mbuf) : Option (DocaError × CoreCtx × Mbuf) := do
  let rule ← ctx.encryptRules[ruleIdx]?
  let m := removeEthernetPadding d m
  preparePacket d ctx ruleIdx rule (m.pktLen - l2L3Len m) (UInt32.ofNat (transportLen udpTransport))
    (transportHeader d ctx rule udpTransport m.first.mtod (l2L3Len m).toNat) m

def handleUnsecuredPacketsReceived (d : Dpdk) (ctx : CoreCtx) (m : Mbuf) :
    Option (DocaError × CoreCtx × Mbuf) :=
  let ruleIdx := (PktMeta.ofU32 m.metadata.toNat).ruleId
  match ctx.config.mode with
  | .transport => preparePacketTransport d ctx ruleIdx false m
  | .udpTransport => preparePacketTransport d ctx ruleIdx true m
  | .tunnel => preparePacketTunnel d ctx ruleIdx m

/-! ## What a call can do -/

/-- **A call without memory error finds no room and changes nothing, or it writes headers and trailer
    and counts the packet.** -/
theorem preparePacket_cases {d : Dpdk} {ctx ctx' : CoreCtx} {ruleIdx : Nat} {rule : EncryptRule}
    {payloadLen espLen : UInt32} {header : Mbuf → Option (Seg × UInt16 × UInt8)} {m m' : Mbuf}
    {code : DocaError}
    (h : preparePacket d ctx ruleIdx rule payloadLen espLen header m = some (code, ctx', m')) :
    (code = .noMemory ∧ ctx' = ctx) ∨
    (code = .success ∧ ∃ m₁ trailerLen s ipId next, d.prepend m espLen.toUInt16 = some m₁ ∧
      trailerLen = paddingWithTail payloadLen + UInt32.ofNat (getIcvLenInt rule.saAttrs.icvLength) ∧
      header (appendTail m₁ trailerLen) = some (s, ipId, next) ∧
      writeTrailer { appendTail m₁ trailerLen with first := s } (trailerPointer m₁)
        (paddingWithTail payloadLen - ESP_TAIL_LEN) next = some m' ∧
      ctx' = ctx.prepared ruleIdx ipId) := by
  unfold preparePacket at h
  dsimp only at h
  split at h
  · cases h
    exact .inl ⟨rfl, rfl⟩
  · rename_i m₁ hprep
    simp only [bind_eq_bind, bind_eq_some_iff] at h
    obtain ⟨⟨s, ipId, next⟩, hheader, m₂, htrailer, h⟩ := h
    cases h
    exact .inr ⟨rfl, m₁, _, s, ipId, next, hprep, rfl, hheader, htrailer, rfl⟩

/-- The trailer lies in the last segment: in a chain the first one is not touched, in a single segment
    nothing in front of the trailer. -/
theorem writeTrailer_before {m m' : Mbuf} {trailer : Nat} {paddingLen : UInt32} {next : UInt8}
    (hi : Nat) (h : writeTrailer m trailer paddingLen next = some m') (hin : m.rest = [] → hi ≤ trailer) :
    m'.first.mtod = m.first.mtod ∧ m'.pktLen = m.pktLen ∧ ∀ i < hi, m'.first.buf i = m.first.buf i := by
  simp only [writeTrailer, bind_eq_bind, bind_eq_some_iff] at h
  obtain ⟨s₁, h₁, s₂, h₂, h⟩ := h
  cases h
  rcases hr : m.rest with _ | ⟨seg, segs⟩
  · have hle := hin hr
    rw [Seg.of_write h₂, Seg.of_write h₁, Mbuf.setLast_single hr, Mbuf.lastseg_single hr]
    refine ⟨rfl, rfl, fun i hi' => ?_⟩
    show store (store _ _ _) _ _ i = _
    rw [store_outside (by omega), store_outside (by omega)]
  · simp only [Mbuf.setLast, hr, List.length_cons, Mbuf.setSeg]
    exact ⟨trivial, trivial, fun i _ => trivial⟩

/-! ## Lengths -/

/-- The padding bytes for a payload of `p` bytes: with the two bytes of the tail they end at a multiple
    of four. -/
def padOf (p : Nat) : Nat := (4 - (p + 2) % 4) % 4

theorem padOf_lt (p : Nat) : padOf p < 4 := Nat.mod_lt _ (by omega)

theorem padOf_aligned (p : Nat) : (p + padOf p + 2) % 4 = 0 := by
  unfold padOf
  omega

theorem paddingWithTail_toNat {payloadLen : UInt32} (h : payloadLen.toNat < 65536) :
    (paddingWithTail payloadLen).toNat = padOf payloadLen.toNat + 2 := by
  simp only [paddingWithTail, alignCeil, ESP_TAIL_LEN, PADDING_ALIGN, UInt32.toNat_sub,
    UInt32.toNat_mul, UInt32.toNat_div, UInt32.toNat_add, UInt32.reduceToNat, padOf]
  omega

theorem paddingLen_toNat {payloadLen : UInt32} (h : payloadLen.toNat < 65536) :
    (paddingWithTail payloadLen - ESP_TAIL_LEN).toNat = padOf payloadLen.toNat := by
  have hpad := padOf_lt payloadLen.toNat
  rw [UInt32.toNat_sub, paddingWithTail_toNat h, ESP_TAIL_LEN]
  simp only [UInt32.reduceToNat]
  omega

theorem getIcvLenInt_le (icv : IcvLen) : getIcvLenInt icv ≤ 16 := by
  cases icv <;> decide

/-! ## Single-segment packets -/

def Mbuf.framed (e total : Nat) : Mbuf :=
  { m with
    first := { m.first with
      dataOff := m.first.dataOff - UInt16.ofNat e
      dataLen := UInt16.ofNat total }
    pktLen := UInt32.ofNat total }

def Mbuf.withBuf (b : Nat → UInt8) : Mbuf := { m with first := { m.first with buf := b } }

variable (b : Nat → UInt8) (trailer pad : Nat) (nextProto : UInt8)

def trailerBuffer : Nat → UInt8 :=
  store (store b trailer (espPadBytes.take (min pad espPadBytes.length))) (trailer + pad)
    [UInt8.ofNat pad, nextProto]

theorem trailerBuffer_before (i : Nat)
    (h : i < trailer) : trailerBuffer b trailer pad nextProto i = b i := by
  rw [trailerBuffer, store_outside (by omega), store_outside (by omega)]

theorem trailerBuffer_tail :
    trailerBuffer b trailer pad nextProto (trailer + pad) = UInt8.ofNat pad ∧
      trailerBuffer b trailer pad nextProto (trailer + pad + 1) = nextProto :=
  ⟨store_inside _ _ _ 0 (by simp), store_inside _ _ _ 1 (by simp)⟩

theorem Mbuf.framed_mtod {m : Mbuf} {e : Nat} (total : Nat) (he : e ≤ m.first.mtod) :
    (m.framed e total).first.mtod + e = m.first.mtod := by
  have hoff := m.first.dataOff.toNat_lt
  simp only [Mbuf.framed, Seg.mtod, UInt16.toNat_sub, UInt16.toNat_ofNat'] at he ⊢
  omega

theorem writeTrailer_eq {m : Mbuf} (hs : m.rest = []) (trailer : Nat) (paddingLen : UInt32)
    (nextProto : UInt8) (hbuf : trailer + paddingLen.toNat + 2 ≤ m.first.bufLen.toNat) :
    writeTrailer m trailer paddingLen nextProto =
      some (m.withBuf (trailerBuffer m.first.buf trailer paddingLen.toNat nextProto)) := by
  have hpad : (espPadBytes.take (min paddingLen.toNat espPadBytes.length)).length ≤ paddingLen.toNat := by
    rw [List.length_take]
    omega
  have hbyte : paddingLen.toUInt8 = UInt8.ofNat paddingLen.toNat := by
    rw [← UInt8.toNat_inj, toNat_toUInt8, UInt8.toNat_ofNat']
  simp only [writeTrailer, bind_eq_bind, Mbuf.lastseg_single hs]
  rw [Seg.write_eq (by omega), bind_some,
    Seg.write_eq (by simp only [List.length_cons, List.length_nil]; omega), bind_some,
    Mbuf.setLast_single hs, hbyte]
  rfl

theorem appendTail_prepend {m m1 : Mbuf} (d : Dpdk) (hs : m.rest = []) {n e t : Nat}
    {espLen trailerLen : UInt32} (he : espLen.toNat = e) (hhead : e ≤ m.first.mtod)
    (ht : trailerLen.toNat = t) (hlt : n + e + t < 65536)
    (h : d.prepend (m.cut n) espLen.toUInt16 = some m1) :
    appendTail m1 trailerLen = m.framed e (n + e + t) ∧ trailerPointer m1 = m.first.mtod + n := by
  have hoff := m.first.dataOff.toNat_lt
  rw [d.prepend_eq] at h
  split at h
  · cases h
    have he16 : espLen.toUInt16 = UInt16.ofNat e := by
      rw [← UInt16.toNat_inj, toNat_toUInt16, UInt16.toNat_ofNat', he]
    constructor
    · simp only [appendTail, Mbuf.setLast, Mbuf.lastseg, Mbuf.setSeg, Mbuf.cut, hs, he16,
        List.getLast?_nil, getD_none, List.length_nil, Mbuf.framed, Mbuf.mk.injEq,
        Seg.mk.injEq, true_and, and_true, ← UInt16.toNat_inj, ← UInt32.toNat_inj,
        UInt16.toNat_add, UInt32.toNat_add, UInt32.toNat_toUInt16, UInt16.toNat_toUInt32,
        UInt16.toNat_ofNat', UInt32.toNat_ofNat', ht]
      omega
    · simp only [Seg.mtod] at hhead
      simp only [trailerPointer, Mbuf.lastseg, Mbuf.cut, hs, he16, List.getLast?_nil,
        getD_none, Seg.mtod, UInt16.toNat_add, UInt16.toNat_sub, UInt16.toNat_ofNat']
      omega
  · cases h

/-- **What preparing a single-segment packet of `n` bytes yields**, given the buffer its header
    function leaves. -/
theorem preparePacket_eq {m : Mbuf} (d : Dpdk) (ctx : CoreCtx) (ruleIdx : Nat) (rule : EncryptRule)
    {payloadLen espLen : UInt32} {header : Mbuf → Option (Seg × UInt16 × UInt8)}
    {n e p icv total : Nat} {b : Nat → UInt8} {ipId : UInt16} {nextProto : UInt8}
    (hs : m.rest = []) (he : espLen.toNat = e) (hhead : e ≤ m.first.mtod)
    (hpayload : payloadLen.toNat = p) (hp : p ≤ n)
    (hicv : getIcvLenInt rule.saAttrs.icvLength = icv)
    (htotal : n + e + (padOf p + 2 + icv) = total)
    (hbuf : m.first.mtod + n + (padOf p + 2 + icv) ≤ m.first.bufLen.toNat)
    (hheader : header (m.framed e total) =
      some ({ (m.framed e total).first with buf := b }, ipId, nextProto)) :
    preparePacket d ctx ruleIdx rule payloadLen espLen header (m.cut n) =
      some (.success, ctx.prepared ruleIdx ipId, (m.framed e total).withBuf
        (trailerBuffer b (m.first.mtod + n) (padOf p) nextProto)) := by
  have hlen := m.first.bufLen.toNat_lt
  have hpad := padOf_lt p
  have hoff := m.first.dataOff.toNat_lt
  have hsmall : payloadLen.toNat < 65536 := by omega
  have hle : espLen.toUInt16 ≤ (m.cut n).first.dataOff := by
    rw [UInt16.le_iff_toNat_le, toNat_toUInt16, he]
    exact (Nat.mod_le _ _).trans hhead
  have htrailer : (paddingWithTail payloadLen + ofNat
      (getIcvLenInt rule.saAttrs.icvLength)).toNat = padOf p + 2 + icv := by
    have := getIcvLenInt_le rule.saAttrs.icvLength
    rw [UInt32.toNat_add, paddingWithTail_toNat hsmall, UInt32.toNat_ofNat', hicv, hpayload]
    omega
  have hprep := (d.prepend_eq (m.cut n) espLen.toUInt16).trans (if_pos hle)
  obtain ⟨happ, hptr⟩ := appendTail_prepend d hs he hhead htrailer (by omega) hprep
  rw [htotal] at happ
  have hpadding := (paddingLen_toNat hsmall).trans (congrArg padOf hpayload)
  have hwrite := writeTrailer_eq (m := (m.framed e total).withBuf b) hs (m.first.mtod + n)
    (paddingWithTail payloadLen - ESP_TAIL_LEN) nextProto
    (by rw [hpadding]; simp only [Mbuf.framed, Mbuf.withBuf]; omega)
  rw [hpadding] at hwrite
  simp only [preparePacket, hprep, happ, hheader, hptr, bind_eq_bind, bind_some]
  exact congrArg (bind · _) hwrite

/-! ## The layout of an encapsulated packet -/

/-- A single-segment packet as it is received: an Ethernet header, `hdr` bytes of IP header, 16 of ESP
    header and initialisation vector, `p` of payload, `pad` of padding, the two of the ESP tail and `icv`
    of integrity check value, as the outer IP header announces. -/
structure EspFrame (v : IpVersion) (hdr p pad icv : Nat) (next : UInt8) : Prop where
  carries : CarriesIp m v (hdr + 16 + p + pad + 2 + icv)
  exact : m.first.dataLen.toNat = 14 + (hdr + 16 + p + pad + 2 + icv)
  hdrLen : v.hdrLen m.first.buf (m.first.mtod + 14) = hdr
  padLen : (m.first.buf (m.first.mtod + (14 + hdr + 16 + p + pad))).toNat = pad
  nextProto : m.first.buf (m.first.mtod + (14 + hdr + 16 + p + pad) + 1) = next

/-- What the device sets when it hands over a packet: its type and the flow metadata. -/
def Mbuf.received (v : IpVersion) (metadata : UInt32) : Mbuf :=
  { m with
    packetType := v.packetType
    metadata := metadata }

theorem IpVersion.minHdrLen_le {v : IpVersion} {b : Nat → UInt8} {ip : Nat}
    (h : 20 ≤ v.hdrLen b ip) : v.minHdrLen ≤ v.hdrLen b ip := by
  cases v with
  | v4 => exact h
  | v6 => exact Nat.le_refl 40

theorem HeaderWritten.espFrame {m : Mbuf} {v : IpVersion} {b b' : Nat → UInt8}
    {hdr p icv total : Nat} {next : UInt8}
    (hw : HeaderWritten b b' m.first.mtod (14 + hdr + 16) v 16 total) (hs : m.rest = [])
    (hbuf : m.first.buf = trailerBuffer b' (m.first.mtod + (14 + hdr + 16 + p)) (padOf p) next)
    (htotal : total = 14 + hdr + 16 + p + (padOf p + 2 + icv))
    (hdata : m.first.dataLen.toNat = total) (hpkt : m.pktLen.toNat = total)
    (hin : m.first.mtod + total ≤ m.first.bufLen.toNat) (hptype : m.packetType = v.packetType) :
    EspFrame m v hdr p (padOf p) icv next := by
  have hsize := hw.size
  have hmin := hw.minHdr
  have hpad := padOf_lt p
  have hbelow : ∀ i, i < 14 + hdr + 16 → m.first.buf (m.first.mtod + i) = b' (m.first.mtod + i) := by
    intro i hi
    rw [hbuf, trailerBuffer_before _ _ _ _ _ (by omega)]
  have hhdr : v.hdrLen m.first.buf (m.first.mtod + 14) = v.hdrLen b' (m.first.mtod + 14) :=
    hdrLen_congr (hbelow 14 (by omega))
  have hlow := IpVersion.minHdrLen_le hmin
  have hcarries : CarriesIp m v (hdr + 16 + p + padOf p + 2 + icv) := by
    refine ⟨hs, by omega, by omega, hptype, ?_, by omega, by omega, ?_, by omega, .inr (by omega)⟩
    · rw [← hw.etherType]
      exact readBe16_congr (hbelow 12 (by omega)) (hbelow 13 (by omega))
    · have hsame : v.announced m.first.buf (m.first.mtod + 14) = v.announced b' (m.first.mtod + 14) := by
        apply announced_congr
        intro k hk
        rw [Nat.add_assoc]
        exact hbelow (14 + k) (by omega)
      rw [hsame, hw.length]
      omega
  have htail := trailerBuffer_tail b' (m.first.mtod + (14 + hdr + 16 + p)) (padOf p) next
  rw [← hbuf, Nat.add_assoc m.first.mtod] at htail
  refine ⟨hcarries, by omega, by omega, ?_, htail.2⟩
  rw [htail.1, UInt8.toNat_ofNat']
  omega

/-! ## Frames that carry a datagram -/

theorem Mbuf.framed_lengths (e : Nat) {total : Nat} (h : total < 65536) :
    (m.framed e total).first.dataLen.toNat = total ∧ (m.framed e total).pktLen.toNat = total := by
  simp only [Mbuf.framed, UInt16.toNat_ofNat', toNat_ofNat']
  omega

namespace CarriesIp

variable {m : Mbuf} {v : IpVersion} {len : Nat}

/-- **Encapsulation in tunnel mode**: the packet becomes an ESP packet whose payload is the whole
    datagram, byte for byte in its place. -/
theorem preparePacketTunnel (h : CarriesIp m v len) (d : Dpdk) (ctx : CoreCtx) (ruleIdx : Nat)
    {rule : EncryptRule} {icv : Nat} (hrule : ctx.encryptRules[ruleIdx]? = some rule)
    (hicv : getIcvLenInt rule.saAttrs.icvLength = icv)
    (hhead : (tunnelVersion rule).minHdrLen + 16 ≤ m.first.mtod)
    (htail : m.first.mtod + (14 + len) + (padOf len + 2 + icv) ≤ m.first.bufLen.toNat) :
    ∃ ipId m', IpsecGw.preparePacketTunnel d ctx ruleIdx m =
        some (.success, ctx.prepared ruleIdx ipId, m') ∧
      m'.first.mtod + ((tunnelVersion rule).minHdrLen + 16) = m.first.mtod ∧
      (∀ i, m.first.mtod + 14 ≤ i → i < m.first.mtod + (14 + len) → m'.first.buf i = m.first.buf i) ∧
      ∀ metadata, EspFrame (m'.received (tunnelVersion rule) metadata) (tunnelVersion rule)
        (tunnelVersion rule).minHdrLen len (padOf len) icv (tunnelNextProto rule) := by
  have hbufLen := m.first.bufLen.toNat_lt
  have hpayload : ((m.cut (14 + len)).pktLen - ETHER_HDR_LEN).toNat = len := by
    simp only [Mbuf.cut, UInt32.toNat_sub, UInt32.toNat_ofNat', ETHER_HDR_LEN, UInt32.reduceToNat]
    omega
  have hesp : ((if rule.encapL3Type = .ip4 then 50 else 70 : UInt32) - ETHER_HDR_LEN).toNat =
      (tunnelVersion rule).minHdrLen + 16 := by
    unfold tunnelVersion
    split <;> rfl
  generalize hover : tunnelVersion rule = v' at *
  generalize he : v'.minHdrLen + 16 = e at *
  have hpad := padOf_lt len
  generalize htotal : 14 + len + e + (padOf len + 2 + icv) = total
  have hnh := Mbuf.framed_mtod (m := m) (e := e) total hhead
  obtain ⟨hdata, hpkt⟩ := m.framed_lengths e (show total < 65536 by omega)
  obtain ⟨ipId, hheader⟩ := tunnelHeader_eq d ctx rule (m.framed e total)
    (by rw [hover]; simp only [Mbuf.framed] at hnh ⊢; omega)
  have hwritten := tunnelBuffer_written d ctx rule m.first.buf (m.framed e total).first.mtod
    (m.framed e total).pktLen (by rw [hover]; omega) (by omega)
  rw [hover, hpkt] at hwritten
  have hprep := preparePacket_eq d ctx ruleIdx rule h.single hesp hhead hpayload (by omega) hicv
    htotal htail hheader
  refine ⟨ipId, _, Eq.trans ?_ hprep, hnh, ?_, ?_⟩
  · rw [IpsecGw.preparePacketTunnel, hrule, h.removeEthernetPadding d]
    rfl
  · intro i hlo hhi
    exact (trailerBuffer_before _ _ _ _ _ hhi).trans (hwritten.outside i (.inr (by omega)))
  · intro metadata
    have hstart : m.first.mtod + (14 + len) =
        (m.framed e total).first.mtod + (14 + v'.minHdrLen + 16 + len) := by omega
    rw [hstart]
    rw [show 30 + v'.minHdrLen = 14 + v'.minHdrLen + 16 by omega] at hwritten
    have hin : (m.framed e total).first.mtod + total ≤ m.first.bufLen.toNat := by omega
    exact hwritten.espFrame (m := Mbuf.received _ v' metadata) h.single rfl (by omega) hdata hpkt hin rfl

/-- **Encapsulation in transport mode**: the packet becomes an ESP packet whose payload is the
    datagram without its header; the header moves to the front, and only its protocol, length and
    checksum change. -/
theorem preparePacketTransport (h : CarriesIp m v len) (d : Dpdk) (ctx : CoreCtx) (ruleIdx : Nat)
    {rule : EncryptRule} {icv hdr p : Nat} (hrule : ctx.encryptRules[ruleIdx]? = some rule)
    (hicv : getIcvLenInt rule.saAttrs.icvLength = icv)
    (hhdr : v.hdrLen m.first.buf (m.first.mtod + 14) = hdr) (hlen : hdr + p = len)
    (hhead : 16 ≤ m.first.mtod)
    (htail : m.first.mtod + (14 + len) + (padOf p + 2 + icv) ≤ m.first.bufLen.toNat) :
    ∃ m', IpsecGw.preparePacketTransport d ctx ruleIdx false m =
        some (.success, ctx.prepared ruleIdx ctx.currentIpId, m') ∧
      m'.first.mtod + 16 = m.first.mtod ∧
      (∀ i, m.first.mtod + (14 + hdr) ≤ i → i < m.first.mtod + (14 + len) →
        m'.first.buf i = m.first.buf i) ∧
      (∀ j, j < 14 + hdr → (14 ≤ j → ¬ v.rewrites (j - 14)) →
        m'.first.buf (m'.first.mtod + j) = m.first.buf (m.first.mtod + j)) ∧
      ∀ metadata, EspFrame (m'.received v metadata) v hdr p (padOf p) icv
        (m.first.buf (m.first.mtod + 14 + v.protoAt)) := by
  have hbufLen := m.first.bufLen.toNat_lt
  have hminHdr := hhdr ▸ h.minHdr
  have hlow : v.minHdrLen ≤ hdr := hhdr ▸ IpVersion.minHdrLen_le h.minHdr
  have hl2l3 : (l2L3Len (m.cut (14 + len))).toNat = 14 + hdr := h.l2L3Len_toNat.trans (by omega)
  have hpayload : ((m.cut (14 + len)).pktLen - l2L3Len (m.cut (14 + len))).toNat = p := by
    rw [UInt32.toNat_sub, hl2l3]
    simp only [Mbuf.cut, toNat_ofNat']
    omega
  have hpad := padOf_lt p
  generalize htotal : 14 + len + 16 + (padOf p + 2 + icv) = total
  have hnh := Mbuf.framed_mtod (m := m) (e := 16) total hhead
  obtain ⟨hdata, hpkt⟩ := m.framed_lengths 16 (show total < 65536 by omega)
  have hin : (m.framed 16 total).first.mtod + total ≤ m.first.bufLen.toNat := by omega
  have hheader := transportHeader_eq d ctx rule false m.first.mtod (14 + hdr)
    (m := m.framed 16 total) (v := v) h.ptype (by omega)
    (by show (m.framed 16 total).first.mtod + (14 + hdr + 16) ≤ m.first.bufLen.toNat; omega)
  have hlenE := transportEncap_length rule ctx.config.swSnIncEnable false
  have hwritten := transportBuffer_written d m.first.buf (m.framed 16 total).first.mtod
    m.first.mtod (14 + hdr) (m.framed 16 total).pktLen hlenE h.etherType (by omega)
    (by omega) (by omega) (by omega)
  have hkept := @transportBuffer_kept d v
    (transportEncap rule ctx.config.swSnIncEnable false) false m.first.buf
    (m.framed 16 total).first.mtod m.first.mtod (14 + hdr) (m.framed 16 total).pktLen
  rw [show (m.framed 16 total).first.buf = m.first.buf from rfl] at hheader
  rw [hpkt] at hwritten
  -- from here on only what `hwritten` and `hkept` say about the written buffer is used
  generalize transportBuffer d v (transportEncap rule ctx.config.swSnIncEnable false) false
    m.first.buf (m.framed 16 total).first.mtod m.first.mtod (14 + hdr) (m.framed 16 total).pktLen = b
    at hheader hwritten hkept
  rw [← hl2l3] at hheader
  have hesp : (ofNat (transportLen false)).toNat = 16 := rfl
  have hprep := preparePacket_eq d ctx ruleIdx rule h.single hesp hhead hpayload (by omega) hicv
    htotal htail hheader
  refine ⟨_, Eq.trans ?_ hprep, hnh, ?_, ?_, ?_⟩
  · rw [IpsecGw.preparePacketTransport, hrule, h.removeEthernetPadding d]
    rfl
  · intro i hlo hhi
    exact (trailerBuffer_before _ _ _ _ _ hhi).trans (hwritten.outside i (.inr (by omega)))
  · intro j hj hw
    have hlt : (m.framed 16 total).first.mtod + j < m.first.mtod + (14 + len) := by omega
    exact (trailerBuffer_before _ _ _ _ _ hlt).trans (hkept j hj hw (.inl rfl))
  · intro metadata
    have hstart : m.first.mtod + (14 + len) =
        (m.framed 16 total).first.mtod + (14 + hdr + 16 + p) := by omega
    rw [hstart]
    exact hwritten.espFrame (m := Mbuf.received _ v metadata) h.single rfl (by omega) hdata hpkt hin rfl

end CarriesIp

end Doca.IpsecGw
