import Doca.IpsecGw.AntiReplay
import Doca.IpsecGw.Encap

/-!
# Software decapsulation

Model of `mbuf_get_seg_ofs`, `remove_packet_tail`, `decap_packet_tunnel`,
`decap_packet_transport`, `get_esp_sn` and `handle_secured_packets_received` (`flow_decrypt.c`).

As on the encapsulating side, a result is `none` only if an access leaves the chain of segments, a
write leaves the buffer of a segment, or the rule index the rule array.

Principal results: `EspFrame.removePacketTail` — integrity value, tail and padding of an
encapsulated packet are cut off; `EspFrame.decapPacketTunnel`, `EspFrame.decapPacketTransport` — the
packet that remains.
-/

namespace Doca.IpsecGw

open Doca.Lib UInt32 Option

/-! ## The functions of the source -/

/-- `sizeof(struct rte_esp_hdr)`, `sizeof(struct rte_udp_hdr)` and `iv_len`. -/
def ESP_HDR_LEN : UInt32 := 8
def UDP_HDR_LEN : UInt32 := 8
def IV_LEN : UInt32 := 8

def walkSegs : List Seg → Nat → UInt32 → Option (Nat × UInt32)
  | [], _, _ => none
  | s :: rest, k, offset =>
    if s.dataLen.toUInt32 ≤ offset then walkSegs rest (k + 1) (offset - s.dataLen.toUInt32)
    else some (k, offset)

def mbufGetSegOfs (m : Mbuf) (offset : UInt32) : Option (Except DocaError (Nat × UInt32)) :=
  if offset ≥ m.pktLen then some (.error .invalidValue)
  else (walkSegs (m.first :: m.rest) 0 offset).map .ok

variable (d : Dpdk)

/-- `remove_packet_tail`: the code, `next_proto` (meaningful on success) and the packet. -/
def removePacketTail (m : Mbuf) (icvLen : UInt32) : Option (DocaError × UInt8 × Mbuf) :=
  let m := removeEthernetPadding d m
  let trailerLen := icvLen + ESP_TAIL_LEN
  match mbufGetSegOfs m (m.pktLen - trailerLen) with
  | none => none
  | some (.error code) => some (code, 0, m)
  | some (.ok (k, segOffset)) => do
    let ml ← m.seg k
    let tail := ml.mtod + segOffset.toNat
    let padLen := (ml.buf tail).toUInt32
    some (.success, ml.buf (tail + 1),
      { m.setSeg k { ml with dataLen := (segOffset - padLen).toUInt16 } with
        pktLen := m.pktLen - (trailerLen + padLen) })

/-- The loop that copies headers downwards to a higher address of the same buffer. -/
def Seg.copyDown (s : Seg) (dst src n : Nat) : Option Seg :=
  if dst + n ≤ s.bufLen.toNat then some { s with buf := Lib.copyDown s.buf dst src n } else none

variable (ctx : CoreCtx) (ruleIdx : Nat)

variable (m : Mbuf)

def decapPacketTunnel :
    Option (DocaError × Mbuf) := do
  let rule ← ctx.decryptRules[ruleIdx]?
  let r ← removePacketTail d m (UInt32.ofNat (getIcvLenInt rule.saAttrs.icvLength))
  match r with
  | (.success, proto, m) =>
    let op := m.first.mtod
    match d.adj m (l3Len m + ESP_HDR_LEN + IV_LEN).toUInt16 with
    | none => some (.invalidValue, m)
    | some m => do
      let np := m.first.mtod
      let s ← m.first.copyDown np op 14
      let s ← s.write (np + 12) (be16 (if proto = IPPROTO_IPV6 then 0x86dd else 0x0800))
      some (.success, { m with first := s })
  | (code, _, m) => some (code, m)

/-- IP length, next protocol and IPv4 checksum of a packet whose IP header is still at `ip`. -/
def restoreIpHeader (ip : Nat) (proto : UInt8) : Option Seg :=
  if m.packetType.isIpv4Hdr then setIpv4Proto d m.first ip proto (m.pktLen - ETHER_HDR_LEN)
  else setIpv6Proto m.first ip proto (m.pktLen - ETHER_HDR_LEN - IPV6_HDR_LEN)

def decapPacketTransport (udpTransport : Bool)
    (m : Mbuf) : Option (DocaError × Mbuf) := do
  let rule ← ctx.decryptRules[ruleIdx]?
  let r ← removePacketTail d m (UInt32.ofNat (getIcvLenInt rule.saAttrs.icvLength))
  match r with
  | (.success, proto, m) =>
    let op := m.first.mtod
    let l2l3 := l2L3Len m
    let removed := if udpTransport then ESP_HDR_LEN + UDP_HDR_LEN + IV_LEN else ESP_HDR_LEN + IV_LEN
    match d.adj m removed.toUInt16 with
    | none => some (.invalidValue, m)
    | some m => do
      let s ← restoreIpHeader d m (op + 14) proto
      let s ← s.copyDown m.first.mtod op l2l3.toNat
      some (.success, { m with first := s })
  | (code, _, m) => some (code, m)

def getEspSn (mode : Mode) : UInt32 :=
  let l2l3 := if mode = .udpTransport then l2L3Len m + UDP_HDR_LEN else l2L3Len m
  UInt32.ofNat (readBe32 m.first.buf (m.first.mtod + l2l3.toNat + 4))

def decapPacket : Option (DocaError × Mbuf) :=
  match ctx.config.mode with
  | .transport => decapPacketTransport d ctx ruleIdx false m
  | .udpTransport => decapPacketTransport d ctx ruleIdx true m
  | .tunnel => decapPacketTunnel d ctx ruleIdx m

/-- The software replay check of one packet: the context with the rule's new state, and `drop`. -/
def checkReplay : Option (CoreCtx × Bool) :=
  if ctx.config.swAntireplay then do
    let rule ← ctx.decryptRules[ruleIdx]?
    let r := antiReplay (getEspSn m ctx.config.mode) rule.antireplayState
    some ({ ctx with
      decryptRules := ctx.decryptRules.set ruleIdx { rule with antireplayState := r.1 } }, r.2)
  else some (ctx, false)

def handleSecuredPacketsReceived (badSyndromeCheck : Bool) (m : Mbuf) :
    Option (DocaError × CoreCtx × Mbuf) :=
  let info := PktMeta.ofU32 m.metadata.toNat
  if badSyndromeCheck ∧ (info.decryptSyndrome ≠ 0 ∨ info.antireplaySyndrome ≠ 0) then
    some (.badState, ctx, m)
  else do
    let c ← checkReplay ctx info.ruleId m
    if c.2 then some (.badState, c.1, m)
    else do
      let r ← decapPacket d c.1 info.ruleId m
      some (r.1, c.1, r.2)

/-! ## The rule that a packet uses -/

theorem handleSecuredPacketsReceived_rule {ctx ctx' : CoreCtx} (check : Bool) (m : Mbuf)
    (hcfg : ctx.config = ctx'.config)
    (hrule : ctx.decryptRules[(PktMeta.ofU32 m.metadata.toNat).ruleId]? =
      ctx'.decryptRules[(PktMeta.ofU32 m.metadata.toNat).ruleId]?) :
    (handleSecuredPacketsReceived d ctx check m).map (fun r => (r.1, r.2.2)) =
      (handleSecuredPacketsReceived d ctx' check m).map (fun r => (r.1, r.2.2)) := by
  have hdecap : ∀ {i} {c c' : CoreCtx} (drop : Bool), c.config = c'.config →
      c.decryptRules[i]? = c'.decryptRules[i]? →
      (if drop then some (.badState, c, m) else
        (decapPacket d c i m).bind fun r => some (r.1, c, r.2)).map (fun r => (r.1, r.2.2)) =
      (if drop then some (.badState, c', m) else
        (decapPacket d c' i m).bind fun r => some (r.1, c', r.2)).map (fun r => (r.1, r.2.2)) := by
    intro i c c' drop hc hr
    have h : decapPacket d c i m = decapPacket d c' i m := by
      unfold decapPacket decapPacketTransport decapPacketTunnel
      rw [hc, hr]
    cases drop <;> cases hd : decapPacket d c' i m <;> simp [h, hd]
  unfold handleSecuredPacketsReceived checkReplay
  simp only [hcfg, hrule, bind_eq_bind]
  split
  · rfl
  · split
    · cases hget : ctx'.decryptRules[(PktMeta.ofU32 m.metadata.toNat).ruleId]? with
      | none => rfl
      | some rule =>
        refine hdecap _ rfl ?_
        rw [List.getElem?_set_self (List.getElem?_eq_some_iff.mp (hrule.trans hget)).1,
          List.getElem?_set_self (List.getElem?_eq_some_iff.mp hget).1]
    · exact hdecap false hcfg hrule

/-! ## Encapsulated packets -/

theorem checkReplay_eq {ctx : CoreCtx} {i : Nat} {rule : DecryptRule} (m : Mbuf)
    (hsw : ctx.config.swAntireplay = true) (hget : ctx.decryptRules[i]? = some rule) :
    checkReplay ctx i m = some
      ({ ctx with decryptRules := ctx.decryptRules.set i { rule with
          antireplayState := (antiReplay (getEspSn m ctx.config.mode) rule.antireplayState).1 } },
        (antiReplay (getEspSn m ctx.config.mode) rule.antireplayState).2) := by
  rw [checkReplay, if_pos hsw, hget]
  rfl

theorem Seg.copyDown_eq {s : Seg} {dst src n : Nat} (hle : src ≤ dst) (h : dst + n ≤ s.bufLen.toNat) :
    s.copyDown dst src n = some { s with buf := move s.buf dst src n } := by
  rw [Seg.copyDown, if_pos h, copyDown_eq_move _ _ _ _ hle]

def Mbuf.shrunk (e n : Nat) : Mbuf :=
  { m with
    first := { m.first with
      dataOff := m.first.dataOff + UInt16.ofNat e
      dataLen := UInt16.ofNat n }
    pktLen := UInt32.ofNat n }

variable {m : Mbuf}

theorem Mbuf.shrunk_mtod {e : Nat} (n : Nat) (h : m.first.mtod + e < 65536) :
    (m.shrunk e n).first.mtod = m.first.mtod + e := by
  simp only [Mbuf.shrunk, Seg.mtod, UInt16.toNat_add, UInt16.toNat_ofNat'] at h ⊢
  omega

theorem adj_cut {len : UInt32} {e n : Nat} (he : len.toNat = e) (hlt : e + n < 65536) :
    d.adj (m.cut (e + n)) len.toUInt16 = some (m.shrunk e n) := by
  have he16 : len.toUInt16 = UInt16.ofNat e := by
    rw [← UInt16.toNat_inj, toNat_toUInt16, UInt16.toNat_ofNat', he]
  have hle : UInt16.ofNat e ≤ (m.cut (e + n)).first.dataLen := by
    simp only [Mbuf.cut, UInt16.le_iff_toNat_le, UInt16.toNat_ofNat']
    omega
  rw [he16, d.adj_eq, if_pos hle]
  simp only [Mbuf.cut, Mbuf.shrunk, some.injEq, Mbuf.mk.injEq, Seg.mk.injEq, true_and,
    and_true, ← UInt16.toNat_inj, ← UInt32.toNat_inj, UInt16.toNat_sub, UInt32.toNat_sub,
    UInt16.toNat_toUInt32, UInt16.toNat_ofNat', UInt32.toNat_ofNat']
  omega

theorem restoreIpHeader_eq {v : IpVersion} (ip : Nat) (proto : UInt8)
    (hp : m.packetType = v.packetType) (hbuf : ip + v.minHdrLen ≤ m.first.bufLen.toNat) :
    restoreIpHeader d m ip proto =
      some { m.first with buf := v.setProto d m.first.buf ip proto (v.totalOf m.pktLen) } := by
  cases v with
  | v4 =>
    simp only [IpVersion.minHdrLen] at hbuf
    simp only [restoreIpHeader, hp, IpVersion.packetType, if_true]
    exact setIpv4Proto_eq _ _ _ _ _ (by omega)
  | v6 =>
    simp only [IpVersion.minHdrLen] at hbuf
    simp only [restoreIpHeader, hp, IpVersion.packetType, Bool.false_eq_true, if_false]
    exact setIpv6Proto_eq d _ _ _ _ (by omega)

namespace EspFrame

variable {m : Mbuf} {v : IpVersion} {hdr p pad icv : Nat} {next : UInt8}

section

variable (h : EspFrame m v hdr p pad icv next)

include h

theorem total_lt : 14 + (hdr + 16 + p + pad + 2 + icv) < 65536 := h.carries.len_lt

theorem removeEthernetPadding : IpsecGw.removeEthernetPadding d m = m := by
  rw [h.carries.removeEthernetPadding d, h.carries.cut_self h.exact]

theorem mbufGetSegOfs {offset : UInt32} (hoff : offset.toNat < m.first.dataLen.toNat) :
    IpsecGw.mbufGetSegOfs m offset = some (.ok (0, offset)) := by
  have hpkt := h.carries.pktLen
  have hlt : ¬ offset ≥ m.pktLen := by
    rw [ge_iff_le, le_iff_toNat_le]
    omega
  have hseg : ¬ m.first.dataLen.toUInt32 ≤ offset := by
    rw [le_iff_toNat_le, UInt16.toNat_toUInt32]
    omega
  rw [IpsecGw.mbufGetSegOfs, if_neg hlt, walkSegs, if_neg hseg]
  rfl

/-- **Integrity value, tail and padding of an encapsulated packet are cut off.** -/
theorem removePacketTail {icvLen : UInt32} (hicv : icvLen.toNat = icv) :
    IpsecGw.removePacketTail d m icvLen = some (.success, next, m.cut (14 + hdr + 16 + p)) := by
  have hlt := h.total_lt
  have hexact := h.exact
  have hpkt := h.carries.pktLen
  have hpadLt : pad < 256 := h.padLen ▸ (m.first.buf _).toNat_lt
  have hoff : (m.pktLen - (icvLen + ESP_TAIL_LEN)).toNat = 14 + hdr + 16 + p + pad := by
    rw [UInt32.toNat_sub, UInt32.toNat_add, hpkt, hicv, ESP_TAIL_LEN]
    simp only [reduceToNat]
    omega
  have hfind := h.mbufGetSegOfs (show (m.pktLen - (icvLen + ESP_TAIL_LEN)).toNat < _ by omega)
  have hpadLen : (m.first.buf (m.first.mtod +
      (m.pktLen - (icvLen + ESP_TAIL_LEN)).toNat)).toNat = pad := by rw [hoff]; exact h.padLen
  have hnext : m.first.buf (m.first.mtod +
      (m.pktLen - (icvLen + ESP_TAIL_LEN)).toNat + 1) = next := by rw [hoff]; exact h.nextProto
  simp only [IpsecGw.removePacketTail, h.removeEthernetPadding d, hfind, Mbuf.seg,
    List.getElem?_cons_zero, bind_eq_bind, bind_some, hnext]
  simp only [Mbuf.setSeg, Mbuf.cut, some.injEq, Prod.mk.injEq, Mbuf.mk.injEq, Seg.mk.injEq,
    true_and, and_true, ← UInt16.toNat_inj, ← UInt32.toNat_inj, UInt32.toNat_toUInt16,
    UInt16.toNat_ofNat', toNat_ofNat']
  constructor
  · rw [UInt32.toNat_sub, UInt8.toNat_toUInt32, hpadLen, hoff]
    omega
  · rw [UInt32.toNat_sub, UInt32.toNat_add, UInt32.toNat_add, UInt8.toNat_toUInt32, hpadLen, hpkt,
      hicv, ESP_TAIL_LEN]
    simp only [reduceToNat]
    omega

theorem l2L3Len_toNat : (l2L3Len m).toNat = 14 + hdr := by
  rw [h.carries.l2L3Len_toNat, h.hdrLen]

end

variable {rule : DecryptRule}

theorem icvLen_toNat (hicv : getIcvLenInt rule.saAttrs.icvLength = icv) :
    (ofNat (getIcvLenInt rule.saAttrs.icvLength)).toNat = icv := by
  have := getIcvLenInt_le rule.saAttrs.icvLength
  rw [toNat_ofNat', hicv]
  omega

section

variable (h : EspFrame m v hdr p pad icv next)

include h

theorem mtod_lt : m.first.mtod + (14 + (hdr + 16 + p + pad + 2 + icv)) < 65536 := by
  have hin := h.carries.inBuf
  have hexact := h.exact
  have hlen := m.first.bufLen.toNat_lt
  omega

/-- **Decapsulation in tunnel mode** removes the outer IP and ESP headers and moves the Ethernet
    header, with the type of the inner packet, in front of the payload. -/
theorem decapPacketTunnel (hrule : ctx.decryptRules[ruleIdx]? = some rule)
    (hicv : getIcvLenInt rule.saAttrs.icvLength = icv) :
    IpsecGw.decapPacketTunnel d ctx ruleIdx m = some (.success, (m.shrunk (hdr + 16) (14 + p)).withBuf
        (store (move m.first.buf (m.first.mtod + (hdr + 16)) m.first.mtod 14)
          (m.first.mtod + (hdr + 16) + 12)
          (be16 (if next = IPPROTO_IPV6 then 0x86dd else 0x0800)))) := by
  have hlt := h.total_lt
  have hroom := h.mtod_lt
  have hin := h.carries.inBuf
  have hexact := h.exact
  have hl3 : (l3Len (m.cut (14 + hdr + 16 + p)) + ESP_HDR_LEN + IV_LEN).toNat = hdr + 16 := by
    have hl : (l3Len (m.cut (14 + hdr + 16 + p))).toNat = hdr :=
      h.carries.l3Len_toNat.trans h.hdrLen
    rw [UInt32.toNat_add, UInt32.toNat_add, hl, ESP_HDR_LEN, IV_LEN]
    simp only [reduceToNat]
    omega
  have hsum : hdr + 16 + (14 + p) = 14 + hdr + 16 + p := by omega
  have hadj := adj_cut d (m := m) hl3 (n := 14 + p) (by omega)
  rw [hsum] at hadj
  have hnp := m.shrunk_mtod (e := hdr + 16) (14 + p) (by omega)
  have hle : m.first.mtod ≤ m.first.mtod + (hdr + 16) := by omega
  have hcopy := Seg.copyDown_eq (s := (m.shrunk (hdr + 16) (14 + p)).first) (n := 14) hle
    (by simp only [Mbuf.shrunk]; omega)
  have hmtod : (m.cut (14 + hdr + 16 + p)).first.mtod = m.first.mtod := rfl
  simp only [IpsecGw.decapPacketTunnel, hrule, bind_eq_bind, bind_some,
    h.removePacketTail d (icvLen_toNat hicv), hadj, hnp, hmtod, hcopy]
  rw [Seg.write_be16_eq (by simp only [Mbuf.shrunk]; omega)]
  rfl

/-- **Decapsulation in transport mode** removes the ESP header and moves the L2 and L3 headers,
    with the protocol and the length of the original packet, in front of the payload. -/
theorem decapPacketTransport (hrule : ctx.decryptRules[ruleIdx]? = some rule)
    (hicv : getIcvLenInt rule.saAttrs.icvLength = icv) :
    IpsecGw.decapPacketTransport d ctx ruleIdx false m =
      some (.success, (m.shrunk 16 (14 + hdr + p)).withBuf
        (move (v.setProto d m.first.buf (m.first.mtod + 14) next (hdr + p))
          (m.first.mtod + 16) m.first.mtod (14 + hdr))) := by
  have hlt := h.total_lt
  have hroom := h.mtod_lt
  have hin := h.carries.inBuf
  have hexact := h.exact
  have hlow : v.minHdrLen ≤ hdr := h.hdrLen ▸ IpVersion.minHdrLen_le h.carries.minHdr
  have hlen : (ESP_HDR_LEN + IV_LEN).toNat = 16 := rfl
  have hadj := adj_cut d (m := m) hlen (n := 14 + hdr + p) (by omega)
  have hsum : 16 + (14 + hdr + p) = 14 + hdr + 16 + p := by omega
  rw [hsum] at hadj
  have hnp := m.shrunk_mtod (e := 16) (14 + hdr + p) (by omega)
  have hpkt : (m.shrunk 16 (14 + hdr + p)).pktLen.toNat = 14 + hdr + p := by
    simp only [Mbuf.shrunk, toNat_ofNat']
    omega
  have htotal : v.totalOf (m.shrunk 16 (14 + hdr + p)).pktLen = hdr + p := by
    rw [v.totalOf_eq (by omega), hpkt]
    omega
  have hset := restoreIpHeader_eq d (m := m.shrunk 16 (14 + hdr + p)) (m.first.mtod + 14) next
    h.carries.ptype (by simp only [Mbuf.shrunk]; omega)
  rw [htotal] at hset
  have hmtod : (m.cut (14 + hdr + 16 + p)).first.mtod = m.first.mtod := rfl
  have hl2l3 : (l2L3Len (m.cut (14 + hdr + 16 + p))).toNat = 14 + hdr := h.l2L3Len_toNat
  simp only [IpsecGw.decapPacketTransport, hrule, bind_eq_bind, bind_some,
    h.removePacketTail d (icvLen_toNat hicv), Bool.false_eq_true, if_false, hadj, hmtod, hset, hnp,
    hl2l3]
  rw [Seg.copyDown_eq (by omega) (by simp only [Mbuf.shrunk]; omega)]
  rfl

end

end EspFrame

end Doca.IpsecGw
