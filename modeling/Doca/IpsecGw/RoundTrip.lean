import Doca.IpsecGw.Decap

/-!
# Encapsulation and decapsulation are inverse

Two gateways with matching rules: the packet that `handle_unsecured_packets_received` prepares is
handed to `handle_secured_packets_received`, with the payload as it was sent and the packet type of
its outer header.

* `setProto_restores`, `setProto_cksum` — adapting an IP header twice gives the first header back,
  with a fresh checksum.

Principal result: `encap_decap_restores` — for every frame that carries an IPv4 or IPv6 datagram, in
tunnel mode and in transport mode.
-/

namespace Doca.IpsecGw

open Doca.Lib Nat

/-! ## Adapting a header back -/

section Header

variable {v : IpVersion} {b c : Nat → UInt8} {ip ip' hdr total : Nat}

theorem setProto_restores (d : Dpdk) (hsame : ∀ k, k < hdr → ¬ v.rewrites k → b (ip + k) = c (ip' + k))
    (hlen : v.announced c ip' = total) (hmin : v.minHdrLen ≤ total) (hlt : total < 65536)
    (k : Nat) (hk : k < hdr) (hck : ¬ (v = .v4 ∧ (k = 10 ∨ k = 11))) :
    v.setProto d b ip (c (ip' + v.protoAt)) total (ip + k) = c (ip' + k) := by
  have hproto := v.setProto_proto d b ip (c (ip' + v.protoAt)) total
  have hset := (v.setProto_announced d b ip (c (ip' + v.protoAt)) total hmin hlt).trans hlen.symm
  rcases Classical.em (v.rewrites k) with hw | hw
  · cases v with
    | v4 =>
      obtain ⟨hhi, hlo⟩ := bytes_of_readBe16_eq hset
      rcases hw with rfl | rfl | rfl | rfl | rfl
      · exact hhi
      · exact hlo
      · exact hproto
      · exact absurd ⟨rfl, .inl rfl⟩ hck
      · exact absurd ⟨rfl, .inr rfl⟩ hck
    | v6 =>
      obtain ⟨hhi, hlo⟩ := bytes_of_readBe16_eq (add_right_cancel hset)
      rcases hw with rfl | rfl | rfl
      · exact hhi
      · exact hlo
      · exact hproto
  · rw [v.setProto_other _ _ _ _ _ _ hw, hsame k hk hw]

theorem setProto_cksum (d : Dpdk)
    (hsame : ∀ k, k < hdr → ¬ IpVersion.v4.rewrites k → b (ip + k) = c (ip' + k))
    (hlen : IpVersion.v4.announced c ip' = total) (hmin : 20 ≤ total) (hlt : total < 65536)
    (hhdr : (c ip').toNat % 16 * 4 = hdr) (hlow : 20 ≤ hdr) :
    readBe16 (IpVersion.v4.setProto d b ip (c (ip' + 9)) total) (ip + 10) =
      cksumOf d (store c (ip' + 10) (be16 0)) ip' := by
  have hfirst : b ip = c ip' := hsame 0 (by omega) IpVersion.v4.not_rewrites_zero
  have hcleared : ∀ k < hdr, clearedIpv4 (store b (ip + 9) [c (ip' + 9)]) ip total (ip + k) =
      store c (ip' + 10) (be16 0) (ip' + k) := by
    intro k hk
    have hz := store_be16_bytes (store (store b (ip + 9) [c (ip' + 9)]) (ip + 2) (be16 total)) (ip + 10) 0
    have hz' := store_be16_bytes c (ip' + 10) 0
    rcases Decidable.em (k = 10 ∨ k = 11) with hck | hck
    · rcases hck with rfl | rfl
      · exact hz.1.trans hz'.1.symm
      · exact hz.2.trans hz'.2.symm
    · have hrest := setProto_restores d hsame hlen hmin hlt k hk (fun h => hck h.2)
      rw [store_be16_other (by omega), ← hrest]
      exact (store_be16_other (by omega)).symm
  have hlen0 : (clearedIpv4 (store b (ip + 9) [c (ip' + 9)]) ip total ip).toNat % 16 * 4 = hdr := by
    rw [clearedIpv4_first, store_byte_other (by omega), hfirst, hhdr]
  have hlen0' : (store c (ip' + 10) (be16 0) ip').toNat % 16 * 4 = hdr := by
    rw [store_be16_other (by omega), hhdr]
  have hread := readBe16_store (clearedIpv4 (store b (ip + 9) [c (ip' + 9)]) ip total) (ip + 10)
    (cksumOf d (clearedIpv4 (store b (ip + 9) [c (ip' + 9)]) ip total) ip)
  refine hread.trans ?_
  rw [cksumOf, cksumOf, hlen0, hlen0', load_congr hcleared]
  exact mod_eq_of_lt (UInt16.toNat_lt _)

end Header

/-! ## The two gateways -/

variable (mode : Mode)

def outerVersion (rule : EncryptRule) (v : IpVersion) : IpVersion :=
  if mode = .tunnel then tunnelVersion rule else v

def bytesInFront (rule : EncryptRule) : Nat :=
  if mode = .tunnel then (tunnelVersion rule).minHdrLen + 16 else 16

def payloadOf (hdr len : Nat) : Nat := if mode = .tunnel then len else len - hdr

/-- An encrypting and a decrypting gateway with matching rules for packets of IP version `v` with the
    metadata `txMeta` and `rxMeta`: the same mode, other than UDP transport, the same integrity value, no
    software replay check. -/
structure Matching (tx rx : CoreCtx) (er : EncryptRule) (dr : DecryptRule) (txMeta rxMeta : UInt32)
    (v : IpVersion) : Prop where
  mode : rx.config.mode = tx.config.mode
  notUdp : tx.config.mode ≠ .udpTransport
  encryptRule : tx.encryptRules[(PktMeta.ofU32 txMeta.toNat).ruleId]? = some er
  decryptRule : rx.decryptRules[(PktMeta.ofU32 rxMeta.toNat).ruleId]? = some dr
  icv : getIcvLenInt dr.saAttrs.icvLength = getIcvLenInt er.saAttrs.icvLength
  l3Type : er.l3Type = .ip4 ↔ v = .v4
  noReplay : rx.config.swAntireplay = false
  noSyndrome : (PktMeta.ofU32 rxMeta.toNat).decryptSyndrome = 0 ∧
    (PktMeta.ofU32 rxMeta.toNat).antireplaySyndrome = 0

/-- `m'` is the frame `m` without Ethernet padding: one segment with the Ethernet type of the datagram
    and its `len` bytes. In transport mode the checksum of an IPv4 header is computed anew. -/
structure Restored (d : Dpdk) (mode : Mode) (v : IpVersion) (len : Nat) (m m' : Mbuf) : Prop where
  single : m'.rest = []
  dataLen : m'.first.dataLen.toNat = 14 + len
  pktLen : m'.pktLen.toNat = 14 + len
  etherType : readBe16 m'.first.buf (m'.first.mtod + 12) = v.etherType
  bytes : ∀ k < len, ¬ (mode = .transport ∧ v = .v4 ∧ (k = 10 ∨ k = 11)) →
    m'.first.buf (m'.first.mtod + 14 + k) = m.first.buf (m.first.mtod + 14 + k)
  cksum : mode = .transport → v = .v4 → readBe16 m'.first.buf (m'.first.mtod + 14 + 10) =
        cksumOf d (store m.first.buf (m.first.mtod + 14 + 10) (be16 0)) (m.first.mtod + 14) ∧
      ChecksumValid (load m'.first.buf (m'.first.mtod + 14) (v.hdrLen m.first.buf (m.first.mtod + 14)))

theorem handleSecured_of_decap {d : Dpdk} {ctx : CoreCtx} {m m' : Mbuf} (badSyndromeCheck : Bool)
    (hreplay : ctx.config.swAntireplay = false)
    (hsyn : (PktMeta.ofU32 m.metadata.toNat).decryptSyndrome = 0 ∧
      (PktMeta.ofU32 m.metadata.toNat).antireplaySyndrome = 0)
    (hdec : decapPacket d ctx (PktMeta.ofU32 m.metadata.toNat).ruleId m = some (.success, m')) :
    handleSecuredPacketsReceived d ctx badSyndromeCheck m = some (.success, ctx, m') := by
  have hbad : ¬ (badSyndromeCheck ∧ ((PktMeta.ofU32 m.metadata.toNat).decryptSyndrome ≠ 0 ∨
      (PktMeta.ofU32 m.metadata.toNat).antireplaySyndrome ≠ 0)) := by
    rintro ⟨-, h | h⟩
    · exact h hsyn.1
    · exact h hsyn.2
  simp only [handleSecuredPacketsReceived, if_neg hbad, checkReplay, hreplay, Bool.false_eq_true,
    if_false, Option.bind_eq_bind, Option.bind_some, hdec]

theorem Mbuf.shrunk_lengths {m : Mbuf} {e n : Nat} (h : n < 65536) :
    (m.shrunk e n).first.dataLen.toNat = n ∧ (m.shrunk e n).pktLen.toNat = n := by
  simp only [Mbuf.shrunk, UInt16.toNat_ofNat', UInt32.toNat_ofNat']
  omega

section Restoring

variable {m m' m2 : Mbuf} {v v' : IpVersion} {len hdr p pad icv : Nat} {next : UInt8}

theorem restored_tunnel (d : Dpdk) (h : CarriesIp m v len) (hesp : EspFrame m' v' hdr len pad icv next)
    (hmtod : m'.first.mtod + (hdr + 16) = m.first.mtod)
    (hkept : ∀ i, m.first.mtod + 14 ≤ i → i < m.first.mtod + (14 + len) → m'.first.buf i = m.first.buf i)
    (htype : (if next = IPPROTO_IPV6 then 0x86dd else 0x0800) = v.etherType)
    (hm2 : m2 = (m'.shrunk (hdr + 16) (14 + len)).withBuf
      (store (move m'.first.buf (m'.first.mtod + (hdr + 16)) m'.first.mtod 14)
        (m'.first.mtod + (hdr + 16) + 12)
        (be16 (if next = IPPROTO_IPV6 then 0x86dd else 0x0800)))) :
    Restored d .tunnel v len m m2 := by
  have hroom := hesp.mtod_lt
  have hnp : m2.first.mtod = m.first.mtod := by
    rw [hm2]
    exact (m'.shrunk_mtod (14 + len) (by omega)).trans hmtod
  have hbuf : m2.first.buf = store (move m'.first.buf m.first.mtod m'.first.mtod 14)
      (m.first.mtod + 12) (be16 v.etherType) := by
    rw [hm2, hmtod, htype]
    rfl
  obtain ⟨hdata, hpkt⟩ := m'.shrunk_lengths (e := hdr + 16) h.len_lt
  refine ⟨hm2 ▸ hesp.carries.single, hm2 ▸ hdata, hm2 ▸ hpkt, ?_, ?_, ?_⟩
  · rw [hnp, hbuf, readBe16_store]
    cases v <;> rfl
  · intro k hk _
    rw [hnp, hbuf, store_be16_other (by omega), move_outside (by omega)]
    exact hkept _ (by omega) (by omega)
  · intro hmode
    cases hmode

theorem restored_transport (d : Dpdk) (h : CarriesIp m v len)
    (hesp : EspFrame m' v hdr p pad icv (m.first.buf (m.first.mtod + 14 + v.protoAt)))
    (hhdr : v.hdrLen m.first.buf (m.first.mtod + 14) = hdr) (hlen : hdr + p = len)
    (hmtod : m'.first.mtod + 16 = m.first.mtod)
    (hkept : ∀ i, m.first.mtod + (14 + hdr) ≤ i → i < m.first.mtod + (14 + len) →
      m'.first.buf i = m.first.buf i)
    (hhead : ∀ j, j < 14 + hdr → (14 ≤ j → ¬ v.rewrites (j - 14)) →
      m'.first.buf (m'.first.mtod + j) = m.first.buf (m.first.mtod + j))
    (hm2 : m2 = (m'.shrunk 16 (14 + hdr + p)).withBuf (move (v.setProto d m'.first.buf (m'.first.mtod + 14)
        (m.first.buf (m.first.mtod + 14 + v.protoAt)) (hdr + p))
        (m'.first.mtod + 16) m'.first.mtod (14 + hdr))) :
    Restored d .transport v len m m2 := by
  have hroom := hesp.mtod_lt
  have hlow : v.minHdrLen ≤ hdr := hhdr ▸ IpVersion.minHdrLen_le h.minHdr
  have hlt := h.len_lt
  have hnp : m2.first.mtod = m.first.mtod := by
    rw [hm2]
    exact (m'.shrunk_mtod (14 + hdr + p) (by omega)).trans hmtod
  obtain ⟨hdata, hpkt⟩ := m'.shrunk_lengths (e := 16) (n := 14 + hdr + p) (by omega)
  have hsame : ∀ k, k < hdr → ¬ v.rewrites k →
      m'.first.buf (m'.first.mtod + 14 + k) = m.first.buf (m.first.mtod + 14 + k) := by
    intro k hk hw
    rw [add_assoc, add_assoc]
    exact hhead (14 + k) (by omega) (fun _ => by rwa [Nat.add_sub_cancel_left])
  have hlength : v.announced m.first.buf (m.first.mtod + 14) = hdr + p := h.length.trans hlen.symm
  have hrest := setProto_restores d hsame hlength (by omega) (by omega)
  -- the header that was adapted at the old start and then moved
  have hmoved : ∀ j, j < 14 + hdr → m2.first.buf (m.first.mtod + j) =
      v.setProto d m'.first.buf (m'.first.mtod + 14)
        (m.first.buf (m.first.mtod + 14 + v.protoAt)) (hdr + p) (m'.first.mtod + j) := by
    intro j hj
    rw [hm2, ← hmtod]
    exact move_inside hj
  have hbehind : ∀ i, m.first.mtod + (14 + hdr) ≤ i → m2.first.buf i = m'.first.buf i := by
    intro i hi
    obtain ⟨k, rfl⟩ := Nat.exists_eq_add_of_le (show m'.first.mtod + 14 ≤ i by omega)
    rw [hm2]
    exact (move_outside (by omega)).trans (v.setProto_other _ _ _ _ _ _
      (fun hw => absurd (v.rewrites_lt hw) (by omega)))
  rw [hlen.symm] at *
  refine ⟨hm2 ▸ hesp.carries.single, ?_, ?_, ?_, ?_, ?_⟩
  · rw [hm2, ← add_assoc]
    exact hdata
  · rw [hm2, ← add_assoc]
    exact hpkt
  · rw [hnp, ← h.etherType]
    apply readBe16_congr
    · rw [hmoved 12 (by omega), v.setProto_before _ _ _ _ _ _ (by omega)]
      exact hhead 12 (by omega) (by omega)
    · rw [add_assoc, hmoved 13 (by omega), v.setProto_before _ _ _ _ _ _ (by omega)]
      exact hhead 13 (by omega) (by omega)
  · intro k hk hck
    rw [hnp]
    rcases lt_or_ge k hdr with hin | hout
    · rw [add_assoc, hmoved (14 + k) (by omega), ← add_assoc, ← add_assoc]
      exact hrest k hin (fun hv => hck ⟨rfl, hv.1, hv.2⟩)
    · rw [hbehind _ (by omega)]
      exact hkept _ (by omega) (by omega)
  · rintro - rfl
    simp only [IpVersion.minHdrLen] at hlow
    have hfirst : m'.first.buf (m'.first.mtod + 14) = m.first.buf (m.first.mtod + 14) :=
      hsame 0 (by omega) IpVersion.v4.not_rewrites_zero
    have hihl : (m.first.buf (m.first.mtod + 14)).toNat % 16 * 4 = hdr := hhdr
    rw [hnp, hhdr]
    constructor
    · rw [← setProto_cksum d hsame hlength (by omega) (by omega) hhdr (by omega)]
      exact readBe16_congr (hmoved 24 (by omega)) (hmoved 25 (by omega))
    · have hvalid := stampIpv4_valid d (store m'.first.buf (m'.first.mtod + 14 + 9)
        [m.first.buf (m.first.mtod + 14 + 9)]) (m'.first.mtod + 14) (hdr + p)
      rw [store_byte_other (by omega), hfirst, hihl] at hvalid
      refine (congrArg ChecksumValid (load_congr ?_)).mpr (hvalid hlow)
      intro k hk
      rw [add_assoc, hmoved (14 + k) (by omega), ← add_assoc]
      rfl

end Restoring

/-- If the frame carried the checksum that `rte_ipv4_cksum` computes, every byte comes back. -/
theorem Restored.all_bytes {d : Dpdk} {mode : Mode} {v : IpVersion} {len : Nat} {m m' : Mbuf}
    (h : Restored d mode v len m m')
    (hck : mode = .transport → v = .v4 → readBe16 m.first.buf (m.first.mtod + 14 + 10) =
      cksumOf d (store m.first.buf (m.first.mtod + 14 + 10) (be16 0)) (m.first.mtod + 14)) :
    ∀ k < len, m'.first.buf (m'.first.mtod + 14 + k) = m.first.buf (m.first.mtod + 14 + k) := by
  intro k hk
  rcases Decidable.em (mode = .transport ∧ v = .v4 ∧ (k = 10 ∨ k = 11)) with hc | hc
  · obtain ⟨hm, hv, hk⟩ := hc
    obtain ⟨hhi, hlo⟩ := bytes_of_readBe16_eq ((h.cksum hm hv).1.trans (hck hm hv).symm)
    rcases hk with rfl | rfl
    · exact hhi
    · exact hlo
  · exact h.bytes k hk hc

theorem EspFrame.announced_eq {m : Mbuf} {v : IpVersion} {hdr p pad icv : Nat} {next : UInt8}
    (h : EspFrame m v hdr p pad icv next) :
    v.announced m.first.buf (m.first.mtod + 14) + 14 = m.pktLen.toNat := by
  have hexact := h.exact
  have hpkt := h.carries.pktLen
  have hlength := h.carries.length
  omega

theorem tunnelNextProto_etherType {rule : EncryptRule} {v : IpVersion} (h : rule.l3Type = .ip4 ↔ v = .v4) :
    (if tunnelNextProto rule = IPPROTO_IPV6 then 0x86dd else 0x0800) = v.etherType := by
  unfold tunnelNextProto
  cases v with
  | v4 => rw [if_pos (h.mpr rfl)]; rfl
  | v6 => rw [if_neg (fun h4 => nomatch h.mp h4)]; rfl

/-- The two handlers in each mode, before the replay check of the receiver is taken into
    account. -/
theorem roundTrip_modes (d : Dpdk) (tx rx : CoreCtx) (er : EncryptRule) (dr : DecryptRule)
    (m : Mbuf) (v : IpVersion) (len : Nat) (rxMeta : UInt32)
    (hframe : CarriesIp m v len) (hpeers : Matching tx rx er dr m.metadata rxMeta v)
    (hhead : bytesInFront tx.config.mode er ≤ m.first.mtod)
    (htail : m.first.mtod + (14 + len) +
      (padOf (payloadOf tx.config.mode (v.hdrLen m.first.buf (m.first.mtod + 14)) len) + 2 +
        getIcvLenInt er.saAttrs.icvLength) ≤ m.first.bufLen.toNat) :
    ∃ tx' m1 m2 hdr p next, handleUnsecuredPacketsReceived d tx m = some (.success, tx', m1) ∧
      EspFrame (m1.received (outerVersion tx.config.mode er v) rxMeta)
        (outerVersion tx.config.mode er v) hdr p (padOf p) (getIcvLenInt er.saAttrs.icvLength)
        next ∧
      decapPacket d rx (PktMeta.ofU32 rxMeta.toNat).ruleId
        (m1.received (outerVersion tx.config.mode er v) rxMeta) = some (.success, m2) ∧
      Restored d tx.config.mode v len m m2 := by
  have hmode := hpeers.mode
  cases htx : tx.config.mode with
  | tunnel =>
    simp only [htx, bytesInFront, payloadOf, if_true] at hhead htail hmode
    simp only [outerVersion, if_true]
    obtain ⟨ipId, m1, hprep, hmtod, hkept, hesp⟩ :=
      hframe.preparePacketTunnel d tx _ hpeers.encryptRule rfl hhead htail
    have hdec := (hesp rxMeta).decapPacketTunnel d rx _ hpeers.decryptRule hpeers.icv
    refine ⟨tx.prepared (PktMeta.ofU32 m.metadata.toNat).ruleId ipId, m1, _, _, _, _, ?_,
      hesp rxMeta, ?_, restored_tunnel d hframe (hesp rxMeta) hmtod hkept
        (tunnelNextProto_etherType hpeers.l3Type) rfl⟩
    · simp only [handleUnsecuredPacketsReceived, htx]
      exact hprep
    · simp only [decapPacket, hmode]
      exact hdec
  | transport =>
    simp only [htx, bytesInFront, payloadOf, reduceCtorEq, if_false] at hhead htail hmode
    simp only [outerVersion, reduceCtorEq, if_false]
    have hhdr := hframe.header
    obtain ⟨m1, hprep, hmtod, hkept, hmoved, hesp⟩ :=
      hframe.preparePacketTransport d tx _ hpeers.encryptRule rfl rfl
        (Nat.add_sub_cancel' hhdr) hhead htail
    have hdec := (hesp rxMeta).decapPacketTransport d rx _ hpeers.decryptRule hpeers.icv
    refine ⟨tx.prepared (PktMeta.ofU32 m.metadata.toNat).ruleId tx.currentIpId, m1, _, _, _, _, ?_,
      hesp rxMeta, ?_, restored_transport d hframe (hesp rxMeta) rfl
        (Nat.add_sub_cancel' hhdr) hmtod hkept hmoved rfl⟩
    · simp only [handleUnsecuredPacketsReceived, htx]
      exact hprep
    · simp only [decapPacket, hmode]
      exact hdec
  | udpTransport => exact absurd htx hpeers.notUdp

/-- **Encapsulation and decapsulation are inverse** between gateways with matching rules, by way of a
    well-formed ESP packet. -/
theorem encap_decap_restores (d : Dpdk) (tx rx : CoreCtx) (er : EncryptRule) (dr : DecryptRule)
    (m : Mbuf) (v : IpVersion) (len : Nat) (rxMeta : UInt32) (badSyndromeCheck : Bool)
    (hframe : CarriesIp m v len) (hpeers : Matching tx rx er dr m.metadata rxMeta v)
    (hhead : bytesInFront tx.config.mode er ≤ m.first.mtod)
    (htail : m.first.mtod + (14 + len) +
      (padOf (payloadOf tx.config.mode (v.hdrLen m.first.buf (m.first.mtod + 14)) len) + 2 +
        getIcvLenInt er.saAttrs.icvLength) ≤ m.first.bufLen.toNat) :
    ∃ tx' m1 m2 hdr p pad next, handleUnsecuredPacketsReceived d tx m = some (.success, tx', m1) ∧
      EspFrame (m1.received (outerVersion tx.config.mode er v) rxMeta)
        (outerVersion tx.config.mode er v) hdr p pad (getIcvLenInt er.saAttrs.icvLength) next ∧
      (outerVersion tx.config.mode er v).announced m1.first.buf (m1.first.mtod + 14) + 14 =
        m1.pktLen.toNat ∧
      (p + pad + 2) % 4 = 0 ∧
      handleSecuredPacketsReceived d rx badSyndromeCheck
        (m1.received (outerVersion tx.config.mode er v) rxMeta) = some (.success, rx, m2) ∧
      Restored d tx.config.mode v len m m2 ∧
      ((tx.config.mode = .transport → v = .v4 → readBe16 m.first.buf (m.first.mtod + 14 + 10) =
          cksumOf d (store m.first.buf (m.first.mtod + 14 + 10) (be16 0)) (m.first.mtod + 14)) →
        ∀ k < len, m2.first.buf (m2.first.mtod + 14 + k) = m.first.buf (m.first.mtod + 14 + k)) := by
  obtain ⟨tx', m1, m2, hdr, p, next, hprep, hesp, hdec, hrest⟩ :=
    roundTrip_modes d tx rx er dr m v len rxMeta hframe hpeers hhead htail
  refine ⟨tx', m1, m2, hdr, p, padOf p, next, hprep, hesp, hesp.announced_eq, padOf_aligned p,
    handleSecured_of_decap badSyndromeCheck hpeers.noReplay hpeers.noSyndrome hdec, hrest,
    hrest.all_bytes⟩

/-! ## A short frame -/

/-- A frame of 60 bytes at offset 128 with an IPv4 datagram of 27 bytes, 24 of them header. -/
def shortFrame : Mbuf where
  first :=
    { buf := fun i => if i = 140 then 0x08 else if i = 142 then 0x46 else if i = 145 then 27 else 0
      bufLen := 2048
      dataOff := 128
      dataLen := 60 }
  rest := []
  pktLen := 60
  packetType := ⟨true, false⟩
  metadata := 0

def shortEncryptRule : EncryptRule :=
  ⟨.ip4, .udp, 0, 0, ⟨0, 0, 0, 0⟩, ⟨0, 0, 0, 0⟩, 0, 0, .ip6, 0, ⟨0, 0, 0, 1⟩, 7, 0,
    ⟨.length12, .key128, [], 0⟩⟩

def shortDecryptRule : DecryptRule :=
  { DecryptRule.zero with saAttrs := ⟨.length12, .key128, [], 0⟩ }

def shortCtx : CoreCtx :=
  ⟨{ Config.zero with mode := mode }, [shortEncryptRule], [shortDecryptRule], 0⟩

theorem shortFrame_carries : CarriesIp shortFrame .v4 27 :=
  ⟨rfl, rfl, by decide, rfl, by decide, by decide, by decide, by decide, by decide, .inl (by decide)⟩

theorem shortCtx_matching (h : mode ≠ .udpTransport) :
    Matching (shortCtx mode) (shortCtx mode) shortEncryptRule shortDecryptRule 0 0 .v4 :=
  ⟨rfl, h, rfl, rfl, rfl, by decide, rfl, ⟨rfl, rfl⟩⟩

theorem encap_decap_restores_short : (∃ tx' m1 m2,
      handleUnsecuredPacketsReceived Dpdk.reference (shortCtx .transport) shortFrame =
        some (.success, tx', m1) ∧
      handleSecuredPacketsReceived Dpdk.reference (shortCtx .transport) true
        (m1.received .v4 0) = some (.success, shortCtx .transport, m2) ∧
      Restored Dpdk.reference .transport .v4 27 shortFrame m2) ∧
    ∃ tx' m1 m2, handleUnsecuredPacketsReceived Dpdk.reference (shortCtx .tunnel) shortFrame =
        some (.success, tx', m1) ∧
      handleSecuredPacketsReceived Dpdk.reference (shortCtx .tunnel) true
        (m1.received .v6 0) = some (.success, shortCtx .tunnel, m2) ∧
      Restored Dpdk.reference .tunnel .v4 27 shortFrame m2 := by
  have hround := fun mode hmode => encap_decap_restores Dpdk.reference (shortCtx mode) (shortCtx mode)
    shortEncryptRule shortDecryptRule shortFrame .v4 27 0 true shortFrame_carries
    (shortCtx_matching mode hmode)
  constructor
  · obtain ⟨tx', m1, m2, _, _, _, _, hprep, _, _, _, hsec, hrest, _⟩ :=
      hround .transport (by decide) (by decide) (by decide)
    exact ⟨tx', m1, m2, hprep, hsec, hrest⟩
  · obtain ⟨tx', m1, m2, _, _, _, _, hprep, _, _, _, hsec, hrest, _⟩ :=
      hround .tunnel (by decide) (by decide) (by decide)
    exact ⟨tx', m1, m2, hprep, hsec, hrest⟩

end Doca.IpsecGw
