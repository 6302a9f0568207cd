import Doca.IpsecGw.RoundTrip
import Mathlib.Data.List.Nodup

/-!
# Sequence numbers of the sender

With `sw_sn_inc_enable` the sender takes the sequence number of every packet from the rule
(`current_sn`, set by `sw_handling_sn_inc` and incremented at the end of `prepare_packet_tunnel` and
`prepare_packet_transport`).

* `HoldsHeaders` — a packet of any number of segments whose first one holds the Ethernet and the IP
  header.
* `espSn` — the number in the ESP header behind the outer IP header.
* `prepareAll` — a run of preparations; `numbersOf` — the numbers of one rule's packets in it.

Principal results: `preparePacketIn_numbered`, `prepareAll_numbers`, `espSn_nodup_iff`.
-/

namespace Doca.IpsecGw

open Doca.Lib UInt32 Option List

/-! ## One packet -/

def preparePacketIn (mode : Mode) (d : Dpdk) (ctx : CoreCtx) (ruleIdx : Nat) (m : Mbuf) :
    Option (DocaError × CoreCtx × Mbuf) :=
  match mode with
  | .transport => preparePacketTransport d ctx ruleIdx false m
  | .udpTransport => preparePacketTransport d ctx ruleIdx true m
  | .tunnel => preparePacketTunnel d ctx ruleIdx m

structure HoldsHeaders (d : Dpdk) (m : Mbuf) (v : IpVersion) : Prop where
  ptype : m.packetType = v.packetType
  minHdr : 20 ≤ v.hdrLen m.first.buf (m.first.mtod + 14)
  headers : 14 + v.hdrLen m.first.buf (m.first.mtod + 14) ≤ (removeEthernetPadding d m).first.dataLen.toNat
  inBuf : m.first.mtod + (removeEthernetPadding d m).first.dataLen.toNat ≤ m.first.bufLen.toNat

theorem CarriesIp.holdsHeaders {m : Mbuf} {v : IpVersion} {len : Nat} (h : CarriesIp m v len)
    (d : Dpdk) : HoldsHeaders d m v := by
  have hlt := h.len_lt
  have hheader := h.header
  have hholds := h.holds
  have hin := h.inBuf
  have hdata : (IpsecGw.removeEthernetPadding d m).first.dataLen.toNat = 14 + len := by
    rw [h.removeEthernetPadding d]
    simp only [Mbuf.cut, UInt16.toNat_ofNat']
    omega
  exact ⟨h.ptype, h.minHdr, by omega, by omega⟩

def espSnAt (mode : Mode) (hdr : Nat) : Nat :=
  14 + hdr + (if mode = .udpTransport then 8 else 0) + 4

def espSn (mode : Mode) (v : IpVersion) (m : Mbuf) : UInt32 :=
  UInt32.ofNat (readBe32 m.first.buf
    (m.first.mtod + espSnAt mode (v.hdrLen m.first.buf (m.first.mtod + 14))))

def outerHdrLen (mode : Mode) (rule : EncryptRule) (hdr : Nat) : Nat :=
  if mode = .tunnel then (tunnelVersion rule).minHdrLen else hdr

/-! ## The space for the headers -/

theorem appendTail_kept (m : Mbuf) (trailerLen : UInt32) :
    let t := appendTail m trailerLen
    t.first.buf = m.first.buf ∧ t.first.mtod = m.first.mtod ∧ t.first.bufLen = m.first.bufLen ∧
      t.packetType = m.packetType ∧ (t.rest = [] → m.rest = []) := by
  rcases hr : m.rest with _ | ⟨seg, segs⟩
  · simp [appendTail, Mbuf.setLast, Mbuf.setSeg, Mbuf.lastseg, hr, Seg.mtod]
  · simp [appendTail, Mbuf.setLast, Mbuf.setSeg, hr]

theorem prepend_kept {d : Dpdk} {m m₁ : Mbuf} {len : UInt16} (h : d.prepend m len = some m₁)
    (hlt : m.first.mtod + m.first.dataLen.toNat < 65536) :
    m₁.first.buf = m.first.buf ∧ m₁.first.mtod + len.toNat = m.first.mtod ∧
      m₁.first.bufLen = m.first.bufLen ∧ m₁.packetType = m.packetType ∧ m₁.rest = m.rest ∧
      m₁.first.mtod + m₁.first.dataLen.toNat = m.first.mtod + m.first.dataLen.toNat := by
  rw [d.prepend_eq] at h
  split at h
  · rename_i hle
    cases h
    rw [UInt16.le_iff_toNat_le] at hle
    have hlen := len.toNat_lt
    simp only [Seg.mtod] at hlt
    refine ⟨rfl, ?_, rfl, rfl, rfl, ?_⟩
    · simp only [Seg.mtod, UInt16.toNat_sub]
      omega
    · simp only [Seg.mtod, UInt16.toNat_sub, UInt16.toNat_add]
      omega
  · cases h

/-- **A prepared packet** begins with what its header function wrote, up to `hi`, if the first segment
    reached that far before. -/
theorem preparePacket_header {d : Dpdk} {ctx ctx' : CoreCtx} {ruleIdx : Nat} {rule : EncryptRule}
    {payloadLen espLen : UInt32} {header : Mbuf → Option (Seg × UInt16 × UInt8)} {m m' : Mbuf}
    {hi : Nat} (hlt : m.first.mtod + m.first.dataLen.toNat < 65536)
    (hhi : hi ≤ m.first.mtod + m.first.dataLen.toNat) (hesp : espLen.toNat < 65536)
    (h : preparePacket d ctx ruleIdx rule payloadLen espLen header m = some (.success, ctx', m')) :
    ∃ m₂ s ipId next, header m₂ = some (s, ipId, next) ∧ m₂.first.buf = m.first.buf ∧
      m₂.first.mtod + espLen.toNat = m.first.mtod ∧ m₂.first.bufLen = m.first.bufLen ∧
      m₂.packetType = m.packetType ∧ m'.first.mtod = s.mtod ∧ m'.pktLen = m₂.pktLen ∧
      ∀ i < hi, m'.first.buf i = s.buf i := by
  rcases preparePacket_cases h with ⟨hcode, -⟩ | ⟨-, m₁, t, s, ipId, next, hprep, -, hheader, hw, -⟩
  · cases hcode
  · obtain ⟨hbuf, hmtod, hlen, hp, hrest, hend⟩ := prepend_kept hprep hlt
    obtain ⟨abuf, amtod, alen, ap, arest⟩ := appendTail_kept m₁ t
    have hesp16 : espLen.toUInt16.toNat = espLen.toNat := by
      rw [toNat_toUInt16]
      omega
    have hkeep := writeTrailer_before hi hw (fun hr => by
      rw [trailerPointer, Mbuf.lastseg_single (arest hr), hend]
      exact hhi)
    exact ⟨appendTail m₁ t, s, ipId, next, hheader, abuf.trans hbuf, by omega, alen.trans hlen,
      ap.trans hp, hkeep⟩

/-! ## The number that is written -/

theorem tunnelBuffer_hdrLen (d : Dpdk) (ctx : CoreCtx) (rule : EncryptRule) (b : Nat → UInt8)
    (nh : Nat) (pktLen : UInt32) :
    (tunnelVersion rule).hdrLen (tunnelBuffer d ctx rule b nh pktLen) (nh + 14) =
      (tunnelVersion rule).minHdrLen := by
  unfold tunnelBuffer tunnelVersion
  rcases Decidable.em (rule.encapL3Type = .ip4) with h4 | h6
  · simp only [if_pos h4, IpVersion.hdrLen, IpVersion.minHdrLen]
    have hihl : (createIpv4TunnelEncap rule ctx.config.swSnIncEnable ctx.currentIpId).1[14]? =
        some 0x45 := by
      cases ctx.config.swSnIncEnable <;> rfl
    rw [stampIpv4_other (by omega), store_of_getElem? hihl]
    rfl
  · simp only [if_neg h6]
    rfl

structure Numbered (m : Mbuf) (mode : Mode) (v : IpVersion) (hdr : Nat) (sn : UInt32) : Prop where
  hdrLen : v.hdrLen m.first.buf (m.first.mtod + 14) = hdr
  number : readBe32 m.first.buf (m.first.mtod + espSnAt mode hdr) = sn.toNat

theorem Numbered.espSn {m : Mbuf} {mode : Mode} {v : IpVersion} {hdr : Nat} {sn : UInt32}
    (h : Numbered m mode v hdr sn) : espSn mode v m = sn := by
  rw [IpsecGw.espSn, h.hdrLen, h.number, UInt32.ofNat_toNat]

section Prepared

variable {d : Dpdk} {ctx ctx' : CoreCtx} {ruleIdx : Nat} {rule : EncryptRule} {m m' : Mbuf}
variable {v : IpVersion} (hrule : ctx.encryptRules[ruleIdx]? = some rule) (hf : HoldsHeaders d m v)

include hrule hf

theorem preparePacketTunnel_numbered (hsw : ctx.config.swSnIncEnable = true)
    (h : preparePacketTunnel d ctx ruleIdx m = some (.success, ctx', m')) :
    Numbered m' .tunnel (tunnelVersion rule) (tunnelVersion rule).minHdrLen rule.currentSn := by
  obtain ⟨kbuf, kmtod, klen, -⟩ := removeEthernetPadding_kept d m
  have hheaders := hf.headers
  have hin := hf.inBuf
  have hbufLen := m.first.bufLen.toNat_lt
  have hesp : ((if rule.encapL3Type = .ip4 then 50 else 70 : UInt32) - ETHER_HDR_LEN).toNat =
      (tunnelVersion rule).minHdrLen + 16 := by
    unfold tunnelVersion
    split <;> rfl
  have hsmall : (tunnelVersion rule).minHdrLen ≤ 40 := by
    cases tunnelVersion rule <;> decide
  simp only [preparePacketTunnel, hrule, bind_eq_bind, bind_some] at h
  obtain ⟨m₂, s, ipId, next, hheader, -, hmtod, hlen, -, hstart, -, hkeep⟩ :=
    preparePacket_header (by rw [kmtod]; omega)
      (show m.first.mtod + 14 ≤ _ by rw [kmtod]; omega) (by omega) h
  rw [hesp, kmtod] at hmtod
  rw [klen] at hlen
  obtain ⟨ipId', heq⟩ := tunnelHeader_eq d ctx rule m₂ (by rw [hlen]; omega)
  rw [heq] at hheader
  cases hheader
  have hnh : m'.first.mtod = m₂.first.mtod := hstart
  constructor
  · rw [hnh, hdrLen_congr (hkeep _ (by omega))]
    exact tunnelBuffer_hdrLen d ctx rule _ _ _
  · rw [hnh, ← tunnelBuffer_sn d ctx rule m₂.first.buf m₂.first.mtod m₂.pktLen hsw]
    have hat : espSnAt .tunnel (tunnelVersion rule).minHdrLen = 18 + (tunnelVersion rule).minHdrLen := by
      simp only [espSnAt, reduceCtorEq, if_false]
      omega
    rw [hat]
    exact readBe32_congr fun k hk => hkeep _ (by omega)

theorem preparePacketTransport_written {udp : Bool}
    (h : preparePacketTransport d ctx ruleIdx udp m = some (.success, ctx', m')) :
    m'.first.mtod + transportLen udp = m.first.mtod ∧
      ∀ i < m.first.mtod + (14 + v.hdrLen m.first.buf (m.first.mtod + 14)),
        m'.first.buf i = transportBuffer d v (transportEncap rule ctx.config.swSnIncEnable udp) udp
          m.first.buf m'.first.mtod m.first.mtod
          (14 + v.hdrLen m.first.buf (m.first.mtod + 14)) m'.pktLen i := by
  obtain ⟨kbuf, kmtod, klen, kp⟩ := removeEthernetPadding_kept d m
  have hheaders := hf.headers
  have hin := hf.inBuf
  have hbufLen := m.first.bufLen.toNat_lt
  have hlow := IpVersion.minHdrLen_le hf.minHdr
  have hl2l3 : (l2L3Len (removeEthernetPadding d m)).toNat =
      14 + v.hdrLen m.first.buf (m.first.mtod + 14) := by
    have hsum : 14 + v.hdrLen m.first.buf (m.first.mtod + 14) < 65536 := by omega
    cases v with
    | v4 =>
      simp only [l2L3Len, l3Len, kp, hf.ptype, IpVersion.packetType, if_true, UInt32.toNat_add,
        ipv4HdrLen_toNat, kbuf, kmtod, IpVersion.hdrLen, ETHER_HDR_LEN, reduceToNat]
        at hsum ⊢
      omega
    | v6 =>
      simp only [l2L3Len, l3Len, kp, hf.ptype, IpVersion.packetType, Bool.false_eq_true, if_false,
        IpVersion.hdrLen]
      rfl
  have hesp : (ofNat (transportLen udp)).toNat = transportLen udp := by
    cases udp <;> rfl
  have htl := le_transportLen udp
  have htl' : transportLen udp ≤ 24 := by cases udp <;> decide
  simp only [preparePacketTransport, hrule, bind_eq_bind, bind_some] at h
  generalize v.hdrLen m.first.buf (m.first.mtod + 14) = hdr at *
  obtain ⟨m₂, s, ipId, next, hheader, hbuf, hmtod, hlen, hp, hstart, hpkt, hkeep⟩ :=
    preparePacket_header (by rw [kmtod]; omega)
      (show m.first.mtod + (14 + hdr) ≤ _ by rw [kmtod]; omega) (by omega) h
  rw [hesp, kmtod] at hmtod
  rw [klen] at hlen
  rw [hl2l3, kmtod, transportHeader_eq d ctx rule udp m.first.mtod (14 + hdr)
    ((hp.trans kp).trans hf.ptype) (by omega) (by rw [hlen]; omega)] at hheader
  cases hheader
  have hnh : m'.first.mtod = m₂.first.mtod := hstart
  rw [hbuf, kbuf] at hkeep
  rw [hnh, hpkt]
  exact ⟨hmtod, hkeep⟩

theorem preparePacketTransport_numbered {udp : Bool} (hsw : ctx.config.swSnIncEnable = true)
    (h : preparePacketTransport d ctx ruleIdx udp m = some (.success, ctx', m')) :
    Numbered m' (if udp then .udpTransport else .transport) v
      (v.hdrLen m.first.buf (m.first.mtod + 14)) rule.currentSn := by
  obtain ⟨hmtod, hkeep⟩ := preparePacketTransport_written hrule hf h
  have hlow := IpVersion.minHdrLen_le hf.minHdr
  have hmin := v.protoAt_lt
  have htl := le_transportLen udp
  generalize hhdr : v.hdrLen m.first.buf (m.first.mtod + 14) = hdr at *
  constructor
  · rw [hdrLen_congr (hkeep _ (by omega)), hdrLen_congr (transportBuffer_kept d m.first.buf
      m'.first.mtod m.first.mtod (14 + hdr) m'.pktLen 14 (by omega) (fun _ => v.not_rewrites_zero)
      (Or.inr (Or.inl (by omega))))]
    exact hhdr
  · rw [hsw] at hkeep
    have hat : espSnAt (if udp then .udpTransport else .transport) hdr =
        14 + hdr + transportLen udp - 12 := by
      cases udp <;> simp [espSnAt, transportLen]
    rw [hat, ← transportBuffer_sn rule d m.first.buf m'.first.mtod m.first.mtod (14 + hdr) m'.pktLen
      udp (show 14 + v.minHdrLen ≤ 14 + hdr by omega)]
    exact readBe32_congr fun k hk => hkeep _ (by omega)

/-- **Every prepared packet carries the number its rule had.** -/
theorem preparePacketIn_numbered {mode : Mode} (hsw : ctx.config.swSnIncEnable = true)
    (h : preparePacketIn mode d ctx ruleIdx m = some (.success, ctx', m')) :
    Numbered m' mode (outerVersion mode rule v)
      (outerHdrLen mode rule (v.hdrLen m.first.buf (m.first.mtod + 14))) rule.currentSn := by
  cases mode with
  | tunnel => exact preparePacketTunnel_numbered hrule hf hsw h
  | transport | udpTransport => exact preparePacketTransport_numbered hrule hf hsw h

end Prepared

theorem preparePacketIn_ctx {mode : Mode} {d : Dpdk} {ctx ctx' : CoreCtx} {ruleIdx : Nat}
    {m m' : Mbuf} {code : DocaError}
    (h : preparePacketIn mode d ctx ruleIdx m = some (code, ctx', m')) :
    (code ≠ .success ∧ ctx' = ctx) ∨ (code = .success ∧ ∃ ipId, ctx' = ctx.prepared ruleIdx ipId) := by
  have hgen : ∀ {rule payloadLen espLen header c},
      preparePacket d ctx ruleIdx rule payloadLen espLen header c = some (code, ctx', m') →
      (code ≠ .success ∧ ctx' = ctx) ∨ (code = .success ∧ ∃ ipId, ctx' = ctx.prepared ruleIdx ipId) := by
    intro rule payloadLen espLen header c hp
    rcases preparePacket_cases hp with ⟨rfl, hctx⟩ | ⟨rfl, _, _, _, ipId, _, _, _, _, _, hctx⟩
    · exact .inl ⟨nofun, hctx⟩
    · exact .inr ⟨rfl, ipId, hctx⟩
  cases mode with
  | tunnel =>
    simp only [preparePacketIn, preparePacketTunnel, bind_eq_bind, bind_eq_some_iff] at h
    obtain ⟨rule, -, h⟩ := h
    exact hgen h
  | transport | udpTransport =>
    simp only [preparePacketIn, preparePacketTransport, bind_eq_bind, bind_eq_some_iff] at h
    obtain ⟨rule, -, h⟩ := h
    exact hgen h

/-! ## Runs of the sender -/

structure PrepareCall where
  mode : Mode
  ruleIdx : Nat
  version : IpVersion
  frame : Mbuf

structure Sent where
  call : PrepareCall
  packet : Mbuf

def prepareAll (d : Dpdk) : CoreCtx → List PrepareCall → Option (CoreCtx × List Sent)
  | ctx, [] => some (ctx, [])
  | ctx, c :: calls => do
    let r ← preparePacketIn c.mode d ctx c.ruleIdx c.frame
    let rest ← prepareAll d r.2.1 calls
    some (rest.1, if r.1 = .success then ⟨c, r.2.2⟩ :: rest.2 else rest.2)

def sentOn (k : Nat) (sent : List Sent) : List Sent := sent.filter fun s => s.call.ruleIdx = k

def Sent.number (rule : EncryptRule) (s : Sent) : UInt32 :=
  espSn s.call.mode (outerVersion s.call.mode rule s.call.version) s.packet

def numbersOf (k : Nat) (rule : EncryptRule) (sent : List Sent) : List UInt32 :=
  (sentOn k sent).map (Sent.number rule)

theorem CoreCtx.prepared_other (ctx : CoreCtx) {j k : Nat} (ipId : UInt16) (h : j ≠ k) :
    (ctx.prepared j ipId).encryptRules[k]? = ctx.encryptRules[k]? := by
  simp only [CoreCtx.prepared, getElem?_modify, if_neg h]
  cases ctx.encryptRules[k]? <;> rfl

theorem CoreCtx.prepared_self {ctx : CoreCtx} {k : Nat} {rule : EncryptRule} (ipId : UInt16)
    (h : ctx.encryptRules[k]? = some rule) :
    (ctx.prepared k ipId).encryptRules[k]? = some rule.incrementSn := by
  simp [CoreCtx.prepared, h]

section SenderRun

variable {d : Dpdk} {k : Nat} {calls : List PrepareCall}

/-- **The numbers of a run are consecutive**, modulo the width of the counter, whatever fails in
    between and whatever happens to other rules. -/
theorem prepareAll_numbers (hframes : ∀ c ∈ calls, c.ruleIdx = k → HoldsHeaders d c.frame c.version) :
    ∀ {ctx ctx' : CoreCtx} {rule : EncryptRule} {sent : List Sent},
      ctx.config.swSnIncEnable = true → ctx.encryptRules[k]? = some rule →
      prepareAll d ctx calls = some (ctx', sent) →
      numbersOf k rule sent = (List.range (sentOn k sent).length).map
        fun i => rule.currentSn + ofNat i := by
  induction calls with
  | nil =>
    intro ctx ctx' rule sent hsw hrule hrun
    cases hrun
    rfl
  | cons c calls ih =>
    intro ctx ctx' rule sent hsw hrule hrun
    simp only [prepareAll, bind_eq_bind, bind_eq_some_iff] at hrun
    obtain ⟨⟨code, ctx₁, m'⟩, hstep, ⟨ctx₂, rest⟩, hrest, hrun⟩ := hrun
    cases hrun
    have hframes' : ∀ c' ∈ calls, c'.ruleIdx = k → HoldsHeaders d c'.frame c'.version :=
      fun c' hc' => hframes c' (mem_cons_of_mem _ hc')
    rcases preparePacketIn_ctx hstep with ⟨hcode, rfl⟩ | ⟨rfl, ipId, rfl⟩
    · simp only [if_neg hcode]
      exact ih hframes' hsw hrule hrest
    · have hsw' : (ctx.prepared c.ruleIdx ipId).config.swSnIncEnable = true := hsw
      rw [if_pos rfl]
      by_cases hk : c.ruleIdx = k
      · subst hk
        have hnum := preparePacketIn_numbered hrule (hframes c (mem_cons_self ..) rfl) hsw hstep
        have htail := ih hframes' hsw' (CoreCtx.prepared_self ipId hrule) hrest
        have hsent : sentOn c.ruleIdx (⟨c, m'⟩ :: rest) = ⟨c, m'⟩ :: sentOn c.ruleIdx rest := by
          simp [sentOn]
        rw [numbersOf, hsent, map_cons, length_cons, range_succ_eq_map, List.map_cons, List.map_map]
        congr 1
        · rw [Sent.number, hnum.espSn]
          simp
        · refine htail.trans (map_congr_left fun i _ => ?_)
          show rule.currentSn + 1 + ofNat i = rule.currentSn + ofNat (i + 1)
          rw [UInt32.ofNat_add, UInt32.add_assoc, UInt32.add_comm 1]
          rfl
      · have hsent : sentOn k (⟨c, m'⟩ :: rest) = sentOn k rest := by
          simp [sentOn, hk]
        rw [numbersOf, hsent]
        exact ih hframes' hsw' ((ctx.prepared_other ipId hk).trans hrule) hrest

theorem consecutive_nodup_iff (c : UInt32) (n : Nat) :
    ((List.range n).map fun i => c + ofNat i).Nodup ↔ n ≤ 4294967296 := by
  have heq : ∀ i j : Nat, c + ofNat i = c + ofNat j ↔ i % 4294967296 = j % 4294967296 := by
    intro i j
    rw [UInt32.add_right_inj, ← UInt32.toNat_inj, UInt32.toNat_ofNat', UInt32.toNat_ofNat']
  constructor
  · intro h
    by_contra hn
    have hinj := inj_on_of_nodup_map h (List.mem_range.mpr (show 0 < n by omega))
      (List.mem_range.mpr (show 4294967296 < n by omega)) ((heq _ _).mpr (by omega))
    omega
  · intro h
    refine List.nodup_range.map_on fun i hi j hj hij => ?_
    rw [mem_range] at hi hj
    have := (heq i j).mp hij
    omega

/-- **Sequence numbers are not reused** in exactly those runs that prepare at most `2^32` packets of
    the rule. -/
theorem espSn_nodup_iff {ctx ctx' : CoreCtx} {rule : EncryptRule} {sent : List Sent}
    (hsw : ctx.config.swSnIncEnable = true) (hrule : ctx.encryptRules[k]? = some rule)
    (hsn : rule.currentSn = ctx.config.snInitial.toUInt32)
    (hframes : ∀ c ∈ calls, c.ruleIdx = k → HoldsHeaders d c.frame c.version)
    (hrun : prepareAll d ctx calls = some (ctx', sent)) :
    (numbersOf k rule sent = (List.range (sentOn k sent).length).map
        fun i => ctx.config.snInitial.toUInt32 + UInt32.ofNat i) ∧
      ((numbersOf k rule sent).Nodup ↔ (sentOn k sent).length ≤ 4294967296) := by
  have hnum := prepareAll_numbers hframes hsw hrule hrun
  rw [hsn] at hnum
  refine ⟨hnum, ?_⟩
  rw [hnum, consecutive_nodup_iff]

end SenderRun

/-! ## Many copies of a frame -/

/-- A sender in tunnel mode that counts in software from 0, with one rule at the number `sn`. -/
def countingCtx (sn : UInt32) (ipId : UInt16) : CoreCtx :=
  ⟨{ Config.zero with swSnIncEnable := true }, [{ shortEncryptRule with currentSn := sn }], [], ipId⟩

def shortCall : PrepareCall := ⟨.tunnel, 0, .v4, shortFrame⟩

theorem prepareAll_replicate (d : Dpdk) : ∀ (n : Nat) (sn : UInt32) (ipId : UInt16),
    ∃ ctx' sent, prepareAll d (countingCtx sn ipId) (List.replicate n shortCall) =
      some (ctx', sent) ∧ (sentOn 0 sent).length = n := by
  intro n
  induction n with
  | zero => exact fun sn ipId => ⟨_, _, rfl, rfl⟩
  | succ n ih =>
    intro sn ipId
    have hrule : (countingCtx sn ipId).encryptRules[0]? =
        some { shortEncryptRule with currentSn := sn } := rfl
    have hhead : (tunnelVersion shortEncryptRule).minHdrLen + 16 ≤ shortFrame.first.mtod := by decide
    have htail : shortFrame.first.mtod + (14 + 27) + (padOf 27 + 2 + 12) ≤
        shortFrame.first.bufLen.toNat := by decide
    obtain ⟨ipId', m', hprep, -⟩ :=
      shortFrame_carries.preparePacketTunnel d (countingCtx sn ipId) 0 hrule rfl hhead htail
    obtain ⟨ctx', sent, hrest, hlen⟩ := ih (sn + 1) ipId'
    have hctx : (countingCtx sn ipId).prepared 0 ipId' = countingCtx (sn + 1) ipId' := rfl
    have hstep : preparePacketIn shortCall.mode d (countingCtx sn ipId) shortCall.ruleIdx
        shortCall.frame = some (.success, countingCtx (sn + 1) ipId', m') := hprep.trans (by rw [hctx])
    refine ⟨ctx', ⟨shortCall, m'⟩ :: sent, ?_, ?_⟩
    · rw [replicate_succ, prepareAll, hstep, bind_eq_bind, bind_some, hrest]
      rfl
    · have hsent : sentOn 0 (⟨shortCall, m'⟩ :: sent) = ⟨shortCall, m'⟩ :: sentOn 0 sent := by
        simp [sentOn, shortCall]
      rw [hsent, length_cons, hlen]

theorem shortCalls_hold (d : Dpdk) (n : Nat) : ∀ c ∈ List.replicate n shortCall, c.ruleIdx = 0 →
    HoldsHeaders d c.frame c.version := by
  intro c hc _
  rw [(List.mem_replicate.mp hc).2]
  exact shortFrame_carries.holdsHeaders d

theorem espSn_nodup_iff_two :
    ∃ ctx' sent, prepareAll Dpdk.reference (countingCtx 0 0) (List.replicate 2 shortCall) =
        some (ctx', sent) ∧ (sentOn 0 sent).length = 2 ∧
      (numbersOf 0 { shortEncryptRule with currentSn := 0 } sent).Nodup := by
  obtain ⟨ctx', sent, hrun, hlen⟩ := prepareAll_replicate Dpdk.reference 2 0 0
  refine ⟨ctx', sent, hrun, hlen, ?_⟩
  exact (espSn_nodup_iff rfl rfl rfl (shortCalls_hold _ 2) hrun).2.mpr (by omega)

/-- After `2^32` packets the counter is back at its start, and the next packet has the number of the
    first one. -/
theorem espSn_reused :
    ∃ ctx' sent, prepareAll Dpdk.reference (countingCtx 0 0) (List.replicate 4294967297 shortCall) =
        some (ctx', sent) ∧
      ¬ (numbersOf 0 { shortEncryptRule with currentSn := 0 } sent).Nodup := by
  obtain ⟨ctx', sent, hrun, hlen⟩ := prepareAll_replicate Dpdk.reference 4294967297 0 0
  refine ⟨ctx', sent, hrun, fun hnd => ?_⟩
  rw [prepareAll_numbers (shortCalls_hold _ _) rfl rfl hrun, consecutive_nodup_iff, hlen] at hnd
  omega

end Doca.IpsecGw
