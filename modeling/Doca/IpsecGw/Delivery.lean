import Doca.IpsecGw.SequenceNumber

/-!
# Sequence numbers from sender to receiver

A sender that counts in software and a receiver that checks replays in software, with the same
`sn_initial`.  Between them packets get lost and change their order.

* `Arrives` — a packet as the receiver sees it: the outer IP header has the length it was sent with,
  and the sequence number has its bytes; the rest is of no concern here.
* `receiveAll` — a run of the replay checks of `handle_secured_packets_received`.

Principal results: `getEspSn_arrives` — `get_esp_sn` reads what the sender wrote, in every mode;
`receiveAll_accepts`, `delivery_accepted`; `no_replay_passes`, `rules_isolated` — packets of all rules.
-/

namespace Doca.IpsecGw

open Doca.Lib List

/-! ## Reading the number -/

structure Arrives (mode : Mode) (v : IpVersion) (m r : Mbuf) : Prop where
  ptype : r.packetType = v.packetType
  hdrLen : v.hdrLen r.first.buf (r.first.mtod + 14) = v.hdrLen m.first.buf (m.first.mtod + 14)
  number : ∀ k < 4,
    r.first.buf (r.first.mtod + espSnAt mode (v.hdrLen m.first.buf (m.first.mtod + 14)) + k) =
      m.first.buf (m.first.mtod + espSnAt mode (v.hdrLen m.first.buf (m.first.mtod + 14)) + k)

theorem l2L3Len_of_ptype {m : Mbuf} {v : IpVersion} (h : m.packetType = v.packetType) :
    (l2L3Len m).toNat = 14 + v.hdrLen m.first.buf (m.first.mtod + 14) := by
  cases v with
  | v4 =>
    simp only [l2L3Len, l3Len, h, IpVersion.packetType, if_true, UInt32.toNat_add, ipv4HdrLen_toNat,
      IpVersion.hdrLen, ETHER_HDR_LEN, UInt32.reduceToNat]
    omega
  | v6 =>
    simp only [l2L3Len, l3Len, h, IpVersion.packetType, Bool.false_eq_true, if_false, IpVersion.hdrLen]
    rfl

theorem getEspSn_arrives {mode : Mode} {v : IpVersion} {m r : Mbuf} (h : Arrives mode v m r) :
    getEspSn r mode = espSn mode v m := by
  have hl := l2L3Len_of_ptype h.ptype
  have hsmall : v.hdrLen r.first.buf (r.first.mtod + 14) ≤ 60 := by
    cases v with
    | v4 | v6 => simp only [IpVersion.hdrLen]; omega
  have hat : (if mode = .udpTransport then l2L3Len r + UDP_HDR_LEN else l2L3Len r).toNat + 4 =
      espSnAt mode (v.hdrLen m.first.buf (m.first.mtod + 14)) := by
    rw [← h.hdrLen, espSnAt]
    split
    · rw [UInt32.toNat_add, hl, UDP_HDR_LEN]
      simp only [UInt32.reduceToNat]
      omega
    · omega
  rw [getEspSn, espSn, Nat.add_assoc, hat]
  have hread : readBe32 r.first.buf
      (r.first.mtod + espSnAt mode (v.hdrLen m.first.buf (m.first.mtod + 14))) =
      readBe32 m.first.buf (m.first.mtod + espSnAt mode (v.hdrLen m.first.buf (m.first.mtod + 14))) := by
    have h0 := h.number 0 (by omega)
    simp only [Nat.add_zero] at h0
    simp only [readBe32, h0, h.number 1 (by omega), h.number 2 (by omega), h.number 3 (by omega)]
  rw [hread]

/-! ## Runs of the receiver -/

def receiveAll (ruleIdx : Nat) : CoreCtx → List Mbuf → Option (CoreCtx × List Bool)
  | ctx, [] => some (ctx, [])
  | ctx, r :: packets => do
    let c ← checkReplay ctx ruleIdx r
    let rest ← receiveAll ruleIdx c.1 packets
    some (rest.1, c.2 :: rest.2)

/-- Numbers that the acceptor of a rule has not seen and that no earlier one has left behind are all
    accepted. -/
theorem receiveAll_accepts {ruleIdx : Nat} {packets : List Mbuf} {mode : Mode} :
    ∀ {ctx : CoreCtx} {rule : DecryptRule} {a : Acceptor},
      ctx.config.swAntireplay = true → ctx.config.mode = mode →
      ctx.decryptRules[ruleIdx]? = some rule → Refines rule.antireplayState a →
      (∀ r ∈ packets, a.Accepts 64 (getEspSn r mode).toNat) →
      packets.Pairwise (fun r r' => getEspSn r mode ≠ getEspSn r' mode ∧
        (getEspSn r mode).toNat < (getEspSn r' mode).toNat + 64) →
      ∃ ctx', receiveAll ruleIdx ctx packets = some (ctx', packets.map fun _ => false) := by
  induction packets with
  | nil =>
    intro ctx rule a _ _ _ _ _ _
    exact ⟨ctx, rfl⟩
  | cons r packets ih =>
    intro ctx rule a hsw hmode hget href hacc hpair
    have hfirst := hacc r (mem_cons_self ..)
    obtain ⟨hhead, htail⟩ := pairwise_cons.mp hpair
    rcases antiReplay_cases href (getEspSn r mode) with ⟨hno, -⟩ | ⟨-, hkeep, href'⟩
    · exact absurd hfirst hno
    · have hstep := checkReplay_eq r hsw hget
      rw [hmode, hkeep] at hstep
      have hlt := (List.getElem?_eq_some_iff.mp hget).1
      obtain ⟨ctx₁, hstep, hcfg, hget'⟩ : ∃ ctx₁, checkReplay ctx ruleIdx r = some (ctx₁, false) ∧
          ctx₁.config = ctx.config ∧ ctx₁.decryptRules[ruleIdx]? = some { rule with
            antireplayState := (antiReplay (getEspSn r mode) rule.antireplayState).1 } :=
        ⟨_, hstep, rfl, getElem?_set_self hlt⟩
      have hacc' : ∀ r' ∈ packets,
          (a.accept (getEspSn r mode).toNat).Accepts 64 (getEspSn r' mode).toNat := by
        intro r' hr'
        obtain ⟨hnew, hhigh⟩ := hacc r' (mem_cons_of_mem _ hr')
        obtain ⟨hne, hnear⟩ := hhead r' hr'
        refine ⟨?_, ?_⟩
        · rintro (heq | hseen)
          · exact hne (UInt32.toNat_inj.mp heq.symm)
          · exact hnew hseen
        · simp only [Acceptor.accept]
          omega
      obtain ⟨ctx', hrest⟩ := ih (hcfg ▸ hsw) (hcfg ▸ hmode) hget' href' hacc' htail
      refine ⟨ctx', ?_⟩
      rw [receiveAll, hstep, Option.bind_eq_bind, Option.bind_some, hrest]
      rfl

/-! ## The two gateways -/

/-- What arrives of the packets `sent` of a rule: each at most once, by its position, and none after one
    whose number is larger by 64 or more. -/
structure Delivery (rule : EncryptRule) (sent : List Sent) (delivered : List (Nat × Mbuf)) : Prop where
  once : (delivered.map Prod.fst).Nodup
  arrives : ∀ p ∈ delivered, ∃ s, sent[p.1]? = some s ∧
    Arrives s.call.mode (outerVersion s.call.mode rule s.call.version) s.packet p.2
  reordered : delivered.Pairwise fun p q => ∀ s t, sent[p.1]? = some s → sent[q.1]? = some t →
    (s.number rule).toNat < (t.number rule).toNat + 64

/-- A sender and a receiver in software, with the same mode and initial number, before the first packet
    of their rules. -/
structure SameStart (tx rx : CoreCtx) (k j : Nat) (er : EncryptRule) : Prop where
  counts : tx.config.swSnIncEnable = true
  checks : rx.config.swAntireplay = true
  mode : rx.config.mode = tx.config.mode
  snInitial : rx.config.snInitial = tx.config.snInitial
  admitted : SnAdmitted tx.config
  encryptRule : tx.encryptRules[k]? = some er
  currentSn : er.currentSn = tx.config.snInitial.toUInt32
  decryptRule : ∃ dr, rx.decryptRules[j]? = some dr ∧ dr.antireplayState = initialAntireplayState rx.config

section Gateways

variable {d : Dpdk} {tx tx' rx : CoreCtx} {k j : Nat} {er : EncryptRule}
variable {calls : List PrepareCall} {sent : List Sent} {delivered : List (Nat × Mbuf)}

theorem mode_of_sent {mode : Mode} (hcalls : ∀ c ∈ calls, c.ruleIdx = k → c.mode = mode) :
    ∀ {ctx ctx' : CoreCtx} {sent : List Sent}, prepareAll d ctx calls = some (ctx', sent) →
      ∀ s ∈ sentOn k sent, s.call.mode = mode := by
  induction calls with
  | nil =>
    intro ctx ctx' sent hrun
    cases hrun
    exact fun s hs => absurd hs not_mem_nil
  | cons c calls ih =>
    intro ctx ctx' sent hrun s hs
    simp only [prepareAll, Option.bind_eq_bind, Option.bind_eq_some_iff] at hrun
    obtain ⟨r, -, ⟨ctx₂, rest⟩, hrest, hrun⟩ := hrun
    cases hrun
    have htail := ih (fun c' hc' => hcalls c' (mem_cons_of_mem _ hc')) hrest
    obtain ⟨hmem, hk⟩ := mem_filter.mp hs
    have hk : s.call.ruleIdx = k := of_decide_eq_true hk
    by_cases hok : r.1 = .success
    · rw [if_pos hok] at hmem
      rcases mem_cons.mp hmem with rfl | hmem
      · exact hcalls c (mem_cons_self ..) hk
      · exact htail s (mem_filter.mpr ⟨hmem, decide_eq_true hk⟩)
    · rw [if_neg hok] at hmem
      exact htail s (mem_filter.mpr ⟨hmem, decide_eq_true hk⟩)

theorem number_toNat (hstart : SameStart tx rx k j er)
    (hframes : ∀ c ∈ calls, c.ruleIdx = k → HoldsHeaders d c.frame c.version)
    (hrun : prepareAll d tx calls = some (tx', sent))
    (hcount : (sentOn k sent).length ≤ 4294967296 - tx.config.snInitial.toNat) {i : Nat} {s : Sent}
    (hs : (sentOn k sent)[i]? = some s) :
    (s.number er).toNat = tx.config.snInitial.toNat + i := by
  have hnum := prepareAll_numbers hframes hstart.counts hstart.encryptRule hrun
  have hlt := (List.getElem?_eq_some_iff.mp hs).1
  have hget : (numbersOf k er sent)[i]? = some (s.number er) := by
    rw [numbersOf, List.getElem?_map, hs]
    rfl
  rw [hnum, getElem?_map, getElem?_range hlt, Option.map_some] at hget
  rw [← Option.some.inj hget, hstart.currentSn, UInt32.toNat_add, UInt64.toNat_toUInt32,
    UInt32.toNat_ofNat']
  have hadm := hstart.admitted
  unfold SnAdmitted UINT32_MAX WINDOW_SIZE at hadm
  omega

/-- **Sender and receiver agree**: packets in an order that is disturbed by less than the window are all
    accepted. -/
theorem delivery_accepted (hstart : SameStart tx rx k j er) (hcalls : ∀ c ∈ calls, c.ruleIdx = k →
      HoldsHeaders d c.frame c.version ∧ c.mode = tx.config.mode)
    (hrun : prepareAll d tx calls = some (tx', sent))
    (hcount : (sentOn k sent).length ≤ 4294967296 - tx.config.snInitial.toNat)
    (hdel : Delivery er (sentOn k sent) delivered) :
    (∀ p ∈ delivered, ∃ s, (sentOn k sent)[p.1]? = some s ∧ getEspSn p.2 rx.config.mode = s.number er) ∧
    ∃ rx', receiveAll j rx (delivered.map Prod.snd) = some (rx', delivered.map fun _ => false) := by
  have hframes : ∀ c ∈ calls, c.ruleIdx = k → HoldsHeaders d c.frame c.version :=
    fun c hc hk => (hcalls c hc hk).1
  have hmode := mode_of_sent (fun c hc hk => (hcalls c hc hk).2) hrun
  have hread : ∀ p ∈ delivered, ∃ s, (sentOn k sent)[p.1]? = some s ∧
      getEspSn p.2 rx.config.mode = s.number er := by
    intro p hp
    obtain ⟨s, hs, harr⟩ := hdel.arrives p hp
    refine ⟨s, hs, ?_⟩
    rw [hstart.mode, ← hmode s (mem_of_getElem? hs)]
    exact getEspSn_arrives harr
  refine ⟨hread, ?_⟩
  have hvalue : ∀ p ∈ delivered,
      (getEspSn p.2 rx.config.mode).toNat = tx.config.snInitial.toNat + p.1 := by
    intro p hp
    obtain ⟨s, hs, heq⟩ := hread p hp
    rw [heq, number_toNat hstart hframes hrun hcount hs]
  obtain ⟨dr, hget, hstate⟩ := hstart.decryptRule
  have hadm : SnAdmitted rx.config := by
    unfold SnAdmitted
    rw [hstart.snInitial]
    exact hstart.admitted
  have href := initialAntireplayState_refines hadm
  rw [← hstate, hstart.snInitial] at href
  have hpair : (delivered.map Prod.snd).Pairwise fun r r' =>
      getEspSn r rx.config.mode ≠ getEspSn r' rx.config.mode ∧
        (getEspSn r rx.config.mode).toNat < (getEspSn r' rx.config.mode).toNat + 64 := by
    have hboth := (pairwise_map.mp hdel.once).and hdel.reordered
    refine pairwise_map.mpr (hboth.imp_of_mem fun {p q} hp hq hpq => ?_)
    obtain ⟨hne, hnear⟩ := hpq
    obtain ⟨s, hs, hsn⟩ := hread p hp
    obtain ⟨t, ht, htn⟩ := hread q hq
    have hvp := hvalue p hp
    have hvq := hvalue q hq
    refine ⟨fun heq => hne ?_, ?_⟩
    · rw [heq] at hvp
      omega
    · rw [hsn, htn]
      exact hnear s t hs ht
  have hacc : ∀ r ∈ delivered.map Prod.snd, (initialAcceptor tx.config.snInitial.toNat).Accepts 64
      (getEspSn r rx.config.mode).toNat := by
    intro r hr
    obtain ⟨p, hp, rfl⟩ := mem_map.mp hr
    refine ⟨Set.notMem_empty _, ?_⟩
    rw [hvalue p hp]
    simp only [initialAcceptor]
    omega
  obtain ⟨rx', hrx⟩ := receiveAll_accepts hstart.checks rfl hget href hacc hpair
  exact ⟨rx', by rw [hrx, map_map]; rfl⟩

end Gateways

def checkingCtx : CoreCtx :=
  let cfg := { Config.zero with swAntireplay := true }
  ⟨cfg, [], [{ shortDecryptRule with antireplayState := initialAntireplayState cfg }], 0⟩

theorem counting_sameStart :
    SameStart (countingCtx 0 0) checkingCtx 0 0 { shortEncryptRule with currentSn := 0 } :=
  ⟨rfl, rfl, rfl, rfl, SnAdmitted.zero, rfl, rfl, _, rfl, rfl⟩

theorem delivery_accepted_swapped : ∃ tx' sent s₀ s₁ rx',
      prepareAll Dpdk.reference (countingCtx 0 0) (List.replicate 2 shortCall) = some (tx', sent) ∧
      sentOn 0 sent = [s₀, s₁] ∧
      receiveAll 0 checkingCtx [s₁.packet.received .v6 0, s₀.packet.received .v6 0] =
        some (rx', [false, false]) := by
  obtain ⟨tx', sent, hrun, hlen⟩ := prepareAll_replicate Dpdk.reference 2 0 0
  obtain ⟨s₀, s₁, hs⟩ := length_eq_two.mp hlen
  have hcalls : ∀ c ∈ replicate 2 shortCall, c.ruleIdx = 0 →
      HoldsHeaders Dpdk.reference c.frame c.version ∧ c.mode = .tunnel := by
    intro c hc hk
    refine ⟨shortCalls_hold _ 2 c hc hk, ?_⟩
    rw [(mem_replicate.mp hc).2]
    rfl
  have hmode : ∀ s ∈ sentOn 0 sent, s.call.mode = .tunnel :=
    mode_of_sent (fun c hc hk => (hcalls c hc hk).2) hrun
  have hnum := prepareAll_numbers (shortCalls_hold _ 2) rfl rfl hrun
  rw [numbersOf, hlen, hs] at hnum
  have harr : ∀ s ∈ [s₀, s₁], Arrives s.call.mode
      (outerVersion s.call.mode { shortEncryptRule with currentSn := 0 } s.call.version) s.packet
      (s.packet.received .v6 0) := by
    intro s hin
    rw [hmode s (hs ▸ hin)]
    exact ⟨rfl, rfl, fun _ _ => rfl⟩
  have hdel : Delivery { shortEncryptRule with currentSn := 0 } (sentOn 0 sent)
      [(1, s₁.packet.received .v6 0), (0, s₀.packet.received .v6 0)] := by
    rw [hs]
    refine ⟨show ([1, 0] : List Nat).Nodup by decide, ?_, ?_⟩
    · rintro p (_ | ⟨_, _ | ⟨_, h⟩⟩)
      · exact ⟨s₁, rfl, harr s₁ (by simp)⟩
      · exact ⟨s₀, rfl, harr s₀ (by simp)⟩
      · cases h
    · simp only [map_cons, map_nil, range_succ, range_zero, nil_append,
        cons_append, cons.injEq, and_true] at hnum
      simp [hnum.1, hnum.2]
  obtain ⟨-, rx', hrx⟩ := delivery_accepted counting_sameStart hcalls hrun (by rw [hlen]; decide) hdel
  exact ⟨tx', sent, s₀, s₁, rx', hrun, hs, hrx⟩

/-! ## Packets of all rules -/

section Replays

variable (d : Dpdk) (check : Bool) {ctx ctx' : CoreCtx} {m m' : Mbuf} {acc : Nat → Acceptor}

def Mbuf.ruleId (m : Mbuf) : Nat := (PktMeta.ofU32 m.metadata.toNat).ruleId

/-- Rule and number of the packets that `handle_secured_packets_received` lets through, up to an access
    outside of a buffer. -/
def letThrough : CoreCtx → List Mbuf → List (Nat × UInt32)
  | _, [] => []
  | ctx, m :: packets =>
    match handleSecuredPacketsReceived d ctx check m with
    | none => []
    | some (code, ctx', _) =>
      if code = .success then (m.ruleId, getEspSn m ctx.config.mode) :: letThrough ctx' packets
      else letThrough ctx' packets

structure Checks (ctx : CoreCtx) (acc : Nat → Acceptor) : Prop where
  enabled : ctx.config.swAntireplay = true
  refines : ∀ i rule, ctx.decryptRules[i]? = some rule → Refines rule.antireplayState (acc i)

theorem Checks.set (h : Checks ctx acc) {i : Nat} {rule : DecryptRule} {s : AntireplayState} {a : Acceptor}
    (hget : ctx.decryptRules[i]? = some rule) (hs : Refines s a) :
    Checks { ctx with decryptRules := ctx.decryptRules.set i { rule with antireplayState := s } }
      (Function.update acc i a) := by
  refine ⟨h.enabled, fun j rule' hj => ?_⟩
  by_cases hij : i = j
  · subst hij
    rw [getElem?_set_self (List.getElem?_eq_some_iff.mp hget).1] at hj
    cases hj
    rwa [Function.update_self]
  · rw [getElem?_set_ne hij] at hj
    rw [Function.update_of_ne (Ne.symm hij)]
    exact h.refines j rule' hj

theorem Checks.call (h : Checks ctx acc) {code : DocaError}
    (hcall : handleSecuredPacketsReceived d ctx check m = some (code, ctx', m')) :
    ∃ a, Checks ctx' (Function.update acc m.ruleId a) ∧ (acc m.ruleId).seen ⊆ a.seen ∧
      (code = .success → (getEspSn m ctx.config.mode).toNat ∈ a.seen \ (acc m.ruleId).seen) := by
  unfold handleSecuredPacketsReceived at hcall
  dsimp only at hcall
  split at hcall
  · cases hcall
    exact ⟨_, by rwa [Function.update_eq_self], subset_rfl, nofun⟩
  simp only [checkReplay, if_pos h.enabled, Option.bind_eq_bind, Option.bind_eq_some_iff] at hcall
  obtain ⟨c, ⟨rule, hget, hc⟩, hcall⟩ := hcall
  cases hc
  have href := h.refines _ _ hget
  rcases antiReplay_cases href (getEspSn m ctx.config.mode) with ⟨-, hdrop⟩ | ⟨hnew, hkeep, hnext⟩
  · rw [hdrop] at hcall
    cases hcall
    exact ⟨_, h.set hget href, subset_rfl, nofun⟩
  · simp only [hkeep, Bool.false_eq_true, if_false] at hcall
    obtain ⟨r, -, hcall⟩ := Option.bind_eq_some_iff.mp hcall
    cases hcall
    exact ⟨_, h.set hget hnext, Set.subset_insert .., fun _ => ⟨.inl rfl, hnew.1⟩⟩

theorem Checks.passes (packets : List Mbuf) : ∀ {ctx : CoreCtx} {acc : Nat → Acceptor},
    Checks ctx acc → (∀ p ∈ letThrough d check ctx packets, p.2.toNat ∉ (acc p.1).seen) ∧
      (letThrough d check ctx packets).Nodup := by
  induction packets with
  | nil => exact fun _ => ⟨nofun, nodup_nil⟩
  | cons m packets ih =>
    intro ctx acc h
    unfold letThrough
    split
    · exact ⟨nofun, nodup_nil⟩
    rename_i code ctx' m' hcall
    obtain ⟨a, h', hsub, hpass⟩ := h.call d check hcall
    obtain ⟨hfresh, hnodup⟩ := ih h'
    have hold : ∀ p ∈ letThrough d check ctx' packets, p.2.toNat ∉ (acc p.1).seen := by
      intro p hp hmem
      refine hfresh p hp ?_
      by_cases hi : p.1 = m.ruleId
      · rw [hi, Function.update_self]
        exact hsub (hi ▸ hmem)
      · rwa [Function.update_of_ne hi]
    split
    · rename_i hok
      obtain ⟨hin, hout⟩ := hpass hok
      refine ⟨forall_mem_cons.mpr ⟨hout, hold⟩, nodup_cons.mpr ⟨fun hmem => hfresh _ hmem ?_, hnodup⟩⟩
      rwa [Function.update_self]
    · exact ⟨hold, hnodup⟩

/-- **No replay passes the gateway**: in every run no two packets of a rule with the same number are let
    through. -/
theorem no_replay_passes (hsw : ctx.config.swAntireplay = true) (hadm : SnAdmitted ctx.config)
    (hrules : ∀ rule ∈ ctx.decryptRules, rule.antireplayState = initialAntireplayState ctx.config)
    (packets : List Mbuf) : (letThrough d check ctx packets).Nodup := by
  have hstart : Checks ctx fun _ => initialAcceptor ctx.config.snInitial.toNat := by
    refine ⟨hsw, fun i rule hi => ?_⟩
    rw [hrules rule (mem_of_getElem? hi)]
    exact initialAntireplayState_refines hadm
  exact (hstart.passes d check packets).2

/-- A call changes no rule but that of its packet, and that one in a way in which no other has a part. -/
theorem call_rules (m : Mbuf) : ∃ g : Config → DecryptRule → DecryptRule, ∀ {ctx ctx' : CoreCtx} {code m'},
    handleSecuredPacketsReceived d ctx check m = some (code, ctx', m') →
      ctx'.config = ctx.config ∧ ∀ i, ctx'.decryptRules[i]? =
        if i = m.ruleId then (ctx.decryptRules[i]?).map (g ctx.config) else ctx.decryptRules[i]? := by
  let info := PktMeta.ofU32 m.metadata.toNat
  let flagged := check ∧ (info.decryptSyndrome ≠ 0 ∨ info.antireplaySyndrome ≠ 0)
  refine ⟨fun cfg rule => if ¬ flagged ∧ cfg.swAntireplay then { rule with
    antireplayState := (antiReplay (getEspSn m cfg.mode) rule.antireplayState).1 } else rule,
    fun {ctx ctx' _ _} hcall => ?_⟩
  unfold handleSecuredPacketsReceived checkReplay at hcall
  dsimp only at hcall
  split at hcall
  · cases hcall
    simp_all [flagged, info]
  obtain ⟨⟨c, drop⟩, hc, hcall⟩ := Option.bind_eq_some_iff.mp hcall
  have hctx : ctx' = c := by
    cases drop with
    | true =>
      cases hcall
      rfl
    | false =>
      obtain ⟨r, -, hcall⟩ := Option.bind_eq_some_iff.mp hcall
      cases hcall
      rfl
  subst hctx
  split at hc
  · obtain ⟨rule, hget, hc⟩ := Option.bind_eq_some_iff.mp hc
    cases hc
    refine ⟨rfl, fun i => ?_⟩
    grind [Mbuf.ruleId]
  · cases hc
    simp_all

theorem letThrough_prefix {i : Nat} (packets : List Mbuf) : ∀ {c c' : CoreCtx}, c.config = c'.config →
    c.decryptRules[i]? = c'.decryptRules[i]? → (letThrough d check c packets).filter (·.1 = i) <+:
      letThrough d check c' (packets.filter (·.ruleId = i)) := by
  induction packets with
  | nil => exact fun _ _ => nil_prefix
  | cons m packets ih =>
    intro c c' hcfg hrule
    obtain ⟨g, hg⟩ := call_rules d check m
    rw [letThrough]
    split
    · exact nil_prefix
    rename_i code c₁ m₁ hcall
    obtain ⟨hcfg₁, hrules₁⟩ := hg hcall
    by_cases hi : m.ruleId = i
    · subst hi
      have heq := handleSecuredPacketsReceived_rule d check m hcfg hrule
      rw [hcall] at heq
      obtain ⟨⟨_, c₂, _⟩, hcall₂, hres⟩ := Option.map_eq_some_iff.mp heq.symm
      cases hres
      obtain ⟨hcfg₂, hrules₂⟩ := hg hcall₂
      have htail := ih (hcfg₁.trans (hcfg.trans hcfg₂.symm)) (by rw [hrules₁, hrules₂, hcfg, hrule])
      rw [filter_cons_of_pos (by simp), letThrough, hcall₂, ← hcfg]
      dsimp only
      split
      · simpa using htail
      · exact htail
    · have htail := ih (hcfg₁.trans hcfg) ((hrules₁ i).trans (by rw [if_neg (Ne.symm hi), hrule]))
      rw [filter_cons_of_neg (by simpa using hi)]
      split
      · rwa [filter_cons_of_neg (by simpa using hi)]
      · exact htail

/-- **Rules are isolated**: what is let through of a rule is the beginning of what is let through if its
    own packets come alone. -/
theorem rules_isolated (ctx : CoreCtx) (i : Nat) (packets : List Mbuf) :
    (letThrough d check ctx packets).filter (·.1 = i) <+:
      letThrough d check ctx (packets.filter (·.ruleId = i)) :=
  letThrough_prefix d check packets rfl rfl

end Replays

/-- A datagram of 100 bytes with 24 bytes of header, and the sequence number behind it. -/
def espFrame (sn : UInt8) : Mbuf :=
  { shortFrame with
    first := { shortFrame.first with
      buf := fun i => if i = 145 then 100 else if i = 173 then sn else shortFrame.first.buf i
      dataLen := 114 }
    pktLen := 114 }

/-- Two packets, and a copy of the first, which does not pass. -/
theorem no_replay_passes_copy :
    letThrough Dpdk.reference true checkingCtx [espFrame 1, espFrame 2, espFrame 1] = [(0, 1), (0, 2)] ∧
      (letThrough Dpdk.reference true checkingCtx [espFrame 1, espFrame 2, espFrame 1]).Nodup :=
  ⟨by decide +kernel, no_replay_passes _ _ rfl SnAdmitted.zero (by simp [checkingCtx]) _⟩

end Doca.IpsecGw
