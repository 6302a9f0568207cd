import Doca.Common.FlowParser
import Mathlib.Data.List.Nodup

/-!
# NAT: port address translation

Model of the PAT mode of `nat_core.c`.

* `buildPatLocalPipe`, `buildPatGlobalPipe` — the tables for packets from the LAN and from the WAN, one
  for TCP and one for UDP each.  The index of the loop over the rules is a `uint16_t`; DOCA Flow is
  asked to process the entries whenever the queue is full.
* `LanOut`, `WanOut` — a packet goes out rewritten by an entry that it matches; without one it is
  dropped.

The UDP table of the WAN has the two ports of a rule the wrong way round.

Principal results: `addRules_spec`; `addRules_ends` — the loop ends exactly if there are at most 65535
rules; `pat_correct_iff`, `pat_udp_lost`.
-/

namespace Doca.NatApp

open Doca.Common List

/-! ## Rules -/

structure NatRuleMatch where
  localIp : UInt32
  localPort : Int
  globalIp : UInt32
  globalPort : Int
  deriving DecidableEq

/-- A value of a JSON object: its type, and the bytes of a string. -/
inductive JsonValue where
  | string (text : List UInt8)
  | int (value : Int)
  | other

structure JsonRule where
  localIp : Option JsonValue
  localPort : Option JsonValue
  globalPort : Option JsonValue

structure PatJson where
  globalIp : Option JsonValue
  rules : Option (List JsonRule)

def createIp : Option JsonValue → Except DocaError UInt32
  | some (.string text) => parseIpv4Str text
  | _ => .error .invalidValue

def createPort : Option JsonValue → Except DocaError Int
  | some (.int value) => .ok value
  | _ => .error .invalidValue

def createPatRule (globalIp : UInt32) (rule : JsonRule) : Except DocaError NatRuleMatch := do
  let localIp ← createIp rule.localIp
  let localPort ← createPort rule.localPort
  let globalPort ← createPort rule.globalPort
  return ⟨localIp, localPort, globalIp, globalPort⟩

/-- `create_pat_mode_rules`; `alloc` tells whether `calloc` succeeds. -/
def createPatModeRules (alloc : Bool) (json : PatJson) : Except DocaError (List NatRuleMatch) := do
  let globalIp ← createIp json.globalIp
  match json.rules with
  | none => .error .invalidValue
  | some rules =>
    if alloc = false then .error .noMemory
    else rules.mapM (createPatRule globalIp)

/-! ## Pipes -/

structure PipeEntry where
  ip : UInt32
  port : UInt16
  newIp : UInt32
  newPort : UInt16
  deriving DecidableEq

def toPort (port : Int) : UInt16 := UInt16.ofNat (port % 65536).toNat

def QUEUE_DEPTH : Int := 256

/-- A call of `doca_flow_entries_process`: its result, whether `check_for_valid_entry` saw a failed
    entry, and for how many entries it was called. -/
structure Processed where
  result : DocaError
  isFailure : Bool
  nbProcessed : Int

/-- The answers of DOCA Flow: to the creation of the two pipes, to the processing of entries, and to the
    creation of the control pipe with its two entries. -/
structure FlowEnv where
  pipes : DocaError
  process : Nat → Int → Processed
  control : DocaError

structure LoopState where
  ruleid : UInt16
  tcp : List PipeEntry
  udp : List PipeEntry
  nbEntries : Int
  calls : Nat

def LoopState.start : LoopState := ⟨0, [], [], 0, 0⟩

variable (env : FlowEnv)

/-- The loop over the rules with their two entries each. `none`: it has not ended after `fuel` rounds. -/
def addRules (entries : NatRuleMatch → PipeEntry × PipeEntry)
    (rules : List NatRuleMatch) : Nat → LoopState → Option (Except DocaError LoopState)
  | 0, _ => none
  | fuel + 1, s =>
    match rules[s.ruleid.toNat]? with
    | none => some (.ok s)
    | some rule =>
      let (tcp, udp) := entries rule
      let s := { s with tcp := s.tcp ++ [tcp], udp := s.udp ++ [udp], nbEntries := s.nbEntries + 2 }
      if s.nbEntries = QUEUE_DEPTH then
        let status := env.process s.calls s.nbEntries
        if status.result ≠ .success then some (.error status.result)
        else if status.isFailure || status.nbProcessed = 0 then some (.error .badState)
        else
          addRules entries rules fuel { s with
            nbEntries := s.nbEntries - status.nbProcessed, calls := s.calls + 1, ruleid := s.ruleid + 1 }
      else addRules entries rules fuel { s with ruleid := s.ruleid + 1 }

def drain : Nat → Int → Nat → Option (Except DocaError Unit)
  | 0, _, _ => none
  | fuel + 1, left, calls =>
    if 0 < left then
      let status := env.process calls left
      if status.result ≠ .success then some (.error status.result)
      else if status.isFailure then some (.error .badState)
      else drain fuel (left - status.nbProcessed) (calls + 1)
    else some (.ok ())

inductive Proto where
  | tcp
  | udp
  deriving DecidableEq

structure NatPipes where
  tcp : List PipeEntry
  udp : List PipeEntry
  deriving DecidableEq

def NatPipes.table (pipes : NatPipes) : Proto → List PipeEntry
  | .tcp => pipes.tcp
  | .udp => pipes.udp

def buildPatPipe (entries : NatRuleMatch → PipeEntry × PipeEntry) (fuel : Nat)
    (rules : List NatRuleMatch) : Option (Except DocaError NatPipes) :=
  if env.pipes ≠ .success then some (.error env.pipes)
  else
    match addRules env entries rules fuel .start with
    | none => none
    | some (.error e) => some (.error e)
    | some (.ok s) =>
      match drain env fuel s.nbEntries s.calls with
      | none => none
      | some (.error e) => some (.error e)
      | some (.ok ()) =>
        if env.control ≠ .success then some (.error env.control) else some (.ok ⟨s.tcp, s.udp⟩)

def localEntries (rule : NatRuleMatch) : PipeEntry × PipeEntry :=
  (⟨rule.localIp, toPort rule.localPort, rule.globalIp, toPort rule.globalPort⟩,
    ⟨rule.localIp, toPort rule.localPort, rule.globalIp, toPort rule.globalPort⟩)

/-- The entries of `build_pat_global_pipe` for a rule: in the second one the match has the local port in
    `udp.l4_port.dst_port`, and the action the global one. -/
def globalEntries (rule : NatRuleMatch) : PipeEntry × PipeEntry :=
  (⟨rule.globalIp, toPort rule.globalPort, rule.localIp, toPort rule.localPort⟩,
    ⟨rule.globalIp, toPort rule.localPort, rule.localIp, toPort rule.globalPort⟩)

def buildPatLocalPipe (fuel : Nat) (rules : List NatRuleMatch) :
    Option (Except DocaError NatPipes) := buildPatPipe env localEntries fuel rules

def buildPatGlobalPipe (fuel : Nat) (rules : List NatRuleMatch) :
    Option (Except DocaError NatPipes) := buildPatPipe env globalEntries fuel rules

/-! ## Packets -/

structure Packet where
  proto : Proto
  srcIp : UInt32
  srcPort : UInt16
  dstIp : UInt32
  dstPort : UInt16
  deriving DecidableEq

def LanOut (pipes : NatPipes) (p p' : Packet) : Prop :=
  ∃ e ∈ pipes.table p.proto, e.ip = p.srcIp ∧ e.port = p.srcPort ∧
    p' = { p with srcIp := e.newIp, srcPort := e.newPort }

def WanOut (pipes : NatPipes) (q q' : Packet) : Prop :=
  ∃ e ∈ pipes.table q.proto, e.ip = q.dstIp ∧ e.port = q.dstPort ∧
    q' = { q with dstIp := e.newIp, dstPort := e.newPort }

variable (rules : List NatRuleMatch)

/-- Packets that match a rule go out, and what is sent back to their new source arrives at the old
    one. -/
def RepliesTranslated (lan wan : NatPipes) : Prop :=
  ∀ r ∈ rules, ∀ p : Packet, p.srcIp = r.localIp → p.srcPort = toPort r.localPort →
    (∃ p', LanOut lan p p') ∧ ∀ p', LanOut lan p p' →
      ∀ q : Packet, q.proto = p.proto → q.dstIp = p'.srcIp → q.dstPort = p'.srcPort →
        (∃ q', WanOut wan q q') ∧
          ∀ q', WanOut wan q q' → q' = { q with dstIp := p.srcIp, dstPort := p.srcPort }

def StrangersDropped (wan : NatPipes) : Prop :=
  ∀ q : Packet, (∀ r ∈ rules, ¬ (q.dstIp = r.globalIp ∧ q.dstPort = toPort r.globalPort)) →
    ∀ q', ¬ WanOut wan q q'

def PatCorrect : Prop :=
  ∃ fuel lan wan, buildPatLocalPipe env fuel rules = some (.ok lan) ∧
    buildPatGlobalPipe env fuel rules = some (.ok wan) ∧
      RepliesTranslated rules lan wan ∧ StrangersDropped rules wan

/-! ## The loop -/

section Loop

variable {env : FlowEnv} {entries : NatRuleMatch → PipeEntry × PipeEntry} {rules : List NatRuleMatch}
variable {s s' : LoopState}

variable {fuel : Nat}

theorem drop_of_getElem? {i : Nat} {rule : NatRuleMatch} (h : rules[i]? = some rule) :
    rules.drop i = rule :: rules.drop (i + 1) := by
  obtain ⟨hlt, hrule⟩ := List.getElem?_eq_some_iff.mp h
  rw [drop_eq_getElem_cons hlt, hrule]

theorem toNat_succ {id : UInt16} (h : id.toNat < 65535) : (id + 1).toNat = id.toNat + 1 := by
  rw [UInt16.toNat_add, UInt16.toNat_one]
  omega

/-- If the loop ends, the index has reached the number of rules, and the loop has added the entries of
    all of them, in order. -/
theorem addRules_spec (h : addRules env entries rules fuel s = some (.ok s')) : rules.length ≤ 65535 ∧
      s'.tcp = s.tcp ++ (rules.drop s.ruleid.toNat).map (fun r => (entries r).1) ∧
      s'.udp = s.udp ++ (rules.drop s.ruleid.toNat).map (fun r => (entries r).2) := by
  induction fuel generalizing s with
  | zero => cases h
  | succ fuel ih =>
    unfold addRules at h
    split at h
    · rename_i hnone
      have hlen := getElem?_eq_none_iff.mp hnone
      have hlt := s.ruleid.toNat_lt
      cases h
      rw [drop_eq_nil_of_le hlen]
      exact ⟨by omega, (append_nil _).symm, (append_nil _).symm⟩
    · rename_i rule hrule
      have hlt := (List.getElem?_eq_some_iff.mp hrule).1
      obtain ⟨t, ht, hid, htcp, hudp⟩ : ∃ t, addRules env entries rules fuel t = some (.ok s') ∧
          t.ruleid = s.ruleid + 1 ∧ t.tcp = s.tcp ++ [(entries rule).1] ∧
          t.udp = s.udp ++ [(entries rule).2] := by
        dsimp only at h
        split at h
        · split at h
          · cases h
          split at h
          · cases h
          · exact ⟨_, h, rfl, rfl, rfl⟩
        · exact ⟨_, h, rfl, rfl, rfl⟩
      obtain ⟨hlen, h1, h2⟩ := ih ht
      rw [h1, h2, hid, toNat_succ (by omega), htcp, hudp, drop_of_getElem? hrule, map_cons,
        map_cons, append_assoc, append_assoc, singleton_append,
        singleton_append]
      exact ⟨hlen, rfl, rfl⟩

structure FlowEnv.Works (env : FlowEnv) : Prop where
  pipes : env.pipes = .success
  process : ∀ calls n, env.process calls n = ⟨.success, false, n⟩
  control : env.control = .success

theorem addRules_ends (hworks : env.Works) (hlen : rules.length ≤ 65535) (fuel : Nat)
    (hfuel : rules.length < fuel + s.ruleid.toNat) (hid : s.ruleid.toNat ≤ rules.length) :
    ∃ s', addRules env entries rules fuel s = some (.ok s') := by
  induction fuel generalizing s with
  | zero => omega
  | succ fuel ih =>
    unfold addRules
    split
    · exact ⟨s, rfl⟩
    · rename_i rule hrule
      have hlt := (List.getElem?_eq_some_iff.mp hrule).1
      have hnext : (s.ruleid + 1).toNat = s.ruleid.toNat + 1 := toNat_succ (by omega)
      have step : ∀ {t : LoopState}, t.ruleid = s.ruleid + 1 →
          ∃ s', addRules env entries rules fuel t = some (.ok s') := by
        intro t ht
        refine ih ?_ ?_
        · rw [ht, hnext]
          omega
        · rw [ht, hnext]
          omega
      dsimp only
      split
      · rename_i hfull
        rw [hworks.process, hfull]
        dsimp only
        rw [if_neg (not_not.mpr rfl), if_neg (by decide)]
        exact step rfl
      · exact step rfl

theorem drain_ends (hworks : env.Works) (left : Int) (calls fuel : Nat) :
    drain env (fuel + 2) left calls = some (.ok ()) := by
  unfold drain
  split
  · rw [hworks.process]
    dsimp only
    rw [if_neg (not_not.mpr rfl), if_neg Bool.false_ne_true, Int.sub_self]
    unfold drain
    rw [if_neg (Int.lt_irrefl 0)]
  · rfl

theorem buildPatPipe_ok {pipes : NatPipes} (h : buildPatPipe env entries fuel rules = some (.ok pipes)) :
    rules.length ≤ 65535 ∧
      pipes = ⟨rules.map fun r => (entries r).1, rules.map fun r => (entries r).2⟩ := by
  unfold buildPatPipe at h
  split at h
  · cases h
  split at h
  · cases h
  · cases h
  · rename_i s hadd
    obtain ⟨hlen, htcp, hudp⟩ := addRules_spec hadd
    split at h
    · cases h
    · cases h
    split at h
    · cases h
    · cases h
      rw [htcp, hudp]
      exact ⟨hlen, rfl⟩

theorem buildPatPipe_builds (hworks : env.Works) (hlen : rules.length ≤ 65535) :
    buildPatPipe env entries (rules.length + 2) rules =
      some (.ok ⟨rules.map fun r => (entries r).1, rules.map fun r => (entries r).2⟩) := by
  have hends : ∃ s, addRules env entries rules (rules.length + 2) .start = some (.ok s) :=
    addRules_ends hworks hlen _ (by omega) (Nat.zero_le _)
  obtain ⟨s, hs⟩ := hends
  have hbuilt : ∃ pipes, buildPatPipe env entries (rules.length + 2) rules = some (.ok pipes) := by
    refine ⟨⟨s.tcp, s.udp⟩, ?_⟩
    unfold buildPatPipe
    rw [if_neg (not_not.mpr hworks.pipes), hs]
    dsimp only
    rw [drain_ends hworks]
    dsimp only
    rw [if_neg (not_not.mpr hworks.control)]
  obtain ⟨pipes, hpipes⟩ := hbuilt
  rw [hpipes, (buildPatPipe_ok hpipes).2]

end Loop

/-! ## Translation -/

section Translation

variable {rules : List NatRuleMatch} {r q : NatRuleMatch}

def PortsOk (r : NatRuleMatch) : Prop :=
  (0 ≤ r.localPort ∧ r.localPort ≤ 65535) ∧ 0 ≤ r.globalPort ∧ r.globalPort ≤ 65535

theorem toPort_inj {a b : Int} (ha : 0 ≤ a ∧ a ≤ 65535) (hb : 0 ≤ b ∧ b ≤ 65535)
    (h : toPort a = toPort b) : a = b := by
  have hnat : (toPort a).toNat = (toPort b).toNat := congrArg UInt16.toNat h
  rw [toPort, toPort, UInt16.toNat_ofNat', UInt16.toNat_ofNat'] at hnat
  omega

def NatRuleMatch.localPair (r : NatRuleMatch) : UInt32 × Int := (r.localIp, r.localPort)

def NatRuleMatch.globalPair (r : NatRuleMatch) : UInt32 × Int := (r.globalIp, r.globalPort)

def NatRuleMatch.swapPorts (r : NatRuleMatch) : NatRuleMatch :=
  { r with localPort := r.globalPort, globalPort := r.localPort }

/-- With a rule there is the one with exchanged ports, and that is the only one that has its global
    port as local port. -/
def UdpSymmetric (rules : List NatRuleMatch) : Prop :=
  ∀ r ∈ rules, r.swapPorts ∈ rules ∧
    ∀ q ∈ rules, q.globalIp = r.globalIp → q.localPort = r.globalPort → q = r.swapPorts

theorem eq_of_localPair (hlocal : (rules.map NatRuleMatch.localPair).Nodup) (hr : r ∈ rules)
    (hq : q ∈ rules) (hip : q.localIp = r.localIp) (hport : q.localPort = r.localPort) : q = r :=
  inj_on_of_nodup_map hlocal hq hr (Prod.ext hip hport)

theorem eq_of_globalPair (hglobal : (rules.map NatRuleMatch.globalPair).Nodup) (hr : r ∈ rules)
    (hq : q ∈ rules) (hip : q.globalIp = r.globalIp) (hport : q.globalPort = r.globalPort) : q = r :=
  inj_on_of_nodup_map hglobal hq hr (Prod.ext hip hport)

def lanPipes (rules : List NatRuleMatch) : NatPipes :=
  ⟨rules.map fun r => (localEntries r).1, rules.map fun r => (localEntries r).2⟩

def wanPipes (rules : List NatRuleMatch) : NatPipes :=
  ⟨rules.map fun r => (globalEntries r).1, rules.map fun r => (globalEntries r).2⟩

variable {p p' : Packet}

theorem lanOut_iff : LanOut (lanPipes rules) p p' ↔
    ∃ r ∈ rules, r.localIp = p.srcIp ∧ toPort r.localPort = p.srcPort ∧
      p' = { p with srcIp := r.globalIp, srcPort := toPort r.globalPort } := by
  unfold LanOut
  cases hproto : p.proto
  · simp [NatPipes.table, lanPipes, localEntries]
  · simp [NatPipes.table, lanPipes, localEntries]

theorem wanOut_tcp (hproto : p.proto = .tcp) : WanOut (wanPipes rules) p p' ↔
    ∃ r ∈ rules, r.globalIp = p.dstIp ∧ toPort r.globalPort = p.dstPort ∧
      p' = { p with dstIp := r.localIp, dstPort := toPort r.localPort } := by
  unfold WanOut
  rw [hproto]
  simp [NatPipes.table, wanPipes, globalEntries]

theorem wanOut_udp (hproto : p.proto = .udp) : WanOut (wanPipes rules) p p' ↔
    ∃ r ∈ rules, r.globalIp = p.dstIp ∧ toPort r.localPort = p.dstPort ∧
      p' = { p with dstIp := r.localIp, dstPort := toPort r.globalPort } := by
  unfold WanOut
  rw [hproto]
  simp [NatPipes.table, wanPipes, globalEntries]

variable (hports : ∀ r ∈ rules, PortsOk r)

include hports

theorem lanOut_rule (hlocal : (rules.map NatRuleMatch.localPair).Nodup) (hr : r ∈ rules) (hip : p.srcIp = r.localIp)
    (hport : p.srcPort = toPort r.localPort) :
    LanOut (lanPipes rules) p p' ↔
      p' = { p with srcIp := r.globalIp, srcPort := toPort r.globalPort } := by
  rw [lanOut_iff]
  constructor
  · rintro ⟨q, hq, hqip, hqport, rfl⟩
    have hlp : q.localPort = r.localPort :=
      toPort_inj (hports q hq).1 (hports r hr).1 (hqport.trans hport)
    rw [eq_of_localPair hlocal hr hq (hqip.trans hip) hlp]
  · intro hp
    exact ⟨r, hr, hip.symm, hport.symm, hp⟩

theorem wanOut_rule (hglobal : (rules.map NatRuleMatch.globalPair).Nodup) (hsym : UdpSymmetric rules)
    (hr : r ∈ rules) (hip : p.dstIp = r.globalIp) (hport : p.dstPort = toPort r.globalPort) :
    WanOut (wanPipes rules) p p' ↔ p' = { p with dstIp := r.localIp, dstPort := toPort r.localPort } := by
  obtain hproto | hproto : p.proto = .tcp ∨ p.proto = .udp := by
    cases p.proto <;> simp
  · rw [wanOut_tcp hproto]
    refine ⟨?_, fun hp => ⟨r, hr, hip.symm, hport.symm, hp⟩⟩
    rintro ⟨q, hq, hqip, hqport, rfl⟩
    have hgp : q.globalPort = r.globalPort :=
      toPort_inj (hports q hq).2 (hports r hr).2 (hqport.trans hport)
    rw [eq_of_globalPair hglobal hr hq (hqip.trans hip) hgp]
  · rw [wanOut_udp hproto]
    refine ⟨?_, fun hp => ⟨r.swapPorts, (hsym r hr).1, hip.symm, hport.symm, hp⟩⟩
    rintro ⟨q, hq, hqip, hqport, rfl⟩
    have hlp : q.localPort = r.globalPort :=
      toPort_inj (hports q hq).1 (hports r hr).2 (hqport.trans hport)
    rw [(hsym r hr).2 q hq (hqip.trans hip) hlp]
    rfl

theorem repliesTranslated_of_symmetric (hlocal : (rules.map NatRuleMatch.localPair).Nodup)
    (hglobal : (rules.map NatRuleMatch.globalPair).Nodup)
    (hsym : UdpSymmetric rules) : RepliesTranslated rules (lanPipes rules) (wanPipes rules) := by
  intro r hr p hip hport
  have hlan : ∀ p', LanOut (lanPipes rules) p p' ↔
      p' = { p with srcIp := r.globalIp, srcPort := toPort r.globalPort } :=
    fun p' => lanOut_rule hports hlocal hr hip hport
  refine ⟨⟨_, (hlan _).mpr rfl⟩, fun p' hp' q hproto hqip hqport => ?_⟩
  rw [(hlan p').mp hp'] at hqip hqport
  have hwan : ∀ q', WanOut (wanPipes rules) q q' ↔
      q' = { q with dstIp := r.localIp, dstPort := toPort r.localPort } :=
    fun q' => wanOut_rule hports hglobal hsym hr hqip hqport
  refine ⟨⟨_, (hwan _).mpr rfl⟩, fun q' hq' => ?_⟩
  rw [(hwan q').mp hq', hip, hport]

omit hports in
theorem strangersDropped_of_symmetric (hsym : UdpSymmetric rules) :
    StrangersDropped rules (wanPipes rules) := by
  intro q hstranger q' hq'
  cases hproto : q.proto with
  | tcp =>
    obtain ⟨r, hr, hip, hport, _⟩ := (wanOut_tcp hproto).mp hq'
    exact hstranger r hr ⟨hip.symm, hport.symm⟩
  | udp =>
    obtain ⟨r, hr, hip, hport, _⟩ := (wanOut_udp hproto).mp hq'
    exact hstranger r.swapPorts (hsym r hr).1 ⟨hip.symm, hport.symm⟩

theorem symmetric_of_repliesTranslated
    (h : RepliesTranslated rules (lanPipes rules) (wanPipes rules)) : UdpSymmetric rules := by
  intro r hr
  let p : Packet := ⟨.udp, r.localIp, toPort r.localPort, 0, 0⟩
  let reply : Packet := ⟨.udp, 0, 0, r.globalIp, toPort r.globalPort⟩
  have hout : LanOut (lanPipes rules) p { p with srcIp := r.globalIp, srcPort := toPort r.globalPort } :=
    lanOut_iff.mpr ⟨r, hr, rfl, rfl, rfl⟩
  obtain ⟨hsome, hall⟩ := (h r hr p rfl rfl).2 _ hout reply rfl rfl rfl
  -- whatever rule rewrites the reply is the one with exchanged ports
  have honly : ∀ q ∈ rules, q.globalIp = r.globalIp → toPort q.localPort = toPort r.globalPort →
      q = r.swapPorts := by
    intro q hq hip hport
    have hrewritten := hall _ ((wanOut_udp rfl).mpr ⟨q, hq, hip, hport, rfl⟩)
    have hlip : q.localIp = r.localIp := congrArg Packet.dstIp hrewritten
    have hgp : q.globalPort = r.localPort :=
      toPort_inj (hports q hq).2 (hports r hr).1 (congrArg Packet.dstPort hrewritten)
    have hlp : q.localPort = r.globalPort := toPort_inj (hports q hq).1 (hports r hr).2 hport
    rw [NatRuleMatch.swapPorts, ← hlip, ← hip, ← hgp, ← hlp]
  refine ⟨?_, fun q hq hip hport => honly q hq hip (congrArg toPort hport)⟩
  obtain ⟨q', hq'⟩ := hsome
  obtain ⟨q, hq, hip, hport, _⟩ := (wanOut_udp rfl).mp hq'
  exact honly q hq hip hport ▸ hq

omit hports

/-- **Replies are translated back and strangers dropped exactly if there are at most 65535 rules and
    they are symmetric in their ports.** -/
theorem pat_correct_iff {env : FlowEnv} (hworks : env.Works)
    (hlocal : (rules.map NatRuleMatch.localPair).Nodup)
    (hglobal : (rules.map NatRuleMatch.globalPair).Nodup) (hports : ∀ r ∈ rules, PortsOk r) :
    PatCorrect env rules ↔ rules.length ≤ 65535 ∧ UdpSymmetric rules := by
  constructor
  · rintro ⟨fuel, lan, wan, hlan, hwan, hreplies, _⟩
    obtain ⟨hlen, rfl⟩ := buildPatPipe_ok hlan
    obtain ⟨_, rfl⟩ := buildPatPipe_ok hwan
    exact ⟨hlen, symmetric_of_repliesTranslated hports hreplies⟩
  · rintro ⟨hlen, hsym⟩
    exact ⟨rules.length + 2, lanPipes rules, wanPipes rules, buildPatPipe_builds hworks hlen,
      buildPatPipe_builds hworks hlen, repliesTranslated_of_symmetric hports hlocal hglobal hsym,
      strangersDropped_of_symmetric hsym⟩

/-! ## Rules from a file -/

theorem createPatRule_globalIp {ip : UInt32} {rule : JsonRule} (h : createPatRule ip rule = .ok r) :
    r.globalIp = ip := by
  unfold createPatRule at h
  cases hip : createIp rule.localIp <;> rw [hip] at h
  · cases h
  cases hlp : createPort rule.localPort <;> rw [hlp] at h
  · cases h
  cases hgp : createPort rule.globalPort <;> rw [hgp] at h <;> cases h
  rfl

theorem mapM_createPatRule_globalIp {ip : UInt32} {file : List JsonRule}
    (h : file.mapM (createPatRule ip) = .ok rules) : ∀ r ∈ rules, r.globalIp = ip := by
  induction file generalizing rules with
  | nil =>
    cases h
    exact forall_mem_nil _
  | cons rule file ih =>
    rw [mapM_cons] at h
    cases hfirst : createPatRule ip rule <;> rw [hfirst] at h
    · cases h
    cases hrest : file.mapM (createPatRule ip) <;> rw [hrest] at h <;> cases h
    exact List.forall_mem_cons.mpr ⟨createPatRule_globalIp hfirst, ih hrest⟩

theorem createPatModeRules_globalIp {alloc : Bool} {json : PatJson}
    (h : createPatModeRules alloc json = .ok rules) : ∃ ip, ∀ r ∈ rules, r.globalIp = ip := by
  unfold createPatModeRules at h
  cases hip : createIp json.globalIp <;> rw [hip] at h
  · cases h
  dsimp only [bind, Except.bind] at h
  split at h
  · cases h
  · split at h
    · cases h
    · exact ⟨_, mapM_createPatRule_globalIp h⟩

/-- For the rules of a file, only the ports matter. -/
theorem udpSymmetric_of_file {alloc : Bool} {json : PatJson}
    (h : createPatModeRules alloc json = .ok rules) : UdpSymmetric rules ↔
      ∀ r ∈ rules, r.swapPorts ∈ rules ∧ ∀ q ∈ rules, q.localPort = r.globalPort → q = r.swapPorts := by
  obtain ⟨ip, hip⟩ := createPatModeRules_globalIp h
  refine forall₂_congr fun r hr => and_congr_right fun _ => forall₂_congr fun q hq => ?_
  exact forall_prop_of_true ((hip q hq).trans (hip r hr).symm)

end Translation

/-! ## Examples -/

def workingFlow : FlowEnv := ⟨.success, fun _ n => ⟨.success, false, n⟩, .success⟩

theorem workingFlow_works : workingFlow.Works := ⟨rfl, fun _ _ => rfl, rfl⟩

theorem pat_correct_iff_keeping : PatCorrect workingFlow [⟨1, 80, 9, 80⟩, ⟨2, 443, 9, 443⟩] := by
  refine (pat_correct_iff workingFlow_works (by decide) (by decide) ?_).mpr ⟨by decide, ?_⟩
  · intro r hr
    simp only [mem_cons, not_mem_nil, or_false] at hr
    rcases hr with rfl | rfl <;> exact ⟨⟨by decide, by decide⟩, by decide, by decide⟩
  · unfold UdpSymmetric
    decide

/-- **UDP replies get lost**, and a packet for port 1000 at address 9 is let in. -/
theorem pat_udp_lost : ∃ lan wan, buildPatLocalPipe workingFlow 3 [⟨1, 1000, 9, 2000⟩] = some (.ok lan) ∧
    buildPatGlobalPipe workingFlow 3 [⟨1, 1000, 9, 2000⟩] = some (.ok wan) ∧
    LanOut lan ⟨.udp, 1, 1000, 7, 53⟩ ⟨.udp, 9, 2000, 7, 53⟩ ∧
    (∀ q', ¬ WanOut wan ⟨.udp, 7, 53, 9, 2000⟩ q') ∧
    WanOut wan ⟨.udp, 7, 53, 9, 1000⟩ ⟨.udp, 7, 53, 1, 2000⟩ := by
  refine ⟨_, _, rfl, rfl, ⟨_, mem_singleton_self _, rfl, rfl, rfl⟩, ?_,
    ⟨_, mem_singleton_self _, rfl, rfl, rfl⟩⟩
  rintro q' ⟨e, he, _, hport, _⟩
  rw [List.mem_singleton.mp he] at hport
  exact absurd hport (by decide)

end Doca.NatApp
