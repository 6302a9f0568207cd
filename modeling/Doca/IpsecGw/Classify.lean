import Doca.IpsecGw.DynamicRules

/-!
# Classification of IPv6 packets

Outside of the bandwidth mode an unsecured IPv6 packet passes two pipes: one finds its source address
and writes a number into `meta.u32[0]`, the next one matches that number, the destination address and
the ports, and writes the index of the rule.  `add_five_tuple_match_entry` fills both.

* `Packet6`, `srcPipe`, `tuplePipe` — a packet and its way through the pipes (`add_control_pipe_entries`,
  the forward of `create_ipsec_src_ip6_pipe`).
* `ruleIds` — the rule indices that matching entries write.  A packet may hit several entries of one
  pipe, if their matches are the same.
* `classifyStep` — one insertion; a run is a list of insertions in any order.

The number in `meta.u32[0]` is the position of the *destination* in the table of addresses, so it does
not tell sources apart.

Principal results: `mem_ruleIds_iff`, `classified_iff`.
-/

namespace Doca.IpsecGw

open Doca.Lib List

/-! ## Packets and pipes -/

structure Packet6 where
  protocol : L4TypeExt
  srcIp : Ip6Addr
  dstIp : Ip6Addr
  srcPort : UInt16
  dstPort : UInt16
  deriving DecidableEq

def srcPipe : L4TypeExt → Option Pipe
  | .tcp => some .ipv6SrcTcp
  | .udp => some .ipv6SrcUdp
  | .none => none

def tuplePipe : L4TypeExt → Option Pipe
  | .tcp => some .ipv6Tcp
  | .udp => some .ipv6Udp
  | .none => none

variable (entries : List PipeEntry) (pkt : Packet6)

def srcHits : List UInt32 :=
  (entries.filter fun e =>
    srcPipe pkt.protocol = some e.pipe ∧ e.mtch.srcIp6 = pkt.srcIp).map fun e => e.actions.metaU32

def tupleHits (metaU32 : UInt32) : List Nat :=
  (entries.filter fun e =>
    tuplePipe pkt.protocol = some e.pipe ∧ e.mtch.metaU32 = metaU32 ∧ e.mtch.dstIp6 = pkt.dstIp ∧
      e.mtch.srcPort = pkt.srcPort ∧ e.mtch.dstPort = pkt.dstPort).map PipeEntry.ruleIdx

def ruleIds : List Nat :=
  (srcHits entries pkt).flatMap (tupleHits entries pkt)

def EncryptRule.Describes (rule : EncryptRule) (pkt : Packet6) : Prop :=
  rule.protocol = pkt.protocol ∧ rule.srcIp6 = pkt.srcIp ∧ rule.dstIp6 = pkt.dstIp ∧
    rule.srcPort = pkt.srcPort.toNat ∧ rule.dstPort = pkt.dstPort.toNat

def EncryptRule.tuple6 (rule : EncryptRule) : L4TypeExt × Ip6Addr × Ip6Addr × Int × Int :=
  (rule.protocol, rule.srcIp6, rule.dstIp6, rule.srcPort, rule.dstPort)

/-- What the pipes are for: no two entries of a pipe contradict each other, a packet of a rule leaves
    with its index, any other matches nothing. -/
structure Classified (rules : List EncryptRule) (entries : List PipeEntry) : Prop where
  noConflict : ∀ e ∈ entries, ∀ e' ∈ entries, e.pipe = e'.pipe → e.mtch = e'.mtch → e.actions = e'.actions
  hit : ∀ i rule pkt, rules[i]? = some rule → rule.Describes pkt →
    ruleIds entries pkt ≠ [] ∧ ∀ id ∈ ruleIds entries pkt, id = i
  miss : ∀ pkt, (∀ rule ∈ rules, ¬ rule.Describes pkt) → ruleIds entries pkt = []

/-! ## Insertion -/

/-- A call of `add_five_tuple_match_entry`: the number of the rule, and what the caller passes along. -/
structure ClassifyCall where
  ruleNo : Nat
  env : FlowEnv
  nbRules : Nat
  status : EntriesStatus

section Runs

variable {Table : Type} (hash : RteHash Table) (table : Table) (cfg : Config)
variable (rules : List EncryptRule)

def classifyStep (s : Flow) (c : ClassifyCall) : Option Flow := do
  let rule ← rules[c.ruleNo]?
  match addFiveTupleMatchEntry c.env hash table cfg rule c.nbRules c.ruleNo c.status s with
  | some (.ok _, s') => some s'
  | _ => none

def ruleAddrs : List Ip6Addr := rules.flatMap fun rule => [rule.srcIp6, rule.dstIp6]

/-- IPv6 rules outside of the bandwidth mode, and a table with a position for each of their addresses. -/
structure Ip6Rules : Prop where
  noBw : cfg.isPerfBw = false
  ip6 : ∀ rule ∈ rules, rule.l3Type = .ip6
  protocol : ∀ rule ∈ rules, rule.protocol ≠ .none
  distinct : (rules.map EncryptRule.tuple6).Nodup
  atMost : rules.length ≤ MAX_NB_RULES
  position : ∀ a ∈ ruleAddrs rules, 0 ≤ hash.lookup table a ∧ hash.lookup table a < 2147483648
  injective : ∀ a ∈ ruleAddrs rules, ∀ b ∈ ruleAddrs rules,
    hash.lookup table a = hash.lookup table b → a = b

variable {hash table cfg rules}

theorem classifyStep_adds {s s' : Flow} {c : ClassifyCall}
    (h : classifyStep hash table cfg rules s c = some s') :
    ∃ rule, rules[c.ruleNo]? = some rule ∧
      Adds s s' (classifyEntries hash table cfg rule c.ruleNo) [] := by
  simp only [classifyStep, Option.bind_eq_bind, Option.bind_eq_some_iff] at h
  obtain ⟨rule, hrule, h⟩ := h
  split at h
  · rename_i st t hcall
    cases h
    exact ⟨rule, hrule, addFiveTupleMatchEntry_ok hcall⟩
  · cases h

theorem mem_entries_of_run {calls : List ClassifyCall} {e : PipeEntry} :
    ∀ {s s' : Flow}, run (classifyStep hash table cfg rules) s calls = some s' →
      (e ∈ s'.entries ↔ e ∈ s.entries ∨ ∃ i ∈ calls.map ClassifyCall.ruleNo, ∃ rule,
        rules[i]? = some rule ∧ e ∈ classifyEntries hash table cfg rule i) := by
  induction calls with
  | nil =>
    intro s s' h
    cases h
    simp
  | cons c calls ih =>
    intro s s' h
    simp only [run, Option.bind_eq_some_iff] at h
    obtain ⟨t, hstep, hrun⟩ := h
    obtain ⟨rule, hrule, hadds⟩ := classifyStep_adds hstep
    rw [ih hrun, hadds.entries_eq, mem_append, map_cons, or_assoc]
    refine or_congr_right ?_
    constructor
    · rintro (he | ⟨i, hi, hex⟩)
      · exact ⟨c.ruleNo, mem_cons_self .., rule, hrule, he⟩
      · exact ⟨i, mem_cons_of_mem _ hi, hex⟩
    · rintro ⟨i, hi, rule', hrule', he⟩
      rcases mem_cons.mp hi with rfl | hi
      · rw [hrule] at hrule'
        cases hrule'
        exact .inl he
      · exact .inr ⟨i, hi, rule', hrule', he⟩

end Runs

/-! ## The pipes of a rule -/

variable {rule : EncryptRule}

theorem srcPipe_eq_iff (hp : rule.protocol ≠ .none) (p : L4TypeExt) :
    srcPipe p = some (getPipeForRule rule true) ↔ rule.protocol = p := by
  cases hr : rule.protocol with
  | none => exact absurd hr hp
  | tcp | udp => cases p <;> simp [srcPipe, getPipeForRule, hr]

theorem tuplePipe_eq_iff (h6 : rule.l3Type = .ip6) (hp : rule.protocol ≠ .none) (p : L4TypeExt) :
    tuplePipe p = some (getPipeForRule rule false) ↔ rule.protocol = p := by
  cases hr : rule.protocol with
  | none => exact absurd hr hp
  | tcp | udp => cases p <;> simp [tuplePipe, getPipeForRule, hr, h6]

theorem srcPipe_ne_tuple (rule : EncryptRule) (p : L4TypeExt) :
    srcPipe p ≠ some (getPipeForRule rule false) := by
  unfold getPipeForRule
  cases p <;> simp only [srcPipe, Bool.false_eq_true, if_false] <;> split_ifs <;> simp

theorem tuplePipe_ne_src (rule : EncryptRule) (p : L4TypeExt) :
    tuplePipe p ≠ some (getPipeForRule rule true) := by
  unfold getPipeForRule
  cases p <;> simp only [tuplePipe, if_true] <;> split_ifs <;> simp

theorem getPipeForRule_src_ne_tuple (rule rule' : EncryptRule) :
    getPipeForRule rule true ≠ getPipeForRule rule' false := by
  unfold getPipeForRule
  simp only [if_true, Bool.false_eq_true, if_false]
  split_ifs <;> simp

theorem getPipeForRule_src_inj {rule' : EncryptRule} (hp : rule.protocol ≠ .none)
    (hp' : rule'.protocol ≠ .none) (h : getPipeForRule rule true = getPipeForRule rule' true) :
    rule.protocol = rule'.protocol := by
  have hs := (srcPipe_eq_iff hp' rule'.protocol).mpr rfl
  rw [← h] at hs
  exact (srcPipe_eq_iff hp _).mp hs

theorem getPipeForRule_tuple_inj {rule' : EncryptRule} (h6 : rule.l3Type = .ip6)
    (h6' : rule'.l3Type = .ip6) (hp : rule.protocol ≠ .none) (hp' : rule'.protocol ≠ .none)
    (h : getPipeForRule rule false = getPipeForRule rule' false) :
    rule.protocol = rule'.protocol := by
  have hs := (tuplePipe_eq_iff h6' hp' rule'.protocol).mpr rfl
  rw [← h] at hs
  exact (tuplePipe_eq_iff h6 hp _).mp hs

/-! ## Numbers in machine words -/

theorem toNat_ofInt16 (x : Int) : ((UInt16.ofInt x).toNat : Int) = x % 65536 := by
  rw [UInt16.ofInt, UInt16.toNat_ofNat']
  omega

theorem toNat_ofInt32 (x : Int) : ((UInt32.ofInt x).toNat : Int) = x % 4294967296 := by
  rw [UInt32.ofInt, UInt32.toNat_ofNat']
  omega

def PortInRange (port : Int) : Prop := 0 ≤ port ∧ port < 65536

variable {x : Int}

theorem ofInt16_eq_iff (hx : PortInRange x) (p : UInt16) : UInt16.ofInt x = p ↔ x = p.toNat := by
  have hv := toNat_ofInt16 x
  obtain ⟨h0, h1⟩ := hx
  constructor
  · rintro rfl
    omega
  · intro h
    apply UInt16.toNat_inj.mp
    omega

theorem ofInt16_inj {y : Int} (hx : PortInRange x) (hy : PortInRange y)
    (h : UInt16.ofInt x = UInt16.ofInt y) : x = y := by
  rw [(ofInt16_eq_iff hx _).mp h]
  exact ((ofInt16_eq_iff hy _).mp rfl).symm

theorem portInRange_of_eq_toNat {p : UInt16} (h : x = p.toNat) : PortInRange x := by
  have hlt := p.toNat_lt
  constructor <;> omega

/-! ## Which rules a packet hits -/

section Hits

variable {Table : Type} (hash : RteHash Table) (table : Table)

/-- The number that stands for the source address of a rule: the position of its destination. -/
def dstPosition (rule : EncryptRule) : UInt32 := UInt32.ofInt (hash.lookup table rule.dstIp6)

def HoldsRules (rules : List EncryptRule) (entries : List PipeEntry) : Prop :=
  ∀ e, e ∈ entries ↔ ∃ i rule, rules[i]? = some rule ∧
    (e = srcIp6Entry rule (dstPosition hash table rule) ∨
      e = fiveTupleEntry rule (dstPosition hash table rule) i)

variable {hash table} {cfg : Config} {rules : List EncryptRule} {entries : List PipeEntry}

theorem holdsRules_of_run (hr : Ip6Rules hash table cfg rules) {calls : List ClassifyCall} {s : Flow}
    (horder : (calls.map ClassifyCall.ruleNo).Perm (range rules.length))
    (hrun : run (classifyStep hash table cfg rules) Flow.empty calls = some s) :
    HoldsRules hash table rules s.entries := by
  intro e
  rw [mem_entries_of_run hrun]
  have hentries : ∀ i rule, rules[i]? = some rule → (e ∈ classifyEntries hash table cfg rule i ↔
        (e = srcIp6Entry rule (dstPosition hash table rule) ∨
          e = fiveTupleEntry rule (dstPosition hash table rule) i)) := by
    intro i rule hrule
    have hsplit : splitsSourceIp cfg rule = true := by
      simp [splitsSourceIp, hr.noBw, hr.ip6 rule (mem_of_getElem? hrule)]
    simp [classifyEntries, srcIpId, hsplit, dstPosition]
  constructor
  · rintro (h | ⟨i, _, rule, hrule, he⟩)
    · cases h
    · exact ⟨i, rule, hrule, (hentries i rule hrule).mp he⟩
  · rintro ⟨i, rule, hrule, he⟩
    refine .inr ⟨i, ?_, rule, hrule, (hentries i rule hrule).mpr he⟩
    rw [horder.mem_iff, mem_range]
    exact (List.getElem?_eq_some_iff.mp hrule).1

variable {rule : EncryptRule}

theorem dstPosition_eq_iff (hr : Ip6Rules hash table cfg rules) {rule' : EncryptRule}
    (h : rule ∈ rules) (h' : rule' ∈ rules) :
    dstPosition hash table rule = dstPosition hash table rule' ↔ rule.dstIp6 = rule'.dstIp6 := by
  have hmem : ∀ r ∈ rules, r.dstIp6 ∈ ruleAddrs rules := by
    intro r hin
    exact mem_flatMap.mpr ⟨r, hin, by simp⟩
  constructor
  · intro heq
    obtain ⟨h0, h1⟩ := hr.position _ (hmem rule h)
    obtain ⟨h0', h1'⟩ := hr.position _ (hmem rule' h')
    apply hr.injective _ (hmem rule h) _ (hmem rule' h')
    have hv := toNat_ofInt32 (hash.lookup table rule.dstIp6)
    have hv' := toNat_ofInt32 (hash.lookup table rule'.dstIp6)
    have hnat := congrArg UInt32.toNat heq
    simp only [dstPosition] at hnat
    omega
  · intro heq
    rw [dstPosition, dstPosition, heq]

variable {pkt : Packet6}

theorem fiveTupleEntry_ruleIdx (rule : EncryptRule) (m : UInt32) (i : Nat) :
    (fiveTupleEntry rule m i).ruleIdx = i % 1048576 := PktMeta.ruleId_word _

theorem fiveTupleMatch_ip6 (h6 : rule.l3Type = .ip6) (hp : rule.protocol ≠ .none) (m : UInt32) :
    fiveTupleMatch rule m = { FlowMatch.zero with
      l4TypeExt := rule.protocol
      srcPort := UInt16.ofInt rule.srcPort
      dstPort := UInt16.ofInt rule.dstPort
      metaU32 := m
      dstIp6 := rule.dstIp6 } := by
  simp [fiveTupleMatch, h6, l4Port, hp]

section

variable (hr : Ip6Rules hash table cfg rules)

include hr

theorem mem_srcHits_iff (hh : HoldsRules hash table rules entries) {m : UInt32} :
    m ∈ srcHits entries pkt ↔ ∃ rule ∈ rules, rule.protocol = pkt.protocol ∧
      rule.srcIp6 = pkt.srcIp ∧ dstPosition hash table rule = m := by
  simp only [srcHits, mem_map, mem_filter, decide_eq_true_eq]
  constructor
  · rintro ⟨e, ⟨he, hpipe, hsrc⟩, rfl⟩
    obtain ⟨i, rule, hrule, rfl | rfl⟩ := (hh e).mp he
    · have hin := mem_of_getElem? hrule
      exact ⟨rule, hin, (srcPipe_eq_iff (hr.protocol rule hin) _).mp hpipe, hsrc, rfl⟩
    · exact absurd hpipe (srcPipe_ne_tuple rule _)
  · rintro ⟨rule, hin, hp, hsrc, rfl⟩
    obtain ⟨i, hrule⟩ := getElem?_of_mem hin
    refine ⟨srcIp6Entry rule (dstPosition hash table rule), ⟨?_, ?_, hsrc⟩, rfl⟩
    · exact (hh _).mpr ⟨i, rule, hrule, .inl rfl⟩
    · exact (srcPipe_eq_iff (hr.protocol rule hin) _).mpr hp

theorem ruleNo_mod {i : Nat} (hrule : rules[i]? = some rule) : i % 1048576 = i := by
  have hlt := (List.getElem?_eq_some_iff.mp hrule).1
  have hmax := hr.atMost
  unfold MAX_NB_RULES at hmax
  exact Nat.mod_eq_of_lt (by omega)

theorem mem_tupleHits_iff (hh : HoldsRules hash table rules entries) {m : UInt32} {id : Nat} :
    id ∈ tupleHits entries pkt m ↔ ∃ rule, rules[id]? = some rule ∧
      rule.protocol = pkt.protocol ∧ dstPosition hash table rule = m ∧ rule.dstIp6 = pkt.dstIp ∧
      UInt16.ofInt rule.srcPort = pkt.srcPort ∧ UInt16.ofInt rule.dstPort = pkt.dstPort := by
  simp only [tupleHits, mem_map, mem_filter, decide_eq_true_eq]
  constructor
  · rintro ⟨e, ⟨he, hpipe, hm, hdst, hsp, hdp⟩, rfl⟩
    obtain ⟨i, rule, hrule, rfl | rfl⟩ := (hh e).mp he
    · exact absurd hpipe (tuplePipe_ne_src rule _)
    · have hin := mem_of_getElem? hrule
      have h6 := hr.ip6 rule hin
      have hp := hr.protocol rule hin
      rw [fiveTupleEntry_ruleIdx, ruleNo_mod hr hrule]
      simp only [fiveTupleEntry, fiveTupleMatch_ip6 h6 hp] at hm hdst hsp hdp
      exact ⟨rule, hrule, (tuplePipe_eq_iff h6 hp _).mp hpipe, hm, hdst, hsp, hdp⟩
  · rintro ⟨rule, hrule, hproto, hm, hdst, hsp, hdp⟩
    have hin := mem_of_getElem? hrule
    have h6 := hr.ip6 rule hin
    have hp := hr.protocol rule hin
    refine ⟨fiveTupleEntry rule (dstPosition hash table rule) id, ⟨?_, ?_, ?_⟩, ?_⟩
    · exact (hh _).mpr ⟨id, rule, hrule, .inr rfl⟩
    · exact (tuplePipe_eq_iff h6 hp _).mpr hproto
    · simp only [fiveTupleEntry, fiveTupleMatch_ip6 h6 hp]
      exact ⟨hm, hdst, hsp, hdp⟩
    · rw [fiveTupleEntry_ruleIdx, ruleNo_mod hr hrule]

/-- **The rules a packet hits**: those with its protocol, destination and ports, whatever their source,
    if some rule of the protocol has its source and its destination. -/
theorem mem_ruleIds_iff (hh : HoldsRules hash table rules entries) {id : Nat} : id ∈ ruleIds entries pkt ↔
      (∃ rule, rules[id]? = some rule ∧ rule.protocol = pkt.protocol ∧ rule.dstIp6 = pkt.dstIp ∧
        UInt16.ofInt rule.srcPort = pkt.srcPort ∧ UInt16.ofInt rule.dstPort = pkt.dstPort) ∧
      ∃ rule ∈ rules, rule.protocol = pkt.protocol ∧ rule.srcIp6 = pkt.srcIp ∧
        rule.dstIp6 = pkt.dstIp := by
  rw [ruleIds, mem_flatMap]
  constructor
  · rintro ⟨m, hsrc, htuple⟩
    obtain ⟨first, hin, hp, hs, rfl⟩ := (mem_srcHits_iff hr hh).mp hsrc
    obtain ⟨rule, hrule, hp', hm, hd, hports⟩ := (mem_tupleHits_iff hr hh).mp htuple
    have hdst := (dstPosition_eq_iff hr (mem_of_getElem? hrule) hin).mp hm
    exact ⟨⟨rule, hrule, hp', hd, hports⟩, first, hin, hp, hs, hdst ▸ hd⟩
  · rintro ⟨⟨rule, hrule, hp', hd, hports⟩, first, hin, hp, hs, hd'⟩
    have hm := (dstPosition_eq_iff hr (mem_of_getElem? hrule) hin).mpr (hd.trans hd'.symm)
    exact ⟨dstPosition hash table first, (mem_srcHits_iff hr hh).mpr ⟨first, hin, hp, hs, rfl⟩,
      (mem_tupleHits_iff hr hh).mpr ⟨rule, hrule, hp', hm, hd, hports⟩⟩

end

end Hits

/-! ## When the pipes do their work -/

/-- Ports are ports, and rules of one protocol have equal sources just when they have equal
    destinations. -/
structure Separated (rules : List EncryptRule) : Prop where
  ports : ∀ rule ∈ rules, PortInRange rule.srcPort ∧ PortInRange rule.dstPort
  sources : ∀ rule ∈ rules, ∀ rule' ∈ rules, rule.protocol = rule'.protocol →
    (rule.srcIp6 = rule'.srcIp6 ↔ rule.dstIp6 = rule'.dstIp6)

section Iff

variable {Table : Type} {hash : RteHash Table} {table : Table} {cfg : Config}
variable {rules : List EncryptRule} {entries : List PipeEntry}

variable {i : Nat} {rule : EncryptRule}

theorem ruleNo_inj (hr : Ip6Rules hash table cfg rules) {j : Nat} {rule' : EncryptRule}
    (hi : rules[i]? = some rule) (hj : rules[j]? = some rule') (h : rule.tuple6 = rule'.tuple6) :
    i = j := by
  have hlt : i < (rules.map EncryptRule.tuple6).length := by
    rw [length_map]
    exact (List.getElem?_eq_some_iff.mp hi).1
  apply (getElem?_inj hlt hr.distinct).mp
  rw [getElem?_map, getElem?_map, hi, hj, Option.map_some, Option.map_some, h]

theorem Classified.describes (hc : Classified rules entries) {pkt : Packet6}
    (hi : rules[i]? = some rule) (hmem : i ∈ ruleIds entries pkt) :
    rule.Describes pkt := by
  by_contra hnot
  by_cases hex : ∃ r ∈ rules, r.Describes pkt
  · obtain ⟨r, hin, hdesc⟩ := hex
    obtain ⟨k, hk⟩ := getElem?_of_mem hin
    obtain rfl : i = k := (hc.hit k r pkt hk hdesc).2 i hmem
    rw [hi] at hk
    cases hk
    exact hnot hdesc
  · have hnil := hc.miss pkt fun r hin hdesc => hex ⟨r, hin, hdesc⟩
    rw [hnil] at hmem
    cases hmem

section

variable (hr : Ip6Rules hash table cfg rules)

include hr

theorem Classified.separated (hh : HoldsRules hash table rules entries) (hc : Classified rules entries) :
    Separated rules := by
  refine ⟨fun rule hin => ?_, fun rule hin rule' hin' hp => ⟨fun hs => ?_, fun hd => ?_⟩⟩
  · obtain ⟨i, hi⟩ := getElem?_of_mem hin
    have hmem : i ∈ ruleIds entries ⟨rule.protocol, rule.srcIp6, rule.dstIp6,
        UInt16.ofInt rule.srcPort, UInt16.ofInt rule.dstPort⟩ :=
      (mem_ruleIds_iff hr hh).mpr ⟨⟨rule, hi, rfl, rfl, rfl, rfl⟩, rule, hin, rfl, rfl, rfl⟩
    obtain ⟨-, -, -, hsp, hdp⟩ := hc.describes hi hmem
    exact ⟨portInRange_of_eq_toNat hsp, portInRange_of_eq_toNat hdp⟩
  · -- Both rules have an entry for the source; the entries must write the same number.
    obtain ⟨i, hi⟩ := getElem?_of_mem hin
    obtain ⟨j, hj⟩ := getElem?_of_mem hin'
    have hacts := hc.noConflict _ ((hh _).mpr ⟨i, rule, hi, .inl rfl⟩) _
      ((hh _).mpr ⟨j, rule', hj, .inl rfl⟩)
      (by simp only [srcIp6Entry, getPipeForRule, hp, if_true]) (by simp only [srcIp6Entry, hs])
    exact (dstPosition_eq_iff hr hin hin').mp (congrArg FlowActions.metaU32 hacts)
  · -- A packet with the source of one rule and the ports of the other hits the other.
    obtain ⟨j, hj⟩ := getElem?_of_mem hin'
    have hmem : j ∈ ruleIds entries ⟨rule'.protocol, rule.srcIp6, rule'.dstIp6,
        UInt16.ofInt rule'.srcPort, UInt16.ofInt rule'.dstPort⟩ :=
      (mem_ruleIds_iff hr hh).mpr ⟨⟨rule', hj, rfl, rfl, rfl, rfl⟩, rule, hin, hp, rfl, hd⟩
    obtain ⟨-, hs, -⟩ := hc.describes hj hmem
    exact hs.symm

theorem Separated.ruleNo_inj (hs : Separated rules) {j : Nat}
    {rule' : EncryptRule} (hi : rules[i]? = some rule) (hj : rules[j]? = some rule')
    (hp : rule.protocol = rule'.protocol) (hd : rule.dstIp6 = rule'.dstIp6)
    (hsp : UInt16.ofInt rule.srcPort = UInt16.ofInt rule'.srcPort)
    (hdp : UInt16.ofInt rule.dstPort = UInt16.ofInt rule'.dstPort) : i = j := by
  have hin := mem_of_getElem? hi
  have hin' := mem_of_getElem? hj
  have hports := hs.ports rule hin
  have hports' := hs.ports rule' hin'
  have hsp' := ofInt16_inj hports.1 hports'.1 hsp
  have hdp' := ofInt16_inj hports.2 hports'.2 hdp
  have hsrc := (hs.sources rule hin rule' hin' hp).mpr hd
  exact IpsecGw.ruleNo_inj hr hi hj (by simp only [EncryptRule.tuple6, hp, hsrc, hd, hsp', hdp'])

theorem Separated.noConflict
    (hh : HoldsRules hash table rules entries) (hs : Separated rules) {e e' : PipeEntry}
    (he : e ∈ entries) (he' : e' ∈ entries) (hpipe : e.pipe = e'.pipe) (hm : e.mtch = e'.mtch) :
    e.actions = e'.actions := by
  obtain ⟨i, rule, hi, hcase⟩ := (hh e).mp he
  obtain ⟨j, rule', hj, hcase'⟩ := (hh e').mp he'
  have hin := mem_of_getElem? hi
  have hin' := mem_of_getElem? hj
  have hnone := hr.protocol rule hin
  have hnone' := hr.protocol rule' hin'
  rcases hcase with rfl | rfl
  · rcases hcase' with rfl | rfl
    · have hp := getPipeForRule_src_inj hnone hnone' hpipe
      have hd := (hs.sources rule hin rule' hin' hp).mp (congrArg FlowMatch.srcIp6 hm)
      simp only [srcIp6Entry, (dstPosition_eq_iff hr hin hin').mpr hd]
    · exact absurd hpipe (getPipeForRule_src_ne_tuple rule rule')
  · rcases hcase' with rfl | rfl
    · exact absurd hpipe.symm (getPipeForRule_src_ne_tuple rule' rule)
    · have h6 := hr.ip6 rule hin
      have h6' := hr.ip6 rule' hin'
      have hp := getPipeForRule_tuple_inj h6 h6' hnone hnone' hpipe
      simp only [fiveTupleEntry, fiveTupleMatch_ip6 h6 hnone, fiveTupleMatch_ip6 h6' hnone',
        FlowMatch.mk.injEq] at hm
      obtain ⟨-, -, -, -, -, hsp, hdp, -, -, -, hd, -, -⟩ := hm
      obtain rfl := hs.ruleNo_inj hr hi hj hp hd hsp hdp
      rfl

theorem Separated.classified (hh : HoldsRules hash table rules entries) (hs : Separated rules) :
    Classified rules entries := by
  refine ⟨fun e he e' he' hpipe hm => hs.noConflict hr hh he he' hpipe hm,
    fun i rule pkt hi hdesc => ⟨?_, fun id hid => ?_⟩, fun pkt hnone => ?_⟩
  · obtain ⟨hp, hsrc, hd, hsp, hdp⟩ := hdesc
    have hin := mem_of_getElem? hi
    have hports := hs.ports rule hin
    have hmem : i ∈ ruleIds entries pkt :=
      (mem_ruleIds_iff hr hh).mpr ⟨⟨rule, hi, hp, hd, (ofInt16_eq_iff hports.1 _).mpr hsp,
        (ofInt16_eq_iff hports.2 _).mpr hdp⟩, rule, hin, hp, hsrc, hd⟩
    exact ne_nil_of_mem hmem
  · obtain ⟨⟨rule', hid, hp', hd', hsp', hdp'⟩, -⟩ := (mem_ruleIds_iff hr hh).mp hid
    obtain ⟨hp, -, hd, hsp, hdp⟩ := hdesc
    have hports := hs.ports rule (mem_of_getElem? hi)
    refine hs.ruleNo_inj hr hid hi (hp'.trans hp.symm) (hd'.trans hd.symm) ?_ ?_
    · rw [hsp', (ofInt16_eq_iff hports.1 _).mpr hsp]
    · rw [hdp', (ofInt16_eq_iff hports.2 _).mpr hdp]
  · rw [eq_nil_iff_forall_not_mem]
    intro id hid
    obtain ⟨⟨rule, hi, hp, hd, hsp, hdp⟩, first, hin, hp', hsrc, hd'⟩ :=
      (mem_ruleIds_iff hr hh).mp hid
    have hrule := mem_of_getElem? hi
    have hports := hs.ports rule hrule
    have hsame := (hs.sources rule hrule first hin (hp.trans hp'.symm)).mpr (hd.trans hd'.symm)
    exact hnone rule hrule ⟨hp, hsame.trans hsrc, hd, (ofInt16_eq_iff hports.1 _).mp hsp,
      (ofInt16_eq_iff hports.2 _).mp hdp⟩

end

/-- **Classification.**  After the insertion of all rules in any order, the two pipes select the right
    rule for every packet if and only if the rules are separated. -/
theorem classified_iff (hr : Ip6Rules hash table cfg rules) {calls : List ClassifyCall} {s : Flow}
    (horder : (calls.map ClassifyCall.ruleNo).Perm (List.range rules.length))
    (hrun : run (classifyStep hash table cfg rules) Flow.empty calls = some s) :
    Classified rules s.entries ↔ Separated rules := by
  have hh := holdsRules_of_run hr horder hrun
  exact ⟨fun hc => hc.separated hr hh, fun hs => hs.classified hr hh⟩

end Iff

/-! ## Two sets of rules -/

def lastWordHash : RteHash Unit := ⟨fun _ a => a.w3.toNat, fun t _ => (0, t)⟩

def udpRule (src dst : UInt32) (port : Int) : EncryptRule :=
  { EncryptRule.zero with
    l3Type := .ip6
    protocol := .udp
    srcIp6 := ⟨0, 0, 0, src⟩
    dstIp6 := ⟨0, 0, 0, dst⟩
    srcPort := port
    dstPort := port }

def idealCalls (ruleNos : List Nat) : List ClassifyCall :=
  ruleNos.map fun i => ⟨i, .ideal, ruleNos.length, .zero⟩

theorem ip6Rules_lastWord {rules : List EncryptRule} (hcount : rules.length ≤ MAX_NB_RULES)
    (hrules : ∀ rule ∈ rules, ∃ src dst port, rule = udpRule src dst port ∧
      src.toNat < 2147483648 ∧ dst.toNat < 2147483648)
    (hdistinct : (rules.map EncryptRule.tuple6).Nodup) :
    Ip6Rules lastWordHash () Config.zero rules := by
  have haddr : ∀ a ∈ ruleAddrs rules, ∃ w : UInt32, a = ⟨0, 0, 0, w⟩ ∧ w.toNat < 2147483648 := by
    intro a ha
    obtain ⟨rule, hin, ha⟩ := mem_flatMap.mp ha
    obtain ⟨src, dst, port, rfl, hs, hd⟩ := hrules rule hin
    rcases mem_cons.mp ha with rfl | ha
    · exact ⟨src, rfl, hs⟩
    · exact ⟨dst, mem_singleton.mp ha, hd⟩
  refine ⟨by decide, fun rule hin => ?_, fun rule hin => ?_, hdistinct, hcount, fun a ha => ?_,
    fun a ha b hb heq => ?_⟩
  · obtain ⟨src, dst, port, rfl, -⟩ := hrules rule hin
    rfl
  · obtain ⟨src, dst, port, rfl, -⟩ := hrules rule hin
    exact nofun
  · obtain ⟨w, rfl, hw⟩ := haddr a ha
    simp only [lastWordHash]
    omega
  · obtain ⟨w, rfl, -⟩ := haddr a ha
    obtain ⟨w', rfl, -⟩ := haddr b hb
    simp only [lastWordHash, Int.natCast_inj, UInt32.toNat_inj] at heq
    rw [heq]

/-- Two rules with different sources and destinations, inserted in the opposite order. -/
theorem classified_iff_pair :
    ∃ s, run (classifyStep lastWordHash () Config.zero [udpRule 1 2 80, udpRule 3 4 80]) Flow.empty
        (idealCalls [1, 0]) = some s ∧
      Classified [udpRule 1 2 80, udpRule 3 4 80] s.entries := by
  obtain ⟨s, hs⟩ := Option.isSome_iff_exists.mp
    (show (run (classifyStep lastWordHash () Config.zero [udpRule 1 2 80, udpRule 3 4 80]) Flow.empty
      (idealCalls [1, 0])).isSome = true by decide +kernel)
  have hr : Ip6Rules lastWordHash () Config.zero [udpRule 1 2 80, udpRule 3 4 80] := by
    refine ip6Rules_lastWord (by decide) (fun rule hin => ?_) (by decide)
    simp only [mem_cons, not_mem_nil, or_false] at hin
    rcases hin with rfl | rfl
    · exact ⟨1, 2, 80, rfl, by decide, by decide⟩
    · exact ⟨3, 4, 80, rfl, by decide, by decide⟩
  refine ⟨s, hs, (classified_iff hr (by decide) hs).mpr ⟨?_, ?_⟩⟩
  · simp [PortInRange, udpRule]
  · simp [udpRule]

instance (rule : EncryptRule) (pkt : Packet6) : Decidable (rule.Describes pkt) :=
  inferInstanceAs (Decidable (_ ∧ _ ∧ _ ∧ _ ∧ _))

/-- Two entries for one source contradict each other, and a packet of no rule leaves the pipes with the
    index of the third rule. -/
theorem sources_confused :
    let rules := [udpRule 1 2 80, udpRule 1 3 80, udpRule 4 2 81]
    let pkt : Packet6 := ⟨.udp, ⟨0, 0, 0, 1⟩, ⟨0, 0, 0, 2⟩, 81, 81⟩
    Ip6Rules lastWordHash () Config.zero rules ∧ (∀ rule ∈ rules, ¬ rule.Describes pkt) ∧
    ((run (classifyStep lastWordHash () Config.zero rules) Flow.empty (idealCalls [0, 1, 2])).map
      fun s => (decide (∃ e ∈ s.entries, ∃ e' ∈ s.entries, e.pipe = e'.pipe ∧ e.mtch = e'.mtch ∧
        e.actions ≠ e'.actions), ruleIds s.entries pkt)) = some (true, [2]) := by
  refine ⟨?_, by decide, by decide +kernel⟩
  refine ip6Rules_lastWord (by decide) (fun rule hin => ?_) (by decide)
  simp only [mem_cons, not_mem_nil, or_false] at hin
  rcases hin with rfl | rfl | rfl
  · exact ⟨1, 2, 80, rfl, by decide, by decide⟩
  · exact ⟨1, 3, 80, rfl, by decide, by decide⟩
  · exact ⟨4, 2, 81, rfl, by decide, by decide⟩

end Doca.IpsecGw
