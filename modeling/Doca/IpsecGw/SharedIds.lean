import Doca.IpsecGw.DynamicRules

/-!
# Ids of the shared `IPSEC_SA` objects

Ids come from four formulas: the number of an encrypt rule, the number of a decrypt rule behind all
encrypt rules (static mode), the number of a decrypt policy behind `DYN_RESERVED_RULES` (dynamic mode)
and the two dummies.  Two more formulas bind ids to the port, at start-up.

* `SaProper` — the ids of the configured objects are distinct, at most `DECRYPT_DUMMY_ID`, and each was
  bound before the object was configured.
* `insertStep` — static mode: one pass of the insertion loop of some worker.  A run is a list of
  passes in any order.

Principal results: `saProper_iff`, `staticRun_log`, `shared_ids_proper`.
-/

namespace Doca.IpsecGw

open Doca.Lib List

/-! ## The property -/

def configuredIds : List SaEvent → List Nat
  | [] => []
  | .bind _ :: rest => configuredIds rest
  | .configure id _ :: rest => id :: configuredIds rest

/-- Every configured id is among those bound before; `bound` are the ids bound so far. -/
def boundBeforeUse : List Nat → List SaEvent → Prop
  | _, [] => True
  | bound, .bind ids :: rest => boundBeforeUse (bound ++ ids) rest
  | bound, .configure id _ :: rest => id ∈ bound ∧ boundBeforeUse bound rest

structure SaProper (events : List SaEvent) : Prop where
  distinct : (configuredIds events).Nodup
  atMost : ∀ id ∈ configuredIds events, id ≤ DECRYPT_DUMMY_ID
  bound : boundBeforeUse [] events

theorem configuredIds_configureAll (log : List (Nat × SaConfig)) :
    configuredIds (configureAll log) = log.map Prod.fst := by
  induction log with
  | nil => rfl
  | cons c rest ih =>
    show c.1 :: configuredIds (configureAll rest) = c.1 :: rest.map Prod.fst
    rw [ih]

theorem boundBeforeUse_configureAll (bound : List Nat) (log : List (Nat × SaConfig)) :
    boundBeforeUse bound (configureAll log) ↔ ∀ id ∈ log.map Prod.fst, id ∈ bound := by
  induction log with
  | nil => simp [configureAll, boundBeforeUse]
  | cons c rest ih =>
    show c.1 ∈ bound ∧ boundBeforeUse bound (configureAll rest) ↔ _
    rw [ih, map_cons, forall_mem_cons]

def startIds (e d : Nat) : List Nat :=
  (List.range e ++ [ENCRYPT_DUMMY_ID]) ++ ((List.range d).map (e + ·) ++ [DECRYPT_DUMMY_ID])

theorem mem_startIds (e d id : Nat) :
    id ∈ startIds e d ↔ id < e + d ∨ id = ENCRYPT_DUMMY_ID ∨ id = DECRYPT_DUMMY_ID := by
  simp only [startIds, mem_append, mem_range, mem_singleton, mem_map]
  constructor
  · rintro ((h | h) | (⟨j, hj, rfl⟩ | h))
    · exact .inl (by omega)
    · exact .inr (.inl h)
    · exact .inl (by omega)
    · exact .inr (.inr h)
  · rintro (h | h | h)
    · by_cases hlt : id < e
      · exact .inl (.inl hlt)
      · exact .inr (.inl ⟨id - e, by omega, by omega⟩)
    · exact .inl (.inr h)
    · exact .inr (.inr h)

/-- **Behind a start**, the property says that the ids of the rules are distinct and below the number
    of rules for which the start has bound ids. -/
theorem saProper_iff (cfg : Config) {e d : Nat} (he : e ≤ MAX_NB_RULES) (hd : d ≤ MAX_NB_RULES)
    (log : List (Nat × SaConfig)) :
    SaProper (startSa cfg e d ++ configureAll log) ↔
      (log.map Prod.fst).Nodup ∧ ∀ id ∈ log.map Prod.fst, id < e + d := by
  have hids : configuredIds (startSa cfg e d ++ configureAll log) =
      ENCRYPT_DUMMY_ID :: DECRYPT_DUMMY_ID :: log.map Prod.fst := by
    show ENCRYPT_DUMMY_ID :: DECRYPT_DUMMY_ID :: configuredIds (configureAll log) = _
    rw [configuredIds_configureAll]
  have hbound : boundBeforeUse [] (startSa cfg e d ++ configureAll log) ↔
      ∀ id ∈ log.map Prod.fst, id ∈ startIds e d := by
    rw [← boundBeforeUse_configureAll]
    show ENCRYPT_DUMMY_ID ∈ _ ∧ DECRYPT_DUMMY_ID ∈ _ ∧ boundBeforeUse (startIds e d) _ ↔ _
    simp
  have hdummies : ENCRYPT_DUMMY_ID = 2097153 ∧ DECRYPT_DUMMY_ID = 2097154 := ⟨rfl, rfl⟩
  have hmax : MAX_NB_RULES = 1048576 := rfl
  constructor
  · rintro ⟨hnd, _, hb⟩
    rw [hids, nodup_cons, nodup_cons, mem_cons] at hnd
    refine ⟨hnd.2.2, fun id hid => ?_⟩
    rcases (mem_startIds e d id).1 (hbound.1 hb id hid) with h | rfl | rfl
    · exact h
    · exact absurd (.inr hid) hnd.1
    · exact absurd hid hnd.2.1
  · rintro ⟨hnd, hlt⟩
    refine ⟨?_, ?_, hbound.2 fun id hid => (mem_startIds e d id).2 (.inl (hlt id hid))⟩
    · rw [hids, nodup_cons, nodup_cons, mem_cons]
      refine ⟨?_, fun h => ?_, hnd⟩
      · rintro (h | h)
        · omega
        · have := hlt _ h
          omega
      · have := hlt _ h
        omega
    · rw [hids]
      intro id hid
      rcases mem_cons.1 hid with rfl | hid
      · omega
      · rcases mem_cons.1 hid with rfl | hid
        · omega
        · have := hlt id hid
          omega

/-! ## Static mode -/

inductive RuleNo where
  | encrypt (i : Nat)
  | decrypt (i : Nat)
  deriving DecidableEq

structure InsertPass where
  rule : RuleNo
  env : FlowEnv
  nbRules : Nat
  last : Bool
  hairpin : EntriesStatus
  status : EntriesStatus

def RuleNo.saId (e : Nat) : RuleNo → Nat
  | .encrypt i => i
  | .decrypt i => e + i

def RuleNo.InRange (e d : Nat) : RuleNo → Prop
  | .encrypt i => i < e
  | .decrypt i => i < d

theorem RuleNo.InRange.saId_lt {e d : Nat} {r : RuleNo} (h : r.InRange e d) : r.saId e < e + d := by
  cases r with
  | encrypt i => exact Nat.lt_of_lt_of_le h (Nat.le_add_right e d)
  | decrypt i => exact Nat.add_lt_add_left h e

theorem RuleNo.InRange.saId_inj {e d : Nat} {r r' : RuleNo} (h : r.InRange e d)
    (h' : r'.InRange e d) (heq : r.saId e = r'.saId e) : r = r' := by
  cases r with
  | encrypt i =>
    cases r' with
    | encrypt j => exact congrArg _ heq
    | decrypt j =>
      simp only [RuleNo.saId, RuleNo.InRange] at heq h
      omega
  | decrypt i =>
    cases r' with
    | encrypt j =>
      simp only [RuleNo.saId, RuleNo.InRange] at heq h'
      omega
    | decrypt j => exact congrArg _ (Nat.add_left_cancel heq)

section Static

variable {Table : Type} (hash : RteHash Table) (table : Table) (cfg : Config)
variable (encryptRules : List EncryptRule) (decryptRules : List DecryptRule)

def insertStep (s : Flow) (p : InsertPass) : Option Flow :=
  match p.rule with
  | .encrypt i => do
    let rule ← encryptRules[i]?
    match addEncryptEntriesPass p.env hash table cfg rule p.nbRules i p.hairpin p.status s with
    | some (.ok _, s') => some s'
    | _ => none
  | .decrypt i => do
    let rule ← decryptRules[i]?
    match addDecryptEntriesPass p.env cfg rule encryptRules.length p.last i p.status s with
    | some (.ok _, s') => some s'
    | _ => none

variable {hash table cfg encryptRules decryptRules}

theorem insertStep_adds {s s' : Flow} {p : InsertPass}
    (h : insertStep hash table cfg encryptRules decryptRules s p = some s') :
    p.rule.InRange encryptRules.length decryptRules.length ∧
      ∃ es c, Adds s s' es [.configure (p.rule.saId encryptRules.length) c] := by
  unfold insertStep at h
  split at h
  · rename_i hrule
    simp only [Option.bind_eq_bind, Option.bind_eq_some_iff] at h
    obtain ⟨rule, hget, h⟩ := h
    split at h
    · rename_i hpass
      cases h
      obtain ⟨encap, hadds⟩ := addEncryptEntriesPass_ok hpass
      rw [hrule]
      exact ⟨(List.getElem?_eq_some_iff.1 hget).1, _, _, hadds⟩
    · cases h
  · rename_i hrule
    simp only [Option.bind_eq_bind, Option.bind_eq_some_iff] at h
    obtain ⟨rule, hget, h⟩ := h
    split at h
    · rename_i hpass
      cases h
      rw [hrule]
      exact ⟨(List.getElem?_eq_some_iff.1 hget).1, _, _, addDecryptEntriesPass_ok hpass⟩
    · cases h

/-- **The ids of a static run**, in the order of the passes. -/
theorem staticRun_log {passes : List InsertPass} : ∀ {s s' : Flow},
      run (insertStep hash table cfg encryptRules decryptRules) s passes = some s' →
      (∀ r ∈ passes.map InsertPass.rule, r.InRange encryptRules.length decryptRules.length) ∧
        ∃ log, s'.sa = s.sa ++ configureAll log ∧
          log.map Prod.fst = (passes.map InsertPass.rule).map (RuleNo.saId encryptRules.length) := by
  induction passes with
  | nil =>
    intro s s' h
    cases h
    exact ⟨fun r hr => absurd hr not_mem_nil, [], (append_nil _).symm, rfl⟩
  | cons p rest ih =>
    intro s s' h
    simp only [run, Option.bind_eq_some_iff] at h
    obtain ⟨t, hstep, hrun⟩ := h
    obtain ⟨hrange, es, c, hadds⟩ := insertStep_adds hstep
    obtain ⟨hrest, log, hsa, hids⟩ := ih hrun
    refine ⟨?_, (p.rule.saId encryptRules.length, c) :: log, ?_, ?_⟩
    · rw [map_cons, forall_mem_cons]
      exact ⟨hrange, hrest⟩
    · rw [hsa, hadds.sa_eq, append_assoc]
      rfl
    · rw [map_cons, map_cons, map_cons, hids]

theorem static_saProper {env : FlowEnv} {s s' : Flow} {u : Unit} {passes : List InsertPass}
    (he : encryptRules.length ≤ MAX_NB_RULES) (hd : decryptRules.length ≤ MAX_NB_RULES)
    (hstart : startFlow env cfg encryptRules.length decryptRules.length Flow.empty = some (.ok u, s))
    (honce : (passes.map InsertPass.rule).Nodup)
    (hrun : run (insertStep hash table cfg encryptRules decryptRules) s passes = some s') :
    SaProper s'.sa := by
  obtain ⟨hrange, log, hsa, hids⟩ := staticRun_log hrun
  have hs : s.sa = startSa cfg encryptRules.length decryptRules.length := (startFlow_ok hstart).sa_eq
  rw [hsa, hs, saProper_iff cfg he hd, hids]
  constructor
  · exact honce.map_on fun r hr r' hr' heq => (hrange r hr).saId_inj (hrange r' hr') heq
  · intro id hid
    obtain ⟨r, hr, rfl⟩ := mem_map.1 hid
    exact (hrange r hr).saId_lt

end Static

/-! ## Dynamic mode -/

section Dynamic

variable {Table : Type} {inetPton6 : List UInt8 → Option Ip6Addr} {hash : RteHash Table}
variable {g₀ g : Gateway Table}

def policyIds (e d : Nat) : List Nat :=
  List.range e ++ (List.range d).map (DYN_RESERVED_RULES + ·)

theorem policyIds_nodup_iff (e d : Nat) : (policyIds e d).Nodup ↔ d = 0 ∨ e ≤ DYN_RESERVED_RULES := by
  have hmap : ((range d).map (DYN_RESERVED_RULES + ·)).Nodup :=
    nodup_range.map (fun a b h => Nat.add_left_cancel h)
  simp only [policyIds, nodup_append, nodup_range, hmap, true_and, mem_range, mem_map]
  constructor
  · intro h
    rcases Nat.eq_zero_or_pos d with hd | hd
    · exact .inl hd
    · refine .inr (Nat.le_of_not_lt fun hlt => ?_)
      exact h _ hlt _ ⟨0, hd, rfl⟩ rfl
  · rintro h a ha b ⟨j, hj, rfl⟩ heq
    omega

theorem policyIds_bound_iff (e d : Nat) :
    (∀ id ∈ policyIds e d, id < DYN_RESERVED_RULES + DYN_RESERVED_RULES) ↔
      e ≤ 2 * DYN_RESERVED_RULES ∧ d ≤ DYN_RESERVED_RULES := by
  simp only [policyIds, mem_append, mem_range, mem_map]
  constructor
  · intro h
    constructor
    · by_contra hgt
      have := h (2 * DYN_RESERVED_RULES) (.inl (by omega))
      omega
    · by_contra hgt
      have := h _ (.inr ⟨DYN_RESERVED_RULES, by omega, rfl⟩)
      omega
  · rintro ⟨he, hd⟩ id (h | ⟨j, hj, rfl⟩)
    · omega
    · omega

theorem dynamic_saProper_iff {env : FlowEnv} {cfg : Config}
    {nbQueues encryptAddr decryptAddr : Nat} {table : Table}
    (hstart : startDynamic env cfg nbQueues encryptAddr decryptAddr table = some g₀)
    (h : Reachable inetPton6 hash g₀ g) :
    SaProper g.flow.sa ↔ g.nbDecryptedRules ≤ DYN_RESERVED_RULES ∧
      (g.nbEncryptedRules ≤ DYN_RESERVED_RULES ∨
        g.nbDecryptedRules = 0 ∧ g.nbEncryptedRules ≤ 2 * DYN_RESERVED_RULES) := by
  have hst := startDynamic_started hstart
  obtain ⟨log, hsa, hperm⟩ := (reachable_invariant hst.invariant h).sharedObjects
  have hs : g₀.flow.sa = startSa cfg DYN_RESERVED_RULES DYN_RESERVED_RULES := hst.flow.sa_eq
  rw [hsa, hs, saProper_iff cfg (by decide) (by decide), hperm.nodup_iff]
  have hbound : (∀ id ∈ log.map Prod.fst, id < DYN_RESERVED_RULES + DYN_RESERVED_RULES) ↔
      ∀ id ∈ policyIds g.nbEncryptedRules g.nbDecryptedRules,
        id < DYN_RESERVED_RULES + DYN_RESERVED_RULES := by
    constructor
    · exact fun h id hid => h id (hperm.mem_iff.2 hid)
    · exact fun h id hid => h id (hperm.mem_iff.1 hid)
  rw [hbound, policyIds_bound_iff]
  have hnd := policyIds_nodup_iff g.nbEncryptedRules g.nbDecryptedRules
  rw [policyIds] at hnd
  rw [hnd]
  omega

end Dynamic

/-- **Ids of shared objects** are distinct, in range and bound before use; in dynamic mode only as long
    as the policies keep to what was reserved. -/
theorem shared_ids_proper {Table : Type} (inetPton6 : List UInt8 → Option Ip6Addr)
    (hash : RteHash Table) (table : Table) (env : FlowEnv) (cfg : Config) :
    (∀ (encryptRules : List EncryptRule) (decryptRules : List DecryptRule)
        (passes : List InsertPass) (s s' : Flow),
      encryptRules.length ≤ MAX_NB_RULES → decryptRules.length ≤ MAX_NB_RULES →
      startFlow env cfg encryptRules.length decryptRules.length Flow.empty = some (.ok (), s) →
      (passes.map InsertPass.rule).Nodup →
      run (insertStep hash table cfg encryptRules decryptRules) s passes = some s' →
      SaProper s'.sa) ∧
    (∀ (nbQueues encryptAddr decryptAddr : Nat) (g₀ g : Gateway Table),
      startDynamic env cfg nbQueues encryptAddr decryptAddr table = some g₀ →
      Reachable inetPton6 hash g₀ g →
      (SaProper g.flow.sa ↔ g.nbDecryptedRules ≤ DYN_RESERVED_RULES ∧
        (g.nbEncryptedRules ≤ DYN_RESERVED_RULES ∨
          g.nbDecryptedRules = 0 ∧ g.nbEncryptedRules ≤ 2 * DYN_RESERVED_RULES))) :=
  ⟨fun _ _ _ _ _ he hd hstart honce hrun => static_saProper he hd hstart honce hrun,
    fun _ _ _ _ _ hstart h => dynamic_saProper_iff hstart h⟩

/-! ### More policies than were reserved -/

def decryptPolicyPass : PassEnv × Except DocaError Policy :=
  (⟨.ideal, 1, none, some (2000, fun _ => DecryptRule.zero)⟩, .ok (somePolicy POLICY_DIR_IN))

theorem somePolicy_parses (rule : DecryptRule) :
    ∃ rule', policyDecryptParse (fun _ => none) (somePolicy POLICY_DIR_IN) softwareConfig.mode rule =
      some (.ok (), rule') := by
  have haddr : Common.parseIpv4Str (Common.cString someAddr) = .ok 0x0700000a := by decide +kernel
  have hl3 : l3TypeOf (somePolicy POLICY_DIR_IN).outerL3Protocol = .ip4 := rfl
  have hdst : (somePolicy POLICY_DIR_IN).outerDstIp = someAddr := rfl
  unfold policyDecryptParse parseDst
  simp only [softwareConfig, Config.zero, if_true, hl3, hdst, haddr]
  exact ⟨_, rfl⟩

theorem addDecryptEntry_ideal (rule : DecryptRule) (id : Nat) (s : Flow) :
    ∃ s', addDecryptEntry .ideal softwareConfig 1 rule id s = some (.ok (), s') := ⟨_, rfl⟩

theorem decryptPolicy_accepted {g : Gateway Unit} (hcfg : g.cfg = softwareConfig)
    (hroom : Room DYN_RESERVED_RULES g.nbDecryptedRules g.decryptRules)
    (hlt : g.nbDecryptedRules < MAX_NB_RULES) :
    ∃ g', loopStep (fun _ => none) oneSlot g decryptPolicyPass = some g' ∧ DecryptAccepted g g' := by
  obtain ⟨b₁, hb₁⟩ := grow_of_some DYN_RESERVED_RULES g.nbDecryptedRules
    (2000, fun _ => DecryptRule.zero) g.decryptRules
  obtain ⟨b, hb⟩ : ∃ b, growDecryptRules (some (2000, fun _ => DecryptRule.zero)) g = some b := by
    unfold growDecryptRules
    rw [hb₁]
    exact ⟨_, rfl⟩
  obtain ⟨b₀, hgrow, _, hlen⟩ := grown_of_map (fun _ => swHandlingAntireplay_length ..) hb
  have hin : g.nbDecryptedRules < b.cells.length := hlen ▸ (hroom.grow (by decide) hgrow).2
  obtain ⟨rule', hparse⟩ := somePolicy_parses (b.cells.get ⟨_, hin⟩)
  obtain ⟨flow', hflow⟩ := addDecryptEntry_ideal rule' (DYN_RESERVED_RULES + g.nbDecryptedRules) g.flow
  have hget : b.cells[g.nbDecryptedRules]? = some (b.cells.get ⟨_, hin⟩) :=
    getElem?_eq_getElem hin
  have hpass : ∃ g', waitForTrafficPass (fun _ => none) oneSlot decryptPolicyPass.1
      decryptPolicyPass.2 g = some (.ok (), g') := by
    show ∃ g', receiveDecryptPolicy (fun _ => none) decryptPolicyPass.1 _ g = _
    unfold receiveDecryptPolicy
    rw [if_neg (Nat.not_le.2 hlt)]
    simp only [decryptPolicyPass, hb, handleDecryptPolicy, hget, Option.bind_eq_bind,
      Option.bind_some, hcfg, hparse, hflow]
    exact ⟨_, rfl⟩
  obtain ⟨g', hpass⟩ := hpass
  refine ⟨g', by rw [loopStep, hpass], ?_⟩
  rcases receiveDecryptPolicy_cases hpass with ⟨hne, _⟩ | ⟨hacc, _⟩
  · exact absurd rfl hne
  · exact hacc

theorem decryptPolicies_accepted {g₀ : Gateway Unit} (h₀ : Invariant g₀ g₀)
    (hcfg : g₀.cfg = softwareConfig) (hzero : g₀.nbDecryptedRules = 0) {n : Nat}
    (hn : n ≤ MAX_NB_RULES) :
    ∃ g, Reachable (fun _ => none) oneSlot g₀ g ∧ g.nbDecryptedRules = n := by
  induction n with
  | zero => exact ⟨g₀, Reach.init, hzero⟩
  | succ n ih =>
    obtain ⟨g, hreach, hcount⟩ := ih (by omega)
    have hinv := reachable_invariant h₀ hreach
    obtain ⟨g', hstep, hacc⟩ := decryptPolicy_accepted (hinv.cfg.trans hcfg) hinv.decryptRoom (by omega)
    exact ⟨g', hreach.tail trivial hstep, by rw [hacc.nbDecryptedRules, hcount]⟩

/-- After 1025 decrypt policies an object is used whose id was never bound. -/
theorem unbound_id_used : ∃ g₀ g : Gateway Unit,
    startDynamic FlowEnv.ideal softwareConfig 2 1000 2000 () = some g₀ ∧
      Reachable (fun _ => none) oneSlot g₀ g ∧ g.nbDecryptedRules = 1025 ∧
      g.nbDecryptedRules ≤ MAX_NB_RULES ∧ ¬ SaProper g.flow.sa := by
  obtain ⟨g₀, hstart, hzero⟩ : ∃ g₀ : Gateway Unit,
      startDynamic FlowEnv.ideal softwareConfig 2 1000 2000 () = some g₀ ∧
        g₀.nbDecryptedRules = 0 := ⟨_, rfl, rfl⟩
  have hst := startDynamic_started hstart
  obtain ⟨g, hreach, hcount⟩ :=
    decryptPolicies_accepted hst.invariant hst.cfg_eq hzero (show 1025 ≤ MAX_NB_RULES by decide)
  refine ⟨g₀, g, hstart, hreach, hcount, by rw [hcount]; decide, fun hproper => ?_⟩
  have hle := ((dynamic_saProper_iff hstart hreach).1 hproper).1
  rw [hcount] at hle
  exact absurd hle (by decide)

/-- The passes of two workers, each of which inserts a rule of both directions. -/
def fourPasses : List InsertPass :=
  [.decrypt 1, .encrypt 0, .decrypt 0, .encrypt 1].map fun rule => ⟨rule, .ideal, 2, true, .zero, .zero⟩

/-- Two rules of each direction in static mode, and the state behind the first policy. -/
theorem shared_ids_proper_four :
    (∃ s s', startFlow .ideal softwareConfig 2 2 Flow.empty = some (.ok (), s) ∧
      run (insertStep oneSlot () softwareConfig (replicate 2 EncryptRule.zero)
        (replicate 2 DecryptRule.zero)) s fourPasses = some s' ∧ SaProper s'.sa) ∧
    ∃ g, afterPolicy POLICY_DIR_IN = some g ∧ g.nbDecryptedRules = 1 ∧ SaProper g.flow.sa := by
  have hall := shared_ids_proper (fun _ => none) oneSlot () .ideal softwareConfig
  constructor
  · refine ⟨_, _, rfl, rfl, ?_⟩
    exact hall.1 (replicate 2 EncryptRule.zero) (replicate 2 DecryptRule.zero) fourPasses _ _
      (by decide) (by decide) rfl (by decide) rfl
  · have hrun : (afterPolicy POLICY_DIR_IN).map (fun g => (g.nbDecryptedRules, g.nbEncryptedRules)) =
        some (1, 0) := by
      decide +kernel
    obtain ⟨g, hg, hvals⟩ := Option.map_eq_some_iff.1 hrun
    simp only [Prod.mk.injEq] at hvals
    obtain ⟨g₀, hstart, hreach⟩ := afterPolicy_reachable hg
    refine ⟨g, hg, hvals.1, (hall.2 2 1000 2000 g₀ g hstart hreach).2 ?_⟩
    rw [hvals.1, hvals.2]
    decide

end Doca.IpsecGw
