import Doca.Lib.GrowArray
import Doca.Lib.Interleaving
import Doca.IpsecGw.Decap
import Doca.IpsecGw.Policy

/-!
# Rules that arrive over the policy socket

Model of the part of `ipsec_security_gw_wait_for_traffic` and of `policy.c` that turns policies into
rules while worker cores process packets.

* `Gateway` — the rule arrays with their addresses and counts, the table of IPv6 addresses, what was
  asked of DOCA Flow, and the contexts of the cores, which hold the addresses of the arrays as they
  were when the cores were started.

Principal results: `loopStep_cases`; `reachable_invariant` — the room of the arrays, the indices of the
installed entries and the ids of the shared objects in every reachable state; `rule_agreement_iff`.
-/

namespace Doca.IpsecGw

open Doca.Lib List

/-! ## State -/

variable (cfg : Config)

def swHandlingSnInc (encryptRules : List EncryptRule) (encryptArraySize : Nat) :
    List EncryptRule :=
  (encryptRules.take encryptArraySize).map
    (fun rule => { rule with currentSn := cfg.snInitial.toUInt32 }) ++
    encryptRules.drop encryptArraySize

/-- `struct ipsec_security_gw_core_ctx`: the pointers to the arrays, by their addresses. -/
structure WorkerCtx where
  queueId : Nat
  encryptRules : Nat
  decryptRules : Nat
  deriving DecidableEq

structure Gateway (Table : Type) where
  cfg : Config
  encryptRules : Block EncryptRule
  decryptRules : Block DecryptRule
  nbEncryptedRules : Nat
  nbDecryptedRules : Nat
  nbRules : Nat
  ip6Table : Table
  flow : Flow
  workers : List WorkerCtx

def startFlow (env : FlowEnv) (cfg : Config) (nbEncryptedRules nbDecryptedRules : Nat) :
    Prog Flow DocaError Unit := do
  createEncryptEgress env cfg nbEncryptedRules
  insertDecryptRules env cfg nbDecryptedRules nbEncryptedRules

def Config.runsWorkers : Bool := cfg.offload ≠ .both ∨ cfg.isFwdSyndromeRss

/-- `ipsec_security_gw_process_packets`, one context for each queue, or
    `ipsec_security_gw_process_bad_packets` with a single one. -/
def startWorkers (nbQueues encryptAddr decryptAddr : Nat) : List WorkerCtx :=
  (List.range (if cfg.runsWorkers then nbQueues else 1)).map fun q => ⟨q, encryptAddr, decryptAddr⟩

/-- The contexts that `process_queue_packets` runs with; queue 0 only reads counters. -/
def Gateway.packetWorkers {Table : Type} (g : Gateway Table) : List WorkerCtx :=
  g.workers.filter fun w => w.queueId ≠ 0

/-- The state in front of the loop, once DOCA Flow was started: the arrays come from `calloc`, and until
    then the counts say that they are full. -/
def startDynamic {Table : Type} (env : FlowEnv) (cfg : Config)
    (nbQueues encryptAddr decryptAddr : Nat) (table : Table) : Option (Gateway Table) :=
  match startFlow env cfg DYN_RESERVED_RULES DYN_RESERVED_RULES Flow.empty with
  | some (.ok _, flow) =>
    let encrypt := List.replicate DYN_RESERVED_RULES EncryptRule.zero
    let decrypt := List.replicate DYN_RESERVED_RULES DecryptRule.zero
    some {
      cfg := cfg
      encryptRules := ⟨encryptAddr, if cfg.runsWorkers ∧ cfg.swSnIncEnable then
        swHandlingSnInc cfg encrypt DYN_RESERVED_RULES else encrypt⟩
      decryptRules := ⟨decryptAddr, if cfg.runsWorkers ∧ cfg.swAntireplay then
        swHandlingAntireplay cfg decrypt DYN_RESERVED_RULES else decrypt⟩
      nbEncryptedRules := 0
      nbDecryptedRules := 0
      nbRules := 0
      ip6Table := table
      flow := flow
      workers := startWorkers cfg nbQueues encryptAddr decryptAddr }
  | _ => none

structure PassEnv where
  flow : FlowEnv
  fuel : Nat
  encryptRealloc : Alloc EncryptRule
  decryptRealloc : Alloc DecryptRule

/-! ## The loop -/

section Loop

variable {Table : Type} (inetPton6 : List UInt8 → Option Ip6Addr) (hash : RteHash Table)

def mustGrow (count : Nat) : Bool := count ≠ 0 ∧ count % DYN_RESERVED_RULES = 0

/-- Grow `encrypt_rules` if it is full; new rules start with the initial sequence number. -/
def growEncryptRules (answer : Alloc EncryptRule) (g : Gateway Table) : Option (Block EncryptRule) :=
  (grow DYN_RESERVED_RULES answer g.nbEncryptedRules g.encryptRules).map fun b =>
    if mustGrow g.nbEncryptedRules ∧ g.cfg.swSnIncEnable then
      ⟨b.addr, b.cells.take g.nbEncryptedRules ++
        swHandlingSnInc g.cfg (b.cells.drop g.nbEncryptedRules) DYN_RESERVED_RULES⟩
    else b

/-- Grow `decrypt_rules` if it is full; new rules start with the initial replay state. -/
def growDecryptRules (answer : Alloc DecryptRule) (g : Gateway Table) : Option (Block DecryptRule) :=
  (grow DYN_RESERVED_RULES answer g.nbDecryptedRules g.decryptRules).map fun b =>
    if mustGrow g.nbDecryptedRules ∧ g.cfg.swAntireplay then
      ⟨b.addr, b.cells.take g.nbDecryptedRules ++
        swHandlingAntireplay g.cfg (b.cells.drop g.nbDecryptedRules) DYN_RESERVED_RULES⟩
    else b

variable (ev : PassEnv) (policy : Policy)

/-- `ipsec_security_gw_handle_encrypt_policy` on the next free rule. `none`: an access outside of the
    array, or an endless wait for DOCA Flow. -/
def handleEncryptPolicy :
    Prog (Gateway Table) DocaError Unit := fun g => do
  let rule ← g.encryptRules.cells[g.nbEncryptedRules]?
  let r ← policyEncryptParse inetPton6 hash policy (rule, g.ip6Table)
  let g := { g with
    encryptRules := ⟨g.encryptRules.addr, g.encryptRules.cells.set g.nbEncryptedRules r.2.1⟩
    ip6Table := r.2.2 }
  match r.1 with
  | .error code => some (.error code, g)
  | .ok _ => do
    let t ← addEncryptEntry ev.flow hash g.ip6Table g.cfg ev.fuel r.2.1 g.nbEncryptedRules g.flow
    match t with
    | (.error code, flow) => some (.error code, { g with flow := flow })
    | (.ok _, flow) =>
      some (.ok (), { g with
        flow := flow
        nbEncryptedRules := g.nbEncryptedRules + 1
        nbRules := g.nbRules + 1 })

def handleDecryptPolicy :
    Prog (Gateway Table) DocaError Unit := fun g => do
  let rule ← g.decryptRules.cells[g.nbDecryptedRules]?
  let r ← policyDecryptParse inetPton6 policy g.cfg.mode rule
  let g := { g with
    decryptRules := ⟨g.decryptRules.addr, g.decryptRules.cells.set g.nbDecryptedRules r.2⟩ }
  match r.1 with
  | .error code => some (.error code, g)
  | .ok _ => do
    let t ← addDecryptEntry ev.flow g.cfg ev.fuel r.2 (DYN_RESERVED_RULES + g.nbDecryptedRules) g.flow
    match t with
    | (.error code, flow) => some (.error code, { g with flow := flow })
    | (.ok _, flow) =>
      some (.ok (), { g with
        flow := flow
        nbDecryptedRules := g.nbDecryptedRules + 1
        nbRules := g.nbRules + 1 })

/-- A policy for egress traffic.  If `realloc` fails, the pointer to the array is lost. -/
def receiveEncryptPolicy :
    Prog (Gateway Table) DocaError Unit := fun g =>
  if MAX_NB_RULES ≤ g.nbEncryptedRules then some (.error .badState, g)
  else
    match growEncryptRules ev.encryptRealloc g with
    | none => some (.error .noMemory, { g with encryptRules := ⟨0, []⟩ })
    | some b => handleEncryptPolicy inetPton6 hash ev policy { g with encryptRules := b }

def receiveDecryptPolicy :
    Prog (Gateway Table) DocaError Unit := fun g =>
  if MAX_NB_RULES ≤ g.nbDecryptedRules then some (.error .badState, g)
  else
    match growDecryptRules ev.decryptRealloc g with
    | none => some (.error .noMemory, { g with decryptRules := ⟨0, []⟩ })
    | some b => handleDecryptPolicy inetPton6 ev policy { g with decryptRules := b }

/-- One pass of the loop of `ipsec_security_gw_wait_for_traffic`, with the result of
    `read_message_from_socket`.  An error ends the loop. -/
def waitForTrafficPass (message : Except DocaError Policy) :
    Prog (Gateway Table) DocaError Unit :=
  match message with
  | .error code => if code = .again then pure () else Prog.fail code
  | .ok policy =>
    if policy.policyDirection = POLICY_DIR_OUT then
      receiveEncryptPolicy inetPton6 hash ev policy
    else if policy.policyDirection = POLICY_DIR_IN then
      receiveDecryptPolicy inetPton6 ev policy
    else pure ()

def loopStep (g : Gateway Table) (e : PassEnv × Except DocaError Policy) : Option (Gateway Table) :=
  match waitForTrafficPass inetPton6 hash e.1 e.2 g with
  | some (.ok _, g') => some g'
  | _ => none

/-- The states of the loop, whatever policies arrive and whatever the outside answers. -/
def Reachable (g₀ g : Gateway Table) : Prop :=
  Reach (loopStep inetPton6 hash) (fun _ _ => True) g₀ g

/-! ## What one pass can do -/

/-- An encrypt policy was accepted: the array has grown if it had to, and the entries carry the number
    of the policy. -/
structure EncryptAccepted (g g' : Gateway Table) : Prop where
  cfg : g'.cfg = g.cfg
  workers : g'.workers = g.workers
  decryptRules : g'.decryptRules = g.decryptRules
  nbDecryptedRules : g'.nbDecryptedRules = g.nbDecryptedRules
  below : g.nbEncryptedRules < MAX_NB_RULES
  nbEncryptedRules : g'.nbEncryptedRules = g.nbEncryptedRules + 1
  grown : ∃ answer b, grow DYN_RESERVED_RULES answer g.nbEncryptedRules g.encryptRules = some b ∧
    g'.encryptRules.addr = b.addr ∧ g'.encryptRules.cells.length = b.cells.length
  flow : ∃ table rule encap, Adds g.flow g'.flow
    (classifyEntries hash table g.cfg rule g.nbEncryptedRules ++
      [encryptEntry g.cfg rule g.nbEncryptedRules encap])
    [.configure g.nbEncryptedRules (encryptSaConfig g.cfg rule.saAttrs)]

/-- A decrypt policy was accepted: the entries carry the number of the policy behind the reserved
    rules. -/
structure DecryptAccepted (g g' : Gateway Table) : Prop where
  cfg : g'.cfg = g.cfg
  workers : g'.workers = g.workers
  encryptRules : g'.encryptRules = g.encryptRules
  nbEncryptedRules : g'.nbEncryptedRules = g.nbEncryptedRules
  below : g.nbDecryptedRules < MAX_NB_RULES
  nbDecryptedRules : g'.nbDecryptedRules = g.nbDecryptedRules + 1
  grown : ∃ answer b, grow DYN_RESERVED_RULES answer g.nbDecryptedRules g.decryptRules = some b ∧
    g'.decryptRules.addr = b.addr ∧ g'.decryptRules.cells.length = b.cells.length
  flow : ∃ rule, Adds g.flow g'.flow (decryptEntry g.cfg rule (DYN_RESERVED_RULES + g.nbDecryptedRules)
        (DYN_RESERVED_RULES + g.nbDecryptedRules) ::
      badSyndromeEntries g.cfg rule (DYN_RESERVED_RULES + g.nbDecryptedRules))
    [.configure (DYN_RESERVED_RULES + g.nbDecryptedRules) (decryptSaConfig g.cfg rule.saAttrs)]

variable {inetPton6 hash}

theorem length_take_map_drop {α : Type} (f : α → α) (l : List α) (n : Nat) :
    ((l.take n).map f ++ l.drop n).length = l.length := by
  rw [length_append, length_map, ← length_append, take_append_drop]

theorem swHandlingSnInc_length (rules : List EncryptRule) (n : Nat) :
    (swHandlingSnInc cfg rules n).length = rules.length := length_take_map_drop ..

theorem swHandlingAntireplay_length (rules : List DecryptRule) (n : Nat) :
    (swHandlingAntireplay cfg rules n).length = rules.length := length_take_map_drop ..

variable {g : Gateway Table}

theorem grown_of_map {α : Type} {answer : Alloc α} {n : Nat} {a b : Block α} {p : Prop} [Decidable p]
    {f : List α → List α} (hf : ∀ l, (f l).length = l.length)
    (h : ((grow DYN_RESERVED_RULES answer n a).map fun b =>
      if p then ⟨b.addr, b.cells.take n ++ f (b.cells.drop n)⟩ else b) = some b) :
    ∃ b₀, grow DYN_RESERVED_RULES answer n a = some b₀ ∧ b.addr = b₀.addr ∧
      b.cells.length = b₀.cells.length := by
  obtain ⟨b₀, hb₀, rfl⟩ := Option.map_eq_some_iff.mp h
  refine ⟨b₀, hb₀, ?_⟩
  split
  · refine ⟨rfl, ?_⟩
    rw [length_append, hf, ← length_append, take_append_drop]
  · exact ⟨rfl, rfl⟩

def SameCounters (g g' : Gateway Table) : Prop :=
  g'.nbEncryptedRules = g.nbEncryptedRules ∧ g'.nbDecryptedRules = g.nbDecryptedRules ∧
    g'.nbRules = g.nbRules

variable {g' : Gateway Table} {ev : PassEnv} {policy : Policy} {res : Except DocaError Unit}

theorem receiveEncryptPolicy_cases (h : receiveEncryptPolicy inetPton6 hash ev policy g = some (res, g')) :
    (res ≠ .ok () ∧ SameCounters g g') ∨ (EncryptAccepted hash g g' ∧ res = .ok () ∧ g'.nbRules = g.nbRules + 1 ∧
        ∃ s s', policyEncryptParse inetPton6 hash policy s = some (.ok (), s') ∧
          g'.encryptRules.cells[g.nbEncryptedRules]? = some s'.1) := by
  unfold receiveEncryptPolicy at h
  split at h
  · cases h; exact .inl ⟨nofun, rfl, rfl, rfl⟩
  split at h
  · cases h; exact .inl ⟨nofun, rfl, rfl, rfl⟩
  rename_i hgrow
  obtain ⟨b₀, hb₀, haddr, hlen⟩ := grown_of_map (fun _ => swHandlingSnInc_length ..) hgrow
  simp only [handleEncryptPolicy, Option.bind_eq_bind, Option.bind_eq_some_iff] at h
  obtain ⟨rule, hrule, r, hparse, h⟩ := h
  split at h
  · cases h; exact .inl ⟨nofun, rfl, rfl, rfl⟩
  rename_i hok
  rw [Option.bind_eq_some_iff] at h
  obtain ⟨t, ht, h⟩ := h
  split at h
  · cases h; exact .inl ⟨nofun, rfl, rfl, rfl⟩
  · cases h
    obtain ⟨encap, hadds⟩ := addEncryptEntry_ok ht
    refine .inr ⟨⟨rfl, rfl, rfl, rfl, by omega, rfl,
      ⟨_, b₀, hb₀, haddr, by rw [length_set]; exact hlen⟩, _, _, encap, hadds⟩, rfl, rfl, _, r.2,
      hparse.trans (by rw [← hok]), ?_⟩
    exact getElem?_set_self (List.getElem?_eq_some_iff.mp hrule).1

theorem receiveDecryptPolicy_cases (h : receiveDecryptPolicy inetPton6 ev policy g = some (res, g')) :
    (res ≠ .ok () ∧ SameCounters g g') ∨ (DecryptAccepted g g' ∧ res = .ok () ∧ g'.nbRules = g.nbRules + 1 ∧
        ∃ s s', policyDecryptParse inetPton6 policy g.cfg.mode s = some (.ok (), s') ∧
          g'.decryptRules.cells[g.nbDecryptedRules]? = some s') := by
  unfold receiveDecryptPolicy at h
  split at h
  · cases h; exact .inl ⟨nofun, rfl, rfl, rfl⟩
  split at h
  · cases h; exact .inl ⟨nofun, rfl, rfl, rfl⟩
  rename_i hgrow
  obtain ⟨b₀, hb₀, haddr, hlen⟩ := grown_of_map (fun _ => swHandlingAntireplay_length ..) hgrow
  simp only [handleDecryptPolicy, Option.bind_eq_bind, Option.bind_eq_some_iff] at h
  obtain ⟨rule, hrule, r, hparse, h⟩ := h
  split at h
  · cases h; exact .inl ⟨nofun, rfl, rfl, rfl⟩
  rename_i hok
  rw [Option.bind_eq_some_iff] at h
  obtain ⟨t, ht, h⟩ := h
  split at h
  · cases h; exact .inl ⟨nofun, rfl, rfl, rfl⟩
  · cases h
    refine .inr ⟨⟨rfl, rfl, rfl, rfl, by omega, rfl,
      ⟨_, b₀, hb₀, haddr, by rw [length_set]; exact hlen⟩, _, addDecryptEntry_ok ht⟩, rfl, rfl, _, r.2,
      hparse.trans (by rw [← hok]), ?_⟩
    exact getElem?_set_self (List.getElem?_eq_some_iff.mp hrule).1

/-- **A pass after which the loop goes on** left the state as it was or accepted one policy. -/
theorem loopStep_cases {e : PassEnv × Except DocaError Policy}
    (h : loopStep inetPton6 hash g e = some g') :
    g' = g ∨ EncryptAccepted hash g g' ∨ DecryptAccepted g g' := by
  unfold loopStep at h
  split at h
  · rename_i hpass
    cases h
    obtain ⟨ev, code | policy⟩ := e
    · simp only [waitForTrafficPass, Prog.ite_ok, Prog.pure_ok, Prog.fail_ok, and_false, or_false] at hpass
      exact .inl hpass.2.2.symm
    · simp only [waitForTrafficPass, Prog.ite_ok, Prog.pure_ok] at hpass
      obtain ⟨_, hpass⟩ | ⟨_, ⟨_, hpass⟩ | ⟨_, _, hpass⟩⟩ := hpass
      · rcases receiveEncryptPolicy_cases hpass with ⟨hne, _⟩ | ⟨hacc, _⟩
        · exact absurd rfl hne
        · exact .inr (.inl hacc)
      · rcases receiveDecryptPolicy_cases hpass with ⟨hne, _⟩ | ⟨hacc, _⟩
        · exact absurd rfl hne
        · exact .inr (.inr hacc)
      · exact .inl hpass.symm
  · cases h

end Loop

/-! ## Installed entries -/

def Pipe.isFiveTuple : Pipe → Bool
  | .ipv4Tcp | .ipv4Udp | .ipv6Tcp | .ipv6Udp => true
  | _ => false

def Pipe.isDecrypt : Pipe → Bool
  | .decryptIpv4 | .decryptIpv6 => true
  | _ => false

def PipeEntry.isFiveTuple (e : PipeEntry) : Bool := e.pipe.isFiveTuple

def PipeEntry.isDecrypt (e : PipeEntry) : Bool := e.pipe.isDecrypt

def PipeEntry.ruleIdx (e : PipeEntry) : Nat := (PktMeta.ofU32 e.actions.pktMeta.toNat).ruleId

section Entries

variable {Table : Type} (hash : RteHash Table) (table : Table) (cfg : Config)

variable (rule : EncryptRule)

theorem getPipeForRule_fiveTuple : (getPipeForRule rule false).isFiveTuple = true ∧
      (getPipeForRule rule false).isDecrypt = false := by
  unfold getPipeForRule
  rw [if_neg Bool.false_ne_true]
  split <;> split <;> exact ⟨rfl, rfl⟩

theorem getPipeForRule_source : (getPipeForRule rule true).isFiveTuple = false ∧
      (getPipeForRule rule true).isDecrypt = false := by
  unfold getPipeForRule
  rw [if_pos rfl]
  split <;> exact ⟨rfl, rfl⟩

theorem encryptPipe_kind :
    (encryptPipe cfg rule).isFiveTuple = false ∧ (encryptPipe cfg rule).isDecrypt = false := by
  unfold encryptPipe
  split <;> split <;> exact ⟨rfl, rfl⟩

theorem encryptRule_entries (i : Nat) (encap : List UInt8) :
    ((classifyEntries hash table cfg rule i ++ [encryptEntry cfg rule i encap]).filter
        PipeEntry.isFiveTuple).map PipeEntry.ruleIdx = [i % 1048576] ∧
      (classifyEntries hash table cfg rule i ++ [encryptEntry cfg rule i encap]).filter
        PipeEntry.isDecrypt = [] := by
  have hsrc : ∀ id, (srcIp6Entry rule id).isFiveTuple = false ∧
      (srcIp6Entry rule id).isDecrypt = false := fun _ => getPipeForRule_source rule
  have htuple : ∀ id, (fiveTupleEntry rule id i).isFiveTuple = true ∧
      (fiveTupleEntry rule id i).isDecrypt = false := fun _ => getPipeForRule_fiveTuple rule
  have henc : (encryptEntry cfg rule i encap).isFiveTuple = false ∧
      (encryptEntry cfg rule i encap).isDecrypt = false := encryptPipe_kind cfg rule
  have hidx : ∀ id, (fiveTupleEntry rule id i).ruleIdx = i % 1048576 :=
    fun _ => PktMeta.ruleId_word _
  unfold classifyEntries
  split <;> simp [hsrc, henc, htuple, hidx]

theorem decryptRule_entries (rule : DecryptRule) (i id : Nat) :
    ((decryptEntry cfg rule i id :: badSyndromeEntries cfg rule i).filter
        PipeEntry.isDecrypt).map PipeEntry.ruleIdx = [i % 1048576] ∧
      (decryptEntry cfg rule i id :: badSyndromeEntries cfg rule i).filter PipeEntry.isFiveTuple = [] := by
  have hdec : (decryptEntry cfg rule i id).isDecrypt = true ∧
      (decryptEntry cfg rule i id).isFiveTuple = false := by
    unfold decryptEntry PipeEntry.isFiveTuple PipeEntry.isDecrypt
    dsimp only
    split <;> exact ⟨rfl, rfl⟩
  have hbad : ∀ d a, (badSyndromeEntry rule i d a).isDecrypt = false ∧
      (badSyndromeEntry rule i d a).isFiveTuple = false := by
    intro d a
    unfold badSyndromeEntry PipeEntry.isFiveTuple PipeEntry.isDecrypt
    dsimp only
    split <;> exact ⟨rfl, rfl⟩
  have hidx : (decryptEntry cfg rule i id).ruleIdx = i % 1048576 := PktMeta.ruleId_word _
  unfold badSyndromeEntries
  split <;> simp [hdec, hbad, hidx]

end Entries

/-! ## Reachable states -/

section Runs

variable {Table : Type} {inetPton6 : List UInt8 → Option Ip6Addr} {hash : RteHash Table}
variable {g₀ g g' : Gateway Table}

def Gateway.indices (g : Gateway Table) (kind : PipeEntry → Bool) : List Nat :=
  (g.flow.entries.filter kind).map PipeEntry.ruleIdx

structure Invariant (g₀ g : Gateway Table) : Prop where
  cfg : g.cfg = g₀.cfg
  workers : g.workers = g₀.workers
  encryptRoom : Room DYN_RESERVED_RULES g.nbEncryptedRules g.encryptRules
  decryptRoom : Room DYN_RESERVED_RULES g.nbDecryptedRules g.decryptRules
  encryptMax : g.nbEncryptedRules ≤ MAX_NB_RULES
  decryptMax : g.nbDecryptedRules ≤ MAX_NB_RULES
  encryptIndices : g.indices PipeEntry.isFiveTuple = List.range g.nbEncryptedRules
  decryptIndices : g.indices PipeEntry.isDecrypt =
    (List.range g.nbDecryptedRules).map fun n => (DYN_RESERVED_RULES + n) % MAX_NB_RULES
  sharedObjects : ∃ log : List (Nat × SaConfig), g.flow.sa = g₀.flow.sa ++ configureAll log ∧
    (log.map Prod.fst).Perm (List.range g.nbEncryptedRules ++
      (List.range g.nbDecryptedRules).map (DYN_RESERVED_RULES + ·))

theorem indices_adds {kind : PipeEntry → Bool} {es : List PipeEntry} {evs : List SaEvent}
    (h : Adds g.flow g'.flow es evs) :
    g'.indices kind = g.indices kind ++ (es.filter kind).map PipeEntry.ruleIdx := by
  unfold Gateway.indices
  rw [h.entries_eq, filter_append, map_append]

theorem sharedObjects_adds {log : List (Nat × SaConfig)} {es : List PipeEntry} {id : Nat}
    {c : SaConfig} (h : Adds g.flow g'.flow es [.configure id c])
    (hlog : g.flow.sa = g₀.flow.sa ++ configureAll log) :
    g'.flow.sa = g₀.flow.sa ++ configureAll (log ++ [(id, c)]) := by
  rw [h.sa_eq, hlog, configureAll, configureAll, map_append, append_assoc]
  rfl

theorem Invariant.encrypt (h : Invariant g₀ g) (hs : EncryptAccepted hash g g') : Invariant g₀ g' := by
  obtain ⟨answer, b, hgrow, _, hlen⟩ := hs.grown
  obtain ⟨table, rule, encap, hadds⟩ := hs.flow
  obtain ⟨hdvd, hlt⟩ := h.encryptRoom.grow (by decide) hgrow
  obtain ⟨htuple, hdec⟩ :=
    encryptRule_entries hash table g.cfg rule g.nbEncryptedRules encap
  obtain ⟨log, hlog, hperm⟩ := h.sharedObjects
  have hbelow := hs.below
  have hmod : g.nbEncryptedRules % 1048576 = g.nbEncryptedRules := Nat.mod_eq_of_lt hbelow
  refine ⟨hs.cfg.trans h.cfg, hs.workers.trans h.workers, ?_, ?_, ?_, ?_, ?_, ?_, log ++ [_],
    sharedObjects_adds hadds hlog, ?_⟩
  · rw [hs.nbEncryptedRules]
    exact Room.succ (hlen ▸ hdvd) (hlen ▸ hlt)
  · rw [hs.nbDecryptedRules, hs.decryptRules]
    exact h.decryptRoom
  · rw [hs.nbEncryptedRules]
    exact hbelow
  · rw [hs.nbDecryptedRules]
    exact h.decryptMax
  · rw [indices_adds hadds, htuple, h.encryptIndices, hs.nbEncryptedRules, range_succ, hmod]
  · rw [indices_adds hadds, hdec, h.decryptIndices, hs.nbDecryptedRules, map_nil, append_nil]
  · rw [hs.nbEncryptedRules, hs.nbDecryptedRules, range_succ, map_append]
    refine (hperm.append_right _).trans ?_
    rw [append_assoc, append_assoc]
    exact perm_append_comm.append_left _

theorem Invariant.decrypt (h : Invariant g₀ g) (hs : DecryptAccepted g g') : Invariant g₀ g' := by
  obtain ⟨answer, b, hgrow, _, hlen⟩ := hs.grown
  obtain ⟨rule, hadds⟩ := hs.flow
  obtain ⟨hdvd, hlt⟩ := h.decryptRoom.grow (by decide) hgrow
  obtain ⟨hdec, htuple⟩ := decryptRule_entries g.cfg rule
    (DYN_RESERVED_RULES + g.nbDecryptedRules) (DYN_RESERVED_RULES + g.nbDecryptedRules)
  obtain ⟨log, hlog, hperm⟩ := h.sharedObjects
  refine ⟨hs.cfg.trans h.cfg, hs.workers.trans h.workers, ?_, ?_, ?_, ?_, ?_, ?_, log ++ [_],
    sharedObjects_adds hadds hlog, ?_⟩
  · rw [hs.nbEncryptedRules, hs.encryptRules]
    exact h.encryptRoom
  · rw [hs.nbDecryptedRules]
    exact Room.succ (hlen ▸ hdvd) (hlen ▸ hlt)
  · rw [hs.nbEncryptedRules]
    exact h.encryptMax
  · rw [hs.nbDecryptedRules]
    exact hs.below
  · rw [indices_adds hadds, htuple, h.encryptIndices, hs.nbEncryptedRules, map_nil, append_nil]
  · rw [indices_adds hadds, hdec, h.decryptIndices, hs.nbDecryptedRules, range_succ, map_append]
    rfl
  · rw [hs.nbEncryptedRules, hs.nbDecryptedRules, range_succ, map_append, map_append, ← append_assoc]
    exact hperm.append_right _

theorem Invariant.step {e : PassEnv × Except DocaError Policy} (h : Invariant g₀ g)
    (hs : loopStep inetPton6 hash g e = some g') : Invariant g₀ g' := by
  rcases loopStep_cases hs with rfl | hs | hs
  · exact h
  · exact h.encrypt hs
  · exact h.decrypt hs

def startSa (nbEncryptedRules nbDecryptedRules : Nat) : List SaEvent :=
  [.bind (List.range nbEncryptedRules ++ [ENCRYPT_DUMMY_ID]),
    .configure ENCRYPT_DUMMY_ID (encryptSaConfig cfg dummySaAttrs),
    .bind ((List.range nbDecryptedRules).map (nbEncryptedRules + ·) ++ [DECRYPT_DUMMY_ID]),
    .configure DECRYPT_DUMMY_ID (decryptSaConfig cfg dummySaAttrs)]

variable {cfg : Config}

theorem startFlow_ok {env : FlowEnv} {s s' : Flow} {u : Unit} {e d : Nat}
    (h : startFlow env cfg e d s = some (.ok u, s')) : Adds s s' [] (startSa cfg e d) := by
  simp only [startFlow, Prog.bind_ok] at h
  obtain ⟨_, _, h₁, h₂⟩ := h
  exact (createEncryptEgress_ok h₁).trans (insertDecryptRules_ok h₂)

structure Started (cfg : Config) (nbQueues encryptAddr decryptAddr : Nat) (g : Gateway Table) : Prop where
  cfg_eq : g.cfg = cfg
  flow : Adds Flow.empty g.flow [] (startSa cfg DYN_RESERVED_RULES DYN_RESERVED_RULES)
  workers : g.workers = startWorkers cfg nbQueues encryptAddr decryptAddr
  encryptAddr : g.encryptRules.addr = encryptAddr
  invariant : Invariant g g

variable {nbQueues encryptAddr decryptAddr : Nat}

theorem startDynamic_started {env : FlowEnv} {table : Table}
    (h : startDynamic env cfg nbQueues encryptAddr decryptAddr table = some g) :
    Started cfg nbQueues encryptAddr decryptAddr g := by
  unfold startDynamic at h
  split at h
  · rename_i flow hflow
    cases h
    have hadds := startFlow_ok hflow
    have hentries : flow.entries = [] := hadds.entries_eq
    refine ⟨rfl, hadds, rfl, rfl, rfl, rfl, Room.start (by decide) ?_, Room.start (by decide) ?_,
      Nat.zero_le _, Nat.zero_le _, ?_, ?_, [], ?_, .refl _⟩
    · show length (ite _ _ _) = _
      split
      · rw [swHandlingSnInc_length, length_replicate]
      · exact length_replicate
    · show length (ite _ _ _) = _
      split
      · rw [swHandlingAntireplay_length, length_replicate]
      · exact length_replicate
    · simp only [Gateway.indices, hentries]
      rfl
    · simp only [Gateway.indices, hentries]
      rfl
    · exact (append_nil _).symm
  · cases h

theorem reachable_invariant (h₀ : Invariant g₀ g₀) (h : Reachable inetPton6 hash g₀ g) : Invariant g₀ g :=
  Reach.invariant h₀ (fun _ _ _ hi _ hs => hi.step hs) h

/-! ## The rules that packets use -/

/-- `&ctx->decrypt_rules[meta.rule_id]` in `handle_secured_packets_received`, the only rule that is read
    by `handleSecuredPacketsReceived_rule`: the address of the array and the index. -/
def securedRule (w : WorkerCtx) (m : Mbuf) : Nat × Nat :=
  (w.decryptRules, (PktMeta.ofU32 m.metadata.toNat).ruleId)

def unsecuredRule (w : WorkerCtx) (m : Mbuf) : Nat × Nat :=
  (w.encryptRules, (PktMeta.ofU32 m.metadata.toNat).ruleId)

/-- On every core that processes packets, a packet with the metadata of the entry of the `n`-th policy
    uses the `n`-th rule of the current array, inside of it. -/
def UsesNthRule {α : Type} (g : Gateway Table) (kind : PipeEntry → Bool) (rules : Block α)
    (rule : WorkerCtx → Mbuf → Nat × Nat) : Prop :=
  ∀ w ∈ g.packetWorkers, ∀ n e, (g.flow.entries.filter kind)[n]? = some e →
    ∀ m : Mbuf, m.metadata = e.actions.pktMeta →
      rule w m = (rules.addr, n) ∧ (rule w m).2 < rules.cells.length

def RuleAgreement (g : Gateway Table) : Prop :=
  UsesNthRule g PipeEntry.isFiveTuple g.encryptRules unsecuredRule ∧
    UsesNthRule g PipeEntry.isDecrypt g.decryptRules securedRule

theorem usesNthRule_iff {α : Type} {kind : PipeEntry → Bool} {rules : Block α}
    {rule : WorkerCtx → Mbuf → Nat × Nat} {base : WorkerCtx → Nat}
    (hrule : ∀ w m, rule w m = (base w, (PktMeta.ofU32 m.metadata.toNat).ruleId)) :
    UsesNthRule g kind rules rule ↔ ∀ w ∈ g.packetWorkers, ∀ n i, (g.indices kind)[n]? = some i →
      base w = rules.addr ∧ i = n ∧ i < rules.cells.length := by
  unfold UsesNthRule Gateway.indices
  constructor
  · intro h w hw n i hi
    rw [getElem?_map, Option.map_eq_some_iff] at hi
    obtain ⟨e, he, rfl⟩ := hi
    -- any packet will do; only its metadata counts
    have hm := h w hw n e he ⟨⟨fun _ => 0, 0, 0, 0⟩, [], 0, ⟨false, false⟩, e.actions.pktMeta⟩ rfl
    rw [hrule] at hm
    exact ⟨congrArg Prod.fst hm.1, congrArg Prod.snd hm.1, hm.2⟩
  · intro h w hw n e he m hm
    have hi := h w hw n e.ruleIdx (by rw [getElem?_map, he]; rfl)
    rw [hrule, hm]
    exact ⟨Prod.ext hi.1 hi.2.1, hi.2.2⟩

theorem mem_packetWorkers (hw : g.workers = startWorkers cfg nbQueues encryptAddr decryptAddr)
    {w : WorkerCtx} (h : w ∈ g.packetWorkers) :
    w.encryptRules = encryptAddr ∧ w.decryptRules = decryptAddr := by
  unfold Gateway.packetWorkers startWorkers at *
  rw [hw, mem_filter, mem_map] at h
  obtain ⟨⟨q, _, rfl⟩, _⟩ := h
  exact ⟨rfl, rfl⟩

theorem exists_packetWorker (hw : g.workers = startWorkers cfg nbQueues encryptAddr decryptAddr)
    (hruns : cfg.runsWorkers = true) (hq : 1 < nbQueues) : ∃ w, w ∈ g.packetWorkers := by
  refine ⟨⟨1, encryptAddr, decryptAddr⟩, ?_⟩
  unfold Gateway.packetWorkers startWorkers at *
  rw [hw, if_pos hruns, mem_filter, mem_map]
  exact ⟨⟨1, mem_range.2 hq, rfl⟩, decide_eq_true Nat.one_ne_zero⟩

/-- Encrypt rules: the index is always right; the array must be where it was when the cores were
    started. -/
theorem encrypt_agrees_iff (hinv : Invariant g₀ g) {addr : Nat}
    (haddr : ∀ w ∈ g.packetWorkers, w.encryptRules = addr) (hex : ∃ w, w ∈ g.packetWorkers) :
    UsesNthRule g PipeEntry.isFiveTuple g.encryptRules unsecuredRule ↔
      g.nbEncryptedRules = 0 ∨ g.encryptRules.addr = addr := by
  have hrule : ∀ w m, unsecuredRule w m =
      (w.encryptRules, (PktMeta.ofU32 m.metadata.toNat).ruleId) := fun _ _ => rfl
  rw [usesNthRule_iff hrule, hinv.encryptIndices]
  constructor
  · intro h
    obtain ⟨w, hw⟩ := hex
    rcases Nat.eq_zero_or_pos g.nbEncryptedRules with hzero | hpos
    · exact .inl hzero
    · refine .inr ?_
      rw [← haddr w hw]
      exact (h w hw 0 0 (getElem?_range hpos)).1.symm
  · intro h w hw n i hi
    have hn : n < g.nbEncryptedRules := by
      have := (List.getElem?_eq_some_iff.1 hi).1
      rwa [length_range] at this
    rw [getElem?_range hn] at hi
    cases hi
    refine ⟨?_, rfl, Nat.lt_of_lt_of_le hn hinv.encryptRoom.used⟩
    rw [haddr w hw]
    exact (h.resolve_left (by omega)).symm

theorem decrypt_agrees_iff (hinv : Invariant g₀ g) (hex : ∃ w, w ∈ g.packetWorkers) :
    UsesNthRule g PipeEntry.isDecrypt g.decryptRules securedRule ↔ g.nbDecryptedRules = 0 := by
  have hrule : ∀ w m, securedRule w m =
      (w.decryptRules, (PktMeta.ofU32 m.metadata.toNat).ruleId) := fun _ _ => rfl
  rw [usesNthRule_iff hrule, hinv.decryptIndices]
  constructor
  · intro h
    obtain ⟨w, hw⟩ := hex
    by_contra hne
    have hpos : 0 < g.nbDecryptedRules := Nat.pos_of_ne_zero hne
    have hfirst := h w hw 0 ((DYN_RESERVED_RULES + 0) % MAX_NB_RULES)
      (by rw [getElem?_map, getElem?_range hpos]; rfl)
    exact absurd hfirst.2.1 (by decide)
  · intro h w hw n i hi
    rw [h] at hi
    cases hi

/-- **When the rules that packets use are those of the policies**: if no decrypt policy was accepted,
    and the encrypt array is still where it was when the cores were started. -/
theorem rule_agreement_iff {env : FlowEnv} {cfg : Config} {nbQueues encryptAddr decryptAddr : Nat}
    {table : Table} (hruns : cfg.runsWorkers = true) (hq : 1 < nbQueues)
    (hstart : startDynamic env cfg nbQueues encryptAddr decryptAddr table = some g₀)
    (h : Reachable inetPton6 hash g₀ g) :
    RuleAgreement g ↔
      g.nbDecryptedRules = 0 ∧ (g.nbEncryptedRules = 0 ∨ g.encryptRules.addr = encryptAddr) := by
  have hst := startDynamic_started hstart
  have hinv := reachable_invariant hst.invariant h
  have hworkers := hinv.workers.trans hst.workers
  have hex := exists_packetWorker hworkers hruns hq
  rw [RuleAgreement, decrypt_agrees_iff hinv hex,
    encrypt_agrees_iff hinv (fun w hw => (mem_packetWorkers hworkers hw).1) hex]
  exact and_comm

end Runs

/-! ### One policy -/

def oneSlot : RteHash Unit := ⟨fun _ _ => 0, fun _ _ => (0, ())⟩

def someAddr : List UInt8 :=
  [0x31, 0x30, 0x2e, 0x30, 0x2e, 0x30, 0x2e, 0x37] ++ List.replicate 39 0

def somePolicy (direction : UInt8) : Policy :=
  { Policy.zero with
    l3Protocol := POLICY_L3_TYPE_IPV4
    l4Protocol := POLICY_L4_TYPE_UDP
    outerL3Protocol := POLICY_L3_TYPE_IPV4
    policyDirection := direction
    policyMode := POLICY_MODE_TUNNEL
    icvLength := 16
    srcIpAddr := someAddr
    dstIpAddr := someAddr
    outerSrcIp := someAddr
    outerDstIp := someAddr }

def softwareConfig : Config := { Config.zero with offload := .none, socketConf := true }

def afterPolicy (direction : UInt8) : Option (Gateway Unit) := do
  let g ← startDynamic FlowEnv.ideal softwareConfig 2 1000 2000 ()
  loopStep (fun _ => none) oneSlot g (⟨.ideal, 1, none, none⟩, .ok (somePolicy direction))

theorem afterPolicy_reachable {direction : UInt8} {g : Gateway Unit} (h : afterPolicy direction = some g) :
    ∃ g₀, startDynamic FlowEnv.ideal softwareConfig 2 1000 2000 () = some g₀ ∧
      Reachable (fun _ => none) oneSlot g₀ g := by
  simp only [afterPolicy, Option.bind_eq_bind, Option.bind_eq_some_iff] at h
  obtain ⟨g₀, hstart, hstep⟩ := h
  exact ⟨g₀, hstart, Reach.init.tail trivial hstep⟩

theorem rule_agreement_iff_encrypt : ∃ g, afterPolicy POLICY_DIR_OUT = some g ∧
    g.nbEncryptedRules = 1 ∧ RuleAgreement g := by
  have hrun : (afterPolicy POLICY_DIR_OUT).map (fun g =>
      (g.nbDecryptedRules, g.nbEncryptedRules, g.encryptRules.addr)) = some (0, 1, 1000) := by
    decide +kernel
  obtain ⟨g, hg, hvals⟩ := Option.map_eq_some_iff.1 hrun
  simp only [Prod.mk.injEq] at hvals
  obtain ⟨g₀, hstart, hreach⟩ := afterPolicy_reachable hg
  exact ⟨g, hg, hvals.2.1,
    (rule_agreement_iff (by decide) (by decide) hstart hreach).2 ⟨hvals.1, .inr hvals.2.2⟩⟩

/-- The first decrypt policy: its packets carry the index 1024, outside of an array of 1024 rules. -/
theorem decrypt_index_outside : ∃ g, afterPolicy POLICY_DIR_IN = some g ∧
    g.nbDecryptedRules = 1 ∧ g.indices PipeEntry.isDecrypt = [1024] ∧
    g.decryptRules.cells.length = 1024 ∧ ¬ RuleAgreement g := by
  have hrun : (afterPolicy POLICY_DIR_IN).map (fun g =>
      (g.nbDecryptedRules, g.indices PipeEntry.isDecrypt, g.decryptRules.cells.length)) =
        some (1, [1024], 1024) := by
    decide +kernel
  obtain ⟨g, hg, hvals⟩ := Option.map_eq_some_iff.1 hrun
  simp only [Prod.mk.injEq] at hvals
  obtain ⟨g₀, hstart, hreach⟩ := afterPolicy_reachable hg
  have hst := startDynamic_started hstart
  have hinv := reachable_invariant hst.invariant hreach
  have hex := exists_packetWorker (hinv.workers.trans hst.workers) (by decide) (by decide)
  refine ⟨g, hg, hvals.1, hvals.2.1, hvals.2.2, fun h => ?_⟩
  have := (decrypt_agrees_iff hinv hex).1 h.2
  omega

end Doca.IpsecGw
