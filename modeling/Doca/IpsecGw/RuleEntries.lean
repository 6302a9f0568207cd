import Doca.IpsecGw.EncapHeader
import Doca.IpsecGw.Flow

/-!
# Insertion of rules

Model of the functions of `flow_encrypt.c` and `flow_decrypt.c` that turn one rule into pipe entries
and a shared `IPSEC_SA` object.

* `bindEncryptIds`, `bindDecryptIds`, `createEncryptEgress`, `insertDecryptRules` — the shared objects
  that exist before any rule; the creation of the pipes themselves is left out.
* `addFiveTupleMatchEntry` — the classification of unsecured packets, for IPv6 with a separate entry
  for the source address.

Principal results: `addEncryptEntry_ok`, `addDecryptEntry_ok`, `addEncryptEntriesPass_ok`,
`addDecryptEntriesPass_ok` — the entries and the one configured object of a successful insertion.
-/

namespace Doca.IpsecGw

open Doca.Lib

structure RteHash (Table : Type) where
  lookup : Table → Ip6Addr → Int
  addKey : Table → Ip6Addr → Int × Table

section Definitions

variable {Table : Type} (env : FlowEnv) (hash : RteHash Table) (table : Table) (cfg : Config)

/-! ## Shared objects -/

def encryptSaConfig (attrs : SaAttrs) : SaConfig :=
  ⟨.secureEgress, attrs, if cfg.swSnIncEnable then none else some cfg.snInitial⟩

def decryptSaConfig (attrs : SaAttrs) : SaConfig :=
  ⟨.secureIngress, attrs, if cfg.swAntireplay then none else some cfg.snInitial⟩

def createIpsecEncryptSharedObject (attrs : SaAttrs) (ipsecId : Nat) : Prog Flow DocaError Unit :=
  sharedResourceCfg env ipsecId (encryptSaConfig cfg attrs)

def createIpsecDecryptSharedObject (attrs : SaAttrs) (ipsecId : Nat) : Prog Flow DocaError Unit :=
  sharedResourceCfg env ipsecId (decryptSaConfig cfg attrs)

def dummySaAttrs : SaAttrs := ⟨.length16, .key256, 0x01 :: List.replicate 31 0, 0x12345678⟩

def bindEncryptIds (nbRules : Nat) : Prog Flow DocaError Unit :=
  sharedResourcesBind env (List.range nbRules ++ [ENCRYPT_DUMMY_ID])

def bindDecryptIds (nbRules initialId : Nat) : Prog Flow DocaError Unit :=
  sharedResourcesBind env ((List.range nbRules).map (initialId + ·) ++ [DECRYPT_DUMMY_ID])

def createEncryptEgress (nbEncryptedRules : Nat) : Prog Flow DocaError Unit := do
  bindEncryptIds env nbEncryptedRules
  createIpsecEncryptSharedObject env cfg dummySaAttrs ENCRYPT_DUMMY_ID

def insertDecryptRules (nbDecryptedRules nbEncryptedRules : Nat) : Prog Flow DocaError Unit := do
  bindDecryptIds env nbDecryptedRules nbEncryptedRules
  createIpsecDecryptSharedObject env cfg dummySaAttrs DECRYPT_DUMMY_ID

/-! ## Encrypt rules -/

variable (rule : EncryptRule)

def getPipeForRule (srcIp6 : Bool) : Pipe :=
  if srcIp6 then
    if rule.protocol = .tcp then .ipv6SrcTcp else .ipv6SrcUdp
  else if rule.l3Type = .ip4 then
    if rule.protocol = .tcp then .ipv4Tcp else .ipv4Udp
  else
    if rule.protocol = .tcp then .ipv6Tcp else .ipv6Udp

def srcIp6Entry (srcIpId : UInt32) : PipeEntry :=
  ⟨getPipeForRule rule true, { FlowMatch.zero with srcIp6 := rule.srcIp6 },
    { FlowActions.zero with metaU32 := srcIpId }⟩

def addSrcIp6Entry (status : EntriesStatus) (srcIpId : UInt32) :
    Prog Flow DocaError EntriesStatus := do
  pipeAddEntry env (flagsIf (status.entriesInQueue = QUEUE_DEPTH - 1)) (srcIp6Entry rule srcIpId)
  enqueued env status

def l4Port (protocol : L4TypeExt) (port : Int) : UInt16 :=
  if protocol = .none then 0 else UInt16.ofInt port

def fiveTupleMatch (srcIpId : UInt32) : FlowMatch :=
  let ports := { FlowMatch.zero with
    l4TypeExt := rule.protocol
    srcPort := l4Port rule.protocol rule.srcPort
    dstPort := l4Port rule.protocol rule.dstPort }
  if rule.l3Type = .ip4 then { ports with dstIp4 := rule.dstIp4, srcIp4 := rule.srcIp4 }
  else { ports with metaU32 := srcIpId, dstIp6 := rule.dstIp6 }

def encryptMeta (ruleId : Nat) : PktMeta := { PktMeta.zero with encrypt := 1, ruleId := ruleId }

def fiveTupleEntry (srcIpId : UInt32) (ruleId : Nat) : PipeEntry :=
  ⟨getPipeForRule rule false, fiveTupleMatch rule srcIpId,
    { FlowActions.zero with pktMeta := (encryptMeta ruleId).word }⟩

def splitsSourceIp : Bool := rule.l3Type = .ip6 ∧ ¬ cfg.isPerfBw

/-- The first half of `add_five_tuple_match_entry`: `src_ip_id`, and the entry that writes it. -/
def addSourceIp (status : EntriesStatus) :
    Prog Flow DocaError (EntriesStatus × Int) :=
  if splitsSourceIp cfg rule then
    if hash.lookup table rule.dstIp6 < 0 then Prog.fail .notFound
    else do
      let status ← addSrcIp6Entry env rule status (UInt32.ofInt (hash.lookup table rule.dstIp6))
      pure (status, hash.lookup table rule.dstIp6)
  else pure (status, 0)

def addFiveTupleMatchEntry (nbRules i : Nat) (status : EntriesStatus) :
    Prog Flow DocaError EntriesStatus := do
  let r ← addSourceIp env hash table cfg rule status
  pipeAddEntry env (entryFlags (i + 1 = nbRules) r.1.entriesInQueue)
    (fiveTupleEntry rule (UInt32.ofInt r.2) i)
  enqueued env r.1

/-- The header template of the mode, from `create_ipsec_encrypt_shared_object_tunnel`,
    `..._transport` and `..._transport_over_udp`. -/
def cryptoEncap : Prog Flow DocaError (List UInt8) := fun s =>
  match cfg.mode with
  | .tunnel =>
    if rule.encapL3Type = .ip4 then
      let encap := createIpv4TunnelEncap rule false s.currentIpId
      some (.ok encap.1, { s with currentIpId := encap.2 })
    else some (.ok (createIpv6TunnelEncap rule false), s)
  | .transport => some (.ok (createTransportEncap rule false), s)
  | .udpTransport => some (.ok (createUdpTransportEncap rule false), s)

def encryptPipe : Pipe :=
  if cfg.mode = .tunnel ∧ (cfg.offload = .none ∨ cfg.offload = .decap) then
    if rule.encapL3Type = .ip4 then .ipv4Encrypt else .ipv6Encrypt
  else
    if rule.l3Type = .ip4 then .ipv4Encrypt else .ipv6Encrypt

def encryptEntry (ruleId : Nat) (encap : List UInt8) : PipeEntry :=
  ⟨encryptPipe cfg rule,
    { FlowMatch.zero with pktMeta := { PktMeta.zero with ruleId := ruleId }.word },
    { FlowActions.zero with
      actionIdx := if cfg.mode = .tunnel ∧ rule.encapL3Type ≠ .ip4 then 1 else 0
      cryptoId := ruleId
      encapData := encap
      encapIcvSize := getIcvLenInt rule.saAttrs.icvLength }⟩

def addEncryptEntry (fuel : Nat) (rule : EncryptRule) (ruleId : Nat) :
    Prog Flow DocaError Unit := do
  let hairpin ← addFiveTupleMatchEntry env hash table cfg rule (ruleId + 1) ruleId .zero
  createIpsecEncryptSharedObject env cfg rule.saAttrs ruleId
  let encap ← cryptoEncap cfg rule
  pipeAddEntry env .noWait (encryptEntry cfg rule ruleId encap)
  let _ ← processAll env fuel { EntriesStatus.zero with entriesInQueue := 1 }
  let _ ← processAll env fuel hairpin
  pure ()

def addEncryptEntriesPass (nbRules ruleId : Nat)
    (hairpin status : EntriesStatus) : Prog Flow DocaError (EntriesStatus × EntriesStatus) := do
  let hairpin ← addFiveTupleMatchEntry env hash table cfg rule nbRules ruleId hairpin
  createIpsecEncryptSharedObject env cfg rule.saAttrs ruleId
  let encap ← cryptoEncap cfg rule
  pipeAddEntry env (entryFlags (ruleId + 1 = nbRules) status.entriesInQueue)
    (encryptEntry cfg rule ruleId encap)
  let status ← enqueued env status
  pure (hairpin, status)

/-! ## Decrypt rules -/

def decryptMeta (rule : DecryptRule) (ruleId : Nat) : PktMeta :=
  { PktMeta.zero with
    decrypt := 1
    ruleId := ruleId
    icvSize := rule.saAttrs.icvLength.toNat
    innerIpv6 := if cfg.mode = .tunnel ∧ rule.innerL3Type = .ip6 then 1 else 0 }

def decryptMatch (rule : DecryptRule) : FlowMatch :=
  let spi := { FlowMatch.zero with l3Type := rule.l3Type, espSpi := rule.espSpi, tunEsp := true }
  if rule.l3Type = .ip4 then { spi with dstIp4 := rule.dstIp4 }
  else { spi with dstIp6 := rule.dstIp6 }

def decryptEntry (rule : DecryptRule) (ruleId cryptoId : Nat) : PipeEntry :=
  ⟨if rule.l3Type = .ip4 then .decryptIpv4 else .decryptIpv6, decryptMatch rule, { FlowActions.zero with
      cryptoId := cryptoId
      pktMeta := (decryptMeta cfg rule ruleId).word }⟩

/-- One entry of `add_bad_syndrome_pipe_entry`: syndrome of the decryption or of the replay check. -/
def badSyndromeEntry (rule : DecryptRule) (ruleId decryptSyndrome antireplaySyndrome : Nat) : PipeEntry :=
  ⟨if rule.l3Type = .ip4 then .badSyndromeIpv4 else .badSyndromeIpv6, { FlowMatch.zero with
      pktMeta := { PktMeta.zero with ruleId := ruleId }.word
      ipsecSyndrome := decryptSyndrome
      metaU32 := UInt32.ofNat antireplaySyndrome },
    { FlowActions.zero with
      pktMeta := { PktMeta.zero with
        decryptSyndrome := decryptSyndrome
        antireplaySyndrome := antireplaySyndrome }.word }⟩

def addBadSyndromePipeEntry (rule : DecryptRule) (ruleId : Nat) (flags : FlowFlags) :
    Prog Flow DocaError Unit := do
  pipeAddEntry env .waitForBatch (badSyndromeEntry rule ruleId 1 0)
  pipeAddEntry env .waitForBatch (badSyndromeEntry rule ruleId 2 0)
  pipeAddEntry env .waitForBatch (badSyndromeEntry rule ruleId 0 1)
  pipeAddEntry env flags (badSyndromeEntry rule ruleId 0 2)

def NUM_OF_SYNDROMES : Nat := 4

/-- Object and entries of a decrypt rule: the part that `add_decrypt_entry` and a pass of
    `add_decrypt_entries` share. -/
def decryptRuleEntries (rule : DecryptRule) (ruleId cryptoId : Nat) (flags : FlowFlags)
    (status : EntriesStatus) : Prog Flow DocaError EntriesStatus := do
  createIpsecDecryptSharedObject env cfg rule.saAttrs cryptoId
  pipeAddEntry env (if cfg.debugMode then .waitForBatch else flags) (decryptEntry cfg rule ruleId cryptoId)
  if cfg.debugMode then do
    addBadSyndromePipeEntry env rule ruleId flags
    pure { status with entriesInQueue := status.entriesInQueue + 1 + NUM_OF_SYNDROMES }
  else pure { status with entriesInQueue := status.entriesInQueue + 1 }

/-- `add_decrypt_entry`: the rule index in the metadata and the object's id are one number. -/
def addDecryptEntry (fuel : Nat) (rule : DecryptRule) (ruleId : Nat) :
    Prog Flow DocaError Unit := do
  let status ← decryptRuleEntries env cfg rule ruleId ruleId .noWait .zero
  let _ ← processAll env fuel status
  pure ()

/-- One pass of the loop of `add_decrypt_entries`: the metadata has the rule's index, the id of the
    object is behind those of the encrypt rules. -/
def addDecryptEntriesPass (rule : DecryptRule) (nbEncryptRules : Nat) (last : Bool) (ruleId : Nat)
    (status : EntriesStatus) : Prog Flow DocaError EntriesStatus := do
  let status ← decryptRuleEntries env cfg rule ruleId (nbEncryptRules + ruleId)
    (decryptFlags last status.entriesInQueue) status
  if QUEUE_DEPTH - 8 ≤ status.entriesInQueue then processEntries env status else pure status

/-! ## The entries of a rule -/

/-- `src_ip_id` of a rule: the position of an address in the table, 0 if it is not looked up. -/
def srcIpId : Int :=
  if splitsSourceIp cfg rule then hash.lookup table rule.dstIp6 else 0

def classifyEntries (ruleId : Nat) : List PipeEntry :=
  (if splitsSourceIp cfg rule then
      [srcIp6Entry rule (UInt32.ofInt (srcIpId hash table cfg rule))] else []) ++
    [fiveTupleEntry rule (UInt32.ofInt (srcIpId hash table cfg rule)) ruleId]

def badSyndromeEntries (rule : DecryptRule) (ruleId : Nat) : List PipeEntry :=
  if cfg.debugMode then
    [badSyndromeEntry rule ruleId 1 0, badSyndromeEntry rule ruleId 2 0,
      badSyndromeEntry rule ruleId 0 1, badSyndromeEntry rule ruleId 0 2]
  else []

end Definitions

section Successful

variable {Table : Type} {env : FlowEnv} {hash : RteHash Table} {table : Table} {cfg : Config}
variable {s s' : Flow} {status st hairpin : EntriesStatus} {u : Unit} {rule : EncryptRule}

theorem addSrcIp6Entry_ok {id : UInt32} (h : addSrcIp6Entry env rule status id s = some (.ok st, s')) :
    Adds s s' [srcIp6Entry rule id] [] := by
  simp only [addSrcIp6Entry, Prog.bind_ok] at h
  obtain ⟨_, s₁, h₁, h₂⟩ := h
  exact (pipeAddEntry_ok h₁).quiet (enqueued_ok h₂)

theorem addFiveTupleMatchEntry_ok {nbRules i : Nat}
    (h : addFiveTupleMatchEntry env hash table cfg rule nbRules i status s = some (.ok st, s')) :
    Adds s s' (classifyEntries hash table cfg rule i) [] := by
  simp only [addFiveTupleMatchEntry, addSourceIp, Prog.bind_ok] at h
  obtain ⟨r, s₁, h₁, _, s₂, h₂, h₃⟩ := h
  have htail := (pipeAddEntry_ok h₂).quiet (enqueued_ok h₃)
  by_cases hsplit : splitsSourceIp cfg rule
  · simp only [if_pos hsplit, Prog.ite_ok, Prog.fail_ok, Prog.bind_ok, Prog.pure_ok, and_false,
      false_or] at h₁
    obtain ⟨_, _, _, h₁, rfl, rfl⟩ := h₁
    simp only [classifyEntries, srcIpId, if_pos hsplit]
    exact (addSrcIp6Entry_ok h₁).trans htail
  · simp only [if_neg hsplit, Prog.pure_ok] at h₁
    obtain ⟨rfl, rfl⟩ := h₁
    simpa only [classifyEntries, srcIpId, if_neg hsplit, List.nil_append] using htail

theorem cryptoEncap_ok {encap : List UInt8}
    (h : cryptoEncap cfg rule s = some (.ok encap, s')) : Adds s s' [] [] := by
  unfold cryptoEncap at h
  split at h
  · split at h
    · cases h; exact ⟨(List.append_nil _).symm, (List.append_nil _).symm⟩
    · cases h; exact .refl _
  all_goals cases h; exact .refl _

theorem encryptRule_ok {nbRules ruleId : Nat} {encap : List UInt8} {flags : FlowFlags} {s₁ s₂ s₃ : Flow}
    (h₁ : addFiveTupleMatchEntry env hash table cfg rule nbRules ruleId status s = some (.ok st, s₁))
    (h₂ : createIpsecEncryptSharedObject env cfg rule.saAttrs ruleId s₁ = some (.ok u, s₂))
    (h₃ : cryptoEncap cfg rule s₂ = some (.ok encap, s₃))
    (h₄ : pipeAddEntry env flags (encryptEntry cfg rule ruleId encap) s₃ = some (.ok u, s')) :
    Adds s s' (classifyEntries hash table cfg rule ruleId ++ [encryptEntry cfg rule ruleId encap])
      [.configure ruleId (encryptSaConfig cfg rule.saAttrs)] := by
  have hobj := (addFiveTupleMatchEntry_ok h₁).trans (sharedResourceCfg_ok h₂)
  have hall := (hobj.quiet (cryptoEncap_ok h₃)).trans (pipeAddEntry_ok h₄)
  simpa only [List.append_nil, List.nil_append] using hall

/-- **A successful `add_encrypt_entry`** adds the classification of the rule and its encryption, both
    with the given number, and configures the object of that number. -/
theorem addEncryptEntry_ok {fuel : Nat} {ruleId : Nat}
    (h : addEncryptEntry env hash table cfg fuel rule ruleId s = some (.ok u, s')) :
    ∃ encap, Adds s s' (classifyEntries hash table cfg rule ruleId ++ [encryptEntry cfg rule ruleId encap])
      [.configure ruleId (encryptSaConfig cfg rule.saAttrs)] := by
  simp only [addEncryptEntry, Prog.bind_ok, Prog.pure_ok] at h
  obtain ⟨_, _, h₁, _, _, h₂, encap, _, h₃, _, _, h₄, _, _, h₅, _, _, h₆, _, rfl⟩ := h
  exact ⟨encap, ((encryptRule_ok h₁ h₂ h₃ h₄).quiet (processAll_ok h₅)).quiet (processAll_ok h₆)⟩

theorem addEncryptEntriesPass_ok {nbRules ruleId : Nat} {r : EntriesStatus × EntriesStatus}
    (h : addEncryptEntriesPass env hash table cfg rule nbRules ruleId hairpin status s =
      some (.ok r, s')) :
    ∃ encap, Adds s s' (classifyEntries hash table cfg rule ruleId ++ [encryptEntry cfg rule ruleId encap])
      [.configure ruleId (encryptSaConfig cfg rule.saAttrs)] := by
  simp only [addEncryptEntriesPass, Prog.bind_ok, Prog.pure_ok] at h
  obtain ⟨_, _, h₁, _, _, h₂, encap, _, h₃, _, _, h₄, _, _, h₅, _, rfl⟩ := h
  exact ⟨encap, (encryptRule_ok h₁ h₂ h₃ h₄).quiet (enqueued_ok h₅)⟩

theorem addBadSyndromePipeEntry_ok {rule : DecryptRule} {ruleId : Nat} {flags : FlowFlags}
    (h : addBadSyndromePipeEntry env rule ruleId flags s = some (.ok u, s')) :
    Adds s s' [badSyndromeEntry rule ruleId 1 0, badSyndromeEntry rule ruleId 2 0,
      badSyndromeEntry rule ruleId 0 1, badSyndromeEntry rule ruleId 0 2] [] := by
  simp only [addBadSyndromePipeEntry, Prog.bind_ok] at h
  obtain ⟨_, _, h₁, _, _, h₂, _, _, h₃, h₄⟩ := h
  exact (((pipeAddEntry_ok h₁).trans (pipeAddEntry_ok h₂)).trans (pipeAddEntry_ok h₃)).trans
    (pipeAddEntry_ok h₄)

theorem decryptRuleEntries_ok {rule : DecryptRule} {ruleId cryptoId : Nat} {flags : FlowFlags}
    (h : decryptRuleEntries env cfg rule ruleId cryptoId flags status s = some (.ok st, s')) :
    Adds s s' (decryptEntry cfg rule ruleId cryptoId :: badSyndromeEntries cfg rule ruleId)
      [.configure cryptoId (decryptSaConfig cfg rule.saAttrs)] := by
  simp only [decryptRuleEntries, Prog.bind_ok] at h
  obtain ⟨_, _, h₁, _, s₂, h₂, h₃⟩ := h
  have hentry := (sharedResourceCfg_ok h₁).trans (pipeAddEntry_ok h₂)
  by_cases hdebug : cfg.debugMode
  · simp only [if_pos hdebug, Prog.bind_ok, Prog.pure_ok] at h₃
    obtain ⟨_, _, h₃, _, rfl⟩ := h₃
    rw [badSyndromeEntries, if_pos hdebug]
    exact hentry.trans (addBadSyndromePipeEntry_ok h₃)
  · simp only [if_neg hdebug, Prog.pure_ok] at h₃
    obtain ⟨_, rfl⟩ := h₃
    rw [badSyndromeEntries, if_neg hdebug]
    exact hentry

/-- **A successful `add_decrypt_entry`** installs the given number as rule index and as the id of
    the object. -/
theorem addDecryptEntry_ok {fuel : Nat} {rule : DecryptRule} {ruleId : Nat}
    (h : addDecryptEntry env cfg fuel rule ruleId s = some (.ok u, s')) :
    Adds s s' (decryptEntry cfg rule ruleId ruleId :: badSyndromeEntries cfg rule ruleId)
      [.configure ruleId (decryptSaConfig cfg rule.saAttrs)] := by
  simp only [addDecryptEntry, Prog.bind_ok, Prog.pure_ok] at h
  obtain ⟨_, _, h₁, _, _, h₂, _, rfl⟩ := h
  exact (decryptRuleEntries_ok h₁).quiet (processAll_ok h₂)

theorem addDecryptEntriesPass_ok {rule : DecryptRule} {nbEncryptRules ruleId : Nat} {last : Bool}
    (h : addDecryptEntriesPass env cfg rule nbEncryptRules last ruleId status s = some (.ok st, s')) :
    Adds s s' (decryptEntry cfg rule ruleId (nbEncryptRules + ruleId) ::
        badSyndromeEntries cfg rule ruleId)
      [.configure (nbEncryptRules + ruleId) (decryptSaConfig cfg rule.saAttrs)] := by
  simp only [addDecryptEntriesPass, Prog.bind_ok, Prog.ite_ok, Prog.pure_ok] at h
  obtain ⟨_, _, h₁, ⟨_, h₂⟩ | ⟨_, _, rfl⟩⟩ := h
  · exact (decryptRuleEntries_ok h₁).quiet (processEntries_ok h₂)
  · exact decryptRuleEntries_ok h₁

theorem createEncryptEgress_ok {nbEncryptedRules : Nat}
    (h : createEncryptEgress env cfg nbEncryptedRules s = some (.ok u, s')) :
    Adds s s' [] [.bind (List.range nbEncryptedRules ++ [ENCRYPT_DUMMY_ID]),
      .configure ENCRYPT_DUMMY_ID (encryptSaConfig cfg dummySaAttrs)] := by
  simp only [createEncryptEgress, Prog.bind_ok] at h
  obtain ⟨_, _, h₁, h₂⟩ := h
  exact (sharedResourcesBind_ok h₁).trans (sharedResourceCfg_ok h₂)

theorem insertDecryptRules_ok {nbDecryptedRules nbEncryptedRules : Nat}
    (h : insertDecryptRules env cfg nbDecryptedRules nbEncryptedRules s = some (.ok u, s')) :
    Adds s s' [] [.bind ((List.range nbDecryptedRules).map (nbEncryptedRules + ·) ++ [DECRYPT_DUMMY_ID]),
      .configure DECRYPT_DUMMY_ID (decryptSaConfig cfg dummySaAttrs)] := by
  simp only [insertDecryptRules, Prog.bind_ok] at h
  obtain ⟨_, _, h₁, h₂⟩ := h
  exact (sharedResourcesBind_ok h₁).trans (sharedResourceCfg_ok h₂)

end Successful

end Doca.IpsecGw
