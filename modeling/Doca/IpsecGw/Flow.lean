import Doca.Lib.Calls
import Doca.IpsecGw.Context

/-!
# What the gateway asks of DOCA Flow

Pipe entries, shared `IPSEC_SA` objects and the queues of pending entries (`flow_common.c`), as far
as the insertion of rules uses them.

* `FlowEnv` — DOCA Flow itself: the code every call returns, and which pending entries a call of
  `doca_flow_entries_process` completes.  It may answer each call differently; calls are numbered.

Ports and SPIs stand in host order: the source converts them to big endian on both sides.  The
names and handles of entries that debug mode keeps for its counters are left out.

Principal results: for every call the lemma `…_ok` with what a successful call adds, as a relation
`Adds` between the states; `Adds.trans` composes them.
-/

namespace Doca.IpsecGw

open Doca.Lib

def QUEUE_DEPTH : Nat := 512

inductive Pipe where
  | ipv4Tcp
  | ipv4Udp
  | ipv6Tcp
  | ipv6Udp
  | ipv6SrcTcp
  | ipv6SrcUdp
  | ipv4Encrypt
  | ipv6Encrypt
  | decryptIpv4
  | decryptIpv6
  | badSyndromeIpv4
  | badSyndromeIpv6
  deriving DecidableEq

structure FlowMatch where
  metaU32 : UInt32
  pktMeta : UInt32
  ipsecSyndrome : Nat
  l3Type : L3Type
  l4TypeExt : L4TypeExt
  srcPort : UInt16
  dstPort : UInt16
  srcIp4 : UInt32
  dstIp4 : UInt32
  srcIp6 : Ip6Addr
  dstIp6 : Ip6Addr
  tunEsp : Bool
  espSpi : UInt32
  deriving DecidableEq

def PktMeta.word (m : PktMeta) : UInt32 := UInt32.ofNat m.toU32

theorem PktMeta.ruleId_word (m : PktMeta) : (PktMeta.ofU32 m.word.toNat).ruleId = m.ruleId % 1048576 := by
  have hlt : m.toU32 < 4294967296 := by
    unfold PktMeta.toU32
    omega
  rw [PktMeta.word, UInt32.toNat_ofNat', Nat.mod_eq_of_lt hlt, PktMeta.ofU32_toU32]

def FlowMatch.zero : FlowMatch :=
  ⟨0, 0, 0, .none, .none, 0, 0, 0, 0, ⟨0, 0, 0, 0⟩, ⟨0, 0, 0, 0⟩, false, 0⟩

structure FlowActions where
  actionIdx : Nat
  metaU32 : UInt32
  pktMeta : UInt32
  cryptoId : Nat
  encapData : List UInt8
  encapIcvSize : Nat
  deriving DecidableEq

def FlowActions.zero : FlowActions := ⟨0, 0, 0, 0, [], 0⟩

structure PipeEntry where
  pipe : Pipe
  mtch : FlowMatch
  actions : FlowActions
  deriving DecidableEq

inductive FlowFlags where
  | noWait
  | waitForBatch
  deriving DecidableEq

def flagsIf (flush : Bool) : FlowFlags := if flush then .noWait else .waitForBatch

/-- The flags of an entry that is counted by itself, behind `n` others. -/
abbrev entryFlags (last : Prop) [Decidable last] (n : Nat) : FlowFlags :=
  flagsIf (last ∨ n = QUEUE_DEPTH - 1)

/-- The flags of the last entry of a decrypt rule. -/
abbrev decryptFlags (last : Prop) [Decidable last] (n : Nat) : FlowFlags :=
  flagsIf (last ∨ n = QUEUE_DEPTH - 8)

inductive SaDomain where
  | secureEgress
  | secureIngress
  deriving DecidableEq

/-- `struct doca_flow_shared_resource_cfg`: `snInitial` is set if the hardware counts. -/
structure SaConfig where
  domain : SaDomain
  attrs : SaAttrs
  snInitial : Option UInt64
  deriving DecidableEq

inductive SaEvent where
  | bind (ids : List Nat)
  | configure (id : Nat) (cfg : SaConfig)
  deriving DecidableEq

def configureAll (log : List (Nat × SaConfig)) : List SaEvent :=
  log.map fun c => .configure c.1 c.2

/-- The state of DOCA Flow as the gateway's calls make it, with `current_ip_id`, the only variable of the
    application they change. -/
structure Flow where
  entries : List PipeEntry
  flags : List FlowFlags
  sa : List SaEvent
  calls : Nat
  currentIpId : UInt16
  deriving DecidableEq

def Flow.empty : Flow := ⟨[], [], [], 0, 0⟩

structure EntriesStatus where
  failure : Bool
  nbProcessed : Nat
  entriesInQueue : Nat
  deriving DecidableEq

def EntriesStatus.zero : EntriesStatus := ⟨false, 0, 0⟩

structure FlowEnv where
  addEntry : Nat → DocaError
  resourceCfg : Nat → DocaError
  resourcesBind : Nat → DocaError
  entriesProcess : Nat → EntriesStatus → DocaError × EntriesStatus

def FlowEnv.ideal : FlowEnv :=
  ⟨fun _ => .success, fun _ => .success, fun _ => .success,
    fun _ st => (.success, ⟨st.failure, st.nbProcessed + st.entriesInQueue, 0⟩)⟩

variable (env : FlowEnv)

/-! ## Calls -/

def call (code : DocaError) (f : Flow → Flow) : Prog Flow DocaError Unit := fun s =>
  if code = .success then some (.ok (), { f s with calls := s.calls + 1 })
  else some (.error code, { s with calls := s.calls + 1 })

def pipeAddEntry (flags : FlowFlags) (e : PipeEntry) : Prog Flow DocaError Unit := fun s =>
  call (env.addEntry s.calls)
    (fun s => { s with entries := s.entries ++ [e], flags := s.flags ++ [flags] }) s

def sharedResourceCfg (id : Nat) (cfg : SaConfig) : Prog Flow DocaError Unit := fun s =>
  call (env.resourceCfg s.calls) (fun s => { s with sa := s.sa ++ [.configure id cfg] }) s

def sharedResourcesBind (ids : List Nat) : Prog Flow DocaError Unit := fun s =>
  call (env.resourcesBind s.calls) (fun s => { s with sa := s.sa ++ [.bind ids] }) s

def entriesProcess (status : EntriesStatus) : Prog Flow DocaError EntriesStatus := do
  let r ← Prog.gets fun s => env.entriesProcess s.calls status
  call r.1 id
  pure r.2

def processEntries (status : EntriesStatus) : Prog Flow DocaError EntriesStatus := do
  let status ← entriesProcess env status
  if status.failure ∨ status.entriesInQueue = QUEUE_DEPTH then Prog.fail .badState
  else pure status

/-- `do { process_entries } while (entries_in_queue > 0)`, at most `fuel` times. -/
def processAll : Nat → EntriesStatus → Prog Flow DocaError EntriesStatus
  | 0, _ => fun _ => none
  | fuel + 1, status => do
    let status ← processEntries env status
    if 0 < status.entriesInQueue then processAll fuel status else pure status

def enqueued (status : EntriesStatus) : Prog Flow DocaError EntriesStatus :=
  if status.entriesInQueue + 1 = QUEUE_DEPTH then
    processEntries env { status with entriesInQueue := status.entriesInQueue + 1 }
  else pure { status with entriesInQueue := status.entriesInQueue + 1 }

/-! ## What successful calls add -/

structure Adds (s s' : Flow) (entries : List PipeEntry) (sa : List SaEvent) : Prop where
  entries_eq : s'.entries = s.entries ++ entries
  sa_eq : s'.sa = s.sa ++ sa

variable {env} {s s' s'' : Flow} {es es' : List PipeEntry} {evs evs' : List SaEvent}
variable {status st : EntriesStatus} {u : Unit}

theorem Adds.refl (s : Flow) : Adds s s [] [] :=
  ⟨(List.append_nil _).symm, (List.append_nil _).symm⟩

theorem Adds.trans (h : Adds s s' es evs) (h' : Adds s' s'' es' evs') :
    Adds s s'' (es ++ es') (evs ++ evs') :=
  ⟨by rw [h'.entries_eq, h.entries_eq, List.append_assoc], by rw [h'.sa_eq, h.sa_eq, List.append_assoc]⟩

theorem Adds.quiet (h : Adds s s' es evs) (h' : Adds s' s'' [] []) : Adds s s'' es evs := by
  simpa only [List.append_nil] using h.trans h'

theorem call_ok {code : DocaError} {f : Flow → Flow}
    (h : call code f s = some (.ok u, s')) : s' = { f s with calls := s.calls + 1 } := by
  unfold call at h
  split at h
  · cases h; rfl
  · cases h

theorem pipeAddEntry_ok {flags : FlowFlags} {e : PipeEntry}
    (h : pipeAddEntry env flags e s = some (.ok u, s')) : Adds s s' [e] [] := by
  rw [call_ok h]
  exact ⟨rfl, (List.append_nil _).symm⟩

theorem sharedResourceCfg_ok {id : Nat} {cfg : SaConfig}
    (h : sharedResourceCfg env id cfg s = some (.ok u, s')) :
    Adds s s' [] [.configure id cfg] := by
  rw [call_ok h]
  exact ⟨(List.append_nil _).symm, rfl⟩

theorem sharedResourcesBind_ok {ids : List Nat}
    (h : sharedResourcesBind env ids s = some (.ok u, s')) : Adds s s' [] [.bind ids] := by
  rw [call_ok h]
  exact ⟨(List.append_nil _).symm, rfl⟩

theorem entriesProcess_ok (h : entriesProcess env status s = some (.ok st, s')) : Adds s s' [] [] := by
  simp only [entriesProcess, Prog.bind_ok, Prog.gets_ok, Prog.pure_ok] at h
  obtain ⟨_, _, ⟨_, rfl⟩, _, _, h₂, _, rfl⟩ := h
  rw [call_ok h₂]
  exact ⟨(List.append_nil _).symm, (List.append_nil _).symm⟩

theorem processEntries_ok (h : processEntries env status s = some (.ok st, s')) : Adds s s' [] [] := by
  simp only [processEntries, Prog.bind_ok, Prog.ite_ok, Prog.fail_ok, Prog.pure_ok, and_false,
    false_or] at h
  obtain ⟨_, s₁, h₁, _, _, rfl⟩ := h
  exact entriesProcess_ok h₁

theorem processAll_ok {fuel : Nat} (h : processAll env fuel status s = some (.ok st, s')) :
    Adds s s' [] [] := by
  induction fuel generalizing status s with
  | zero => cases h
  | succ fuel ih =>
    simp only [processAll, Prog.bind_ok, Prog.ite_ok, Prog.pure_ok] at h
    obtain ⟨_, s₁, h₁, ⟨_, h₂⟩ | ⟨_, _, rfl⟩⟩ := h
    · exact (processEntries_ok h₁).quiet (ih h₂)
    · exact processEntries_ok h₁

theorem enqueued_ok (h : enqueued env status s = some (.ok st, s')) : Adds s s' [] [] := by
  simp only [enqueued, Prog.ite_ok, Prog.pure_ok] at h
  obtain ⟨_, h⟩ | ⟨_, _, rfl⟩ := h
  · exact processEntries_ok h
  · exact .refl _

end Doca.IpsecGw
