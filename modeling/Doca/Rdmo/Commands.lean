import Doca.Rdmo.Ops

/-!
# RDMO worker: commands and notifications

Model of `urom_worker_rdmo_worker_cmd`, `urom_worker_rdmo_cmd_unpack`, the five command handlers and
`urom_worker_rdmo_progress` (`worker_rdmo.c`).

* `CmdHost` — the answers of UCX, one for each command; memory allocation succeeds.
* `cmdOutcome` — what a command comes to; `CmdEffect` — what it does if it succeeds.
* `EveryAnswered` — the whole list is handled, with one notification for each descriptor.

Principal results: `commands_answered_iff`, `notifications_delivered`, `cmdUnpack_inBuffer_iff`.

`packed_memh` is set by the unpacking, so that a registration always maps memory.  The table of clients is
searched by `dest_id`; by `Distinct` the order of the search does not matter.
-/

namespace Doca.Rdmo

open Doca.Lib

def CMD_LEN : UInt64 := 56

def NOTIFY_LEN : UInt64 := 24

structure ClientInit where
  id : UInt64
  addrLen : UInt64

structure MrReg where
  va : UInt64
  len : UInt64
  packedRkeyLen : UInt64
  packedMemhLen : UInt64

inductive CmdType where
  | clientInit
  | rqCreate
  | rqDestroy
  | mrReg
  | mrDereg
  deriving DecidableEq

/-- `struct urom_worker_cmd_desc` with its RDMO command; `rqCreate` is `rq_create.addr_len`, `rqDestroy`
    is `rq_destroy.rq_id` and `mrDereg` is `mr_dereg.rkey`. -/
structure Desc where
  destId : UInt64
  type : UInt64
  uromContext : UInt64
  len : UInt64
  rdmoType : UInt64
  clientInit : ClientInit
  rqCreate : UInt64
  rqDestroy : UInt64
  mrReg : MrReg
  mrDereg : UInt64

def Desc.kind (d : Desc) : Option CmdType :=
  if d.rdmoType = 0 then some .clientInit
  else if d.rdmoType = 1 then some .rqCreate
  else if d.rdmoType = 2 then some .rqDestroy
  else if d.rdmoType = 3 then some .mrReg
  else if d.rdmoType = 4 then some .mrDereg
  else none

inductive NotifyRdmo where
  | clientInit (addrLen : UInt64)
  | rqCreate (rqId : UInt64)
  | rqDestroy (rqId : UInt64)
  | mrReg (rkey : UInt64)
  | mrDereg (rkey : UInt64)
  deriving DecidableEq

structure Notif where
  destId : UInt64
  type : UInt64
  uromContext : UInt64
  len : UInt64
  status : DocaError
  rdmo : NotifyRdmo
  deriving DecidableEq

structure Rq where
  id : UInt64
  ep : UInt64
  deriving DecidableEq

structure Client where
  id : UInt64
  destId : UInt64
  ep : UInt64
  rqs : List Rq
  nextRqId : UInt64
  mkeys : List Mkey
  deriving DecidableEq

inductive MapStatus where
  | ok
  | unreachable
  | error
  deriving DecidableEq

structure CmdHost where
  epCreate : Nat → Option UInt64
  epClose : Nat → Bool
  rkeyUnpack : Nat → Option UInt64
  memMap : Nat → MapStatus
  memUnmap : Nat → Bool
  addrLen : UInt64

/-- `struct urom_worker_rdmo`: the tables `clients` and `eps`, the list `completed_reqs`, and the number
    of commands so far. -/
structure Commands where
  clients : List Client
  eps : List UInt64
  completed : List Notif
  calls : Nat

namespace Commands

def opened : Commands := ⟨[], [], [], 0⟩

def destToClient (s : Commands) (destId : UInt64) : Option Client :=
  lookup Client.destId destId s.clients

def setClient (c : Client) (s : Commands) : Commands := { s with clients := put Client.id c s.clients }

def push (d : Desc) (len : UInt64) (status : DocaError) (rdmo : NotifyRdmo) (s : Commands) : Commands :=
  { s with completed := s.completed ++ [⟨d.destId, d.type, d.uromContext, len, status, rdmo⟩] }

end Commands

variable (host : CmdHost)

/-- `urom_worker_rdmo_ep_get`: an endpoint that is in the table already is an error. -/
def epGet (s : Commands) : DocaError × UInt64 × Commands :=
  match host.epCreate s.calls with
  | none => (.driver, 0, s)
  | some ep => if ep ∈ s.eps then (.driver, 0, s) else (.success, ep, { s with eps := ep :: s.eps })

def epDel (ep : UInt64) (s : Commands) : DocaError × Commands :=
  if ep ∉ s.eps then (.notFound, s)
  else if host.epClose s.calls then (.success, { s with eps := s.eps.erase ep })
  else (.driver, s)

variable (d : Desc)

variable (s : Commands)

def clientInitCmd : DocaError × Commands :=
  let notify (status : DocaError) (s : Commands) : Commands :=
    s.push d (NOTIFY_LEN + host.addrLen) status (.clientInit host.addrLen)
  match s.destToClient d.destId with
  | some _ => (.alreadyExist, notify .alreadyExist s)
  | none =>
    match lookup Client.id d.clientInit.id s.clients with
    | some _ => (.inUse, s)
    | none =>
      let p := epGet host s
      if p.1 = .success then
        (.success, notify .success (p.2.2.setClient ⟨d.clientInit.id, d.destId, p.2.1, [], 0, []⟩))
      else (p.1, notify p.1 p.2.2)

/-- `urom_worker_rdmo_rq_create_cmd`; the queue is in the table before its endpoint is created. -/
def rqCreateCmd : DocaError × Commands :=
  let notify (status : DocaError) (rqId : UInt64) (s : Commands) : Commands :=
    s.push d NOTIFY_LEN status (.rqCreate rqId)
  match s.destToClient d.destId with
  | none => (.notFound, notify .notFound 0 s)
  | some c =>
    let c₁ := { c with nextRqId := c.nextRqId + 1 }
    match lookup Rq.id c.nextRqId c.rqs with
    | some _ => (.driver, notify .driver 0 (s.setClient c₁))
    | none =>
      let p := epGet host s
      if p.1 = .success then
        (.success, notify .success c.nextRqId
          (p.2.2.setClient { c₁ with rqs := put Rq.id ⟨c.nextRqId, p.2.1⟩ c.rqs }))
      else (p.1, notify p.1 0 (p.2.2.setClient c₁))

def rqDestroyCmd : DocaError × Commands :=
  let notify (status : DocaError) (s : Commands) : Commands :=
    s.push d NOTIFY_LEN status (.rqDestroy d.rqDestroy)
  match s.destToClient d.destId with
  | none => (.notFound, s)
  | some c =>
    match lookup Rq.id d.rqDestroy c.rqs with
    | none => (.notFound, notify .notFound s)
    | some rq =>
      let p := epDel host rq.ep s
      if p.1 = .success then
        (.success, notify .success (p.2.setClient { c with rqs := others Rq.id d.rqDestroy c.rqs }))
      else (p.1, notify p.1 p.2)

/-- `urom_worker_rdmo_mr_reg_cmd`: the status is in the notification only. -/
def mrRegCmd : DocaError × Commands :=
  let notify (status : DocaError) (rkey : UInt64) (s : Commands) : DocaError × Commands :=
    (.success, s.push d NOTIFY_LEN status (.mrReg rkey))
  match s.destToClient d.destId with
  | none => notify .notFound 0 s
  | some c =>
    match host.rkeyUnpack s.calls with
    | none => notify .driver 0 s
    | some rkey =>
      if host.memMap s.calls = .error then notify .driver 0 s
      else
        match lookup Mkey.ucpRkey rkey c.mkeys with
        | some _ => notify .driver 0 s
        | none =>
          let m : Mkey := ⟨rkey, decide (host.memMap s.calls = .ok), d.mrReg.va, d.mrReg.len⟩
          notify .success rkey (s.setClient { c with mkeys := put Mkey.ucpRkey m c.mkeys })

def mrDeregCmd : DocaError × Commands :=
  let notify (status : DocaError) (s : Commands) : DocaError × Commands :=
    (status, s.push d NOTIFY_LEN status (.mrDereg d.mrDereg))
  match s.destToClient d.destId with
  | none => (.notFound, s)
  | some c =>
    match lookup Mkey.ucpRkey d.mrDereg c.mkeys with
    | none => notify .notFound s
    | some m =>
      if m.memh = true ∧ host.memUnmap s.calls = false then notify .driver s
      else notify .success (s.setClient { c with mkeys := others Mkey.ucpRkey d.mrDereg c.mkeys })

def Desc.extendedMem : UInt64 :=
  match d.kind with
  | some .clientInit => d.clientInit.addrLen
  | some .rqCreate => d.rqCreate
  | some .mrReg => d.mrReg.packedRkeyLen + d.mrReg.packedMemhLen
  | _ => 0

def cmdUnpack : DocaError :=
  if d.len < CMD_LEN then .invalidValue
  else if d.len ≠ d.extendedMem + CMD_LEN then .invalidValue
  else .success

def Desc.inlineRanges : List (Nat × Nat) :=
  match d.kind with
  | some .clientInit => [(CMD_LEN.toNat, d.clientInit.addrLen.toNat)]
  | some .rqCreate => [(CMD_LEN.toNat, d.rqCreate.toNat)]
  | some .mrReg => [(CMD_LEN.toNat, d.mrReg.packedRkeyLen.toNat),
      (CMD_LEN.toNat + d.mrReg.packedRkeyLen.toNat, d.mrReg.packedMemhLen.toNat)]
  | _ => []

def Desc.InBuffer : Prop := ∀ range ∈ d.inlineRanges, range.1 + range.2 ≤ d.len.toNat

theorem cmdUnpack_success {d : Desc} (h : cmdUnpack d = .success) :
    d.len.toNat = CMD_LEN.toNat + d.extendedMem.toNat := by
  unfold cmdUnpack at h
  split at h
  · cases h
  split at h
  · cases h
  rename_i hlt heq
  -- a sum that wraps is less than the command
  rw [not_not.1 heq] at hlt ⊢
  rw [UInt64.lt_iff_toNat_lt] at hlt
  rw [UInt64.toNat_add] at hlt ⊢
  have := d.extendedMem.toNat_lt
  simp only [CMD_LEN, UInt64.reduceToNat] at hlt ⊢
  omega

/-- **An accepted command refers only to its own bytes** exactly if it is no registration whose two lengths
    wrap in the sum. -/
theorem cmdUnpack_inBuffer_iff (d : Desc) (h : cmdUnpack d = .success) : d.InBuffer ↔
    (d.kind = some .mrReg → d.mrReg.packedRkeyLen.toNat + d.mrReg.packedMemhLen.toNat < 2 ^ 64) := by
  have hlen := cmdUnpack_success h
  unfold Desc.InBuffer Desc.inlineRanges
  unfold Desc.extendedMem at hlen
  cases hkind : d.kind with
  | none => simp
  | some kind =>
    rw [hkind] at hlen
    cases kind
    case mrReg =>
      have hm := d.mrReg.packedMemhLen.toNat_lt
      rw [UInt64.toNat_add] at hlen
      simp only [List.forall_mem_cons, List.not_mem_nil, false_implies, implies_true, and_true,
        forall_const]
      omega
    all_goals simp [hlen]

def wrappingReg : Desc := ⟨0, 0, 0, CMD_LEN, 3, ⟨0, 0⟩, 0, 0, ⟨0, 0, UInt64.ofNat (2 ^ 64 - 1), 1⟩, 0⟩

theorem wrappingReg_outside : cmdUnpack wrappingReg = .success ∧ ¬ wrappingReg.InBuffer := by
  refine ⟨by decide, fun h => ?_⟩
  have := h (56, 2 ^ 64 - 1) (by decide)
  exact absurd this (by decide)

theorem cmdUnpack_inBuffer_reg : Desc.InBuffer ⟨0, 0, 0, 80, 3, ⟨0, 0⟩, 0, 0, ⟨0, 0, 8, 16⟩, 0⟩ :=
  (cmdUnpack_inBuffer_iff _ (by decide)).2 fun _ => by decide

def cmdHandler : DocaError × Commands :=
  match d.kind with
  | some .clientInit => clientInitCmd host d s
  | some .rqCreate => rqCreateCmd host d s
  | some .rqDestroy => rqDestroyCmd host d s
  | some .mrReg => mrRegCmd host d s
  | some .mrDereg => mrDeregCmd host d s
  | none => (.invalidValue, s)

def cmdStep : DocaError × Commands :=
  if cmdUnpack d = .success then
    let p := cmdHandler host d s
    (p.1, { p.2 with calls := p.2.calls + 1 })
  else (cmdUnpack d, s)

/-- What `urom_worker_rdmo_worker_cmd` returns, the descriptors it leaves in the list, and the worker. -/
structure CmdResult where
  status : DocaError
  left : List Desc
  worker : Commands

def workerCmd : List Desc → Commands → CmdResult
  | [], s => ⟨.success, [], s⟩
  | d :: rest, s =>
    if (cmdStep host d s).1 = .success then workerCmd rest (cmdStep host d s).2
    else ⟨(cmdStep host d s).1, rest, (cmdStep host d s).2⟩

/-- `urom_worker_rdmo_progress`: the notifications are moved to `notif_list`. -/
def cmdProgress : DocaError × List Notif × Commands :=
  if s.completed = [] then (.empty, [], s) else (.success, s.completed, { s with completed := [] })

/-! ## Outcomes -/

def cmdOutcome : DocaError :=
  match d.kind, s.destToClient d.destId with
  | some .clientInit, some _ => .alreadyExist
  | some .clientInit, none =>
    if (lookup Client.id d.clientInit.id s.clients).isSome then .inUse else (epGet host s).1
  | some .rqCreate, some c =>
    if (lookup Rq.id c.nextRqId c.rqs).isSome then .driver else (epGet host s).1
  | some .rqDestroy, some c =>
    match lookup Rq.id d.rqDestroy c.rqs with
    | none => .notFound
    | some rq => (epDel host rq.ep s).1
  | some .mrReg, some c =>
    match host.rkeyUnpack s.calls with
    | none => .driver
    | some rkey =>
      if host.memMap s.calls = .error ∨ (lookup Mkey.ucpRkey rkey c.mkeys).isSome then .driver
      else .success
  | some .mrDereg, some c =>
    match lookup Mkey.ucpRkey d.mrDereg c.mkeys with
    | none => .notFound
    | some m => if m.memh = true ∧ host.memUnmap s.calls = false then .driver else .success
  | some _, none => .notFound
  | none, _ => .invalidValue

/-- What a successful command does to the tables and tells the host: there is a client with an endpoint,
    a queue with an endpoint and its id, or a memory key with its region; or there was one, and it is
    gone. -/
def CmdEffect (n : Notif) (s s' : Commands) : Prop :=
  match d.kind with
  | some .clientInit => s.destToClient d.destId = none ∧ ∃ ep ∈ s'.eps,
      s'.destToClient d.destId = some ⟨d.clientInit.id, d.destId, ep, [], 0, []⟩
  | some .rqCreate => ∃ c ep, s.destToClient d.destId = some c ∧
      lookup Rq.id c.nextRqId c.rqs = none ∧ ep ∈ s'.eps ∧ n.rdmo = .rqCreate c.nextRqId ∧
      s'.destToClient d.destId = some { c with
        rqs := ⟨c.nextRqId, ep⟩ :: c.rqs
        nextRqId := c.nextRqId + 1 }
  | some .rqDestroy => ∃ c rq, s.destToClient d.destId = some c ∧
      lookup Rq.id d.rqDestroy c.rqs = some rq ∧ n.rdmo = .rqDestroy d.rqDestroy ∧
      s'.eps = s.eps.erase rq.ep ∧
      s'.destToClient d.destId = some { c with rqs := others Rq.id d.rqDestroy c.rqs }
  | some .mrReg => ∃ c m, s.destToClient d.destId = some c ∧
      lookup Mkey.ucpRkey m.ucpRkey c.mkeys = none ∧ m.va = d.mrReg.va ∧ m.len = d.mrReg.len ∧
      n.rdmo = .mrReg m.ucpRkey ∧
      s'.destToClient d.destId = some { c with mkeys := m :: c.mkeys }
  | some .mrDereg => ∃ c m, s.destToClient d.destId = some c ∧
      lookup Mkey.ucpRkey d.mrDereg c.mkeys = some m ∧ n.rdmo = .mrDereg d.mrDereg ∧
      s'.destToClient d.destId = some { c with mkeys := others Mkey.ucpRkey d.mrDereg c.mkeys }
  | none => False

/-- The notifications answer the descriptors one by one: same destination, plugin and context, with the
    outcome of the command, a success exactly if it has its effect. -/
def Answers : Commands → List Desc → List Notif → Prop
  | _, [], [] => True
  | s, d :: ds, n :: ns =>
    n.destId = d.destId ∧ n.type = d.type ∧ n.uromContext = d.uromContext ∧
      n.status = cmdOutcome host d s ∧ (n.status = .success ↔ CmdEffect d n s (cmdStep host d s).2) ∧
      Answers (cmdStep host d s).2 ds ns
  | _, _, _ => False

def EveryAnswered (ds : List Desc) : Prop :=
  (workerCmd host ds s).left = [] ∧ ∃ ns,
    (workerCmd host ds s).worker.completed = s.completed ++ ns ∧ Answers host s ds ns

/-- The command is well formed and its handler gets to the notification: no other client has the id of a
    new one, and the client of a queue or key to destroy is known. -/
def Answerable (d : Desc) : Prop :=
  cmdUnpack d = .success ∧
    match d.kind with
    | some .clientInit => s.destToClient d.destId = none →
        lookup Client.id d.clientInit.id s.clients = none
    | some .rqDestroy => s.destToClient d.destId ≠ none
    | some .mrDereg => s.destToClient d.destId ≠ none
    | some _ => True
    | none => False

def Fine : Commands → List Desc → Prop
  | _, [] => True
  | s, d :: ds => Answerable s d ∧ (ds = [] ∨ (cmdOutcome host d s = .success ∨ d.kind = some .mrReg) ∧
        Fine (cmdStep host d s).2 ds)

/-! ## The handlers -/

section Handlers

variable {host : CmdHost} {d : Desc} {s : Commands} {c : Client}

theorem destToClient_setClient (s : Commands) (hc : c.destId = d.destId) :
    (s.setClient c).destToClient d.destId = some c := by
  simp [Commands.destToClient, Commands.setClient, lookup, put, hc]

theorem destId_of_client (h : s.destToClient d.destId = some c) : c.destId = d.destId :=
  (mem_of_lookup h).2

theorem epGet_cases (host : CmdHost) (s : Commands) :
    (∃ ep, epGet host s = (.success, ep, { s with eps := ep :: s.eps })) ∨
      epGet host s = (.driver, 0, s) := by
  unfold epGet
  split
  · exact .inr rfl
  · rename_i ep _
    split
    · exact .inr rfl
    · exact .inl ⟨ep, rfl⟩

theorem epDel_cases (host : CmdHost) (ep : UInt64) (s : Commands) :
    epDel host ep s = (.success, { s with eps := s.eps.erase ep }) ∨
      ∃ status, status ≠ .success ∧ epDel host ep s = (status, s) := by
  unfold epDel
  split
  · exact .inr ⟨.notFound, nofun, rfl⟩
  · split
    · exact .inl rfl
    · exact .inr ⟨.driver, nofun, rfl⟩

structure Reply (host : CmdHost) (d : Desc) (s s' : Commands) (n : Notif) : Prop where
  completed : s'.completed = s.completed ++ [n]
  destId : n.destId = d.destId
  type : n.type = d.type
  uromContext : n.uromContext = d.uromContext
  status : n.status = cmdOutcome host d s
  effect : n.status = .success ↔ CmdEffect d n s s'

theorem Reply.push {s₁ : Commands} {len : UInt64} {status : DocaError} {rdmo : NotifyRdmo}
    (hsame : s₁.completed = s.completed) (hstatus : status = cmdOutcome host d s)
    (heffect : status = .success ↔
      CmdEffect d ⟨d.destId, d.type, d.uromContext, len, status, rdmo⟩ s (s₁.push d len status rdmo)) :
    ∃ n, Reply host d s (s₁.push d len status rdmo) n :=
  ⟨_, by rw [Commands.push, hsame], rfl, rfl, rfl, hstatus, heffect⟩

theorem others_ne_self {α κ : Type} [DecidableEq κ] {key : α → κ} {k : κ} {l : List α} {x : α}
    (h : lookup key k l = some x) : others key k l ≠ l := by
  intro heq
  obtain ⟨hmem, hkey⟩ := mem_of_lookup h
  rw [← heq] at hmem
  exact (mem_others.mp hmem).2 hkey

def Commands.tables (s : Commands) (d : Desc) : Option (List Rq × List Mkey) :=
  (s.destToClient d.destId).map fun c => (c.rqs, c.mkeys)

theorem CmdEffect.tables_ne {n : Notif} {s' : Commands} (h : CmdEffect d n s s') :
    s'.tables d ≠ s.tables d := by
  unfold CmdEffect at h
  unfold Commands.tables
  split at h
  · obtain ⟨hnone, ep, -, hnew⟩ := h
    simp [hnone, hnew]
  · obtain ⟨c, ep, hc, -, -, -, hnew⟩ := h
    simp [hc, hnew]
  · obtain ⟨c, rq, hc, hrq, -, -, hnew⟩ := h
    simp [hc, hnew, others_ne_self hrq]
  · obtain ⟨c, m, hc, -, -, -, -, hnew⟩ := h
    simp [hc, hnew]
  · obtain ⟨c, m, hc, hkey, -, hnew⟩ := h
    simp [hc, hnew, others_ne_self hkey]
  · exact h.elim

theorem Reply.fail {s₁ : Commands} {len : UInt64} {status : DocaError} {rdmo : NotifyRdmo}
    (hsame : s₁.completed = s.completed) (htables : s₁.tables d = s.tables d)
    (hout : cmdOutcome host d s = status) (hfail : status ≠ .success) :
    status = cmdOutcome host d s ∧ ∃ n, Reply host d s (s₁.push d len status rdmo) n :=
  ⟨hout.symm, Reply.push hsame hout.symm ⟨fun hok => absurd hok hfail, fun heffect =>
    absurd htables heffect.tables_ne⟩⟩

theorem Reply.done {s₁ : Commands} {len : UInt64} {rdmo : NotifyRdmo}
    (hsame : s₁.completed = s.completed) (hout : cmdOutcome host d s = .success)
    (heffect : CmdEffect d ⟨d.destId, d.type, d.uromContext, len, .success, rdmo⟩ s
      (s₁.push d len .success rdmo)) :
    .success = cmdOutcome host d s ∧ ∃ n, Reply host d s (s₁.push d len .success rdmo) n :=
  ⟨hout.symm, Reply.push hsame hout.symm ⟨fun _ => heffect, fun _ => rfl⟩⟩

theorem clientInitCmd_reply (hkind : d.kind = some .clientInit)
    (hid : s.destToClient d.destId = none → lookup Client.id d.clientInit.id s.clients = none) :
    (clientInitCmd host d s).1 = cmdOutcome host d s ∧
      ∃ n, Reply host d s (clientInitCmd host d s).2 n := by
  cases hdest : s.destToClient d.destId with
  | some c =>
    simp only [clientInitCmd, hdest]
    exact Reply.fail rfl rfl (by simp only [cmdOutcome, hkind, hdest]) nofun
  | none =>
    have hnew := hid hdest
    rcases epGet_cases host s with ⟨ep, hep⟩ | hep
    · simp only [clientInitCmd, hdest, hnew, hep, if_true]
      refine Reply.done rfl (by simp [cmdOutcome, hkind, hdest, hnew, hep]) ?_
      unfold CmdEffect
      rw [hkind]
      exact ⟨hdest, ep, List.mem_cons_self .., destToClient_setClient _ rfl⟩
    · simp only [clientInitCmd, hdest, hnew, hep]
      exact Reply.fail rfl rfl (by simp [cmdOutcome, hkind, hdest, hnew, hep]) nofun

theorem rqCreateCmd_reply (hkind : d.kind = some .rqCreate) :
    (rqCreateCmd host d s).1 = cmdOutcome host d s ∧ ∃ n, Reply host d s (rqCreateCmd host d s).2 n := by
  cases hdest : s.destToClient d.destId with
  | none =>
    simp only [rqCreateCmd, hdest]
    exact Reply.fail rfl rfl (by simp only [cmdOutcome, hkind, hdest]) (by simp)
  | some c =>
    have hc := destId_of_client hdest
    have hset := destToClient_setClient (c := { c with nextRqId := c.nextRqId + 1 }) s hc
    have htables : (s.setClient { c with nextRqId := c.nextRqId + 1 }).tables d = s.tables d := by
      simp [Commands.tables, hset, hdest]
    cases hrq : lookup Rq.id c.nextRqId c.rqs with
    | some rq =>
      simp only [rqCreateCmd, hdest, hrq]
      exact Reply.fail rfl htables (by simp [cmdOutcome, hkind, hdest, hrq]) (by simp)
    | none =>
      rcases epGet_cases host s with ⟨ep, hep⟩ | hep
      · simp only [rqCreateCmd, hdest, hrq, hep, if_true]
        refine Reply.done rfl (by simp [cmdOutcome, hkind, hdest, hrq, hep]) ?_
        unfold CmdEffect
        rw [hkind]
        refine ⟨c, ep, hdest, hrq, List.mem_cons_self .., rfl, ?_⟩
        rw [put_of_lookup_none (x := (⟨c.nextRqId, ep⟩ : Rq)) hrq]
        exact destToClient_setClient _ hc
      · simp only [rqCreateCmd, hdest, hrq, hep]
        exact Reply.fail rfl htables (by simp [cmdOutcome, hkind, hdest, hrq, hep]) (by simp)

theorem rqDestroyCmd_reply (hkind : d.kind = some .rqDestroy) (hdest : s.destToClient d.destId = some c) :
    (rqDestroyCmd host d s).1 = cmdOutcome host d s ∧ ∃ n, Reply host d s (rqDestroyCmd host d s).2 n := by
  have hc := destId_of_client hdest
  cases hrq : lookup Rq.id d.rqDestroy c.rqs with
  | none =>
    simp only [rqDestroyCmd, hdest, hrq]
    exact Reply.fail rfl rfl (by simp only [cmdOutcome, hkind, hdest, hrq]) nofun
  | some rq =>
    rcases epDel_cases host rq.ep s with hep | ⟨status, hfail, hep⟩
    · simp only [rqDestroyCmd, hdest, hrq, hep, if_true]
      refine Reply.done rfl (by simp only [cmdOutcome, hkind, hdest, hrq, hep]) ?_
      unfold CmdEffect
      rw [hkind]
      exact ⟨c, rq, hdest, hrq, rfl, rfl, destToClient_setClient _ hc⟩
    · simp only [rqDestroyCmd, hdest, hrq, hep, if_neg hfail]
      exact Reply.fail rfl rfl (by simp only [cmdOutcome, hkind, hdest, hrq, hep]) hfail

theorem mrRegCmd_reply (hkind : d.kind = some .mrReg) :
    (mrRegCmd host d s).1 = .success ∧ ∃ n, Reply host d s (mrRegCmd host d s).2 n := by
  cases hdest : s.destToClient d.destId with
  | none =>
    simp only [mrRegCmd, hdest]
    exact ⟨trivial, And.right (Reply.fail rfl rfl (by simp only [cmdOutcome, hkind, hdest]) nofun)⟩
  | some c =>
    have hc := destId_of_client hdest
    cases hrkey : host.rkeyUnpack s.calls with
    | none =>
      simp only [mrRegCmd, hdest, hrkey]
      exact ⟨trivial, And.right (Reply.fail rfl rfl (by simp only [cmdOutcome, hkind, hdest, hrkey]) nofun)⟩
    | some rkey =>
      by_cases hmap : host.memMap s.calls = .error
      · simp only [mrRegCmd, hdest, hrkey, if_pos hmap]
        exact ⟨trivial, And.right (Reply.fail rfl rfl (by simp [cmdOutcome, hkind, hdest, hrkey, hmap]) nofun)⟩
      · cases hkey : lookup Mkey.ucpRkey rkey c.mkeys with
        | some m =>
          simp only [mrRegCmd, hdest, hrkey, if_neg hmap, hkey]
          exact ⟨trivial, And.right (Reply.fail rfl rfl
            (by simp [cmdOutcome, hkind, hdest, hrkey, hkey]) nofun)⟩
        | none =>
          simp only [mrRegCmd, hdest, hrkey, if_neg hmap, hkey]
          refine ⟨trivial, And.right (Reply.done rfl
            (by simp [cmdOutcome, hkind, hdest, hrkey, hmap, hkey]) ?_)⟩
          unfold CmdEffect
          rw [hkind]
          refine ⟨c, ⟨rkey, decide (host.memMap s.calls = .ok), d.mrReg.va, d.mrReg.len⟩, hdest, hkey,
            rfl, rfl, rfl, ?_⟩
          rw [put_of_lookup_none
            (x := (⟨rkey, decide (host.memMap s.calls = .ok), d.mrReg.va, d.mrReg.len⟩ : Mkey)) hkey]
          exact destToClient_setClient _ hc

theorem mrDeregCmd_reply (hkind : d.kind = some .mrDereg) (hdest : s.destToClient d.destId = some c) :
    (mrDeregCmd host d s).1 = cmdOutcome host d s ∧ ∃ n, Reply host d s (mrDeregCmd host d s).2 n := by
  have hc := destId_of_client hdest
  cases hkey : lookup Mkey.ucpRkey d.mrDereg c.mkeys with
  | none =>
    simp only [mrDeregCmd, hdest, hkey]
    exact Reply.fail rfl rfl (by simp only [cmdOutcome, hkind, hdest, hkey]) (by simp)
  | some m =>
    by_cases hunmap : m.memh = true ∧ host.memUnmap s.calls = false
    · simp only [mrDeregCmd, hdest, hkey, if_pos hunmap]
      exact Reply.fail rfl rfl (by simp only [cmdOutcome, hkind, hdest, hkey, if_pos hunmap]) (by simp)
    · simp only [mrDeregCmd, hdest, hkey, if_neg hunmap]
      refine Reply.done rfl (by simp only [cmdOutcome, hkind, hdest, hkey, if_neg hunmap]) ?_
      unfold CmdEffect
      rw [hkind]
      exact ⟨c, m, hdest, hkey, rfl, destToClient_setClient _ hc⟩

def cmdReturn (host : CmdHost) (d : Desc) (s : Commands) : DocaError :=
  if d.kind = some .mrReg then .success else cmdOutcome host d s

theorem Reply.counted {s' : Commands} (h : ∃ n, Reply host d s s' n) (k : Nat) :
    ∃ n, Reply host d s { s' with calls := k } n := by
  obtain ⟨n, h⟩ := h
  exact ⟨n, h.completed, h.destId, h.type, h.uromContext, h.status, h.effect⟩

/-- **An answerable descriptor is answered.** -/
theorem cmdStep_reply (host : CmdHost) (h : Answerable s d) :
    (cmdStep host d s).1 = cmdReturn host d s ∧ ∃ n, Reply host d s (cmdStep host d s).2 n := by
  obtain ⟨hform, hknown⟩ := h
  unfold cmdStep
  rw [if_pos hform]
  suffices hreply : (cmdHandler host d s).1 = cmdReturn host d s ∧
      ∃ n, Reply host d s (cmdHandler host d s).2 n from ⟨hreply.1, Reply.counted hreply.2 _⟩
  -- the client of a queue or key that is destroyed is known
  have hclient : s.destToClient d.destId ≠ none → ∃ c, s.destToClient d.destId = some c :=
    Option.ne_none_iff_exists'.mp
  cases hkind : d.kind with
  | none =>
    rw [hkind] at hknown
    exact hknown.elim
  | some k =>
    rw [hkind] at hknown
    simp only [cmdHandler, cmdReturn, hkind]
    cases k with
    | clientInit => exact clientInitCmd_reply hkind hknown
    | rqCreate => exact rqCreateCmd_reply hkind
    | rqDestroy =>
      obtain ⟨c, hc⟩ := hclient hknown
      exact rqDestroyCmd_reply hkind hc
    | mrReg => exact mrRegCmd_reply hkind
    | mrDereg =>
      obtain ⟨c, hc⟩ := hclient hknown
      exact mrDeregCmd_reply hkind hc

theorem cmdStep_silent (host : CmdHost) (h : ¬ Answerable s d) :
    (cmdStep host d s).1 ≠ .success ∧ (cmdStep host d s).2.completed = s.completed := by
  unfold cmdStep
  by_cases hform : cmdUnpack d = .success
  · rw [if_pos hform]
    unfold Answerable at h
    simp only [hform, true_and] at h
    cases hkind : d.kind with
    | none =>
      simp only [cmdHandler, hkind]
      exact ⟨nofun, trivial⟩
    | some k =>
      rw [hkind] at h
      simp only [cmdHandler, hkind]
      cases k with
      | clientInit =>
        obtain ⟨hdest, hid⟩ := Classical.not_imp.mp h
        obtain ⟨c, hc⟩ := Option.ne_none_iff_exists'.mp hid
        simp only [clientInitCmd, hdest, hc]
        exact ⟨nofun, trivial⟩
      | rqCreate => exact absurd trivial h
      | rqDestroy =>
        simp only [rqDestroyCmd, Classical.not_not.mp h]
        exact ⟨nofun, trivial⟩
      | mrReg => exact absurd trivial h
      | mrDereg =>
        simp only [mrDeregCmd, Classical.not_not.mp h]
        exact ⟨nofun, trivial⟩
  · rw [if_neg hform]
    exact ⟨hform, rfl⟩

theorem cmdStep_grows (host : CmdHost) (d : Desc) (s : Commands) :
    ∃ ns, (cmdStep host d s).2.completed = s.completed ++ ns := by
  by_cases h : Answerable s d
  · obtain ⟨-, n, hreply⟩ := cmdStep_reply host h
    exact ⟨[n], hreply.completed⟩
  · exact ⟨[], by rw [(cmdStep_silent host h).2, List.append_nil]⟩

theorem workerCmd_grows (host : CmdHost) : ∀ (ds : List Desc) (s : Commands),
    ∃ ns, (workerCmd host ds s).worker.completed = s.completed ++ ns
  | [], s => ⟨[], (List.append_nil _).symm⟩
  | d :: ds, s => by
    obtain ⟨ns, hns⟩ := cmdStep_grows host d s
    unfold workerCmd
    split
    · obtain ⟨ns', hns'⟩ := workerCmd_grows host ds (cmdStep host d s).2
      exact ⟨ns ++ ns', by rw [hns', hns, List.append_assoc]⟩
    · exact ⟨ns, hns⟩

end Handlers

/-! ## The notifications reach the host -/

section Delivery

variable {host : CmdHost}

inductive CmdCall where
  | commands (ds : List Desc)
  | progress

structure CmdRun where
  worker : Commands
  delivered : List Notif

def CmdRun.step (host : CmdHost) (w : CmdRun) : CmdCall → CmdRun
  | .commands ds => ⟨(workerCmd host ds w.worker).worker, w.delivered⟩
  | .progress => ⟨(cmdProgress w.worker).2.2, w.delivered ++ (cmdProgress w.worker).2.1⟩

def CmdRun.added (host : CmdHost) : CmdRun → List CmdCall → List Notif
  | _, [] => []
  | w, .progress :: calls => CmdRun.added host (w.step host .progress) calls
  | w, .commands ds :: calls =>
    (workerCmd host ds w.worker).worker.completed.drop w.worker.completed.length ++
      CmdRun.added host (w.step host (.commands ds)) calls

theorem cmdProgress_spec :
    (cmdProgress s).2.1 = s.completed ∧ (cmdProgress s).2.2.completed = [] := by
  unfold cmdProgress
  split
  · rename_i hnone
    exact ⟨hnone.symm, hnone⟩
  · exact ⟨rfl, rfl⟩

/-- **Every notification is handed over once, in order**: what was handed over and what waits is what the
    commands have added. -/
theorem notifications_delivered (host : CmdHost) : ∀ (calls : List CmdCall) (w : CmdRun),
    (calls.foldl (CmdRun.step host) w).delivered ++ (calls.foldl (CmdRun.step host) w).worker.completed =
      w.delivered ++ w.worker.completed ++ w.added host calls
  | [], w => (List.append_nil _).symm
  | .progress :: calls, w => by
    obtain ⟨hlist, hnone⟩ := cmdProgress_spec w.worker
    rw [List.foldl_cons, notifications_delivered host calls, CmdRun.added, CmdRun.step, hnone, hlist,
      List.append_nil]
  | .commands ds :: calls, w => by
    obtain ⟨ns, hns⟩ := workerCmd_grows host ds w.worker
    rw [List.foldl_cons, notifications_delivered host calls, CmdRun.added, CmdRun.step, hns,
      List.drop_left]
    simp only [List.append_assoc]

end Delivery

/-! ## The table of clients -/

section Distinct

variable {host : CmdHost} {d : Desc} {s : Commands}

structure Distinct (s : Commands) : Prop where
  ids : (s.clients.map Client.id).Nodup
  destIds : (s.clients.map Client.destId).Nodup

section

variable (h : Distinct s)

include h

theorem Distinct.of_clients {s' : Commands} (hs : s'.clients = s.clients) :
    Distinct s' := ⟨hs ▸ h.ids, hs ▸ h.destIds⟩

theorem Distinct.change {s' : Commands} {c c' : Client}
    (hc : s.destToClient d.destId = some c) (hs : s'.clients = put Client.id c' s.clients)
    (hid : c'.id = c.id) (hdest : c'.destId = c.destId) : Distinct s' := by
  obtain ⟨hmem, -⟩ := mem_of_lookup hc
  exact ⟨hs ▸ nodup_put h.ids,
    hs ▸ (map_put_perm Client.destId h.ids hmem hid hdest).nodup_iff.mpr h.destIds⟩

theorem Distinct.add {s' : Commands} {c : Client}
    (hid : lookup Client.id c.id s.clients = none) (hdest : s.destToClient c.destId = none)
    (hs : s'.clients = put Client.id c s.clients) : Distinct s' := by
  refine ⟨hs ▸ nodup_put h.ids, ?_⟩
  rw [hs, put_of_lookup_none hid, List.map_cons, List.nodup_cons]
  refine ⟨fun hno => ?_, h.destIds⟩
  obtain ⟨c', hc', heq⟩ := List.mem_map.mp hno
  exact lookup_eq_none.mp hdest c' hc' heq

theorem Distinct.cmdHandler : Distinct (cmdHandler host d s).2 := by
  have hget : (epGet host s).2.2.clients = s.clients := by
    rcases epGet_cases host s with ⟨ep, hep⟩ | hep <;> rw [hep]
  have hdel : ∀ ep, (epDel host ep s).2.clients = s.clients := fun ep => by
    rcases epDel_cases host ep s with hep | ⟨status, -, hep⟩ <;> rw [hep]
  unfold Rdmo.cmdHandler
  split
  · unfold clientInitCmd
    dsimp only
    split
    · exact h.of_clients rfl
    rename_i hdest
    split
    · exact h
    · rename_i hid
      split
      · exact h.add hid hdest (congrArg (put Client.id _) hget)
      · exact h.of_clients hget
  · unfold rqCreateCmd
    dsimp only
    split
    · exact h.of_clients rfl
    · rename_i hc
      split
      · exact h.change hc rfl rfl rfl
      · split <;> exact h.change hc (congrArg (put Client.id _) hget) rfl rfl
  · unfold rqDestroyCmd
    dsimp only
    split
    · exact h
    rename_i hc
    split
    · exact h.of_clients rfl
    · split
      · exact h.change hc (congrArg (put Client.id _) (hdel _)) rfl rfl
      · exact h.of_clients (hdel _)
  · unfold mrRegCmd
    dsimp only
    split
    · exact h.of_clients rfl
    · rename_i hc
      repeat' split
      all_goals first | exact h.of_clients rfl | exact h.change hc rfl rfl rfl
  · unfold mrDeregCmd
    dsimp only
    split
    · exact h
    · rename_i hc
      repeat' split
      all_goals first | exact h.of_clients rfl | exact h.change hc rfl rfl rfl
  · exact h

theorem Distinct.cmdStep : Distinct (cmdStep host d s).2 := by
  unfold Rdmo.cmdStep
  split
  · exact h.cmdHandler.of_clients rfl
  · exact h

end

/-- **Over any list of commands clients keep different ids and destinations.** -/
theorem Distinct.workerCmd : ∀ {ds : List Desc} {s : Commands}, Distinct s →
    Distinct (workerCmd host ds s).worker
  | [], _, h => h
  | d :: ds, s, h => by
    unfold Rdmo.workerCmd
    split
    · exact Distinct.workerCmd h.cmdStep
    · exact h.cmdStep

/-- **In every run of a worker the clients have different ids and destinations.** -/
theorem clients_distinct (calls : List CmdCall) :
    Distinct (calls.foldl (CmdRun.step host) ⟨.opened, []⟩).worker := by
  refine List.foldlRecOn (motive := fun w : CmdRun => Distinct w.worker) calls _ ⟨.nil, .nil⟩
    fun w h call _ => ?_
  cases call with
  | commands ds => exact h.workerCmd
  | progress =>
    show Distinct (cmdProgress w.worker).2.2
    unfold cmdProgress
    split
    · exact h
    · exact h.of_clients rfl

end Distinct

/-! ## The loop -/

section Loop

variable {host : CmdHost}

theorem cmdReturn_success {d : Desc} {s : Commands} :
    cmdReturn host d s = .success ↔ cmdOutcome host d s = .success ∨ d.kind = some .mrReg := by
  unfold cmdReturn
  split
  · rename_i hreg
    exact ⟨fun _ => .inr hreg, fun _ => rfl⟩
  · rename_i hreg
    exact ⟨.inl, fun h => h.resolve_right hreg⟩

theorem EveryAnswered.of_fine : ∀ {ds : List Desc} {s : Commands}, Fine host s ds → EveryAnswered host s ds
  | [], _, _ => ⟨rfl, [], (List.append_nil _).symm, trivial⟩
  | d :: ds, s, h => by
    obtain ⟨hans, hrest⟩ := h
    obtain ⟨hret, n, hreply⟩ := cmdStep_reply host hans
    have hone : ∀ {ns}, Answers host (cmdStep host d s).2 ds ns → Answers host s (d :: ds) (n :: ns) :=
      fun hns => ⟨hreply.destId, hreply.type, hreply.uromContext, hreply.status, hreply.effect, hns⟩
    unfold EveryAnswered workerCmd
    split
    · have hfine : Fine host (cmdStep host d s).2 ds := by
        rcases hrest with rfl | ⟨-, hfine⟩
        · trivial
        · exact hfine
      obtain ⟨hleft, ns, hcompleted, hns⟩ := EveryAnswered.of_fine hfine
      refine ⟨hleft, n :: ns, ?_, hone hns⟩
      rw [hcompleted, hreply.completed, List.append_assoc, List.singleton_append]
    · rename_i hfail
      -- only the last descriptor may fail
      rcases hrest with rfl | ⟨hok, -⟩
      · exact ⟨rfl, [n], hreply.completed, hone trivial⟩
      · exact absurd (hret.trans (cmdReturn_success.mpr hok)) hfail

theorem Fine.of_answered : ∀ {ds : List Desc} {s : Commands}, EveryAnswered host s ds → Fine host s ds
  | [], _, _ => trivial
  | d :: ds, s, h => by
    obtain ⟨hleft, ns, hcompleted, hns⟩ := h
    cases ns with
    | nil => exact hns.elim
    | cons n ns =>
      obtain ⟨-, -, -, -, -, hrest⟩ := hns
      unfold workerCmd at hleft hcompleted
      by_cases hans : Answerable s d
      · obtain ⟨hret, n', hreply⟩ := cmdStep_reply host hans
        refine ⟨hans, ?_⟩
        split at hleft
        · rename_i hok
          rw [if_pos hok] at hcompleted
          obtain ⟨ns', hns'⟩ := workerCmd_grows host ds (cmdStep host d s).2
          have hsplit : n' = n ∧ ns' = ns := by
            rw [hns', hreply.completed, List.append_assoc] at hcompleted
            have := List.append_cancel_left hcompleted
            rwa [List.singleton_append, List.cons.injEq] at this
          refine .inr ⟨cmdReturn_success.mp (hret.symm.trans hok), ?_⟩
          exact Fine.of_answered ⟨hleft, ns, hsplit.2 ▸ hns', hrest⟩
        · exact .inl hleft
      · -- the loop ends here, and nothing was added
        obtain ⟨hfail, hsame⟩ := cmdStep_silent host hans
        rw [if_neg hfail, hsame] at hcompleted
        exact absurd (List.append_right_eq_self.mp hcompleted.symm) (List.cons_ne_nil n ns)

def easyHost : CmdHost :=
  ⟨fun n => some n.toUInt64, fun _ => true, fun n => some n.toUInt64, fun _ => .unreachable,
    fun _ => true, 32⟩

def initDesc (destId id : UInt64) : Desc :=
  ⟨destId, 1, 9, CMD_LEN + 8, 0, ⟨id, 8⟩, 0, 0, ⟨0, 0, 0, 0⟩, 0⟩

def destroyDesc (destId : UInt64) : Desc :=
  ⟨destId, 1, 9, CMD_LEN, 2, ⟨0, 0⟩, 0, 0, ⟨0, 0, 0, 0⟩, 0⟩

end Loop

end Doca.Rdmo
