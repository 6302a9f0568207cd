import Doca.AllReduce.MemPool
import Doca.AllReduce.Reducer
import Doca.Lib.Table

/-!
# All-reduce: the pooled memory of one node

Model of the callbacks of `allreduce_core.c`, `allreduce_client.c` and `allreduce_daemon.c` as they
take elements from the memory pools and give them back, for all operations of one node together.
Vectors are addresses here; what they hold is the subject of the model of the exchange.

* `Pool` — a memory pool with the record of what is taken out of it.
* `PRequest`, `PSuper` — `struct allreduce_request` and `struct allreduce_super_request` with their
  pointers.  Callbacks name a super request by its address; if it has been released they fail.
* `poolNodeStep` — what arrives or completes. It is `none` where the source releases
  an element that is not taken out, uses a released element, follows a null pointer or fails an
  assertion.
* `PEnabled` — each expected message comes once, and `malloc` keeps its contract.

UCX statuses are `UCS_OK`, allocations succeed, and the GPU build is left out.
-/

namespace Doca.AllReduce

open Doca.Lib

/-! ## Pools -/

structure Pool where
  mp : MPool Nat
  ledger : Ledger Nat

namespace Pool

def uncreated : Pool := ⟨⟨fun _ => none, 0, 0, 0, .cpu⟩, [], []⟩

def create (nbElems : Nat) (answers : Nat → Option Nat) : Option Pool :=
  match MPool.createMpool nbElems .cpu true answers with
  | some (.success, mp) => some ⟨mp, [], allocated answers 0 nbElems⟩
  | _ => none

def createIf (cond : Bool) (nbElems : Nat) (answers : Nat → Option Nat) : Option Pool :=
  if cond then create nbElems answers else some uncreated

def aloc (p : Pool) (answers : Nat → Option Nat) : Option (Nat × Pool) :=
  match p.mp.alocVec true answers with
  | some (_, some v, mp) =>
    some (v, ⟨mp, p.ledger.outstanding ++ [v], p.ledger.ever ++ grownBy p.mp true answers⟩)
  | _ => none

def free (p : Pool) (v : Nat) : Option Pool :=
  if v ∈ p.ledger.outstanding then
    (p.mp.freeVec v).map fun mp => ⟨mp, p.ledger.outstanding.erase v, p.ledger.ever⟩
  else none

def freePtr (p : Pool) : Option Nat → Option Pool
  | some v => p.free v
  | none => some p

def freeAll (p : Pool) : List Nat → Option Pool
  | [] => some p
  | v :: vs => (p.free v).bind fun p => p.freeAll vs

def use (p : Pool) (v : Nat) : Option Unit := if v ∈ p.ledger.outstanding then some () else none

def useAll (p : Pool) : List Nat → Option Unit
  | [] => some ()
  | v :: vs => (p.use v).bind fun _ => p.useAll vs

end Pool

/-! ## The state of a node -/

structure PRequest where
  addr : Nat
  id : Nat
  vector : Option Nat
  superRequest : Option Nat
  deriving DecidableEq

inductive VecPtr where
  | pooled (v : Nat)
  | user
  deriving DecidableEq

/-- `struct allreduce_super_request`; `recvVectors` is the buffer from `bufs_pool`, `recvSlots` its first
    `recv_vector_iter` entries; `scattered`: `allreduce_scatter` was entered. -/
structure PSuper where
  addr : Nat
  id : Nat
  numRequests : Nat
  requests : List PRequest
  numOperations : Nat
  resultVectorOwner : Bool
  resultVector : Option VecPtr
  peerResultVector : Option Nat
  recvVectors : Option Nat
  recvSlots : List Nat
  scattered : Bool
  deriving DecidableEq

/-- A node: its pools; the hash of super requests; incomplete receives from clients and peers (with the
    super request and the vector), sends to peers and replies to clients; the messages that have come and
    the operations that are finished. -/
structure PState where
  vecs : Pool
  bufs : Pool
  reqs : Pool
  srs : Pool
  hash : List PSuper
  clientRecvs : List PRequest
  peerRecvs : List (Nat × Nat)
  sends : List Nat
  replies : List PRequest
  clientSeen : List (Nat × Nat)
  peerSeen : List (Nat × Nat)
  finished : List Nat

/-- What the environment decides: the allocator's answers for each pool, and which sends complete at
    once. -/
structure PEnv where
  vecs : Nat → Option Nat
  bufs : Nat → Option Nat
  reqs : Nat → Option Nat
  srs : Nat → Option Nat
  sendAtOnce : Nat → Bool
  replyAtOnce : Nat → Bool

variable (cfg : Config)

def initMempools (batchSize : Nat) (env : PEnv) : Option PState := do
  let srs ← Pool.create (2 * batchSize % 2 ^ 64) env.srs
  let vecs ← Pool.create (2 * (cfg.numClients + cfg.numPeers) * batchSize % 2 ^ 64) env.vecs
  let bufs ← Pool.createIf (1 < cfg.numPeers) (2 * batchSize % 2 ^ 64) env.bufs
  let reqs ← Pool.createIf (cfg.role = .daemon) (2 * batchSize * cfg.numClients % 2 ^ 64) env.reqs
  some ⟨vecs, bufs, reqs, srs, [], [], [], [], [], [], [], []⟩

namespace PState

def find (w : PState) (addr : Nat) : Option PSuper := lookup PSuper.addr addr w.hash

def put (w : PState) (sr : PSuper) : PState := { w with hash := Lib.put PSuper.addr sr w.hash }

/-! ## Releasing -/

def requestDestroy (r : PRequest) (w : PState) : Option PState := do
  let vecs ← w.vecs.freePtr r.vector
  let reqs ← w.reqs.free r.addr
  some { w with vecs := vecs, reqs := reqs }

def requestsDestroy : List PRequest → PState → Option PState
  | [], w => some w
  | r :: rest, w => (requestDestroy r w).bind (requestsDestroy rest)

variable (sr : PSuper)

def freeRequests (w : PState) : Option PState :=
  if 0 < sr.numRequests then requestsDestroy sr.requests w else some w

def resultDestroy (vecs : Pool) : Option Pool :=
  match sr.resultVectorOwner, sr.resultVector with
  | true, some (.pooled v) => vecs.free v
  | true, some .user => none
  | _, _ => some vecs

def superRequestDestroy (w : PState) : Option PState := do
  let vecs ← resultDestroy sr w.vecs
  let vecs ← vecs.freePtr sr.peerResultVector
  let bufs ← w.bufs.freePtr sr.recvVectors
  let w ← freeRequests sr { w with vecs := vecs, bufs := bufs }
  let srs ← w.srs.free sr.addr
  some { w with srs := srs }

def superRequestFinish (id : Nat) (w : PState) : Option PState :=
  match lookup PSuper.id id w.hash with
  | none => some w
  | some sr => superRequestDestroy sr { w with
      hash := others PSuper.id id w.hash
      finished := id :: w.finished }

/-! ## Completing an operation -/

def useResult (w : PState) : Option Unit :=
  match sr.resultVector with
  | none => none
  | some .user => some ()
  | some (.pooled v) => w.vecs.use v

/-- `daemon_allreduce_complete_client_operation_callback`, for a reply that is sent. -/
def daemonCompleteClientOperation (r : PRequest) (w : PState) : Option PState := do
  let addr ← r.superRequest
  let w ← requestDestroy r { w with replies := w.replies.erase r }
  let sr ← w.find addr
  match sr.numRequests with
  | 0 => none
  | n + 1 =>
    let w := w.put { sr with numRequests := n }
    if n = 0 then superRequestFinish sr.id w else some w

def awaitReply (r : PRequest) (w : PState) : PState := { w with replies := r :: w.replies }

variable (env : PEnv)

variable (r : PRequest) (w : PState)

def sendReply : Option PState :=
  if env.replyAtOnce r.addr then daemonCompleteClientOperation r (awaitReply r w)
  else some (awaitReply r w)

variable (addr : Nat)

def sendReplies : List PRequest → PState → Option PState
  | [], w => some w
  | r :: rest, w => do
    let sr ← w.find addr
    w.reqs.use r.addr
    useResult sr w
    let w ← sendReply env r (w.put { sr with requests := sr.requests.erase r })
    sendReplies rest w

def useRecvVectors : Option Unit :=
  match sr.recvSlots, sr.recvVectors with
  | [], _ => some ()
  | _, none => none
  | _, some b => w.bufs.use b

def reducePeerResult : Option Pool :=
  match sr.peerResultVector with
  | some v => (useResult sr w).bind fun _ => w.vecs.free v
  | none => some w.vecs

def releasePeerVectors : Option Pool := do
  let vecs ← reducePeerResult sr w
  useRecvVectors sr w
  vecs.freeAll sr.recvSlots

def completeOperation (w : PState) : Option PState := do
  let sr ← w.find addr
  match sr.numOperations with
  | 0 => none
  | n + 1 =>
    if 0 < n then some (w.put { sr with numOperations := n })
    else do
      let vecs ← releasePeerVectors sr w
      let w := { w with vecs := vecs }.put { sr with numOperations := 0, peerResultVector := none }
      match cfg.role with
      | .client => if sr.requests = [] then superRequestFinish sr.id w else none
      | .daemon => sendReplies env addr sr.requests w

def sendVector (addr j : Nat) (w : PState) : Option PState :=
  if env.sendAtOnce j then completeOperation cfg env addr w
  else some { w with sends := addr :: w.sends }

def scatterSends : List Nat → PState → Option PState
  | [], w => some w
  | j :: rest, w => do
    let sr ← w.find addr
    useResult sr w
    let w ← sendVector cfg env addr j w
    scatterSends rest w

def scatter (w : PState) : Option PState := do
  let sr ← w.find addr
  let w ← scatterSends cfg env addr (List.range cfg.numPeers) (w.put { sr with scattered := true })
  completeOperation cfg env addr w

/-! ## Messages -/

def alocRecvVectors : Option (Option Nat × Pool) :=
  if cfg.numPeers ≤ 1 then some (none, w.bufs)
  else (w.bufs.aloc env.bufs).map fun b => (some b.1, b.2)

/-- `allreduce_super_request_get` with `allreduce_super_request_allocate`; `user`: with a vector of the
    user. -/
def superRequestGet (id : Nat) (user : Bool) (w : PState) :
    Option (PSuper × PState) :=
  match lookup PSuper.id id w.hash with
  | some sr => some (sr, w)
  | none => do
    let a ← w.srs.aloc env.srs
    let b ← alocRecvVectors cfg env w
    let sr : PSuper :=
      { addr := a.1
        id := id
        numRequests := 0
        requests := []
        numOperations := 2 * cfg.numPeers + 1
        resultVectorOwner := !user
        resultVector := if user then some .user else none
        peerResultVector := none
        recvVectors := b.1
        recvSlots := []
        scattered := false }
    some (sr, { w with srs := a.2, bufs := b.2, hash := sr :: w.hash })

def reduceAll : Option Unit := do
  let v ← sr.peerResultVector
  w.vecs.use v
  useRecvVectors sr w
  w.vecs.useAll sr.recvSlots

/-- `allreduce_reduce_all` is called with the last vector if there is more than one peer. -/
def reduceLast : Option Unit :=
  if sr.recvSlots.length + 1 = cfg.numPeers ∧ 0 < sr.recvSlots.length then reduceAll sr w
  else some ()

def gatherComplete (addr v : Nat) (w : PState) : Option PState := do
  w.vecs.use v
  let sr ← w.find addr
  reduceLast cfg sr w
  completeOperation cfg env addr { w with peerRecvs := w.peerRecvs.erase (addr, v) }

def saveVector (v : Nat) (w : PState) : Option PSuper :=
  if sr.recvSlots.length < cfg.numPeers then
    match sr.peerResultVector with
    | none => some { sr with peerResultVector := some v }
    | some _ => do
      let b ← sr.recvVectors
      w.bufs.use b
      some { sr with recvSlots := sr.recvSlots ++ [v] }
  else none

/-- `allreduce_gather_callback`, for the message of peer `j`; the receive is then in hand. -/
def gatherStore (id j : Nat) (w : PState) :
    Option (Nat × Nat × PState) := do
  let g ← superRequestGet cfg env id false w
  let v ← g.2.vecs.aloc env.vecs
  let sr ← saveVector cfg g.1 v.1 g.2
  some (sr.addr, v.1, { g.2.put sr with
    vecs := v.2
    peerRecvs := (sr.addr, v.1) :: g.2.peerRecvs
    peerSeen := (id, j) :: g.2.peerSeen })

/-- The vector of a client's request becomes the result vector, or is reduced into it and
    released. -/
def attachVector (v : Nat) (w : PState) : Option (VecPtr × Pool) :=
  match sr.resultVector with
  | none => some (.pooled v, w.vecs)
  | some result => do
    useResult sr w
    let vecs ← w.vecs.free v
    some (result, vecs)

def PRequest.attached : PRequest :=
  { r with vector := none, superRequest := some addr }

def recvDataComplete : Option PState := do
  let v ← r.vector
  w.vecs.use v
  w.reqs.use r.addr
  let g ← superRequestGet cfg env r.id false w
  let a ← attachVector g.1 v g.2
  let sr := { g.1 with
    numRequests := g.1.numRequests + 1
    requests := g.1.requests ++ [PRequest.attached r g.1.addr]
    resultVector := some a.1 }
  let w := { g.2.put sr with vecs := a.2, clientRecvs := g.2.clientRecvs.erase r }
  if sr.numRequests = cfg.numClients then scatter cfg env sr.addr w else some w

def userVector : PSuper :=
  match sr.resultVector with
  | some _ => sr
  | none => { sr with resultVector := some .user, resultVectorOwner := false }

/-- `allreduce_batch_submit` up to the call of the submit function: the super request. -/
def submitStore (id : Nat) (w : PState) : Option (Nat × PState) :=
  (superRequestGet cfg env id true w).map fun g =>
    (g.1.addr, { g.2.put (userVector g.1) with clientSeen := (id, 0) :: g.2.clientSeen })

end PState

/-! ## Events -/

/-- A message of a client or a peer arrives, with or without its data; data arrives; a send or a reply is
    complete; the user of a client submits its vector. -/
inductive PEvent where
  | clientArrive (id c : Nat) (atOnce : Bool) (env : PEnv)
  | clientData (r : PRequest) (env : PEnv)
  | peerArrive (id j : Nat) (atOnce : Bool) (env : PEnv)
  | peerData (addr v : Nat) (env : PEnv)
  | sent (addr : Nat) (env : PEnv)
  | replySent (r : PRequest)
  | submit (id : Nat) (env : PEnv)

variable (w : PState)

open PState in
def poolNodeStep : PEvent → Option PState
  -- `daemon_am_recv_ctrl_callback` with `allreduce_request_allocate`
  | .clientArrive id c atOnce env => do
    let a ← w.reqs.aloc env.reqs
    let v ← w.vecs.aloc env.vecs
    let r : PRequest := ⟨a.1, id, some v.1, none⟩
    let w := { w with
      reqs := a.2
      vecs := v.2
      clientRecvs := r :: w.clientRecvs
      clientSeen := (id, c) :: w.clientSeen }
    if atOnce then recvDataComplete cfg env r w else some w
  | .clientData r env => recvDataComplete cfg env r w
  | .peerArrive id j atOnce env => do
    let g ← gatherStore cfg env id j w
    if atOnce then gatherComplete cfg env g.1 g.2.1 g.2.2 else some g.2.2
  | .peerData addr v env => gatherComplete cfg env addr v w
  | .sent addr env => completeOperation cfg env addr { w with sends := w.sends.erase addr }
  | .replySent r => PState.daemonCompleteClientOperation r w
  -- with `allreduce_non_offloaded_submit`
  | .submit id env => do
    let g ← submitStore cfg env id w
    scatter cfg env g.1 g.2

/-! ## What may happen -/

/-- The addresses that `malloc` returns: not null, and aligned for every type. -/
def Placed (v : Nat) : Prop := 0 < v ∧ v < 2 ^ 64 ∧ v % 16 = 0

/-- `malloc` keeps its contract for a pool that `aloc` is called for, and does not fail. -/
structure AllocOk (p : Pool) (answers : Nat → Option Nat) : Prop where
  fresh : Fresh p.ledger.ever answers
  placed : ∀ i v, answers i = some v → Placed v
  answered : p.mp.head = p.mp.size → ∀ i, p.mp.size ≤ i → i < 2 * p.mp.size → answers i ≠ none

def GetOk (env : PEnv) (id : Nat) : Prop :=
  (∀ s ∈ w.hash, s.id ≠ id) → AllocOk w.srs env.srs ∧ (1 < cfg.numPeers → AllocOk w.bufs env.bufs)

def PEnabled : PEvent → Prop
  | .clientArrive id c atOnce env =>
    cfg.role = .daemon ∧ c < cfg.numClients ∧ (id, c) ∉ w.clientSeen ∧
      AllocOk w.reqs env.reqs ∧ AllocOk w.vecs env.vecs ∧ (atOnce = true → GetOk cfg w env id)
  | .clientData r env => r ∈ w.clientRecvs ∧ GetOk cfg w env r.id
  | .peerArrive id j _ env =>
    j < cfg.numPeers ∧ (id, j) ∉ w.peerSeen ∧ AllocOk w.vecs env.vecs ∧ GetOk cfg w env id
  | .peerData addr v _ => (addr, v) ∈ w.peerRecvs
  | .sent addr _ => addr ∈ w.sends
  | .replySent r => r ∈ w.replies
  | .submit id env => cfg.role = .client ∧ (id, 0) ∉ w.clientSeen ∧ GetOk cfg w env id

end Doca.AllReduce
