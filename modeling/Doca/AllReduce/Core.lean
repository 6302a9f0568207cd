import Doca.AllReduce.Reducer

/-!
# All-reduce: the callbacks of one node

Model of the callbacks in `allreduce_core.c`, `allreduce_client.c` and `allreduce_daemon.c` that
move one operation (one header id) on at one node, as functions on that node's state.

* A callback returns `none` where the source fails: an assertion, a null pointer, or a super
  request that has already been released.
* Active messages are those of UCX.  `SendMode` says what `ucp_am_send_nbx` does with one message:
  complete at once, complete later from a copy (eager), or let the receiver fetch the data from
  the sender's buffer (rendezvous).

All UCX statuses are `UCS_OK`, pool allocations succeed, and the GPU build is left out.
-/

namespace Doca.AllReduce

open Doca.Lib Function

/-! ## Messages -/

inductive SendMode where
  | immediate
  | eager
  | rndv
  deriving DecidableEq

/-- A send as its sender sees it; an eager message carries a copy of the data. -/
inductive SendState (w : Nat) where
  | idle
  | eager (data : Buf w) (completed : Bool)
  | rndv (completed : Bool)

namespace SendState

variable {w : Nat}

def completed : SendState w → Bool
  | idle => false
  | eager _ c => c
  | rndv c => c

def posted : SendState w → Bool
  | idle => false
  | _ => true

def complete : SendState w → SendState w
  | idle => idle
  | eager data _ => eager data true
  | rndv _ => rndv true

end SendState

def SendMode.post {w : Nat} : SendMode → Buf w → SendState w
  | immediate, data => .eager data true
  | eager, data => .eager data false
  | rndv, _ => .rndv false

inductive Slot where
  | peerResult
  | recv (i : Nat)
  deriving DecidableEq

/-- A receive as its receiver sees it; `slot` is the buffer given to `allreduce_ucx_am_recv`. -/
inductive RecvState (σ : Type) where
  | idle
  | receiving (slot : σ)
  | received
  deriving DecidableEq

def RecvState.isReceived {σ : Type} : RecvState σ → Bool
  | received => true
  | _ => false

/-! ## Nodes -/

/-- One node's state of one operation. `scattered`: `allreduce_scatter` was entered; `result`: a client's
    result vector at the end of its operation; `removals`: removals from the hash; for a daemon,
    `replyPosts` counts the replies sent to each client and `replyRecvs` is what it has received. -/
structure Node (ι : Type) (w : Nat) where
  entry : Option (SuperRequest w)
  scattered : Bool
  sends : ι → SendState w
  recvs : ι → RecvState Slot
  result : Option (Buf w)
  clientRecvs : Nat → RecvState Unit
  replies : Nat → SendState w
  replyPosts : Nat → Nat
  replyRecvs : Nat → List (Buf w)
  removals : Nat

def Node.init (ι : Type) (w : Nat) : Node ι w where
  entry := none
  scattered := false
  sends := fun _ => .idle
  recvs := fun _ => .idle
  result := none
  clientRecvs := fun _ => .idle
  replies := fun _ => .idle
  replyPosts := fun _ => 0
  replyRecvs := fun _ => []
  removals := 0

variable {ι : Type} {w : Nat}

def superRequestAllocate (cfg : Config) (length : Nat) (resultVector : Option (Buf w)) :
    SuperRequest w where
  numAllreduceRequests := 0
  allreduceRequestsList := []
  numAllreduceOperations := 2 * cfg.numPeers + 1
  resultVectorOwner := resultVector.isNone
  resultVector := resultVector
  peerResultVector := none
  recvVectors := []
  resultVectorSize := length

def superRequestGet (cfg : Config) (entry : Option (SuperRequest w)) (resultLength : Nat)
    (resultVector : Option (Buf w)) : SuperRequest w :=
  match entry with
  | some sr => sr
  | none => superRequestAllocate cfg resultLength resultVector

/-! ## Completions -/

/-- `daemon_allreduce_complete_client_operation_callback`; the last one calls
    `allreduce_super_request_finish`. -/
def daemonCompleteClientOperation (nd : Node ι w) : Option (Node ι w) :=
  match nd.entry with
  | none => none
  | some sr =>
    match sr.numAllreduceRequests with
    | 0 => none
    | 1 => some { nd with entry := none, removals := nd.removals + 1 }
    | n + 2 => some { nd with entry := some { sr with numAllreduceRequests := n + 1 } }

/-- The loop of `allreduce_complete_operation_callback` over the clients' requests. -/
def sendReplies (replyMode : Nat → SendMode) : List Nat → Node ι w → Option (Node ι w)
  | [], nd => some nd
  | c :: rest, nd =>
    match nd.entry with
    | none => none
    | some sr =>
      match sr.resultVector with
      | none => none
      | some result =>
        let nd := { nd with
          entry := some { sr with allreduceRequestsList := sr.allreduceRequestsList.erase c }
          replies := update nd.replies c ((replyMode c).post result)
          replyPosts := update nd.replyPosts c (nd.replyPosts c + 1) }
        if replyMode c = .immediate then
          (daemonCompleteClientOperation nd).bind (sendReplies replyMode rest)
        else sendReplies replyMode rest nd

theorem sendReplies_cons {replyMode : Nat → SendMode} {c : Nat} {rest : List Nat}
    {nd : Node ι w} {sr : SuperRequest w} {result : Buf w} (he : nd.entry = some sr)
    (hb : sr.resultVector = some result) :
    sendReplies replyMode (c :: rest) nd =
      let nd := { nd with
        entry := some { sr with allreduceRequestsList := sr.allreduceRequestsList.erase c }
        replies := update nd.replies c ((replyMode c).post result)
        replyPosts := update nd.replyPosts c (nd.replyPosts c + 1) }
      if replyMode c = .immediate then
        (daemonCompleteClientOperation nd).bind (sendReplies replyMode rest)
      else sendReplies replyMode rest nd := by
  simp only [sendReplies, he, hb]

/-- The end of `allreduce_complete_operation_callback`, when no operation is outstanding. -/
def finishOperation (cfg : Config) (replyMode : Nat → SendMode) (sr : SuperRequest w)
    (nd : Node ι w) : Option (Node ι w) :=
  match cfg.role with
  | .client =>
    if sr.allreduceRequestsList = [] then
      some { nd with entry := none, result := sr.resultVector, removals := nd.removals + 1 }
    else none
  | .daemon => sendReplies replyMode sr.allreduceRequestsList { nd with entry := some sr }

def allreduceCompleteOperation (cfg : Config) (replyMode : Nat → SendMode) (nd : Node ι w) :
    Option (Node ι w) :=
  match nd.entry with
  | none => none
  | some sr =>
    match sr.numAllreduceOperations with
    | 0 => none
    | n + 1 =>
      let sr := { sr with numAllreduceOperations := n }
      if 0 < n then some { nd with entry := some sr }
      else
        match sr.peerResultVector with
        | none => finishOperation cfg replyMode sr nd
        | some peer =>
          (allreduceReduce cfg sr peer false).bind fun sr =>
            finishOperation cfg replyMode { sr with peerResultVector := none } nd

/-! ## Scatter -/

variable [DecidableEq ι]

def scatterSends (cfg : Config) (peerMode : ι → SendMode) (replyMode : Nat → SendMode) :
    List ι → Node ι w → Option (Node ι w)
  | [], nd => some nd
  | j :: rest, nd =>
    match nd.entry with
    | none => none
    | some sr =>
      match sr.resultVector with
      | none => none
      | some result =>
        let nd := { nd with sends := update nd.sends j ((peerMode j).post result) }
        if peerMode j = .immediate then
          (allreduceCompleteOperation cfg replyMode nd).bind (scatterSends cfg peerMode replyMode rest)
        else scatterSends cfg peerMode replyMode rest nd

theorem scatterSends_cons {cfg : Config} {peerMode : ι → SendMode} {replyMode : Nat → SendMode}
    {j : ι} {rest : List ι} {nd : Node ι w} {sr : SuperRequest w} {result : Buf w}
    (he : nd.entry = some sr) (hb : sr.resultVector = some result) :
    scatterSends cfg peerMode replyMode (j :: rest) nd =
      if peerMode j = .immediate then
        (allreduceCompleteOperation cfg replyMode
          { nd with sends := update nd.sends j ((peerMode j).post result) }).bind
          (scatterSends cfg peerMode replyMode rest)
      else
        scatterSends cfg peerMode replyMode rest
          { nd with sends := update nd.sends j ((peerMode j).post result) } := by
  simp only [scatterSends, he, hb]

def allreduceScatter (cfg : Config) (peerMode : ι → SendMode) (replyMode : Nat → SendMode)
    (peers : List ι) (nd : Node ι w) : Option (Node ι w) :=
  (scatterSends cfg peerMode replyMode peers { nd with scattered := true }).bind
    (allreduceCompleteOperation cfg replyMode)

/-! ## Gather -/

/-- `allreduce_gather_callback` up to `allreduce_ucx_am_recv`, with the buffer `vector` from the pool.
    With at most one peer `recv_vectors` is null. -/
def allreduceGather (cfg : Config) (length : Nat) (vector : Buf w) (j : ι) (nd : Node ι w) :
    Option (Node ι w) :=
  let sr := superRequestGet cfg nd.entry length none
  if sr.recvVectorIter < cfg.numPeers then
    match sr.peerResultVector with
    | none =>
      some { nd with
        entry := some { sr with peerResultVector := some vector }
        recvs := update nd.recvs j (.receiving .peerResult) }
    | some _ =>
      if cfg.numPeers ≤ 1 then none
      else
        some { nd with
          entry := some { sr with recvVectors := sr.recvVectors ++ [vector] }
          recvs := update nd.recvs j (.receiving (.recv sr.recvVectorIter)) }
  else none

def SuperRequest.write (sr : SuperRequest w) (length : Nat) (data : Buf w) : Slot → Option (SuperRequest w)
  | .peerResult =>
    match sr.peerResultVector with
    | none => none
    | some old => some { sr with peerResultVector := some (copyFirst length data old) }
  | .recv i =>
    match sr.recvVectors[i]? with
    | none => none
    | some old => some { sr with recvVectors := sr.recvVectors.set i (copyFirst length data old) }

def allreduceGatherComplete (cfg : Config) (replyMode : Nat → SendMode) (nd : Node ι w) :
    Option (Node ι w) :=
  match nd.entry with
  | none => none
  | some sr =>
    if sr.recvVectorIter + 1 = cfg.numPeers ∧ 0 < sr.recvVectorIter then
      (allreduceReduceAll cfg sr true).bind fun sr =>
        allreduceCompleteOperation cfg replyMode { nd with entry := some sr }
    else allreduceCompleteOperation cfg replyMode nd

/-- A receive from peer `j` completes: the data is in its buffer and the callback runs. -/
def receiveData (cfg : Config) (replyMode : Nat → SendMode) (length : Nat) (data : Buf w) (j : ι)
    (nd : Node ι w) : Option (Node ι w) :=
  match nd.recvs j, nd.entry with
  | .receiving slot, some sr =>
    (sr.write length data slot).bind fun sr =>
      allreduceGatherComplete cfg replyMode
        { nd with entry := some sr, recvs := update nd.recvs j .received }
  | _, _ => none

/-! ## Clients and daemons -/

/-- One iteration of `allreduce_batch_submit` with `allreduce_non_offloaded_submit`. -/
def allreduceSubmit (cfg : Config) (peerMode : ι → SendMode) (replyMode : Nat → SendMode)
    (peers : List ι) (vectorSize : Nat) (vector : Buf w) (nd : Node ι w) : Option (Node ι w) :=
  let sr := superRequestGet cfg nd.entry vectorSize (some vector)
  let sr :=
    match sr.resultVector with
    | some _ => sr
    | none =>
      { sr with
        resultVector := some vector
        resultVectorOwner := false
        resultVectorSize := vectorSize }
  allreduceScatter cfg peerMode replyMode peers { nd with entry := some sr }

def attachRequest (cfg : Config) (vector : Buf w) (c : Nat) (sr : SuperRequest w) :
    Option (SuperRequest w) :=
  let sr := { sr with
    numAllreduceRequests := sr.numAllreduceRequests + 1
    allreduceRequestsList := sr.allreduceRequestsList ++ [c] }
  match sr.resultVector with
  | some _ => allreduceReduce cfg sr vector false
  | none => some { sr with resultVector := some vector }

def daemonRecvDataComplete (cfg : Config) (peerMode : ι → SendMode) (replyMode : Nat → SendMode)
    (peers : List ι) (vectorSize : Nat) (vector : Buf w) (c : Nat) (nd : Node ι w) :
    Option (Node ι w) :=
  (attachRequest cfg vector c (superRequestGet cfg nd.entry vectorSize none)).bind fun sr =>
    if sr.numAllreduceRequests = cfg.numClients then
      allreduceScatter cfg peerMode replyMode peers { nd with entry := some sr }
    else some { nd with entry := some sr }

end Doca.AllReduce
