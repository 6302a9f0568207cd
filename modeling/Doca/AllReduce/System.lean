import Doca.AllReduce.Core
import Doca.Lib.Interleaving

/-!
# All-reduce: nodes and messages

`N` fully connected nodes, all of them non-offloaded clients or all of them daemons, and the
messages between them.  An event is one callback at one node; `step` takes the events in any order
that the messages allow, each message being delivered once.

* `enabled` — when an event can happen: a descriptor arrives after its message was sent, the data
  of a rendezvous message after its descriptor, its send completes after the data was fetched.
* `wholeStep` — any number of operation ids side by side, each with its own entry in every hash.

Vectors of different ids lie in different buffers, as those of one batch do.
-/

namespace Doca.AllReduce

open Doca.Lib Function

/-- One operation: who takes part with which vectors. `vector i` is that of client `i`, `clientVector i
    c` that of client `c` of daemon `i`. -/
structure Setup (N w : Nat) where
  role : Role
  operation : Operation
  length : Nat
  vector : Fin N → Buf w
  numClients : Fin N → Nat
  clientVector : Fin N → Nat → Buf w

variable {N w : Nat}

namespace Setup

variable (S : Setup N w)

def config (i : Fin N) : Config := ⟨S.role, S.operation, S.numClients i, N - 1⟩

def contribution (i : Fin N) : Buf w :=
  match S.role with
  | .client => S.vector i
  | .daemon => reduction S.operation (Finset.range (S.numClients i)) (S.clientVector i)

def total : Buf w := reduction S.operation Finset.univ S.contribution

end Setup

def peers (i : Fin N) : List (Fin N) := (List.finRange N).filter (fun j => j ≠ i)

structure Env (N : Nat) where
  peerMode : Fin N → SendMode
  replyMode : Nat → SendMode

/-- The callbacks.  The first index is the node at which the callback runs. -/
inductive Event (N w : Nat) where
  | submit (i : Fin N) (env : Env N)
  /-- The descriptor of peer `j`'s message arrives; `vector` is the pool buffer's old contents. -/
  | arrive (i j : Fin N) (vector : Buf w) (env : Env N)
  | data (i j : Fin N) (env : Env N)
  | sent (i j : Fin N) (env : Env N)
  | clientArrive (i : Fin N) (c : Nat) (eager : Bool) (env : Env N)
  | clientData (i : Fin N) (c : Nat) (env : Env N)
  | replyArrive (i : Fin N) (c : Nat)
  | replySent (i : Fin N) (c : Nat)

def Event.node : Event N w → Fin N
  | submit i _ => i
  | arrive i _ _ _ => i
  | data i _ _ => i
  | sent i _ _ => i
  | clientArrive i _ _ _ => i
  | clientData i _ _ => i
  | replyArrive i _ => i
  | replySent i _ => i

abbrev State (N w : Nat) := Fin N → Node (Fin N) w

def State.init (N w : Nat) : State N w := fun _ => Node.init (Fin N) w

/-- A send may complete: an eager one at any time, a rendezvous one after the data was fetched. -/
def SendState.mayComplete (fetched : Bool) : SendState w → Bool
  | .idle => false
  | .eager _ completed => !completed
  | .rndv completed => !completed && fetched

variable (S : Setup N w) (s : State N w)

def enabled : Event N w → Bool
  | .submit i _ => S.role = .client && !(s i).scattered
  | .arrive i j _ _ => j ≠ i && ((s j).sends i).posted && (s i).recvs j = .idle
  | .data i j _ =>
    match (s i).recvs j with
    | .receiving _ => true
    | _ => false
  | .sent i j _ => ((s i).sends j).mayComplete ((s j).recvs i).isReceived
  | .clientArrive i c _ _ =>
    S.role = .daemon && c < S.numClients i && (s i).clientRecvs c = .idle
  | .clientData i c _ => (s i).clientRecvs c = .receiving ()
  | .replyArrive i c => ((s i).replyRecvs c).length < (s i).replyPosts c
  | .replySent i c => ((s i).replies c).mayComplete (!((s i).replyRecvs c).isEmpty)

def SendState.payload (sender : Option (SuperRequest w)) : SendState w → Option (Buf w)
  | .idle => none
  | .eager data _ => some data
  | .rndv _ => sender.bind fun sr => sr.resultVector

/-- The callback that the event runs on its node. An eager message is received within the callback of its
    arrival. -/
def handle : Event N w → Option (Node (Fin N) w)
  | .submit i env =>
    allreduceSubmit (S.config i) env.peerMode env.replyMode (peers i) S.length (S.vector i) (s i)
  | .arrive i j vector env =>
    (allreduceGather (S.config i) S.length vector j (s i)).bind fun nd =>
      match (s j).sends i with
      | .idle => none
      | .eager data _ => receiveData (S.config i) env.replyMode S.length data j nd
      | .rndv _ => some nd
  | .data i j env =>
    (((s j).sends i).payload (s j).entry).bind fun data =>
      receiveData (S.config i) env.replyMode S.length data j (s i)
  | .sent i j env =>
    allreduceCompleteOperation (S.config i) env.replyMode
      { s i with sends := update (s i).sends j ((s i).sends j).complete }
  | .clientArrive i c eager env =>
    if eager then
      daemonRecvDataComplete (S.config i) env.peerMode env.replyMode (peers i) S.length
        (S.clientVector i c) c
        { s i with clientRecvs := update (s i).clientRecvs c .received }
    else
      some { s i with clientRecvs := update (s i).clientRecvs c (.receiving ()) }
  | .clientData i c env =>
    daemonRecvDataComplete (S.config i) env.peerMode env.replyMode (peers i) S.length
      (S.clientVector i c) c
      { s i with clientRecvs := update (s i).clientRecvs c .received }
  | .replyArrive i c =>
    (((s i).replies c).payload (s i).entry).map fun data =>
      { s i with
        replyRecvs := update (s i).replyRecvs c ((s i).replyRecvs c ++ [data]) }
  | .replySent i c =>
    daemonCompleteClientOperation
      { s i with replies := update (s i).replies c ((s i).replies c).complete }

def step (ev : Event N w) : Option (State N w) :=
  if enabled S s ev then (handle S s ev).map (update s ev.node) else none

def wholeStep (setup : Nat → Setup N w) : (Nat → State N w) → Nat × Event N w → Option (Nat → State N w) :=
  sideBySide fun id => step (setup id)

end Doca.AllReduce
