import Doca.DpaAllToAll.Setup
import Doca.Lib.Interleaving

/-!
# All-to-all: rounds of the kernel

The exchange itself. In every round each host fills its send buffer and calls `dpa_ialltoall`, which
launches `alltoall_kernel` on some threads; each thread writes its share of the blocks into the
receive buffers of the other ranks, signals their events, and waits for the events of the same ranks
and for its own operations. When all threads are done the completion event is set, which the host
waits for in `dpa_a2a_req_wait`; then all hosts meet at a barrier.

* `Job` — the parameters of the exchange.
* `Op`, `deliver` — an operation on a connection and how it takes effect: single bytes of a write in
  any order, a signal only after the earlier writes of its connection.
* `exchange` — any interleaving of hosts, threads and operations.
-/

namespace Doca.DpaAllToAll

open Doca.Lib Function

def MAX_NUM_THREADS : Nat := 8

structure Job where
  numRanks : Nat
  count : Nat
  extent : Nat
  threads : Nat → Nat
  threads_pos : ∀ r, 1 ≤ threads r
  threads_le : ∀ r, threads r ≤ MAX_NUM_THREADS
  sendbuf : Nat → Nat
  recvbuf : Nat → Nat
  disjoint : ∀ r, sendbuf r + extent * count * numRanks ≤ recvbuf r ∨
    recvbuf r + extent * count * numRanks ≤ sendbuf r
  exports : Exports numRanks

namespace Job

variable (J : Job)

def bufSize : Nat := J.extent * J.count * J.numRanks

def remoteRecvbufs (_r i : Nat) : Nat := J.recvbuf i

def remoteMmaps (r i : Nat) : Nat := J.exports.exportMmaps r i

def remoteEvents (r i : Nat) : EventHandle := J.exports.rpKernelEvents r i

end Job

def localEvents (r i : Nat) : EventHandle := ⟨r, i⟩

/-! ## State -/

/-- Where a thread of the kernel is: in the first loop, before the signal, in the second loop, before the
synchronisation, or past its end. -/
inductive Thread where
  | post (i : Nat)
  | signal (i : Nat)
  | wait (i : Nat)
  | sync (i : Nat)
  | done
  deriving DecidableEq

/-- An operation on a connection: one byte of a write, from an address of the sender to one of the
mapping, or the setting of an event. -/
inductive Op where
  | byte (mmap dst src : Nat)
  | signal (event : EventHandle) (value : UInt64)
  deriving DecidableEq

def Op.isByte : Op → Bool
  | .byte .. => true
  | .signal .. => false

/-- Where a host is: before `dpa_ialltoall`, waiting for the completion event, past `dpa_a2a_req_wait`,
or in the barrier. -/
inductive Host where
  | ready
  | running
  | waited
  | barrier
  deriving DecidableEq

/-- A write as it was posted: in which round, between which ranks, and where it goes. -/
structure Write where
  round : Nat
  src : Nat
  dst : Nat
  addr : Nat
  len : Nat
  deriving DecidableEq

/-- All ranks. `pending (r, i)`: the operations from rank `r` to rank `i` that have not taken effect;
`rounds`, `given`, `writes`: the calls of `dpa_ialltoall`, the send buffer at each, and the writes
posted. -/
structure State where
  host : Nat → Host
  seqNum : Nat → UInt64
  arrived : Nat → Nat
  thread : Nat × Nat → Thread
  pending : Nat × Nat → List Op
  event : EventHandle → UInt64
  comp : Nat → UInt64
  mem : Nat → Nat → UInt8
  rounds : Nat → Nat
  given : Nat → Nat → Nat → UInt8
  writes : List Write

def State.start (mem : Nat → Nat → UInt8) : State where
  host := fun _ => .ready
  seqNum := fun _ => 0
  arrived := fun _ => 0
  thread := fun _ => .done
  pending := fun _ => []
  event := fun _ => 0
  comp := fun _ => 0
  mem := mem
  rounds := fun _ => 0
  given := fun _ _ _ => 0
  writes := []

section Steps

variable (J : Job)

/-! ## The kernel -/

def writeOps (r i : Nat) : List Op :=
  (List.range (J.extent * J.count)).map fun b =>
    .byte (J.remoteMmaps r i) (J.remoteRecvbufs r i + r * J.count * J.extent + b)
      (J.sendbuf r + i * J.count * J.extent + b)

def waitGt (value threshold : UInt64) : Bool := decide (value > threshold)

variable (s : State)

def State.setThread (r t : Nat) (th : Thread) : State :=
  { s with thread := update s.thread (r, t) th }

def State.post (r i : Nat) (ops : List Op) : State :=
  { s with pending := update s.pending (r, i) (s.pending (r, i) ++ ops) }

def State.record (w : Write) : State := { s with writes := s.writes ++ [w] }

def threadStep (r t : Nat) : Option State :=
  match s.thread (r, t) with
  | .post i =>
    if i < J.numRanks then
      let w : Write := ⟨s.rounds r, r, i, J.remoteRecvbufs r i + r * J.count * J.extent,
        J.extent * J.count⟩
      some (((s.post r i (writeOps J r i)).record w).setThread r t (.signal i))
    else some (s.setThread r t (.wait t))
  | .signal i =>
    some ((s.post r i [.signal (J.remoteEvents r i) (s.seqNum r)]).setThread r t (.post (i + J.threads r)))
  | .wait i =>
    if i < J.numRanks then
      if waitGt (s.event (localEvents r i)) (s.seqNum r - 1) then
        some (s.setThread r t (.sync i))
      else none
    else some (s.setThread r t .done)
  | .sync i =>
    -- `doca_dpa_dev_rdma_synchronize` returns when all operations of the connection are done
    if s.pending (r, i) = [] then some (s.setThread r t (.wait (i + J.threads r))) else none
  | .done => none

/-! ## The connections -/

/-- A byte arrives at rank `i` through the mapping of a receive buffer, or is refused. -/
def arrive (i mmap dst : Nat) (x : UInt8) (m : Nat → UInt8) : Nat → UInt8 :=
  if mmap = i ∧ J.recvbuf i ≤ dst ∧ dst < J.recvbuf i + J.bufSize then update m dst x
  else m

def deliver (r i n : Nat) : Option State :=
  match (s.pending (r, i))[n]? with
  | some (.byte mmap dst src) =>
    some { s with
      pending := update s.pending (r, i) ((s.pending (r, i)).eraseIdx n)
      mem := update s.mem i (arrive J i mmap dst (s.mem r src) (s.mem i)) }
  | some (.signal event value) =>
    if ((s.pending (r, i)).take n).any Op.isByte then none
    else some { s with
      pending := update s.pending (r, i) ((s.pending (r, i)).eraseIdx n)
      event := update s.event event value }
  | none => none

/-! ## The hosts -/

variable (r : Nat)

def fill (contents : List UInt8) : Option State :=
  if s.host r ≠ .running ∧ contents.length = J.bufSize then
    some { s with mem := update s.mem r (store (s.mem r) (J.sendbuf r) contents) }
  else none

/-- `dpa_ialltoall`: the next sequence number, and the kernel on all its threads. -/
def launch : Option State :=
  if s.host r = .ready then
    some { s with
      host := update s.host r .running
      seqNum := update s.seqNum r (s.seqNum r + 1)
      rounds := update s.rounds r (s.rounds r + 1)
      given := update s.given r (update (s.given r) (s.rounds r + 1) fun o => s.mem r (J.sendbuf r + o))
      thread := fun q => if q.1 = r then .post q.2 else s.thread q }
  else none

/-- `doca_dpa_kernel_launch_update_set`: the completion event is set when all threads are done. -/
def complete : Option State :=
  if s.host r = .running ∧ ∀ t < J.threads r, s.thread (r, t) = .done then
    some { s with comp := update s.comp r (s.seqNum r) }
  else none

def observe : Option State :=
  if s.host r = .running ∧ waitGt (s.comp r) (s.seqNum r - 1) then
    some { s with host := update s.host r .waited }
  else none

def enterBarrier : Option State :=
  if s.host r = .waited then
    some { s with
      host := update s.host r .barrier
      arrived := update s.arrived r (s.arrived r + 1) }
  else none

def leaveBarrier : Option State :=
  if s.host r = .barrier ∧ ∀ q < J.numRanks, s.arrived r ≤ s.arrived q then
    some { s with host := update s.host r .ready }
  else none

/-! ## Interleaving -/

inductive Event where
  | fill (r : Nat) (contents : List UInt8)
  | launch (r : Nat)
  | thread (r t : Nat)
  | deliver (r i n : Nat)
  | complete (r : Nat)
  | observe (r : Nat)
  | enterBarrier (r : Nat)
  | leaveBarrier (r : Nat)

def Event.rank : Event → Nat
  | .fill r _ | .launch r | .thread r _ | .deliver r _ _ | .complete r | .observe r
  | .enterBarrier r | .leaveBarrier r => r

def exchange (e : Event) : Option State :=
  if e.rank < J.numRanks then
    match e with
    | .fill r contents => fill J s r contents
    | .launch r => launch J s r
    | .thread r t => if t < J.threads r then threadStep J s r t else none
    | .deliver r i n => if i < J.numRanks then deliver J s r i n else none
    | .complete r => complete J s r
    | .observe r => observe s r
    | .enterBarrier r => enterBarrier s r
    | .leaveBarrier r => leaveBarrier J s r
  else none

end Steps

end Doca.DpaAllToAll
