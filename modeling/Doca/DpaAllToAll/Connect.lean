import Doca.Common.Error
import Doca.Lib.Interleaving
import Doca.Lib.Mailbox

/-!
# All-to-all: the connection phase

`connect_dpa_a2a_rdmas` of `dpa_all_to_all_core.c`: every process visits all processes in the order of
their ranks, itself included, exchanges the connection details of one endpoint with each and connects
the endpoint.

* `procStep` — the next statement, with `mpi_request_wait_timeout` as a wait for the request.
* `step` — any interleaving of the processes.
-/

namespace Doca.DpaAllToAll

open Doca.Lib

inductive Tag where
  | addr
  | addrLen
  deriving DecidableEq

abbrev Payload : Tag → Type
  | .addr => List UInt8
  | .addrLen => Nat

abbrev Mail := Mailbox Nat Payload

inductive Pc where
  | exportDetails
  | isendLen
  | isendAddr
  | irecvLen
  | waitRecvLen
  | malloc
  | irecvAddr
  | waitRecvAddr
  | connect
  | waitSendLen
  | waitSendAddr
  | free
  deriving DecidableEq

/-- The variables of a process (`req0` to `req3` are those of `reqs`), and the details and lengths its
endpoints were connected with. `result` is `none` until the function returns. -/
structure Proc where
  i : Nat
  pc : Pc
  localDetails : List UInt8
  localLen : Nat
  remoteLen : Nat
  remoteDetails : List UInt8
  req0 : Request Nat Tag
  req1 : Request Nat Tag
  req2 : Request Nat Tag
  req3 : Request Nat Tag
  connected : Nat → Option (List UInt8 × Nat)
  result : Option DocaError

def Proc.start : Proc where
  i := 0
  pc := .exportDetails
  localDetails := []
  localLen := 0
  remoteLen := 0
  remoteDetails := []
  req0 := ⟨⟨0, 0, .addrLen⟩, 0⟩
  req1 := ⟨⟨0, 0, .addr⟩, 0⟩
  req2 := ⟨⟨0, 0, .addrLen⟩, 0⟩
  req3 := ⟨⟨0, 0, .addr⟩, 0⟩
  connected := fun _ => none
  result := none

abbrev lenLane (src dst : Nat) : Lane Nat Tag := ⟨src, dst, .addrLen⟩

abbrev addrLane (src dst : Nat) : Lane Nat Tag := ⟨src, dst, .addr⟩

section Step

-- `numRanks` processes; `exported r i` are the details that `doca_rdma_export` gives for endpoint
-- `i` of rank `r`
variable (numRanks : Nat) (exported : Nat → Nat → List UInt8)

variable (r : Nat) (m : Mail) (p : Proc)

def procStep : Option (Mail × Proc) :=
  match p.pc with
  | .exportDetails =>
    if p.i < numRanks then
      some (m, { p with localDetails := exported r p.i, localLen := (exported r p.i).length,
                        pc := .isendLen })
    else some (m, { p with result := some .success })
  | .isendLen =>
    let (m', q) := m.isend (lenLane r p.i) p.localLen
    some (m', { p with req0 := q, pc := .isendAddr })
  | .isendAddr =>
    let (m', q) := m.isend (addrLane r p.i) (p.localDetails.take p.localLen)
    some (m', { p with req1 := q, pc := .irecvLen })
  | .irecvLen =>
    let (m', q) := m.irecv (lenLane p.i r)
    some (m', { p with req2 := q, pc := .waitRecvLen })
  | .waitRecvLen =>
    (m.received (lenLane p.i r) p.req2).map fun n => (m, { p with remoteLen := n, pc := .malloc })
  | .malloc => some (m, { p with pc := .irecvAddr })
  | .irecvAddr =>
    let (m', q) := m.irecv (addrLane p.i r)
    some (m', { p with req3 := q, pc := .waitRecvAddr })
  | .waitRecvAddr =>
    -- the buffer has room for `remote_connection_details_len` characters
    (m.received (addrLane p.i r) p.req3).map fun details =>
      (m, { p with remoteDetails := details.take p.remoteLen, pc := .connect })
  | .connect =>
    some (m, { p with
      connected := Function.update p.connected p.i (some (p.remoteDetails, p.remoteLen)),
      pc := .waitSendLen })
  | .waitSendLen =>
    if m.sendDone p.req0 then some (m, { p with pc := .waitSendAddr }) else none
  | .waitSendAddr =>
    if m.sendDone p.req1 then some (m, { p with pc := .free }) else none
  | .free => some (m, { p with i := p.i + 1, pc := .exportDetails })

def stillOpen : Bool :=
  match p.pc with
  | .waitRecvLen => (m.received (lenLane p.i r) p.req2).isNone
  | .waitRecvAddr => (m.received (addrLane p.i r) p.req3).isNone
  | .waitSendLen => !m.sendDone p.req0
  | .waitSendAddr => !m.sendDone p.req1
  | _ => false

/-- An error, with which the function returns.  Its open sends keep their messages here, although the
source has them in variables that are gone then: see `ClosesSends`. -/
def procFail (err : DocaError) : Option DocaError :=
  match p.pc with
  | .exportDetails => if p.i < numRanks ∧ err ≠ .success then some err else none
  | .malloc => some .noMemory
  | .connect => if err ≠ .success then some err else none
  | _ => if stillOpen r m p then some .timeOut else none

structure Network where
  mail : Mail
  procs : Nat → Proc

def Network.start : Network := ⟨Mailbox.empty, fun _ => Proc.start⟩

inductive Move where
  | next (r : Nat)
  | fail (r : Nat) (err : DocaError)
  deriving DecidableEq

def step (s : Network) : Move → Option Network
  | .next r =>
    if r < numRanks ∧ (s.procs r).result = none then
      (procStep numRanks exported r s.mail (s.procs r)).map fun (m, p) =>
        ⟨m, Function.update s.procs r p⟩
    else none
  | .fail r err =>
    if r < numRanks ∧ (s.procs r).result = none then
      (procFail numRanks r s.mail (s.procs r) err).map fun e =>
        { s with procs := Function.update s.procs r { s.procs r with result := some e } }
    else none

def Succeeds (_ : Network) : Move → Prop
  | .next _ => True
  | .fail _ _ => False

instance : ∀ (s : Network) (e : Move), Decidable (Succeeds s e)
  | _, .next _ => .isTrue trivial
  | _, .fail _ _ => .isFalse id

def openSends : Bool :=
  match p.pc with
  | .exportDetails | .isendLen | .free => false
  | .isendAddr => !m.sendDone p.req0
  | .waitSendAddr => !m.sendDone p.req1
  | _ => !m.sendDone p.req0 || !m.sendDone p.req1

def ClosesSends (s : Network) : Move → Prop
  | .next _ => True
  | .fail r _ => openSends s.mail (s.procs r) = false

instance : ∀ (s : Network) (e : Move), Decidable (ClosesSends s e)
  | _, .next _ => .isTrue trivial
  | _, .fail _ _ => inferInstanceAs (Decidable (_ = _))

def Finished (s : Network) (r : Nat) : Prop := (s.procs r).result ≠ none

def Blocked (s : Network) (r : Nat) : Prop := step numRanks exported s (.next r) = none

end Step

end Doca.DpaAllToAll
