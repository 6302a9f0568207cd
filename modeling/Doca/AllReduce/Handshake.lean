import Doca.AllReduce.Reducer
import Doca.AllReduce.UcxRequest

/-!
# All-reduce: the handshake

Model of `allreduce_outgoing_handshake` (`allreduce_core.c`) with `allreduce_ucx_am_send` and
`allreduce_ucx_request_wait` (`allreduce_ucx.c`), over the request objects of `UcxRequest`.

A pending send counts as a success, so that nobody waits for it, and the code of a failed one is
positive. Nothing checks the lengths of an incoming handshake.

Principal results: `handshakeOk_iff`, `msg_compares_iff`, `incoming_inside_iff`.
-/

namespace Doca.AllReduce

open Doca.Lib

/-- What becomes of a send: no active connection, or UCX returns `NULL`, an error, a request that is
    complete when `request_process` looks at it, or one that completes later. -/
inductive SendOutcome where
  | disconnected
  | done
  | failed (code : Nat)
  | early (error : Option Nat)
  | pending (error : Option Nat)
  deriving DecidableEq

def endStatus : Option Nat → UcsStatus
  | none => .ok
  | some code => .error code

def SendOutcome.Fails : SendOutcome → Prop
  | .disconnected => True
  | .done => False
  | .failed _ => True
  | .early error => error ≠ none
  | .pending error => error ≠ none

def handshakeCall : UcxCall Unit Unit := ⟨.amSend, 0, 0, none, none, true, true⟩

/-- `allreduce_ucx_am_send`; a connection that is not active calls the callback, which is `NULL`. -/
def amSend (o : SendOutcome) : Option (World Unit Unit) :=
  let events := run (ucxStep fun _ => handshakeCall) World.init
  match o with
  | .disconnected => none
  | .done => events [.start 0 .null, .process 0]
  | .failed code => events [.start 0 (.error code), .process 0]
  | .early error => events [.start 0 (.request 0), .complete 0 (endStatus error), .process 0]
  | .pending _ => events [.start 0 (.request 0), .process 0]

/-- `doca_error_t` as an `int`; of the codes, only `DOCA_SUCCESS` and `DOCA_ERROR_UNEXPECTED` occur. -/
def errorCode (e : DocaError) : Int := if e = .success then 0 else 22

/-- `allreduce_ucx_request_wait`: a request in progress is driven until it ends with `status`. -/
def requestWait (status : UcsStatus) (ret : Int) (w : World Unit Unit) : Option (Int × World Unit Unit) :=
  match w.requestP 0 with
  | none => some (ret, w)
  | some r =>
    if ret < 0 then some (ret, w)
    else do
      let w ← if (w.objs r).status = .inProgress then w.commonRequestCallback handshakeCall 0 r status
        else some w
      let w' ← ucxStep (fun _ => handshakeCall) w (.release 0)
      some (if (w.objs r).status = .ok then ret else -1, w')

def SendOutcome.status : SendOutcome → UcsStatus
  | .pending error => endStatus error
  | _ => .ok

def handshakeLoop : List SendOutcome → Option (Int × List (World Unit Unit))
  | [] => some (0, [])
  | o :: rest => do
    let w ← amSend o
    let result := (w.code 0).getD .success
    let (ret, w) ← if result ≠ .success then requestWait o.status (errorCode result) w else some (0, w)
    if ret < 0 then some (-1, [w]) else (handshakeLoop rest).map fun p => (p.1, w :: p.2)

def HANDSHAKE_MAX_MSG_LEN : Int := 1024

def outgoingHandshake (msgLen : Int) (outcomes : List SendOutcome) :
    Option (Int × List (World Unit Unit)) :=
  if msgLen < 0 ∨ HANDSHAKE_MAX_MSG_LEN ≤ msgLen then some (-1, []) else handshakeLoop outcomes

/-- Behind a success every send has ended without error and released its object once; a failed send
    returns an error. -/
structure HandshakeOk (outcomes : List SendOutcome) (ret : Int) (ws : List (World Unit Unit)) : Prop where
  ended : ret = 0 → ∀ w ∈ ws, w.outcome 0 = some .ok ∧ w.released 0 = (w.object 0).toList
  reported : (∃ o ∈ outcomes, o.Fails) → ret ≠ 0

def SendOutcome.Clean (o : SendOutcome) : Prop := o = .done ∨ o = .early none

theorem handshakeLoop_cons {o : SendOutcome} (h : o ≠ .disconnected) (rest : List SendOutcome) :
    ∃ w, (w.outcome 0 = some .ok ∧ w.released 0 = (w.object 0).toList ↔ o.Clean) ∧
      handshakeLoop (o :: rest) = (handshakeLoop rest).map fun p => (p.1, w :: p.2) := by
  cases o with
  | disconnected => exact absurd rfl h
  | done => exact ⟨_, iff_of_true ⟨rfl, rfl⟩ (.inl rfl), rfl⟩
  | failed code =>
    refine ⟨_, ?_, rfl⟩
    exact iff_of_false (fun hok => nomatch hok.1) nofun
  | early error =>
    cases error with
    | none => exact ⟨_, iff_of_true ⟨rfl, rfl⟩ (.inr rfl), rfl⟩
    | some code =>
      refine ⟨_, ?_, rfl⟩
      exact iff_of_false (fun hok => nomatch hok.1) nofun
  | pending error =>
    refine ⟨_, ?_, rfl⟩
    exact iff_of_false (fun hok => nomatch hok.1) nofun

theorem handshakeLoop_disconnected {outcomes : List SendOutcome} (h : .disconnected ∈ outcomes) :
    handshakeLoop outcomes = none := by
  induction outcomes with
  | nil => cases h
  | cons o rest ih =>
    by_cases ho : o = .disconnected
    · subst ho
      rfl
    · obtain ⟨w, -, hloop⟩ := handshakeLoop_cons ho rest
      rw [hloop, ih ((List.mem_cons.1 h).resolve_left (Ne.symm ho)), Option.map_none]

/-- **The loop never returns an error.** -/
theorem handshakeLoop_spec {outcomes : List SendOutcome} (h : .disconnected ∉ outcomes) :
    ∃ ws, handshakeLoop outcomes = some (0, ws) ∧
      ((∀ w ∈ ws, w.outcome 0 = some .ok ∧ w.released 0 = (w.object 0).toList) ↔
        ∀ o ∈ outcomes, o.Clean) := by
  induction outcomes with
  | nil => exact ⟨[], rfl, by simp⟩
  | cons o rest ih =>
    rw [List.mem_cons, not_or] at h
    obtain ⟨w, hw, hloop⟩ := handshakeLoop_cons (Ne.symm h.1) rest
    obtain ⟨ws, hrest, hws⟩ := ih h.2
    refine ⟨w :: ws, by rw [hloop, hrest]; rfl, ?_⟩
    rw [List.forall_mem_cons, List.forall_mem_cons, hw, hws]

theorem SendOutcome.Clean.succeeds {o : SendOutcome} (h : o.Clean) : ¬ o.Fails := by
  rcases h with rfl | rfl
  · exact id
  · exact absurd rfl

/-- **The buffers of the handshake outlive its sends** exactly if every send is complete at once and without
    error, or nothing is sent. -/
theorem handshakeOk_iff (msgLen : Int) (outcomes : List SendOutcome) :
    (∃ ret ws, outgoingHandshake msgLen outcomes = some (ret, ws) ∧ HandshakeOk outcomes ret ws) ↔
      (msgLen < 0 ∨ HANDSHAKE_MAX_MSG_LEN ≤ msgLen) ∨ ∀ o ∈ outcomes, o.Clean := by
  unfold outgoingHandshake
  split
  · rename_i hlen
    exact ⟨fun _ => .inl hlen, fun _ => ⟨-1, [], rfl, nofun, nofun⟩⟩
  rename_i hlen
  rw [or_iff_right hlen]
  by_cases hno : SendOutcome.disconnected ∈ outcomes
  · rw [handshakeLoop_disconnected hno]
    refine ⟨nofun, fun hclean => absurd trivial (hclean _ hno).succeeds⟩
  obtain ⟨ws, hloop, hws⟩ := handshakeLoop_spec hno
  rw [hloop]
  constructor
  · rintro ⟨ret, ws', heq, hok⟩
    cases heq
    exact hws.1 (hok.ended rfl)
  · refine fun hclean => ⟨0, ws, rfl, fun _ => hws.2 hclean, ?_⟩
    rintro ⟨o, ho, hfails⟩
    exact absurd hfails (hclean o ho).succeeds

/-- A send that is pending: success is returned, and nobody waits for it. -/
theorem pendingSend_left : ∃ ws, outgoingHandshake 40 [.pending none] = some (0, ws) ∧
    ¬ HandshakeOk [.pending none] 0 ws :=
  ⟨_, rfl, fun h => nomatch (h.ended rfl _ (List.mem_singleton_self _)).1⟩

/-! ## The message -/

inductive Datatype where
  | byte
  | int
  | float
  | double
  deriving DecidableEq

def Datatype.str : Datatype → List Char
  | .byte => "byte".toList
  | .int => "int".toList
  | .float => "float".toList
  | .double => "double".toList

structure Settings where
  vectorSize : UInt64
  datatype : Datatype
  operation : Operation
  batchSize : UInt64
  numBatches : UInt64
  deriving DecidableEq

def decimal (n : UInt64) : List Char := Nat.toDigits 10 n.toNat

def Settings.msg (c : Settings) : List Char :=
  "-s ".toList ++ (decimal c.vectorSize ++ ' ' :: ("-d ".toList ++ (c.datatype.str ++ ' ' ::
    ("-b ".toList ++ (decimal c.batchSize ++ ' ' :: ("-i ".toList ++ decimal c.numBatches))))))

theorem decimal_injective : Function.Injective decimal := fun n n' h => by
  have hvalue := congrArg (Nat.ofDigitChars 10 · 0) h
  simp only [decimal, Nat.ofDigitChars_ten_toDigits] at hvalue
  exact UInt64.toNat_inj.1 hvalue

theorem blank_notMem_decimal (n : UInt64) : ' ' ∉ decimal n := fun h =>
  Bool.false_ne_true (Nat.isDigit_of_mem_toDigits (b := 10) (by decide) (by decide) h)

theorem str_injective : Function.Injective Datatype.str := fun t t' h => by
  cases t <;> cases t' <;> first | rfl | exact absurd h (by decide)

theorem blank_notMem_str (t : Datatype) : ' ' ∉ t.str := by
  cases t <;> decide

theorem field_inj {α : Type} {f : α → List Char} (hf : Function.Injective f) (hblank : ∀ a, ' ' ∉ f a)
    {a a' : α} {r r' : List Char} : f a ++ ' ' :: r = f a' ++ ' ' :: r' ↔ a = a' ∧ r = r' := by
  have htake : ∀ a r, (f a ++ ' ' :: r).takeWhile (· ≠ ' ') = f a := fun a r => by
    rw [List.takeWhile_append_of_pos fun c hc => decide_eq_true (ne_of_mem_of_not_mem hc (hblank a))]
    simp
  constructor
  · intro h
    have ha : a = a' := hf (by rw [← htake a r, h, htake])
    subst ha
    simpa using h
  · rintro ⟨rfl, rfl⟩
    rfl

theorem msg_eq_iff {c c' : Settings} :
    c.msg = c'.msg ↔ c.vectorSize = c'.vectorSize ∧ c.datatype = c'.datatype ∧
      c.batchSize = c'.batchSize ∧ c.numBatches = c'.numBatches := by
  simp only [Settings.msg, List.append_right_inj, decimal_injective.eq_iff,
    field_inj decimal_injective blank_notMem_decimal, field_inj str_injective blank_notMem_str]

/-- **When the messages compare the settings**: the operation is not part of them. -/
theorem msg_compares_iff (c c' : Settings) : (c.msg = c'.msg ↔ c = c') ↔
    (c.operation = c'.operation ∨ c.vectorSize ≠ c'.vectorSize ∨ c.datatype ≠ c'.datatype ∨
      c.batchSize ≠ c'.batchSize ∨ c.numBatches ≠ c'.numBatches) := by
  rw [msg_eq_iff]
  cases c
  cases c'
  simp only [Settings.mk.injEq]
  tauto

theorem msg_same_operation_differs :
    let c : Operation → Settings := fun op => ⟨8, .int, op, 4, 2⟩
    (c .sum).msg = "-s 8 -d int -b 4 -i 2".toList ∧ (c .sum).msg = (c .prod).msg ∧ c .sum ≠ c .prod := by
  decide

/-! ## Incoming handshakes -/

/-- `strcmp` of a text and the string at `s`, from offset `i` on: equality, and the offsets read of `s`. -/
def strcmp (s : Nat → Char) : List Char → Nat → Bool × List Nat
  | [], i => (s i == '\x00', [i])
  | c :: text, i =>
    if s i = c then
      let (equal, offsets) := strcmp s text (i + 1)
      (equal, i :: offsets)
    else (false, [i])

/-- The receiving process; `msgLen`: the result of `snprintf`; `memory`, `replyMemory`: those of `malloc`. -/
structure Receiver where
  settings : Settings
  msgLen : Int
  daemon : Bool
  offload : Bool
  memory : Bool
  replyMemory : Bool

/-- A handshake from a peer. `stale`: what `malloc` leaves in `msg`; `rndv`: for a rendezvous, what
    `ucp_am_recv_data_nbx` returns, whether a request completes before `request_process` runs, and its
    error. -/
structure Incoming where
  header : List UInt8
  payload : List Char
  stale : Nat → Char
  rndv : Option (StatusPtr × Bool × Option Nat)

def Incoming.msg (m : Incoming) (i : Nat) : Char := m.payload.getD i (m.stale i)

/-- `allreduce_incoming_handshake_recv_callback`: what it returns, the offsets compared, and the calls of
    `free`; a client has role 0. -/
def incomingHandshakeRecvCallback (p : Receiver) (peerRole : UInt8) (msg : Nat → Char)
    (status : UcsStatus) : DocaError × List Nat × Nat :=
  if status ≠ .ok then (.unexpected, [], 1)
  else if p.msgLen < 0 ∨ HANDSHAKE_MAX_MSG_LEN ≤ p.msgLen then (.operatingSystem, [], 1)
  else
    let (equal, offsets) := strcmp msg p.settings.msg 0
    if equal then (.success, offsets, 1)
    else if peerRole = 0 ∧ p.daemon ∧ ¬ p.replyMemory then (.noMemory, offsets, 1)
    else if ¬ p.daemon ∧ p.offload then (.badState, offsets, 1)
    else (.success, offsets, 1)

def handshakeRecv : UcxCall Unit Unit := ⟨.amRecvData, 0, 0, some (), some (), true, false⟩

def amRecv (m : Incoming) : Option (World Unit Unit) :=
  run (ucxStep fun _ => handshakeRecv) World.init (match m.rndv with
    | none => [.start 0 .null, .process 0]
    | some (.request _, true, error) =>
      [.start 0 (.request 0), .complete 0 (endStatus error), .process 0]
    | some (.request _, false, error) =>
      [.start 0 (.request 0), .process 0, .complete 0 (endStatus error)]
    | some (ptr, _) => [.start 0 ptr, .process 0])

/-- The offsets read of the header, given away to be written in `msg`, and compared; the calls of `free`. -/
structure Footprint where
  header : List Nat
  written : List Nat
  compared : List Nat
  freed : Nat

/-- `allreduce_incoming_handshake_callback`, with the callback of the reception. -/
def incomingHandshakeCallback (p : Receiver) (m : Incoming) : Option Footprint :=
  if p.memory then do
    let w ← amRecv m
    let ends := (w.invoked 0).map fun call =>
      incomingHandshakeRecvCallback p (m.header.headD 0) m.msg call.2.2
    some ⟨[0], List.range m.payload.length, ends.flatMap (·.2.1), (ends.map (·.2.2)).sum⟩
  else some ⟨[], [], [], 0⟩

structure Footprint.Inside (f : Footprint) (m : Incoming) : Prop where
  header : ∀ i ∈ f.header, i < m.header.length
  written : ∀ i ∈ f.written, i < HANDSHAKE_MAX_MSG_LEN
  compared : ∀ i ∈ f.compared, i < m.payload.length

def Incoming.status (m : Incoming) : UcsStatus :=
  match m.rndv with
  | some (.request _, _, error) => endStatus error
  | some (.error code, _) => .error code
  | _ => .ok

theorem amRecv_invoked (m : Incoming) :
    ∃ w, amRecv m = some w ∧ w.invoked 0 = [((), some (), m.status)] := by
  obtain ⟨header, payload, stale, rndv⟩ := m
  match rndv with
  | none | some (.null, _) | some (.error _, _) => exact ⟨_, rfl, rfl⟩
  | some (.request r, early, error) => cases early <;> cases error <;> exact ⟨_, rfl, rfl⟩

theorem strcmp_inside {s : Nat → Char} {text payload : List Char} {i : Nat}
    (h : ∀ j < payload.length, payload[j]? = some (s (i + j))) :
    (∀ j ∈ (strcmp s text i).2, j < i + payload.length) ↔ ¬ payload <+: text := by
  induction text generalizing payload i with
  | nil => cases payload <;> simp [strcmp]
  | cons c text ih =>
    unfold strcmp
    cases payload with
    | nil => split <;> simp
    | cons x rest =>
      have hx : x = s i := by simpa using h 0 (by simp)
      have hrest := @ih rest (i + 1) fun j hj => by
        rw [Nat.add_right_comm, Nat.add_assoc]
        exact h (j + 1) (by simpa using hj)
      rw [List.cons_prefix_cons, hx, List.length_cons, ← Nat.add_assoc, Nat.add_right_comm]
      split
      · rename_i hc
        simp [hc, ← hrest]
        omega
      · rename_i hc
        simp [hc, Nat.lt_add_right]

theorem recvCallback_spec (p : Receiver) (role : UInt8) (msg : Nat → Char) (status : UcsStatus) (n : Nat) :
    (incomingHandshakeRecvCallback p role msg status).2.2 = 1 ∧
      ((∀ i ∈ (incomingHandshakeRecvCallback p role msg status).2.1, i < n) ↔
        (status = .ok → ¬ (p.msgLen < 0 ∨ HANDSHAKE_MAX_MSG_LEN ≤ p.msgLen) →
          ∀ i ∈ (strcmp msg p.settings.msg 0).2, i < n)) := by
  unfold incomingHandshakeRecvCallback
  dsimp only
  split_ifs <;> simp_all

theorem incomingHandshakeCallback_eq {p : Receiver} (hmem : p.memory = true) (m : Incoming) :
    incomingHandshakeCallback p m = some ⟨[0], List.range m.payload.length,
      (incomingHandshakeRecvCallback p (m.header.headD 0) m.msg m.status).2.1, 1⟩ := by
  obtain ⟨w, hw, hinvoked⟩ := amRecv_invoked m
  simp [incomingHandshakeCallback, hmem, hw, hinvoked]
  exact (recvCallback_spec p _ m.msg m.status 0).1

theorem length_le_of_written {n : Nat} (h : ∀ i ∈ List.range n, i < HANDSHAKE_MAX_MSG_LEN) :
    n ≤ HANDSHAKE_MAX_MSG_LEN := by
  by_contra hlong
  unfold HANDSHAKE_MAX_MSG_LEN at hlong
  exact absurd (h 1024 (List.mem_range.mpr (by omega))) (by decide)

/-- **An incoming handshake**: `handshake_arg` is freed once, and the accesses stay inside exactly if there is
    a header, the message fits, and what is compared does not begin the local message. -/
theorem incoming_inside_iff (p : Receiver) (m : Incoming) :
    ∃ f, incomingHandshakeCallback p m = some f ∧ f.freed = p.memory.toNat ∧
      (f.Inside m ↔ (p.memory = true → m.header ≠ [] ∧ m.payload.length ≤ HANDSHAKE_MAX_MSG_LEN ∧
        (m.status = .ok → ¬ (p.msgLen < 0 ∨ HANDSHAKE_MAX_MSG_LEN ≤ p.msgLen) →
          ¬ m.payload <+: p.settings.msg))) := by
  cases hmem : p.memory with
  | false =>
    have hnone : incomingHandshakeCallback p m = some ⟨[], [], [], 0⟩ := by
      simp [incomingHandshakeCallback, hmem]
    exact ⟨_, hnone, rfl, fun _ => nofun, fun _ => ⟨nofun, nofun, nofun⟩⟩
  | true =>
    have hcompared := (recvCallback_spec p (m.header.headD 0) m.msg m.status m.payload.length).2
    have hstr := @strcmp_inside m.msg p.settings.msg m.payload 0 fun j hj => by simp [Incoming.msg, hj]
    rw [Nat.zero_add] at hstr
    rw [hstr] at hcompared
    refine ⟨_, incomingHandshakeCallback_eq hmem m, rfl, fun h _ => ⟨?_, ?_, hcompared.mp h.compared⟩,
      fun h => ?_⟩
    · exact List.length_pos_iff.mp (h.header 0 (List.mem_singleton_self 0))
    · exact length_le_of_written h.written
    · obtain ⟨hheader, hlen, hpre⟩ := h rfl
      refine ⟨?_, fun i hi => ?_, hcompared.mpr hpre⟩
      · simpa using List.length_pos_iff.mpr hheader
      · exact lt_of_lt_of_le (Int.ofNat_lt.mpr (List.mem_range.mp hi)) hlen

theorem longHandshake_overruns :
    let m : Incoming := ⟨[0], List.replicate 1025 '-', fun _ => '-', none⟩
    ∃ f, incomingHandshakeCallback ⟨⟨8, .int, .sum, 4, 2⟩, 21, true, true, true, true⟩ m = some f ∧
      ¬ f.Inside m := by
  refine ⟨_, incomingHandshakeCallback_eq rfl _, fun h => ?_⟩
  have hwritten := h.written
  dsimp only at hwritten
  rw [List.length_replicate] at hwritten
  exact absurd (length_le_of_written hwritten) (by decide)

end Doca.AllReduce
