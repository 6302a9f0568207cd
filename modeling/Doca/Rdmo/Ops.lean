import Doca.Rdmo.Queue
import Doca.Lib.Table

/-!
# RDMO worker: flush, append and scatter

Model of the three progress functions of `worker_rdmo_ops.c`, of the callbacks of their operations
and of `urom_worker_rdmo_am_cb` (`worker_rdmo.c`).

* `Host` — what the worker is given: its clients, endpoints and memory keys, which addresses are mapped
  into it, and the answers of UCX and of the hash tables, one for each call in the order of the calls.
* `Worker` — the pointer caches, the contexts of the requests, the operations that are in flight, and as
  a history: the operations on the memory of each client, the destinations of request data, the
  responses and the results of all calls of a progress function.
* `workerStep` — a message arrives, or an operation in flight is complete.

A dereferenced null pointer sets `faulted`; a run ends there.  Data that is sent is not modelled, nor
are reads behind the end of a scatter payload: a scatter request has the descriptors its loop reads.
-/

namespace Doca.Rdmo

open Doca.Lib

def HDR_LEN_MAX : Nat := 64

/-- `struct urom_worker_rdmo_mkey`; `memh` is `ucp_memh != NULL`, the cache is in `Worker`. -/
structure Mkey where
  ucpRkey : UInt64
  memh : Bool
  va : UInt64
  len : UInt64
  deriving DecidableEq

structure AppendHdr where
  ptrAddr : UInt64
  ptrRkey : UInt64
  dataRkey : UInt64
  deriving DecidableEq

structure Iov where
  addr : UInt64
  rkey : UInt64
  len : UInt16
  deriving DecidableEq

/-- The descriptors of a scatter request; `scatter_hdr->count` has 64 bits. -/
abbrev Iovs := { l : List Iov // l.length < 2 ^ 64 }

inductive RdmoOp where
  | flush (flushId : UInt64)
  | append (hdr : AppendHdr)
  | scatter (iovs : Iovs)
  deriving DecidableEq

/-- What a request holds: its operation, `UCP_AM_RECV_ATTR_FLAG_RNDV` and `length`. -/
structure Body where
  op : RdmoOp
  rndv : Bool
  length : UInt64
  deriving DecidableEq

abbrev Request := Req Body

inductive UcxCall where
  | workerFence
  | get
  | put
  | putImm
  | amRecv
  | epFlush
  | amSend
  deriving DecidableEq

structure CacheEntry where
  rkey : UInt64
  addr : UInt64
  val : UInt64
  deriving DecidableEq

def CacheEntry.key (e : CacheEntry) : UInt64 × UInt64 := (e.rkey, e.addr)

structure Host where
  clients : UInt32 → Option Nat
  eps : UInt64 → Option Nat
  mkeys : Nat → UInt64 → Option Mkey
  /-- `ucp_rkey_ptr(rkey, addr) == UCS_OK` for a client. -/
  mapped : Nat → UInt64 → UInt64 → Bool
  shared : Nat → UInt64
  ucx : UcxCall → Nat → UcsStatus
  insert : Nat → Bool
  poolGet : Nat → Bool
  order : Nat → List CacheEntry → List CacheEntry
  order_perm : ∀ n l, (order n l).Perm l

/-- A host with one client and the memory keys of a table, none mapped. Endpoints are numbered by
    address. -/
def Host.plain (mkeys : UInt64 → Option Mkey) (ucx : UcxCall → Nat → UcsStatus) : Host :=
  ⟨fun _ => some 0, fun x => some x.toNat, fun _ => mkeys, fun _ _ _ => false, fun _ => 0, ucx,
    fun _ => true, fun _ => true, fun _ l => l, fun _ l => .refl l⟩

def lowRegion (k : UInt64) : Option Mkey := if k = 7 then some ⟨7, false, 4096, 4096⟩ else none

structure Ctx where
  stage : Nat
  val : UInt64
  mkey : Option Mkey
  deriving DecidableEq

def Ctx.zero : Ctx := ⟨0, 0, none⟩

inductive PendingKind where
  | get
  | put
  | recv
  | scatterPut
  | epFlush
  | amSend
  deriving DecidableEq

structure Pending where
  req : Request
  kind : PendingKind
  deriving DecidableEq

/-- The operations on the memory of a client, in issue order. -/
inductive Rma where
  | get (r : Request) (addr : UInt64)
  | putWord (addr val : UInt64)
  /-- The Get behind the Puts of a flush. -/
  | flushGet (addr : UInt64)
  | epFlush (r : Request)
  /-- `*sm_ptr += length` on a mapped pointer word. -/
  | add (addr len : UInt64)
  | data (addr len : UInt64)
  deriving DecidableEq

inductive Via where
  | put
  | recv
  | copy
  deriving DecidableEq

structure Write where
  req : Request
  index : Nat
  rkey : UInt64
  mkey : Mkey
  addr : UInt64
  len : UInt64
  via : Via
  deriving DecidableEq

structure Return where
  req : Request
  status : DocaError
  val : UInt64
  deriving DecidableEq

structure Worker where
  faulted : Bool
  calls : Nat
  cache : Nat → List CacheEntry
  ctx : Request → Ctx
  pending : List Pending
  rma : Nat → List Rma
  writes : List Write
  responses : List (Nat × UInt64)
  returns : List Return

namespace Worker

def idle : Worker := ⟨false, 0, fun _ => [], fun _ => .zero, [], fun _ => [], [], [], []⟩

def tick (s : Worker) : Worker := { s with calls := s.calls + 1 }

variable (r : Request)

def setCtx (x : Ctx) (s : Worker) : Worker :=
  { s with ctx := Function.update s.ctx r x }

variable (c : Nat)

def setCache (l : List CacheEntry) (s : Worker) : Worker :=
  { s with cache := Function.update s.cache c l }

def issue (x : Rma) (s : Worker) : Worker :=
  { s with rma := Function.update s.rma c (s.rma c ++ [x]) }

def await (k : PendingKind) (s : Worker) : Worker :=
  { s with pending := s.pending ++ [⟨r, k⟩] }

def write (x : Write) (s : Worker) : Worker :=
  { s.issue x.req.client (.data x.addr x.len) with writes := s.writes ++ [x] }

def respond (flushId : UInt64) (s : Worker) : Worker :=
  { s with responses := s.responses ++ [(r.ep, flushId)] }

end Worker

def fault (pause : Bool) (s : Worker) : Outcome Worker :=
  ⟨.unexpected, pause, { s with faulted := true }⟩

/-! ## Append -/

def outOfBounds (m : Mkey) (addr len : UInt64) : Bool :=
  decide (addr < m.va) || decide (addr + len > m.va + m.len)

/-- The two ways to send the data of an append: `ucp_am_recv_data_nbx` and `ucp_put_nbx`. -/
def appendSend (call : UcxCall) (kind : PendingKind) (via : Via) (host : Host) (r : Request)
    (rkey : UInt64) (m : Mkey) (pause : Bool) (s : Worker) : Outcome Worker :=
  let ctx := s.ctx r
  let s₁ := (s.write ⟨r, 0, rkey, m, ctx.val, r.body.length, via⟩).tick
  match host.ucx call s.calls with
  | .inProgress => ⟨.inProgress, pause, (s₁.setCtx r { ctx with stage := 3 }).await r kind⟩
  | .ok => ⟨.success, pause, s₁.setCtx r { ctx with stage := 3 }⟩
  | .noResource => ⟨.driver, pause, s₁⟩
  | .error _ => ⟨.driver, pause, s₁⟩

def appendCopy (h : AppendHdr) (r : Request) (rkey : UInt64) (m : Mkey) (sm pause : Bool)
    (s : Worker) : Outcome Worker :=
  let s₁ := s.write ⟨r, 0, rkey, m, (s.ctx r).val, r.body.length, .copy⟩
  if sm then ⟨.success, pause, s₁.issue r.client (.add h.ptrAddr r.body.length)⟩
  else fault pause s₁

variable (host : Host) (flushId : UInt64)

def appendTo (h : AppendHdr) (r : Request) (rkey : UInt64) (m : Mkey) (sm pause : Bool)
    (s : Worker) : Outcome Worker :=
  if outOfBounds m (s.ctx r).val r.body.length then ⟨.unexpected, pause, s⟩
  else if r.body.rndv then
    if m.memh then appendSend .amRecv .recv .recv host r rkey m pause s
    else ⟨.invalidValue, pause, s⟩
  else if host.mapped r.client m.ucpRkey (s.ctx r).val then appendCopy h r rkey m sm pause s
  else appendSend .put .put .put host r rkey m pause s

def appendPut (h : AppendHdr) (r : Request) (sm pause : Bool) (s : Worker) :
    Outcome Worker :=
  if h.ptrRkey ≠ h.dataRkey then
    match host.mkeys r.client h.dataRkey with
    | none => ⟨.success, pause, s⟩
    | some m => appendTo host h r h.dataRkey m sm pause s
  else
    match (s.ctx r).mkey with
    | none => fault pause s
    | some m => appendTo host h r h.dataRkey m sm pause s

variable (c : Nat)

def memCacheGet (m : Mkey) (addr : UInt64) (s : Worker) : Option UInt64 :=
  (lookup CacheEntry.key (m.ucpRkey, addr) (s.cache c)).map CacheEntry.val

/-- `urom_worker_rdmo_mem_cache_put`: only an entry that is new can fail. -/
def memCachePut (m : Mkey) (addr val : UInt64) (s : Worker) : DocaError × Worker :=
  if (memCacheGet c m addr s).isSome ∨ host.insert s.calls = true then
    (.success, (s.setCache c (put CacheEntry.key ⟨m.ucpRkey, addr, val⟩ (s.cache c))).tick)
  else (.driver, s.tick)

/-- The second stage: the cache is updated, and the client is no longer paused. -/
def appendUpdate (h : AppendHdr) (r : Request) (pause : Bool) (s : Worker) :
    Outcome Worker :=
  match (s.ctx r).mkey with
  | none => fault pause s
  | some m =>
    let p := memCachePut host r.client m h.ptrAddr ((s.ctx r).val + r.body.length) s
    if p.1 = .success then
      appendPut host h r false false (p.2.setCtx r { s.ctx r with stage := 2 })
    else ⟨p.1, pause, p.2⟩

/-- The Get of the first stage.  Anything but `UCS_INPROGRESS` is an error. -/
def appendGet (h : AppendHdr) (r : Request) (pause : Bool) (s : Worker) : Outcome Worker :=
  match host.ucx .get s.calls with
  | .inProgress =>
    ⟨.inProgress, true, ((s.tick.issue r.client (.get r h.ptrAddr)).setCtx r
      { s.ctx r with stage := 1 }).await r .get⟩
  | .ok => ⟨.driver, pause, s.tick.issue r.client (.get r h.ptrAddr)⟩
  | .noResource => ⟨.driver, pause, s.tick⟩
  | .error _ => ⟨.driver, pause, s.tick⟩

/-- The first stage with a known pointer key: the pointer is mapped, cached, or read by a Get. -/
def appendPointer (h : AppendHdr) (r : Request) (m : Mkey) (pause : Bool) (s : Worker) :
    Outcome Worker :=
  if m.ucpRkey ≠ h.ptrRkey then ⟨.invalidValue, pause, s⟩
  else if host.mapped r.client m.ucpRkey h.ptrAddr then
    appendPut host h r true pause
      (s.tick.setCtx r { s.ctx r with stage := 2, val := host.shared s.calls })
  else
    match memCacheGet r.client m h.ptrAddr s with
    | some v => appendUpdate host h r pause (s.setCtx r { s.ctx r with stage := 1, val := v })
    | none => appendGet host h r pause s

def appendProgress (h : AppendHdr) (r : Request) (pause : Bool) (s : Worker) :
    Outcome Worker :=
  match (s.ctx r).stage with
  | 0 =>
    match host.mkeys r.client h.ptrRkey with
    | none => ⟨.success, pause, s⟩
    | some m => appendPointer host h r m pause (s.setCtx r { s.ctx r with mkey := some m })
  | 1 => appendUpdate host h r pause s
  | 2 => appendPut host h r false pause s
  | _ => ⟨.success, pause, s⟩

/-! ## Scatter -/

variable (r : Request)

def scatterPut (i : Nat) (iov : Iov) (m : Mkey) (s : Worker) : Bool × Worker :=
  let s₁ := (s.write ⟨r, i, iov.rkey, m, iov.addr, iov.len.toUInt64, .put⟩).tick
  match host.ucx .put s.calls with
  | .inProgress =>
    (true, (s₁.setCtx r { s.ctx r with val := (s.ctx r).val + 1 }).await r .scatterPut)
  | .ok => (true, s₁)
  | .noResource => (false, s₁)
  | .error _ => (false, s₁)

def scatterIov (i : Nat) (iov : Iov) (m : Mkey) (s : Worker) : Bool × Worker :=
  if host.mapped r.client m.ucpRkey iov.addr then
    (true, s.write ⟨r, i, iov.rkey, m, iov.addr, iov.len.toUInt64, .copy⟩)
  else scatterPut host r i iov m s

inductive ScatterExit where
  | done
  | unknownRkey
  | outOfBounds
  | driver
  | nullMkey
  deriving DecidableEq

/-- `rdmo_mkey` for a descriptor: looked up if the key is not that of the descriptor before. -/
def scatterMkey (prev : UInt64) (cur : Option Mkey) (iov : Iov) : Option Mkey :=
  if iov.rkey ≠ prev then host.mkeys c iov.rkey else cur

def scatterLoop :
    UInt64 → Option Mkey → Nat → List Iov → Worker → ScatterExit × Worker
  | _, _, _, [], s => (.done, s)
  | prev, cur, i, iov :: rest, s =>
    match scatterMkey host r.client prev cur iov with
    | none => (if iov.rkey ≠ prev then .unknownRkey else .nullMkey, s)
    | some m =>
      if outOfBounds m iov.addr iov.len.toUInt64 then (.outOfBounds, s)
      else if (scatterIov host r i iov m s).1 then
        scatterLoop iov.rkey (some m) (i + 1) rest (scatterIov host r i iov m s).2
      else (.driver, (scatterIov host r i iov m s).2)

variable (pause : Bool) (s : Worker)

def scatterWait : Outcome Worker :=
  if (s.ctx r).val ≠ 0 then ⟨.inProgress, pause, s⟩ else ⟨.success, pause, s⟩

def scatterExit : ScatterExit → Outcome Worker
  | .done => scatterWait r pause (s.setCtx r { s.ctx r with stage := 1 })
  | .unknownRkey => ⟨.success, pause, s⟩
  | .outOfBounds => ⟨.unexpected, pause, s⟩
  | .driver => ⟨.driver, pause, s⟩
  | .nullMkey => fault pause s

/-- `urom_worker_rdmo_scatter_progress`; `prev_rkey` starts at `UINT64_MAX`. -/
def scatterProgress (iovs : Iovs) (r : Request) (pause : Bool) (s : Worker) :
    Outcome Worker :=
  match (s.ctx r).stage with
  | 0 =>
    if r.body.rndv then ⟨.notSupported, pause, s⟩
    else
      let e := scatterLoop host r (0 - 1) none 0 iovs.1 s
      scatterExit r pause e.2 e.1
  | 1 => scatterWait r pause s
  | _ => ⟨.success, pause, s⟩

/-! ## Flush -/

/-- `urom_worker_rdmo_addr_flush_slow`: without a buffer nothing is sent, and no error is returned. -/
def addrFlushSlow (e : CacheEntry) (s : Worker) : Bool × Worker :=
  if host.poolGet s.calls then
    match host.ucx .put s.calls with
    | .ok => (true, s.tick.issue c (.putWord e.addr e.val))
    | .inProgress => (true, s.tick.issue c (.putWord e.addr e.val))
    | .noResource => (false, s.tick)
    | .error _ => (false, s.tick)
  else (true, s.tick)

def flushAddr (e : CacheEntry) (s : Worker) : Bool × Worker :=
  match host.ucx .putImm s.calls with
  | .ok => (true, s.tick.issue c (.putWord e.addr e.val))
  | .inProgress => (true, s.tick.issue c (.putWord e.addr e.val))
  | .noResource => addrFlushSlow host c e s.tick
  | .error _ => (false, s.tick)

/-- The loops of `urom_worker_rdmo_mem_cache_flush`; the result is `get_addr`, or none on error. -/
def flushLoop : UInt64 → List CacheEntry → Worker → Option UInt64 × Worker
  | getAddr, [], s => (some getAddr, s)
  | getAddr, e :: rest, s =>
    let p := flushAddr host c e (s.setCache c (others CacheEntry.key e.key (s.cache c)))
    if p.1 then flushLoop (if getAddr = 0 then e.addr else getAddr) rest p.2
    else (none, p.2)

def flushGet (addr : UInt64) (s : Worker) : DocaError × Worker :=
  match host.ucx .get s.calls with
  | .ok => (.success, s.tick.issue c (.flushGet addr))
  | .inProgress => (.success, s.tick.issue c (.flushGet addr))
  | .noResource => (.driver, s.tick)
  | .error _ => (.driver, s.tick)

def memCacheFlush : DocaError × Worker :=
  let p := flushLoop host c 0 (host.order s.calls (s.cache c)) s
  match p.1 with
  | none => (.driver, p.2)
  | some addr => if addr ≠ 0 then flushGet host c addr p.2 else (.success, p.2)

def flushSend :
    Outcome Worker :=
  let s₁ := (s.tick.setCtx r { s.ctx r with stage := 2 }).respond r flushId
  match host.ucx .amSend s.calls with
  | .inProgress => ⟨.inProgress, pause, s₁.await r .amSend⟩
  | .ok => ⟨.success, pause, s₁⟩
  | .noResource => ⟨.driver, pause, s.tick⟩
  | .error _ => ⟨.driver, pause, s.tick⟩

def flushEp : Outcome Worker :=
  let s₁ := (s.tick.setCtx r { s.ctx r with stage := 1 }).issue r.client (.epFlush r)
  match host.ucx .epFlush s.calls with
  | .inProgress => ⟨.inProgress, pause, s₁.await r .epFlush⟩
  | .ok => flushSend host flushId r pause s₁
  | .noResource => ⟨.driver, pause, s.tick⟩
  | .error _ => ⟨.driver, pause, s.tick⟩

/-- The first stage; the result of the cache flush is not looked at. -/
def flushRma : Outcome Worker :=
  if host.ucx .workerFence s.calls = .ok then
    flushEp host flushId r pause (memCacheFlush host r.client s.tick).2
  else ⟨.driver, pause, s.tick⟩

def flushProgress :
    Outcome Worker :=
  match (s.ctx r).stage with
  | 0 => flushRma host flushId r pause s
  | 1 => flushSend host flushId r pause s
  | _ => ⟨.success, pause, s⟩

/-! ## The worker -/

def opsTable : Outcome Worker :=
  match r.body.op with
  | .flush flushId => flushProgress host flushId r pause s
  | .append h => appendProgress host h r pause s
  | .scatter iovs => scatterProgress host iovs r pause s

def opsProgress : Progress Body Worker := fun r pause s =>
  let o := opsTable host r pause s
  { o with inner := { o.inner with
      returns := o.inner.returns ++ [⟨r, o.status, (o.inner.ctx r).val⟩] } }

/-- An operation is complete: a Get has stored `v` in `ctx[1]`, `urom_worker_rdmo_scatter_op_send_cb`
    counts a Put. -/
def Worker.completed (p : Pending) (v : UInt64) (s : Worker) : Worker :=
  let s₁ := { s with pending := s.pending.erase p }
  match p.kind with
  | .get => s₁.setCtx p.req { s.ctx p.req with val := v }
  | .scatterPut => s₁.setCtx p.req { s.ctx p.req with val := (s.ctx p.req).val - 1 }
  | _ => s₁

/-- An active message: `struct urom_rdmo_hdr`, the operation's header as each operation reads it, the
    reply endpoint and the payload. -/
structure Msg where
  id : UInt32
  opId : UInt32
  flags : UInt32
  headerLength : Nat
  replyEp : UInt64
  flushId : UInt64
  append : AppendHdr
  iovs : Iovs
  rndv : Bool
  length : UInt64

def Msg.op (m : Msg) : RdmoOp :=
  if m.opId = 0 then .flush m.flushId else if m.opId = 1 then .append m.append else .scatter m.iovs

abbrev WState := QState Body Worker

/-- `urom_worker_rdmo_am_cb`; `allocated` is the result of `ucs_mpool_get`. -/
def amCb (m : Msg) (allocated : Bool) (w : WState) : WState :=
  match host.clients m.id, host.eps m.replyEp with
  | some c, some e =>
    if m.opId > 2 ∨ allocated = false ∨ m.headerLength > HDR_LEN_MAX then w
    else
      let r : Request := ⟨w.arrived.length, c, e, decide (m.flags &&& 1 ≠ 0), ⟨m.op, m.rndv, m.length⟩⟩
      QState.reqQueue (opsProgress host) r { w with arrived := w.arrived ++ [r] }
  | _, _ => w

inductive WEvent where
  | message (m : Msg) (allocated : Bool)
  | callback (p : Pending) (v : UInt64)

def workerStep (w : WState) : WEvent → Option WState
  | .message m allocated => some (amCb host m allocated w)
  | .callback p v =>
    some (QState.opCb (opsProgress host) p.req { w with inner := w.inner.completed p v })

/-- No null pointer was accessed, and the operation is in flight for a request that is not released. -/
def WEnabled (w : WState) : WEvent → Prop
  | .message _ _ => w.inner.faulted = false
  | .callback p _ => w.inner.faulted = false ∧ p ∈ w.inner.pending ∧ p.req ∈ w.running

instance (w : WState) : (e : WEvent) → Decidable (WEnabled w e)
  | .message _ _ => inferInstanceAs (Decidable (w.inner.faulted = false))
  | .callback p _ => inferInstanceAs
      (Decidable (w.inner.faulted = false ∧ p ∈ w.inner.pending ∧ p.req ∈ w.running))

def WState.idle : WState := QState.idle Worker.idle

end Doca.Rdmo
