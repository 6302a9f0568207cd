import Doca.Common.Error
import Doca.Common.Pack
import Doca.Lib.Channel
import Doca.Lib.Interleaving

/-!
# DMA copy: the two programs

Model of `dma_copy_core.c`.  The host and the DPU negotiate which of them has the file, the host
exports a buffer, and the DPU copies between that buffer and its own with one DMA task.  The side
without the file then writes its buffer to a new one.

* `Msg` — a message on the Comm Channel: bytes, and the kind that its sender means.  Receivers see
  the bytes only.
* `memoryAllocAndPopulate`, `fillBufferWithFileContent`, `saveBufferIntoAFile`, `dpuNegotiate` — the
  functions that do not communicate.
* `HostPc`, `hostStep` — `host_start_dma_copy` between two calls that may block or fail, and what the
  answer to the next call does; `DpuPc`, `dpuStep` — the same for `dpu_start_dma_copy`.
* `copyStep` — one of the two programs takes a step.

`fwrite` puts bytes into the buffer of a stream, and `fclose` writes what is left there; it may fail.
-/

namespace Doca.DmaCopy

open Doca.Lib Doca.Common

/-! ## Messages -/

inductive Kind where
  | direction
  | status
  | descriptor
  | address
  | length
  deriving DecidableEq

structure Msg where
  kind : Kind
  bytes : List UInt8
  deriving DecidableEq

def netBytes (v : UInt64) : List UInt8 := leBytes 8 (ntohq v.toNat)

def readNet (bytes : List UInt8) (a : Nat) : UInt64 :=
  UInt64.ofNat (ntohq (readLe (fun i => bytes.getD i 0) a 8))

variable (fileInHost : Bool) (fileSize : UInt64)

def directionMsg : Msg :=
  ⟨.direction, (if fileInHost then 1 else 0) :: List.replicate 7 0 ++ netBytes fileSize⟩

def statusMsg (isSuccess : Bool) : Msg := ⟨.status, [if isSuccess then 1 else 0]⟩

def descriptorMsg (exportDesc : List UInt8) : Msg := ⟨.descriptor, exportDesc⟩

def addressMsg (addr : UInt64) : Msg := ⟨.address, netBytes addr⟩

def lengthMsg (length : UInt64) : Msg := ⟨.length, netBytes length⟩

def CC_MAX_MSG_SIZE : Nat := 4080

def Kind.capacity : Kind → Nat
  | .direction => 16
  | .status => 1
  | .descriptor => CC_MAX_MSG_SIZE
  | .address => 8
  | .length => 8

def Msg.received (m : Msg) (k : Kind) : List UInt8 := m.bytes.take k.capacity

/-- Receivers of a direction check its length; no other receiver checks anything. -/
def accepts (k : Kind) (m : Msg) : Bool := k ≠ .direction || (m.received k).length = 16

/-! ## Functions that do not communicate -/

structure AllocEnv where
  permissions : DocaError
  malloc : Option UInt64
  memrange : DocaError
  start : DocaError

def memoryAllocAndPopulate (env : AllocEnv) : Except DocaError UInt64 :=
  if env.permissions ≠ .success then .error env.permissions
  else
    match env.malloc with
    | none => .error .noMemory
    | some buffer =>
      if env.memrange ≠ .success then .error env.memrange
      else if env.start ≠ .success then .error env.start
      else .ok buffer

structure FillEnv where
  opens : Bool
  read : Nat

def fillBufferWithFileContent (env : FillEnv) (fileSize : UInt64) (file : Option (List UInt8))
    (buffer : UInt64) (mem : Nat → UInt8) : DocaError × (Nat → UInt8) :=
  match file with
  | none => (.ioFailed, mem)
  | some content =>
    if env.opens = false then (.ioFailed, mem)
    else
      let mem := store mem buffer.toNat ((content.take fileSize.toNat).take env.read)
      if env.read ≠ fileSize.toNat then (.ioFailed, mem) else (.success, mem)

/-- Whether `fopen` succeeds, what `fwrite` returns, and how many of those bytes reached the file if
    `fclose` fails. -/
structure SaveEnv where
  opens : Bool
  written : Nat
  closeFails : Option Nat

def SaveEnv.reached (env : SaveEnv) : Nat := env.closeFails.getD env.written

/-- `save_buffer_into_a_file`; the result of `fclose` is not looked at. -/
def saveBufferIntoAFile (env : SaveEnv) (fileSize : UInt64) (buffer : UInt64) (mem : Nat → UInt8)
    (file : Option (List UInt8)) : DocaError × Option (List UInt8) :=
  if env.opens = false then (.ioFailed, file)
  else
    let file := some ((load mem buffer.toNat fileSize.toNat).take env.reached)
    if env.written ≠ fileSize.toNat then (.ioFailed, file) else (.success, file)

def propagate (result : DocaError) (tmp : List DocaError) : DocaError :=
  tmp.foldl (fun r t => if r = .success then t else r) result

/-! ## The system -/

/-- The files, what `access(F_OK | R_OK)` says of an existing one, the limit of the DMA device, and the
memory before the programs start. -/
structure Setup where
  hostFile : Option (List UInt8)
  dpuFile : Option (List UInt8)
  hostReadable : Bool
  dpuReadable : Bool
  maxBufSize : UInt64
  hostMem : Nat → UInt8
  dpuMem : Nat → UInt8
  hostLen : ∀ f, hostFile = some f → f.length < 2 ^ 63
  dpuLen : ∀ f, dpuFile = some f → f.length < 2 ^ 63

variable (c : Setup)

/-- The file as `args_validation_callback` finds it, on the host and on the DPU. -/
def Setup.hostShown : Option (List UInt8) := if c.hostReadable then c.hostFile else none

@[inherit_doc Setup.hostShown]
def Setup.dpuShown : Option (List UInt8) := if c.dpuReadable then c.dpuFile else none

def Setup.hostFound : Bool := c.hostShown.isSome

def Setup.dpuFound : Bool := c.dpuShown.isSome

def validatedSize : Option (List UInt8) → UInt64
  | some content => UInt64.ofNat content.length
  | none => 0

/-- `host_start_dma_copy` in front of a call. `leaving result calls` is the way out, with the calls that
    may change the result. -/
inductive HostPc where
  | connect
  | validate
  | sendDirection
  | recvDirection
  | prepare
  | alloc
  | exportPci
  | sendDescriptor (exportDesc : List UInt8)
  | waitDescriptor
  | fill
  | sendAddress
  | waitAddress
  | sendLength
  | waitLength
  | waitFinal
  | save
  | leaving (result : DocaError) (calls : Nat)
  | returned (result : DocaError)

/-- `dpu_start_dma_copy` in front of a call.  `failing` sends a failure status on the way out. -/
inductive DpuPc where
  | allocateResources
  | listen
  | recvDirection
  | tooBig
  | sendDirection
  | alloc
  | recvDescriptor
  | ackDescriptor
  | createMmap
  | recvAddress
  | ackAddress
  | recvLength
  | ackLength
  | remoteBuf
  | localBuf
  | fill
  | submit
  | save
  | sendFinal
  | failing (result : DocaError) (calls : Nat)
  | leaving (result : DocaError) (calls : Nat)
  | returned (result : DocaError)

/-- The two programs, the channels, files and memories. `copied`: the DMA task has succeeded; `lost`:
    bytes of a saved file have not reached it. -/
structure State where
  host : HostPc
  dpu : DpuPc
  toDpu : Channel Msg
  toHost : Channel Msg
  hostFile : Option (List UInt8)
  dpuFile : Option (List UInt8)
  hostMem : Nat → UInt8
  dpuMem : Nat → UInt8
  hostSize : UInt64
  dpuSize : UInt64
  hostBuf : UInt64
  dpuBuf : UInt64
  hostDmaAddr : UInt64
  hostDmaOffset : UInt64
  copied : Bool
  lost : Bool

def State.init : State :=
  { host := .connect
    dpu := .allocateResources
    toDpu := .empty
    toHost := .empty
    hostFile := c.hostFile
    dpuFile := c.dpuFile
    hostMem := c.hostMem
    dpuMem := c.dpuMem
    hostSize := validatedSize c.hostShown
    dpuSize := validatedSize c.dpuShown
    hostBuf := 0
    dpuBuf := 0
    hostDmaAddr := 0
    hostDmaOffset := 0
    copied := false
    lost := false }

/-! ## The host -/

inductive HostCall where
  | call (result : DocaError)
  | send (result : DocaError)
  | recv (result : DocaError)
  | prepare (openDev mmapCreate mmapAddDev : DocaError)
  | alloc (env : AllocEnv)
  | exportPci (result : DocaError) (exportDesc : List UInt8)
  | fill (env : FillEnv)
  | save (env : SaveEnv)
  | release (tmp : List DocaError)

variable (s : State)

variable (result : DocaError)

/-- `doca_comm_channel_ep_sendto` in its loop, then the next call or the way out. -/
def hostSend (m : Msg) (next : HostPc) (out : DocaError → HostPc) : State :=
  if result = .again then s
  else if result ≠ .success then { s with host := out result }
  else { s with toDpu := s.toDpu.send m, host := next }

def hostRecv (out : DocaError → HostPc) (next : State → Msg → State) :
    Option State :=
  if result = .again then some s
  else if result ≠ .success then some { s with host := out result }
  else
    match s.toHost.next? with
    | none => none
    | some m => some (next { s with toHost := s.toHost.take } m)

def hostWait (next : HostPc) : Option State :=
  hostRecv s result (fun r => .leaving r 2) fun s m =>
    if (m.received .status).getD 0 0 = 0 then { s with host := .leaving .invalidValue 2 }
    else { s with host := next }

def hostStep (x : HostCall) : Option State :=
  match s.host, x with
  | .connect, .call r => some { s with host := if r ≠ .success then .returned r else .validate }
  | .validate, .call r =>
    some (if r = .inProgress then s
      else { s with host := if r ≠ .success then .returned r else .sendDirection })
  | .sendDirection, .send r =>
    some (hostSend s r (if c.hostFound then directionMsg true s.hostSize else directionMsg false 0)
      .recvDirection .returned)
  | .recvDirection, .recv r =>
    hostRecv s r .returned fun s m =>
      if (m.received .direction).length ≠ 16 then { s with host := .returned .invalidValue }
      else
        { s with
          hostSize := if c.hostFound then s.hostSize else readNet (m.received .direction) 8
          host := .prepare }
  | .prepare, .prepare openDev mmapCreate mmapAddDev =>
    some { s with
      host :=
        if openDev ≠ .success then .returned openDev
        else if mmapCreate ≠ .success then .leaving mmapCreate 1
        else if mmapAddDev ≠ .success then .leaving mmapAddDev 2
        else .alloc }
  | .alloc, .alloc env =>
    some (match memoryAllocAndPopulate env with
      | .error e => { s with host := .leaving e 2 }
      | .ok buffer => { s with hostBuf := buffer, host := .exportPci })
  | .exportPci, .exportPci r exportDesc =>
    some { s with host := if r ≠ .success then .leaving r 2 else .sendDescriptor exportDesc }
  | .sendDescriptor exportDesc, .send r =>
    some (hostSend s r (descriptorMsg exportDesc) .waitDescriptor fun r => .leaving r 2)
  | .waitDescriptor, .recv r => hostWait s r (if c.hostFound then .fill else .sendAddress)
  | .fill, .fill env =>
    let (result, mem) := fillBufferWithFileContent env s.hostSize s.hostFile s.hostBuf s.hostMem
    some { s with
      hostMem := mem
      host := if result ≠ .success then .leaving result 2 else .sendAddress }
  | .sendAddress, .send r =>
    some (hostSend s r (addressMsg s.hostBuf) .waitAddress fun r => .leaving r 2)
  | .waitAddress, .recv r => hostWait s r .sendLength
  | .sendLength, .send r =>
    some (hostSend s r (lengthMsg s.hostSize) .waitLength fun r => .leaving r 2)
  | .waitLength, .recv r => hostWait s r .waitFinal
  | .waitFinal, .recv r => hostWait s r (if c.hostFound then .leaving .success 2 else .save)
  | .save, .save env =>
    let (result, file) := saveBufferIntoAFile env s.hostSize s.hostBuf s.hostMem s.hostFile
    some { s with
      hostFile := file
      lost := s.lost || env.reached < s.hostSize.toNat
      host := .leaving result 2 }
  | .leaving result calls, .release tmp =>
    if tmp.length = calls then some { s with host := .returned (propagate result tmp) } else none
  | _, _ => none

/-! ## The DPU -/

/-- The answers inside `dpu_submit_dma_task`: of the calls in front of the task, how it ends, and what a
    failed one leaves in the destination. -/
structure SubmitEnv where
  getData : DocaError
  setData : DocaError
  allocInit : DocaError
  submit : DocaError
  task : DocaError
  left : List UInt8

def SubmitEnv.before (env : SubmitEnv) : DocaError :=
  propagate .success [env.getData, env.setData, env.allocInit, env.submit]

inductive DpuCall where
  | allocateResources (allocate maxBufSize ctxStart : DocaError)
  | call (result : DocaError)
  | send (result : DocaError)
  | recv (result : DocaError)
  | alloc (env : AllocEnv)
  | fill (env : FillEnv)
  | submit (env : SubmitEnv)
  | save (env : SaveEnv)
  | release (tmp : List DocaError)

/-- What `dpu_negotiate_dma_direction_and_size` does with the message of the host. -/
inductive Verdict where
  | reject
  | tooBig (fileSize : UInt64)
  | agree (fileSize : UInt64)

def dpuNegotiate (found : Bool) (fileSize maxBufSize : UInt64) (bytes : List UInt8) : Verdict :=
  let fileInHost : Bool := bytes.getD 0 0 ≠ 0
  if bytes.length ≠ 16 then .reject
  else if found && fileInHost then .reject
  else if !found && !fileInHost then .reject
  else
    let fileSize := if found then fileSize else readNet bytes 8
    if maxBufSize < fileSize then .tooBig fileSize else .agree fileSize

def dpuRecv (calls : Nat) (next : State → Msg → State) : Option State :=
  if result = .again then some s
  else if result ≠ .success then some { s with dpu := .failing result calls }
  else
    match s.toDpu.next? with
    | none => none
    | some m => some (next { s with toDpu := s.toDpu.take } m)

def dpuSend (m : Msg) (next : DpuPc) (out : DocaError → DpuPc) : State :=
  if result = .again then s
  else if result ≠ .success then { s with dpu := out result }
  else { s with toHost := s.toHost.send m, dpu := next }

def dpuAck (next : DpuPc) (calls : Nat) : State :=
  dpuSend s result (statusMsg true) next fun r => .leaving r calls

def SIZE_MAX : Nat := 2 ^ 64 - 1

def runTask (env : SubmitEnv) (s : State) : State :=
  let n := s.hostDmaOffset.toNat
  if c.dpuFound then
    { s with
      hostMem := store s.hostMem s.hostDmaAddr.toNat
        (if env.task = .success then load s.dpuMem s.dpuBuf.toNat n else env.left.take n)
      copied := env.task = .success }
  else
    { s with
      dpuMem := store s.dpuMem s.dpuBuf.toNat
        (if env.task = .success then load s.hostMem s.hostDmaAddr.toNat n else env.left.take n)
      copied := env.task = .success }

def dpuStep (x : DpuCall) : Option State :=
  match s.dpu, x with
  | .allocateResources, .allocateResources allocate maxBufSize ctxStart =>
    some { s with
      dpu :=
        if allocate ≠ .success then .returned allocate
        else if maxBufSize ≠ .success then .leaving maxBufSize 1
        else if ctxStart ≠ .success then .leaving ctxStart 1
        else .listen }
  | .listen, .call r => some { s with dpu := if r ≠ .success then .leaving r 2 else .recvDirection }
  | .recvDirection, .recv r =>
    dpuRecv s r 2 fun s m =>
      match dpuNegotiate c.dpuFound s.dpuSize c.maxBufSize (m.received .direction) with
      | .reject => { s with dpu := .failing .invalidValue 2 }
      | .tooBig size => { s with dpuSize := size, dpu := .tooBig }
      | .agree size => { s with dpuSize := size, dpu := .sendDirection }
  | .tooBig, .send r =>
    some (dpuSend s r (statusMsg false) (.leaving .invalidValue 2) fun r => .leaving r 2)
  | .sendDirection, .send r =>
    some (dpuSend s r (if c.dpuFound then directionMsg false s.dpuSize else directionMsg true 0) .alloc
      fun r => .leaving r 2)
  | .alloc, .alloc env =>
    some (match memoryAllocAndPopulate env with
      | .error e => { s with dpu := .leaving e 2 }
      | .ok buffer => { s with dpuBuf := buffer, dpu := .recvDescriptor })
  | .recvDescriptor, .recv r => dpuRecv s r 2 fun s _ => { s with dpu := .ackDescriptor }
  | .ackDescriptor, .send r => some (dpuAck s r .createMmap 2)
  | .createMmap, .call r => some { s with dpu := if r ≠ .success then .leaving r 2 else .recvAddress }
  | .recvAddress, .recv r =>
    dpuRecv s r 3 fun s m =>
      let addr := readNet (m.received .address) 0
      if SIZE_MAX < addr.toNat then { s with dpu := .failing .invalidValue 3 }
      else { s with hostDmaAddr := addr, dpu := .ackAddress }
  | .ackAddress, .send r => some (dpuAck s r .recvLength 3)
  | .recvLength, .recv r =>
    dpuRecv s r 3 fun s m =>
      let length := readNet (m.received .length) 0
      if SIZE_MAX < length.toNat then { s with dpu := .failing .invalidValue 3 }
      else { s with hostDmaOffset := length, dpu := .ackLength }
  | .ackLength, .send r => some (dpuAck s r .remoteBuf 3)
  | .remoteBuf, .call r => some { s with dpu := if r ≠ .success then .failing r 3 else .localBuf }
  | .localBuf, .call r =>
    some { s with
      dpu := if r ≠ .success then .failing r 4 else if c.dpuFound then .fill else .submit }
  | .fill, .fill env =>
    let (result, mem) := fillBufferWithFileContent env s.dpuSize s.dpuFile s.dpuBuf s.dpuMem
    some { s with dpuMem := mem, dpu := if result ≠ .success then .failing result 5 else .submit }
  | .submit, .submit env =>
    some (if env.before ≠ .success then { s with dpu := .failing env.before 5 }
      else
        let s := runTask c env s
        if env.task ≠ .success then { s with dpu := .failing env.task 5 }
        else { s with dpu := if c.dpuFound then .sendFinal else .save })
  | .save, .save env =>
    let (result, file) := saveBufferIntoAFile env s.dpuSize s.dpuBuf s.dpuMem s.dpuFile
    some { s with
      dpuFile := file
      lost := s.lost || env.reached < s.dpuSize.toNat
      dpu := if result ≠ .success then .failing result 5 else .sendFinal }
  | .sendFinal, .send r =>
    some (dpuSend s r (statusMsg true) (.leaving .success 5) fun _ => .leaving .success 5)
  | .failing result calls, .send r =>
    some (dpuSend s r (statusMsg false) (.leaving result calls) fun _ => .leaving result calls)
  | .leaving result calls, .release tmp =>
    if tmp.length = calls then some { s with dpu := .returned (propagate result tmp) } else none
  | _, _ => none

inductive CopyEvent where
  | host (x : HostCall)
  | dpu (x : DpuCall)

def copyStep : CopyEvent → Option State
  | .host x => hostStep c s x
  | .dpu x => dpuStep c s x

/-! ## What is received is what was sent -/

theorem readNet_netBytes (v : UInt64) (pre : List UInt8) : readNet (pre ++ netBytes v) pre.length = v := by
  have hv : v.toNat < 2 ^ 64 := v.toNat_lt
  have hread : readLe (fun i => (pre ++ netBytes v).getD i 0) pre.length 8 = ntohq v.toNat := by
    have hbytes : readLe (fun i => (pre ++ netBytes v).getD i 0) pre.length 8 =
        ntohq v.toNat % 256 ^ 8 := by
      refine readLe_of_bytes fun i x hx => ?_
      show (pre ++ netBytes v).getD (pre.length + i) 0 = x
      rw [List.getD_eq_getElem?_getD, List.getElem?_append_right (Nat.le_add_right _ _),
        Nat.add_sub_cancel_left, netBytes, hx]
      rfl
    rw [hbytes]
    exact Nat.mod_eq_of_lt (ntohq_lt _)
  rw [readNet, hread, ntohq_ntohq hv, UInt64.ofNat_toNat]

theorem netBytes_length (v : UInt64) : (netBytes v).length = 8 := leBytes_length _ _

theorem directionMsg_received :
    (directionMsg fileInHost fileSize).received .direction = (directionMsg fileInHost fileSize).bytes := by
  refine List.take_of_length_le ?_
  show ((if fileInHost then 1 else 0) :: List.replicate 7 0 ++ netBytes fileSize).length ≤ 16
  simp [netBytes_length]

theorem directionMsg_length :
    ((directionMsg fileInHost fileSize).received .direction).length = 16 := by
  rw [directionMsg_received]
  simp [directionMsg, netBytes_length]

theorem directionMsg_size :
    readNet ((directionMsg fileInHost fileSize).received .direction) 8 = fileSize := by
  rw [directionMsg_received]
  exact readNet_netBytes fileSize ((if fileInHost then 1 else 0) :: List.replicate 7 0)

theorem directionMsg_fileInHost :
    ((directionMsg fileInHost fileSize).received .direction).getD 0 0 ≠ 0 ↔ fileInHost = true := by
  rw [directionMsg_received]
  cases fileInHost
  · exact ⟨fun h => absurd rfl h, fun h => absurd h Bool.false_ne_true⟩
  · refine ⟨fun _ => rfl, fun _ => ?_⟩
    show (1 : UInt8) ≠ 0
    decide

theorem readNet_received_word (v : UInt64) : readNet ((netBytes v).take 8) 0 = v := by
  rw [List.take_of_length_le (Nat.le_of_eq (netBytes_length v))]
  exact readNet_netBytes v []

end Doca.DmaCopy
