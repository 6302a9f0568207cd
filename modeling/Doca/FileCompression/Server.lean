import Doca.Common.CommChannel

/-!
# File compression: the server

Model of `file_compression_server` in `file_compression_core.c`.

* `compressFile` — `compress_file` with both methods, down to the calls of the library, whose results
  are inputs, as is all that the decompression task leaves behind.
* `receive` — the first part of the server, up to the last file message.  `result` is one variable:
  each `goto finish_msg` returns what the last call has left in it.
* `fileCompressionServer` — the whole server, with the messages it took.

Principal results: `receive_expected`, `server_correct_iff`, `server_false_success`.
-/

namespace Doca.FileCompression

open Doca.Common

/-! ## Resources -/

inductive AppMode where
  | client
  | server
  deriving DecidableEq

inductive CompressMode where
  | compressDeflate
  | decompressDeflate
  | decompressLz4Stream
  deriving DecidableEq

inductive CompressMethod where
  | hw
  | sw
  deriving DecidableEq

def getCompressMode : AppMode → CompressMode
  | .client => .compressDeflate
  | .server => .decompressDeflate

/-! ## Compressing and decompressing -/

def decompressRatio : Nat := 1032

/-- A task of the library: the results of allocating and submitting it, its status, the destination data
and the checksums. -/
structure Task where
  allocInit : DocaError
  submit : DocaError
  status : DocaError
  data : List UInt8
  crcCs : UInt32
  adlerCs : UInt32

def calculateChecksum (crcChecksum adlerChecksum : UInt32) : Nat :=
  (adlerChecksum.toNat <<< 32) + crcChecksum.toNat

/-- `submit_compress_deflate_task` and `submit_decompress_deflate_task`: the destination data and the
checksum. -/
def submitTask (task : Task) : Except DocaError (List UInt8 × Nat) := do
  check task.allocInit
  check task.submit
  check task.status
  return (task.data, calculateChecksum task.crcCs task.adlerCs)

structure Device where
  ctxStart : DocaError
  srcMemrange : DocaError
  srcFreeCb : DocaError
  srcStart : DocaError
  srcBuf : DocaError
  dstMemrange : DocaError
  dstStart : DocaError
  dstBuf : DocaError
  task : CompressMode → List UInt8 → Nat → Task
  dstDec : DocaError
  srcDec : DocaError

/-- `compress_file_hw`. After an error the results of the calls that release the buffers do not matter. -/
def compressFileHw (dev : Device) (mode : CompressMode) (fileData : List UInt8)
    (dstBufSize : Nat) : Except DocaError (List UInt8 × Nat) := do
  check dev.ctxStart
  check dev.srcMemrange
  check dev.srcFreeCb
  check dev.srcStart
  check dev.srcBuf
  -- `populate_dst_buf`
  check dev.dstMemrange
  check dev.dstStart
  check dev.dstBuf
  let out ← submitTask (dev.task mode fileData dstBufSize)
  check dev.dstDec
  check dev.srcDec
  return out

/-- zlib for a source and a size of the destination buffer: the results of the four calls and the output;
the checksums of a source. -/
structure Zlib where
  deflateInit2 : Int
  noFlush : List UInt8 → Nat → Int
  finish : List UInt8 → Nat → Int
  deflateEnd : Int
  out : List UInt8 → Nat → List UInt8
  crc32 : List UInt8 → UInt32
  adler32 : List UInt8 → UInt32

def compressFileSw (z : Zlib) (fileData : List UInt8) (dstBufSize : Nat) : Except DocaError (List UInt8) :=
  if z.deflateInit2 < 0 then .error .badState
  else if z.noFlush fileData dstBufSize < 0 then .error .badState
  else if z.finish fileData dstBufSize < 0 ∨ z.finish fileData dstBufSize ≠ 1 then .error .badState
  else if z.deflateEnd < 0 then .error .badState
  else .ok (z.out fileData dstBufSize)

/-- The size that `compress_file` gives the destination buffer, a `size_t`. -/
def dstBufSize (mode : CompressMode) (fileSize maxBufSize : Nat) : Nat :=
  match mode with
  | .compressDeflate =>
    min (max ((fileSize + 16) % 2 ^ 64) (fileSize * 2 % 2 ^ 64)) maxBufSize
  | .decompressDeflate => min maxBufSize (decompressRatio * fileSize % 2 ^ 64)
  | .decompressLz4Stream => 0

def compressFile (alloc : Bool) (dev : Device) (z : Zlib) (mode : CompressMode)
    (method : CompressMethod) (maxBufSize : Nat) (fileData : List UInt8) :
    Except DocaError (List UInt8 × Nat) :=
  let size := dstBufSize mode fileData.length maxBufSize
  if alloc = false then .error .noMemory
  else match method with
    | .sw => do
      let out ← compressFileSw z fileData size
      return (out, calculateChecksum (z.crc32 fileData) (z.adler32 fileData))
    | .hw => compressFileHw dev mode fileData size

/-! ## The server -/

structure Env where
  timeout : Int
  maxBufSize : Nat
  arrivals : List Arrival
  allocFile : Bool
  allocDst : Bool
  dev : Device
  zlib : Zlib
  prior : Option (List UInt8)
  opens : Bool
  write : Option Nat
  sends : List DocaError

/-- How the part up to the last file message ends: with `goto finish_msg`, or with all messages. -/
inductive Intake where
  | left (result : DocaError) (received : List (List UInt8))
  | whole (first count : List UInt8) (parts : List (List UInt8))

def receiveFile (limit : Int) (maxBufSize : Nat) (first count : List UInt8) :
    Nat → List (List UInt8) → List Arrival → Intake
  | 0, parts, _ => .whole first count parts
  | n + 1, parts, arrivals =>
    let next := recvLoop (some limit) 0 arrivals
    if next.1.result ≠ .success then .left next.1.result (first :: count :: parts)
    else if parts.flatten.length + next.1.msg.length > maxBufSize then
      -- `result` is the one of the call that received the message
      .left next.1.result (first :: count :: (parts ++ [next.1.msg]))
    else receiveFile limit maxBufSize first count n (parts ++ [next.1.msg]) next.2

variable (env : Env)

def receive : Intake :=
  let limit := numOfIterations env.timeout
  let first := recvLoop none 0 env.arrivals
  if first.1.result ≠ .success then .left first.1.result []
  else if first.1.msg.length ≠ 8 then .left first.1.result [first.1.msg]
  else
    let count := recvLoop (some limit) 0 first.2
    if count.1.result ≠ .success then .left count.1.result [first.1.msg]
    else if count.1.msg.length ≠ 4 then .left count.1.result [first.1.msg, count.1.msg]
    else if env.allocFile = false then .left .noMemory [first.1.msg, count.1.msg]
    else receiveFile limit env.maxBufSize first.1.msg count.1.msg (msgU32 count.1.msg) [] count.2

/-- The rest of `file_compression_server`: decompress, compare the checksums, write the file. It gives
`result` and the output file. -/
def store (method : CompressMethod) (receivedChecksum : Nat) (fileData : List UInt8) :
    DocaError × Option (List UInt8) :=
  match compressFile env.allocDst env.dev env.zlib (getCompressMode .server) method env.maxBufSize
      fileData with
  | .error e => (e, env.prior)
  | .ok (data, checksum) =>
    if checksum ≠ receivedChecksum then (.badState, env.prior)
    else if env.opens = false then (.ioFailed, env.prior)
    else
      let file := overwrite env.prior (wrote env.write data)
      if env.write ≠ some data.length then (.ioFailed, some file) else (.success, some file)

/-- What is left of a run: the returned value, the output file, and the messages taken. -/
structure Outcome where
  result : DocaError
  file : Option (List UInt8)
  received : List (List UInt8)

def fileCompressionServer (method : CompressMethod) : Outcome :=
  match receive env with
  | .left result received => ⟨finishMsg env.sends result, env.prior, received⟩
  | .whole first count parts =>
    let stored := store env method (msgU64 first) parts.flatten
    ⟨finishMsg env.sends stored.1, stored.2, first :: count :: parts⟩

/-! ## What a success should mean -/

def WrongSize (received : List (List UInt8)) : Prop :=
  (∃ first, received[0]? = some first ∧ first.length ≠ 8) ∨
    ∃ count, received[1]? = some count ∧ count.length ≠ 4

def fileData (received : List (List UInt8)) : List UInt8 := (received.drop 2).flatten

def Decompressed (src data : List UInt8) (checksum : Nat) : Prop :=
  ∃ task, task = env.dev.task .decompressDeflate src
      (dstBufSize .decompressDeflate src.length env.maxBufSize) ∧
    task.status = .success ∧ task.data = data ∧
    calculateChecksum task.crcCs task.adlerCs = checksum

/-- The file arrived: all messages were taken, and the output file is what the task made of them, with
the announced checksum. -/
def Arrived (out : Outcome) : Prop :=
  ∃ first count parts data checksum, out.received = first :: count :: parts ∧ first.length = 8 ∧
    count.length = 4 ∧ parts.length = msgU32 count ∧ Decompressed env parts.flatten data checksum ∧
    checksum = msgU64 first ∧ out.file = some data

/-- All messages were taken, but the data has another checksum than the announced one. -/
def ChecksumDiffers (out : Outcome) : Prop :=
  ∃ first count parts data checksum, out.received = first :: count :: parts ∧
    parts.length = msgU32 count ∧ Decompressed env parts.flatten data checksum ∧
    checksum ≠ msgU64 first

/-- A success means that the file arrived; a wrong message size, too much data and another checksum are
errors. -/
def ServerCorrect : Prop :=
  let out := fileCompressionServer env .hw
  (out.result = .success → Arrived env out) ∧
    (WrongSize out.received ∨ env.maxBufSize < (fileData out.received).length ∨
      ChecksumDiffers env out → out.result ≠ .success)

def Stored (receivedChecksum : Nat) (src data : List UInt8) : Prop :=
  compressFile env.allocDst env.dev env.zlib .decompressDeflate .hw env.maxBufSize src =
      .ok (data, receivedChecksum) ∧
    env.opens = true ∧ env.write = some data.length

def TailKept : Prop :=
  ∃ first count parts data prior, receive env = .whole first count parts ∧
    Stored env (msgU64 first) parts.flatten data ∧ env.prior = some prior ∧
    data.length < prior.length

/-! ## How the messages are taken -/

variable {first count : List UInt8} {parts : List (List UInt8)}

theorem not_wrongSize (hfirst : first.length = 8) (hcount : count.length = 4) :
    ¬ WrongSize (first :: count :: parts) := by
  rintro (⟨m, hm, hlen⟩ | ⟨m, hm, hlen⟩)
  · cases hm
    exact hlen hfirst
  · cases hm
    exact hlen hcount

/-- How taking the messages ends: early with an error; early with a success, for a wrong size or too much
data; with messages of the right sizes and number. -/
def Intake.Expected (maxBufSize : Nat) : Intake → Prop
  | .left result received =>
    result ≠ .success ∧ ¬ WrongSize received ∧ (fileData received).length ≤ maxBufSize ∨
      result = .success ∧ (WrongSize received ∨ maxBufSize < (fileData received).length)
  | .whole first count parts =>
    first.length = 8 ∧ count.length = 4 ∧ parts.length = msgU32 count ∧ parts.flatten.length ≤ maxBufSize

theorem receiveFile_expected {limit : Int} {maxBufSize : Nat} (hfirst : first.length = 8)
    (hcount : count.length = 4) :
    ∀ {n : Nat} {parts : List (List UInt8)} {arrivals : List Arrival},
      parts.length + n = msgU32 count → parts.flatten.length ≤ maxBufSize →
      (receiveFile limit maxBufSize first count n parts arrivals).Expected maxBufSize
  | 0, _, _, hn, hparts => ⟨hfirst, hcount, hn, hparts⟩
  | n + 1, parts, arrivals, hn, hparts => by
    have hlen : (parts ++ [(recvLoop (some limit) 0 arrivals).1.msg]).flatten.length =
        parts.flatten.length + (recvLoop (some limit) 0 arrivals).1.msg.length := by
      simp only [List.flatten_append, List.flatten_cons, List.flatten_nil, List.append_nil,
        List.length_append]
    unfold receiveFile
    dsimp only
    split
    · rename_i hres
      exact .inl ⟨hres, not_wrongSize hfirst hcount, hparts⟩
    rename_i hres
    split
    · refine .inr ⟨not_not.mp hres, .inr ?_⟩
      show _ < (parts ++ [_]).flatten.length
      omega
    · refine receiveFile_expected hfirst hcount ?_ (by omega)
      rw [List.length_append, List.length_singleton]
      omega

variable {env : Env} {result : DocaError} {received : List (List UInt8)}

/-- **Taking the messages ends as expected**, but early with a success for what should be refused. -/
theorem receive_expected (env : Env) : (receive env).Expected env.maxBufSize := by
  unfold receive
  dsimp only
  split
  · rename_i hfirst
    refine .inl ⟨hfirst, ?_, Nat.zero_le _⟩
    rintro (⟨m, hm, -⟩ | ⟨m, hm, -⟩) <;> cases hm
  rename_i hfirst
  split
  · rename_i hsize
    exact .inr ⟨not_not.mp hfirst, .inl (.inl ⟨_, rfl, hsize⟩)⟩
  rename_i hsize
  split
  · rename_i hcount
    refine .inl ⟨hcount, ?_, Nat.zero_le _⟩
    rintro (⟨m, hm, hlen⟩ | ⟨m, hm, -⟩)
    · cases hm
      exact hsize hlen
    · cases hm
  rename_i hcount
  split
  · rename_i hsize'
    exact .inr ⟨not_not.mp hcount, .inl (.inr ⟨_, rfl, hsize'⟩)⟩
  rename_i hsize'
  split
  · exact .inl ⟨by decide, not_wrongSize (not_not.mp hsize) (not_not.mp hsize'), Nat.zero_le _⟩
  · exact receiveFile_expected (not_not.mp hsize) (not_not.mp hsize') (Nat.zero_add _) (Nat.zero_le _)

theorem receive_left (h : receive env = .left result received) :
    (Intake.left result received).Expected env.maxBufSize := h ▸ receive_expected env

theorem receive_whole (h : receive env = .whole first count parts) :
    (Intake.whole first count parts).Expected env.maxBufSize := h ▸ receive_expected env

/-! ## How the file is stored -/

variable {data : List UInt8} {checksum : Nat}

theorem submitTask_ends (task : Task) : Ends (submitTask task) fun out =>
    task.status = .success ∧ task.data = out.1 ∧ calculateChecksum task.crcCs task.adlerCs = out.2 :=
  ends_check_bind fun _ => ends_check_bind fun _ => ends_check_bind fun hstatus =>
    ends_ok ⟨hstatus, rfl, rfl⟩

variable {src : List UInt8}

theorem compressFile_ends (env : Env) (src : List UInt8) :
    Ends (compressFile env.allocDst env.dev env.zlib .decompressDeflate .hw env.maxBufSize src)
      fun out => Decompressed env src out.1 out.2 := by
  unfold compressFile
  dsimp only
  split
  · refine ⟨fun e he => ?_, nofun⟩
    cases he
    decide
  · refine ends_check_bind fun _ => ends_check_bind fun _ => ends_check_bind fun _ =>
      ends_check_bind fun _ => ends_check_bind fun _ => ends_check_bind fun _ =>
      ends_check_bind fun _ => ends_check_bind fun _ => ?_
    refine ends_bind (submitTask_ends _) fun out hout => ?_
    exact ends_check_bind fun _ => ends_check_bind fun _ => ends_ok ⟨_, rfl, hout⟩

theorem Decompressed.unique {data' : List UInt8} {checksum' : Nat}
    (h : Decompressed env src data checksum) (h' : Decompressed env src data' checksum') :
    data = data' ∧ checksum = checksum' := by
  obtain ⟨_, rfl, -, hd, hc⟩ := h
  obtain ⟨_, rfl, -, hd', hc'⟩ := h'
  exact ⟨hd.symm.trans hd', hc.symm.trans hc'⟩

/-- **Storing the file succeeds exactly if the data is stored**; it is then at the start of the
file. -/
theorem store_success_iff {receivedChecksum : Nat} : (store env .hw receivedChecksum src).1 = .success ↔
      ∃ data, Stored env receivedChecksum src data := by
  unfold store Stored
  constructor
  · intro h
    split at h
    · rename_i e he
      exact absurd h ((compressFile_ends env src).1 e he)
    · rename_i data checksum hok
      split at h
      · cases h
      rename_i hsum
      split at h
      · cases h
      rename_i hopen
      dsimp only at h
      split at h
      · cases h
      rename_i hwrite
      exact ⟨data, by rw [← not_not.mp hsum]; exact hok, by simpa using hopen, not_not.mp hwrite⟩
  · rintro ⟨data, hok, hopen, hwrite⟩
    rw [show getCompressMode .server = .decompressDeflate from rfl, hok]
    dsimp only
    rw [if_neg (not_not.mpr rfl), if_neg (by rw [hopen]; decide), if_neg (not_not.mpr hwrite)]

theorem store_file {receivedChecksum : Nat} (h : Stored env receivedChecksum src data) :
    (store env .hw receivedChecksum src).2 = some (overwrite env.prior data) := by
  obtain ⟨hok, hopen, hwrite⟩ := h
  unfold store
  rw [show getCompressMode .server = .decompressDeflate from rfl, hok]
  dsimp only
  rw [if_neg (not_not.mpr rfl), if_neg (by rw [hopen]; decide), if_neg (not_not.mpr hwrite), hwrite,
    wrote, Option.getD_some, List.take_length]

/-! ## The server as a whole -/

theorem server_left (h : receive env = .left result received) :
    fileCompressionServer env .hw = ⟨finishMsg env.sends result, env.prior, received⟩ := by
  unfold fileCompressionServer
  rw [h]

theorem server_whole (h : receive env = .whole first count parts) : fileCompressionServer env .hw =
      ⟨finishMsg env.sends (store env .hw (msgU64 first) parts.flatten).1,
        (store env .hw (msgU64 first) parts.flatten).2, first :: count :: parts⟩ := by
  unfold fileCompressionServer
  rw [h]

theorem serverCorrect_of_unsent (h : sendLoop env.sends ≠ .success) : ServerCorrect env := by
  have hres : (fileCompressionServer env .hw).result ≠ .success := by
    intro hres
    cases hrec : receive env with
    | left result received =>
      rw [server_left hrec] at hres
      exact h (finishMsg_eq_success.mp hres).2
    | whole first count parts =>
      rw [server_whole hrec] at hres
      exact h (finishMsg_eq_success.mp hres).2
  exact ⟨fun hs => absurd hs hres, fun _ => hres⟩

theorem serverCorrect_left (hsend : sendLoop env.sends = .success)
    (hrec : receive env = .left result received) :
    ServerCorrect env ↔ ¬ WrongSize received ∧ (fileData received).length ≤ env.maxBufSize := by
  unfold ServerCorrect
  rw [server_left hrec]
  dsimp only
  rcases receive_left hrec with ⟨hres, hsize, hmax⟩ | ⟨hres, hbad⟩
  · have hfin : finishMsg env.sends result ≠ .success := finishMsg_ne hres
    exact ⟨fun _ => ⟨hsize, hmax⟩, fun _ => ⟨fun hf => absurd hf hfin, fun _ => hfin⟩⟩
  · have hfin : finishMsg env.sends result = .success := finishMsg_eq_success.mpr ⟨hres, hsend⟩
    constructor
    · intro h
      rcases hbad with hsize | hmax
      · exact absurd hfin (h.2 (.inl hsize))
      · exact absurd hfin (h.2 (.inr (.inl hmax)))
    · rintro ⟨hsize, hmax⟩
      rcases hbad with hsize' | hmax'
      · exact absurd hsize' hsize
      · omega

theorem serverCorrect_whole (hsend : sendLoop env.sends = .success)
    (hrec : receive env = .whole first count parts) :
    ServerCorrect env ↔ ¬ TailKept env := by
  obtain ⟨hfirst, hcount, hparts, hmax⟩ := receive_whole hrec
  unfold ServerCorrect
  rw [server_whole hrec]
  dsimp only
  constructor
  · rintro ⟨hsucc, -⟩ ⟨_, _, _, data, prior, hrec', hstored, hprior, hlt⟩
    rw [hrec] at hrec'
    cases hrec'
    obtain ⟨_, _, _, data', _, hshape, -, -, -, hdec, -, hfile⟩ :=
      hsucc (finishMsg_eq_success.mpr ⟨store_success_iff.mpr ⟨data, hstored⟩, hsend⟩)
    cases hshape
    -- the file holds the data, so nothing of the old one is left
    obtain ⟨rfl, -⟩ := ((compressFile_ends ..).2 _ hstored.1).unique hdec
    rw [store_file hstored, Option.some.injEq, overwrite_eq_iff, hprior, Option.getD_some] at hfile
    omega
  · intro htail
    refine ⟨fun hs => ?_, ?_⟩
    · obtain ⟨data, hstored⟩ := store_success_iff.mp (finishMsg_eq_success.mp hs).1
      refine ⟨first, count, parts, data, _, rfl, hfirst, hcount, hparts,
        (compressFile_ends ..).2 _ hstored.1, rfl, ?_⟩
      show (store env .hw (msgU64 first) parts.flatten).2 = some data
      rw [store_file hstored, Option.some.injEq, overwrite_eq_iff]
      by_contra hlong
      cases hprior : env.prior with
      | none =>
        rw [hprior, Option.getD_none, List.length_nil] at hlong
        omega
      | some prior =>
        rw [hprior, Option.getD_some] at hlong
        exact htail ⟨first, count, parts, data, prior, hrec, hstored, hprior, by omega⟩
    · rintro (hsize | hexc | ⟨_, _, _, data', checksum, hshape, -, hdec, hne⟩) hs
      · exact not_wrongSize hfirst hcount hsize
      · exact absurd hmax (Nat.not_le.mpr hexc)
      · cases hshape
        obtain ⟨data, hstored⟩ := store_success_iff.mp (finishMsg_eq_success.mp hs).1
        exact hne (((compressFile_ends ..).2 _ hstored.1).unique hdec).2.symm

/-- **A success of the server means that the file arrived**, and it refuses what it should, exactly
if the finish message cannot be sent or no message has a wrong size, the data does not exceed
`max_buf_size`, and the data is not written over a longer file. -/
theorem server_correct_iff (env : Env) : ServerCorrect env ↔ sendLoop env.sends ≠ .success ∨
      ¬ WrongSize (fileCompressionServer env .hw).received ∧
        (fileData (fileCompressionServer env .hw).received).length ≤ env.maxBufSize ∧
        ¬ TailKept env := by
  by_cases hsend : sendLoop env.sends = .success
  · rw [or_iff_right (not_not.mpr hsend)]
    cases hrec : receive env with
    | left result received =>
      rw [serverCorrect_left hsend hrec, server_left hrec]
      have htail : ¬ TailKept env := by
        rintro ⟨_, _, _, _, _, hrec', -⟩
        rw [hrec] at hrec'
        cases hrec'
      exact ⟨fun h => ⟨h.1, h.2, htail⟩, fun h => ⟨h.1, h.2.1⟩⟩
    | whole first count parts =>
      obtain ⟨hfirst, hcount, -, hmax⟩ := receive_whole hrec
      rw [serverCorrect_whole hsend hrec, server_whole hrec]
      exact ⟨fun h => ⟨not_wrongSize hfirst hcount, hmax, h⟩, fun h => h.2.2⟩
  · exact ⟨fun _ => .inl hsend, fun _ => serverCorrect_of_unsent hsend⟩

/-! ## Three false successes -/

def copyDevice : Device :=
  ⟨.success, .success, .success, .success, .success, .success, .success, .success,
    fun _ src _ => ⟨.success, .success, .success, src, 0, 0⟩, .success, .success⟩

def plainEnv (maxBufSize : Nat) (msgs : List (List UInt8)) (prior : Option (List UInt8)) : Env :=
  ⟨10, maxBufSize, msgs.map (⟨.success, ·⟩), true, true, copyDevice,
    ⟨0, fun _ _ => 0, fun _ _ => 1, 0, fun src _ => src, fun _ => 0, fun _ => 0⟩, prior, true, some 2,
    [.success]⟩

/-- **False successes**: the checksum has seven bytes; three bytes are received although the limit is
two; two bytes are written over a file of three. -/
theorem server_false_success : ¬ ServerCorrect (plainEnv 8 [[0, 0, 0, 0, 0, 0, 0]] none) ∧
      ¬ ServerCorrect (plainEnv 2 [[0, 0, 0, 0, 0, 0, 0, 0], [0, 0, 0, 1], [1, 2, 3]] none) ∧
      ¬ ServerCorrect (plainEnv 8 [[0, 0, 0, 0, 0, 0, 0, 0], [0, 0, 0, 1], [1, 2]] (some [7, 8, 9])) := by
  refine ⟨fun h => ?_, fun h => ?_, fun h => ?_⟩
  · exact h.2 (.inl (.inl ⟨[0, 0, 0, 0, 0, 0, 0], by decide, by decide⟩)) (by decide)
  · exact h.2 (.inr (.inl (by decide))) (by decide)
  · obtain ⟨_, _, _, _, _, hshape, -, -, -, ⟨_, rfl, -, hdata, -⟩, -, hfile⟩ := h.1 (by decide)
    have hrec : (fileCompressionServer (plainEnv 8 [[0, 0, 0, 0, 0, 0, 0, 0], [0, 0, 0, 1], [1, 2]]
        (some [7, 8, 9])) .hw).received = [[0, 0, 0, 0, 0, 0, 0, 0], [0, 0, 0, 1], [1, 2]] := by
      decide
    have hkept : (fileCompressionServer (plainEnv 8 [[0, 0, 0, 0, 0, 0, 0, 0], [0, 0, 0, 1], [1, 2]]
        (some [7, 8, 9])) .hw).file = some [1, 2, 9] := by
      decide
    rw [hrec] at hshape
    cases hshape
    rw [hkept, ← hdata] at hfile
    exact absurd hfile (by decide)

end Doca.FileCompression
