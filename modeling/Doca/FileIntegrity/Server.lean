import Doca.Common.CommChannel

/-!
# File integrity: the server

Model of `file_integrity_server` in `file_integrity_core.c`.

* `calculateSha` — the hash of a file that comes in one message.
* `receiveAndCalculatePartialSha` — a file of more than one message: each is written to the file and
  given to the task, which is submitted anew for it.  `result` is not the status of the task.
* `fileIntegrityServer` — the whole server.  It is `none` if the first message does not fit into the
  buffer for the digest, which `doca_comm_channel_ep_recvfrom` then overruns.

The digest is computed by the device: `Sha` is the function it computes when its tasks end well.  A
task that fails leaves no data in the destination buffer.

Principal results: `hashFile_spec`, `integrity_vouches`, `integrity_vacuous_match`.
-/

namespace Doca.FileIntegrity

open Doca.Common

/-! ## Hashing -/

/-- The hash function of the device; the size of its digests is the `doca_sha_cap_get_min_dst_buf_size`. -/
structure Sha where
  digest : List UInt8 → List UInt8
  size : Nat
  length_digest : ∀ data, (digest data).length = size

def allocResult (ok : Bool) : DocaError := if ok then .success else .noMemory

structure DstCalls where
  minDstBufSize : DocaError
  alloc : Bool
  memrange : DocaError
  freeCb : DocaError
  start : DocaError
  bufGet : DocaError

def populateDstBuf (calls : DstCalls) : Except DocaError Unit := do
  check calls.minDstBufSize
  check (allocResult calls.alloc)
  check calls.memrange
  check calls.freeCb
  check calls.start
  check calls.bufGet

/-- The results of the calls in `calculate_sha`, and the status of the task. -/
structure HashCalls where
  memrange : DocaError
  freeCb : DocaError
  start : DocaError
  bufGet : DocaError
  setData : DocaError
  dst : DstCalls
  ctxStart : DocaError
  allocInit : DocaError
  submit : DocaError
  task : DocaError

variable (sha : Sha)

def calculateSha (calls : HashCalls) (fileData : List UInt8) :
    Except DocaError (List UInt8) := do
  check calls.memrange
  check calls.freeCb
  check calls.start
  check calls.bufGet
  check calls.setData
  populateDstBuf calls.dst
  check calls.ctxStart
  check calls.allocInit
  check calls.submit
  check calls.task
  return sha.digest fileData

def maxMsgSize : Nat := 4032

/-- The results of the calls before the loop in `receive_and_calculate_partial_sha`. -/
structure PartialCalls where
  maxSrcBufSize : DocaError
  maxSourceBufferSize : Nat
  dst : DstCalls
  ctxStart : DocaError
  memrange : DocaError
  start : DocaError
  bufGet : DocaError
  allocInit : DocaError
  asTask : Bool

def prepareTask (calls : PartialCalls) : Except DocaError Unit := do
  check calls.maxSrcBufSize
  check (if calls.maxSourceBufferSize < maxMsgSize then .badState else .success)
  populateDstBuf calls.dst
  check calls.ctxStart
  check calls.memrange
  check calls.start
  check calls.bufGet
  check calls.allocInit

structure Round where
  setData : DocaError
  setSrc : DocaError
  write : Option Nat
  setIsFinalBuf : DocaError
  submit : DocaError
  task : DocaError

/-- How the file was received: `result`, the destination data, what was written, the messages taken, and
how many were hashed by a task that ended well. -/
structure Hashed where
  result : DocaError
  dst : List UInt8
  written : List UInt8
  parts : List (List UInt8)
  completed : Nat

/-- The loop of `receive_and_calculate_partial_sha` from pass `i` on; `n` messages are still to
come. -/
def partialLoop (limit : Int) (rounds : Nat → Round) (totalMsgs : Nat) :
    (n i : Nat) → (dst written : List UInt8) → List (List UInt8) → List Arrival → Hashed
  | 0, i, dst, written, parts, _ => ⟨.success, dst, written, parts, i⟩
  | n + 1, i, dst, written, parts, arrivals =>
    let next := recvLoop (some limit) 0 arrivals
    let msg := next.1.msg
    let round := rounds i
    if next.1.result = .again then ⟨.timeOut, dst, written, parts, i⟩
    else if next.1.result ≠ .success then ⟨next.1.result, dst, written, parts, i⟩
    else if round.setData ≠ .success then ⟨round.setData, dst, written, parts ++ [msg], i⟩
    else if round.setSrc ≠ .success then ⟨round.setSrc, dst, written, parts ++ [msg], i⟩
    else if round.write ≠ some msg.length then
      ⟨.ioFailed, dst, written ++ wrote round.write msg, parts ++ [msg], i⟩
    else if i = totalMsgs - 1 ∧ round.setIsFinalBuf ≠ .success then
      ⟨round.setIsFinalBuf, dst, written ++ msg, parts ++ [msg], i⟩
    else if round.submit ≠ .success then ⟨round.submit, dst, written ++ msg, parts ++ [msg], i⟩
    else if round.task ≠ .success then
      -- the status is logged, `result` is the one of `doca_task_submit`
      ⟨round.submit, [], written ++ msg, parts ++ [msg], i⟩
    else
      -- only the final task leaves a digest, of all that the task was given
      partialLoop limit rounds totalMsgs n (i + 1)
        (if i = totalMsgs - 1 then sha.digest (parts ++ [msg]).flatten else dst)
        (written ++ msg) (parts ++ [msg]) next.2

def receiveAndCalculatePartialSha (limit : Int) (calls : PartialCalls)
    (rounds : Nat → Round) (totalMsgs : Nat) (arrivals : List Arrival) : Hashed :=
  match prepareTask calls with
  | .error e => ⟨e, [], [], [], 0⟩
  | .ok _ =>
    if calls.asTask = false then ⟨.success, [], [], [], 0⟩
    else partialLoop sha limit rounds totalMsgs totalMsgs 0 [] [] [] arrivals

/-! ## The server -/

structure Env where
  timeout : Int
  arrivals : List Arrival
  minDstBufSize : DocaError
  partialBlockSize : DocaError
  allocSha : Bool
  prior : Option (List UInt8)
  opens : Bool
  write : Option Nat
  hashCalls : HashCalls
  partialCalls : PartialCalls
  rounds : Nat → Round
  getDataLen : DocaError
  getData : DocaError
  allocText : Bool
  removes : Bool
  sends : List DocaError

variable (env : Env)

def receiveAndHash (arrivals : List Arrival) : Hashed :=
  let next := recvLoop (some (numOfIterations env.timeout)) 0 arrivals
  let msg := next.1.msg
  if next.1.result ≠ .success then ⟨next.1.result, [], [], [], 0⟩
  else if env.write ≠ some msg.length then ⟨.ioFailed, [], wrote env.write msg, [msg], 0⟩
  else match calculateSha sha env.hashCalls msg with
    | .error e => ⟨e, [], msg, [msg], 0⟩
    | .ok dst => ⟨.success, dst, msg, [msg], 1⟩

def hashFile (totalMsgs : Nat) (arrivals : List Arrival) : Hashed :=
  if totalMsgs = 1 then receiveAndHash sha env arrivals
  else receiveAndCalculatePartialSha sha (numOfIterations env.timeout) env.partialCalls env.rounds
    totalMsgs arrivals

/-- What is left of a run: the returned value, the output file, the messages taken, and how many of the
file were hashed by a task that ended well. -/
structure Outcome where
  result : DocaError
  file : Option (List UInt8)
  received : List (List UInt8)
  completed : Nat

/-- `received_sha`: a buffer of zeros, with the first message at its start. -/
def receivedSha (first : List UInt8) : List UInt8 :=
  first ++ List.replicate (sha.size - first.length) 0

/-- The server from the comparison on.  `memcmp` compares as many bytes as the destination buffer
has. -/
def compareSha (first count : List UInt8) (hashed : Hashed) : Outcome :=
  let file := overwrite env.prior hashed.written
  let received := first :: count :: hashed.parts
  if hashed.result ≠ .success then
    ⟨finishMsg env.sends hashed.result, some file, received, hashed.completed⟩
  else if env.getDataLen ≠ .success then
    ⟨finishMsg env.sends env.getDataLen, some file, received, hashed.completed⟩
  else if env.getData ≠ .success then
    ⟨finishMsg env.sends env.getData, some file, received, hashed.completed⟩
  else if env.allocText = false then ⟨.noMemory, some file, received, hashed.completed⟩
  else if hashed.dst = (receivedSha sha first).take hashed.dst.length then
    ⟨finishMsg env.sends env.getData, some file, received, hashed.completed⟩
  else
    ⟨finishMsg env.sends env.getData, if env.removes then none else some file, received, hashed.completed⟩

/-- How the server gets to the file: it leaves before with a value, overruns the buffer for the digest,
or has opened the file. -/
inductive Start where
  | left (result : DocaError) (received : List (List UInt8))
  | overrun
  | ready (first count : List UInt8) (rest : List Arrival)

def start : Start :=
  if env.minDstBufSize ≠ .success then .left env.minDstBufSize []
  else if env.partialBlockSize ≠ .success then .left env.partialBlockSize []
  else if env.allocSha = false then .left .noMemory []
  else
    let first := recvLoop none 0 env.arrivals
    if first.1.result ≠ .success then .left (finishMsg env.sends first.1.result) []
    else if sha.size < first.1.msg.length then .overrun
    else
      let count := recvLoop (some (numOfIterations env.timeout)) 0 first.2
      if count.1.result ≠ .success then .left (finishMsg env.sends count.1.result) [first.1.msg]
      else if count.1.msg.length ≠ 4 then
        -- `result` is the one of the call that received the message
        .left (finishMsg env.sends count.1.result) [first.1.msg, count.1.msg]
      else if msgU32 count.1.msg < 1 then
        .left (finishMsg env.sends .unexpected) [first.1.msg, count.1.msg]
      else if env.opens = false then
        .left (finishMsg env.sends .ioFailed) [first.1.msg, count.1.msg]
      else .ready first.1.msg count.1.msg count.2

def fileIntegrityServer : Option Outcome :=
  match start sha env with
  | .left result received => some ⟨result, env.prior, received, 0⟩
  | .overrun => none
  | .ready first count rest =>
    some (compareSha sha env first count (hashFile sha env (msgU32 count) rest))

/-! ## What a success should mean -/

/-- Each message of the file was hashed, the digest of all is the first message in its full length, and
the file has their data. -/
def Verified (out : Outcome) : Prop :=
  ∃ first count parts, out.received = first :: count :: parts ∧ count.length = 4 ∧
    parts.length = msgU32 count ∧ out.completed = msgU32 count ∧
    sha.digest parts.flatten = first ∧ first.length = sha.size ∧
    out.file = some (overwrite env.prior parts.flatten)

def ServerCorrect : Prop :=
  ∃ out, fileIntegrityServer sha env = some out ∧ (out.result = .success → Verified sha env out)

def messages (arrivals : List Arrival) : List (List UInt8) :=
  (arrivals.filter fun a => a.result = .success).map Arrival.msg

/-- No task of a partial hash fails, and the two messages before the file have their sizes. -/
structure Honest : Prop where
  handle : env.partialCalls.asTask = true
  tasks : ∀ i, (env.rounds i).task = .success
  digest : ∀ first rest, messages env.arrivals = first :: rest → first.length = sha.size
  count : ∀ first count rest, messages env.arrivals = first :: count :: rest → count.length = 4

/-- The first message is the digest of the messages of the file, as many as the second one says. -/
def Announced : Prop :=
  ∀ first count parts, messages env.arrivals = first :: count :: parts →
    sha.digest (parts.take (msgU32 count)).flatten = first

/-! ## How the file is hashed -/

theorem populateDstBuf_ends (calls : DstCalls) : Ends (populateDstBuf calls) fun _ => True :=
  ends_check_bind fun _ => ends_check_bind fun _ => ends_check_bind fun _ => ends_check_bind fun _ =>
    ends_check_bind fun _ => ⟨(check_ends _).1, fun _ _ => trivial⟩

variable {sha : Sha}

theorem calculateSha_ends (calls : HashCalls) (data : List UInt8) :
    Ends (calculateSha sha calls data) fun dst => dst = sha.digest data := by
  refine ends_check_bind fun _ => ends_check_bind fun _ => ends_check_bind fun _ =>
    ends_check_bind fun _ => ends_check_bind fun _ => ?_
  refine ends_bind (populateDstBuf_ends _) fun _ _ => ?_
  exact ends_check_bind fun _ => ends_check_bind fun _ => ends_check_bind fun _ =>
    ends_check_bind fun _ => ends_ok rfl

theorem prepareTask_ends (calls : PartialCalls) :
    Ends (prepareTask calls) fun _ => calls.allocInit = .success := by
  refine ends_check_bind fun _ => ends_check_bind fun _ => ?_
  refine ends_bind (populateDstBuf_ends _) fun _ _ => ?_
  exact ends_check_bind fun _ => ends_check_bind fun _ => ends_check_bind fun _ =>
    ends_check_bind fun _ => check_ends _

theorem recvLoop_messages {limit : Option Int} : ∀ {counter : Int} {arrivals : List Arrival},
    (recvLoop limit counter arrivals).1.result = .success →
      messages arrivals = (recvLoop limit counter arrivals).1.msg ::
        messages (recvLoop limit counter arrivals).2
  | _, [], h => absurd h (by simp [recvLoop])
  | counter, a :: rest, h => by
    unfold recvLoop at h ⊢
    by_cases hagain : a.result = .again
    · have hskip : messages (a :: rest) = messages rest := by simp [messages, hagain]
      rw [if_pos hagain] at h ⊢
      split at h
      · exact absurd (hagain.symm.trans h) (by decide)
      · rename_i hlimit
        rw [if_neg hlimit, hskip]
        exact recvLoop_messages h
    · rw [if_neg hagain] at h ⊢
      have hsucc : a.result = .success := h
      simp [messages, hsucc]

structure Whole (sha : Sha) (totalMsgs : Nat) (parts : List (List UInt8)) (h : Hashed) : Prop where
  completed : h.completed = totalMsgs
  parts : h.parts = parts
  length : h.parts.length = totalMsgs
  written : h.written = h.parts.flatten
  dst : h.dst = sha.digest h.parts.flatten

@[elab_as_elim]
theorem of_result_ite {α : Type} {result : α → DocaError} {motive : α → Prop} {p : Prop} [Decidable p]
    {h h' : α} (hres : result (if p then h else h') = .success) (herr : p → result h ≠ .success)
    (hrest : ¬ p → result h' = .success → motive h') : motive (if p then h else h') := by
  by_cases hp : p
  · rw [if_pos hp] at hres
    exact absurd hres (herr hp)
  · rw [if_neg hp] at hres ⊢
    exact hrest hp hres

theorem partialLoop_spec {limit : Int} {rounds : Nat → Round} {totalMsgs : Nat}
    (htasks : ∀ i, (rounds i).task = .success) :
    ∀ {n i : Nat} {dst written : List UInt8} {parts : List (List UInt8)} {arrivals : List Arrival},
      i + n = totalMsgs → parts.length = i → written = parts.flatten →
      (n = 0 → dst = sha.digest parts.flatten) →
      (partialLoop sha limit rounds totalMsgs n i dst written parts arrivals).result = .success →
      Whole sha totalMsgs (parts ++ (messages arrivals).take n)
        (partialLoop sha limit rounds totalMsgs n i dst written parts arrivals)
  | 0, i, dst, written, parts, arrivals, htotal, hparts, hwritten, hdst, _ =>
    ⟨htotal, (List.append_nil parts).symm, hparts.trans htotal, hwritten, hdst rfl⟩
  | n + 1, i, dst, written, parts, arrivals, htotal, hparts, hwritten, hdst, hres => by
    unfold partialLoop at hres ⊢
    dsimp only at hres ⊢
    -- Each call that fails ends the loop with its error.
    refine of_result_ite hres (fun _ => nofun) fun _ hres => ?_
    refine of_result_ite hres (fun hrecv => hrecv) fun hrecv hres => ?_
    refine of_result_ite hres (fun hdata => hdata) fun _ hres => ?_
    refine of_result_ite hres (fun hsrc => hsrc) fun _ hres => ?_
    refine of_result_ite hres (fun _ => nofun) fun _ hres => ?_
    refine of_result_ite hres (fun hfinal => hfinal.2) fun _ hres => ?_
    refine of_result_ite hres (fun hsubmit => hsubmit) fun _ hres => ?_
    rw [if_neg (not_not.mpr (htasks i))] at hres ⊢
    rw [recvLoop_messages (not_not.mp hrecv), List.take_succ_cons, List.append_cons]
    refine partialLoop_spec htasks (by omega) ?_ ?_ (fun hn => ?_) hres
    · rw [List.length_append, hparts, List.length_singleton]
    · rw [hwritten, List.flatten_append, List.flatten_singleton]
    · rw [if_pos (by omega)]

variable {env : Env}

/-- **Without a failed task the file is hashed as a whole**, or there is an error. -/
theorem hashFile_spec (hhonest : Honest sha env) {totalMsgs : Nat} {arrivals : List Arrival}
    (htotal : 1 ≤ totalMsgs) (hres : (hashFile sha env totalMsgs arrivals).result = .success) :
    Whole sha totalMsgs ((messages arrivals).take totalMsgs) (hashFile sha env totalMsgs arrivals) := by
  unfold hashFile at hres ⊢
  split at hres
  · rename_i hone
    rw [if_pos hone]
    unfold receiveAndHash at hres ⊢
    dsimp only at hres ⊢
    refine of_result_ite hres (fun hrecv => hrecv) fun hrecv hres => ?_
    refine of_result_ite hres (fun _ => nofun) fun _ hres => ?_
    rw [recvLoop_messages (not_not.mp hrecv), hone, List.take_succ_cons, List.take_zero]
    split at hres
    · rename_i e he
      exact absurd hres ((calculateSha_ends ..).1 e he)
    · rename_i hdst
      refine ⟨rfl, rfl, rfl, ?_, ?_⟩
      · exact (List.flatten_singleton).symm
      · exact ((calculateSha_ends ..).2 _ hdst).trans (congrArg sha.digest (List.flatten_singleton).symm)
  · rename_i hone
    rw [if_neg hone]
    unfold receiveAndCalculatePartialSha at hres ⊢
    split at hres
    · rename_i e he
      exact absurd hres ((prepareTask_ends _).1 e he)
    · rw [hhonest.handle, if_neg (by decide)] at hres ⊢
      rw [← List.nil_append ((messages arrivals).take totalMsgs)]
      exact partialLoop_spec hhonest.tasks (Nat.zero_add _) rfl rfl (fun h => by omega) hres

/-! ## The server as a whole -/

/-- The server leaves before the file with an error only; otherwise it has the first two messages. -/
def Start.Expected (sha : Sha) (env : Env) : Start → Prop
  | .left result _ => result ≠ .success
  | .overrun => False
  | .ready first count rest => messages env.arrivals = first :: count :: messages rest ∧
      first.length = sha.size ∧ count.length = 4 ∧ 1 ≤ msgU32 count

theorem start_expected (hhonest : Honest sha env) : (start sha env).Expected sha env := by
  unfold start
  split
  · assumption
  split
  · assumption
  split
  · exact nofun
  dsimp only
  split
  · rename_i hfirst
    exact finishMsg_ne hfirst
  rename_i hfirst
  have hmsgs := recvLoop_messages (not_not.mp hfirst)
  have hsize := hhonest.digest _ _ hmsgs
  rw [if_neg (by omega)]
  split
  · rename_i hcount
    exact finishMsg_ne hcount
  rename_i hcount
  rw [recvLoop_messages (not_not.mp hcount)] at hmsgs
  have hfour := hhonest.count _ _ _ hmsgs
  rw [if_neg (not_not.mpr hfour)]
  split
  · exact finishMsg_ne nofun
  split
  · exact finishMsg_ne nofun
  · exact ⟨hmsgs, hsize, hfour, by omega⟩

section Compare

variable {first count : List UInt8} {hashed : Hashed}

theorem compareSha_taken :
    (compareSha sha env first count hashed).received = first :: count :: hashed.parts ∧
      (compareSha sha env first count hashed).completed = hashed.completed := by
  unfold compareSha
  dsimp only
  repeat' split
  all_goals exact ⟨rfl, rfl⟩

theorem compareSha_success (hres : (compareSha sha env first count hashed).result = .success) :
    hashed.result = .success ∧ (compareSha sha env first count hashed).file =
      if hashed.dst = (receivedSha sha first).take hashed.dst.length ∨ env.removes = false then
        some (overwrite env.prior hashed.written)
      else none := by
  unfold compareSha at hres ⊢
  dsimp only at hres ⊢
  refine of_result_ite hres (fun hfail => finishMsg_ne hfail) fun hhashed hres => ?_
  refine of_result_ite hres (fun hlen => finishMsg_ne hlen) fun _ hres => ?_
  refine of_result_ite hres (fun hdata => finishMsg_ne hdata) fun _ hres => ?_
  refine of_result_ite hres (fun _ => nofun) fun _ _ => ⟨not_not.mp hhashed, ?_⟩
  split
  · rename_i hmatch
    rw [if_pos (.inl hmatch)]
  · rename_i hmatch
    cases env.removes <;> simp [hmatch]

end Compare

def countSha : Sha := ⟨fun data => [UInt8.ofNat data.length], 1, fun _ => rfl⟩

def dstWorks : DstCalls := ⟨.success, true, .success, .success, .success, .success⟩

/-- Two messages of one byte with an announced digest; every call succeeds, the tasks end as given. -/
def twoParts (digest : UInt8) (task : Nat → DocaError) : Env :=
  ⟨10, [⟨.success, [digest]⟩, ⟨.success, [0, 0, 0, 2]⟩, ⟨.success, [65]⟩, ⟨.success, [66]⟩], .success,
    .success, true, none, true, some 1,
    ⟨.success, .success, .success, .success, .success, dstWorks, .success, .success, .success, .success⟩,
    ⟨.success, 4096, dstWorks, .success, .success, .success, .success, .success, true⟩,
    fun i => ⟨.success, .success, some 1, .success, .success, task i⟩,
    .success, .success, true, true, [.success]⟩

theorem honest_twoParts (digest : UInt8) : Honest countSha (twoParts digest fun _ => .success) where
  handle := rfl
  tasks := fun _ => rfl
  digest := by
    rintro first rest h
    cases h
    rfl
  count := by
    rintro first count rest h
    cases h
    rfl

def failedTask : Env := twoParts 9 fun i => if i = 1 then .ioFailed else .success

end Doca.FileIntegrity
