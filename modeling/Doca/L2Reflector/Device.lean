import Doca.Lib.Interleaving

/-!
# The L2 reflector

`l2_reflector_device.c`: a thread of the data path accelerator that takes received frames from a completion
queue, copies each into a send buffer with its MAC addresses swapped, posts it on the send queue and
returns the receive buffer.

* `Pc`, `handlerStep` — the event handler with `process_packet`, one access to shared memory at a time.
* `receive` — the NIC: the `k`-th frame with its completion, as long as there is a receive buffer for it.
* `step` — any interleaving of the two, of activations of the handler and of the initialisation.
-/

namespace Doca.L2Reflector

open Function

/-! ## The device context -/

/-- `L2_CQ_IDX_MASK`, `L2_RQ_IDX_MASK`, `L2_DATA_IDX_MASK`: rings of 2^7 entries. -/
def IDX_MASK : UInt32 := 127

def SQ_IDX_MASK : UInt32 := 511

def LOG_WQ_DATA_ENTRY_BSIZE : UInt32 := 11

/-- A completion: its owner bit, receive buffer and size; and which completion it is, `none` for an entry
not written yet. -/
structure Cqe where
  owner : UInt8
  wqeCounter : UInt16
  byteCnt : UInt32
  origin : Option Nat
  deriving DecidableEq

/-- `allocate_cq_memory`: all entries are zero but for the owner bit. -/
def allocateCqMemory (_ : Nat) : Cqe := ⟨1, 0, 0, none⟩

inductive Seg where
  | ctrl (sqPi sqNumber : UInt32)
  | eth
  | data (dataSz lkey : UInt32) (addr : Nat)
  deriving DecidableEq

/-- What the host gives to the device: the number of the send queue, the key and the address of its
data buffer. -/
structure Config where
  sqNumber : UInt32
  lkey : UInt32
  sqTxBuff : Nat

/-- `dev_ctx`; the pointer `cqe` is an index into the ring. -/
structure Dev where
  isInitalized : Bool
  cqe : Nat
  cqIdx : UInt32
  cqHwOwnerBit : UInt8
  sqWqeSegIdx : UInt32
  sqPi : UInt32
  txBuffIdx : UInt32
  deriving DecidableEq

def Dev.zero : Dev := ⟨false, 0, 0, 0, 0, 0, 0⟩

def initCq (d : Dev) : Dev := { d with cqe := 0, cqIdx := 0, cqHwOwnerBit := 1 }

def initSq (d : Dev) : Dev := { d with sqWqeSegIdx := 0 }

def deviceInit (d : Dev) : Dev := { initSq (initCq d) with txBuffIdx := 0, isInitalized := true }

def getNextDte (d : Dev) : UInt32 × Dev :=
  ((d.txBuffIdx &&& IDX_MASK) <<< LOG_WQ_DATA_ENTRY_BSIZE, { d with txBuffIdx := d.txBuffIdx + 1 })

def getNextSqe (d : Dev) : UInt32 × Dev :=
  (d.sqWqeSegIdx &&& SQ_IDX_MASK, { d with sqWqeSegIdx := d.sqWqeSegIdx + 1 })

def stepCq (d : Dev) : Dev :=
  let cqIdx := d.cqIdx + 1
  { d with
    cqIdx := cqIdx
    cqe := (cqIdx &&& IDX_MASK).toNat
    cqHwOwnerBit :=
      if cqIdx &&& IDX_MASK = 0 then (if d.cqHwOwnerBit = 0 then 1 else 0) else d.cqHwOwnerBit }

/-! ## Memory -/

def swapByte (mem : Nat → UInt8) (sqData byte : Nat) : Nat → UInt8 :=
  let tmp := mem (sqData + byte)
  update (update mem (sqData + byte) (mem (sqData + byte + 6))) (sqData + byte + 6) tmp

def swapMacs (mem : Nat → UInt8) (sqData : Nat) : Nat → UInt8 :=
  (List.range 6).foldl (fun mem byte => swapByte mem sqData byte) mem

def memcpy (mem : Nat → UInt8) (dst : Nat) (src : Nat → UInt8) (n : Nat) : Nat → UInt8 :=
  fun i => if dst ≤ i ∧ i < dst + n then src (i - dst) else mem i

def overlay (frame : List UInt8) (buf : Nat → UInt8) : Nat → UInt8 := fun i => frame.getD i (buf i)

/-! ## The system -/

/-- The local variables of `process_packet`; which completion it read, the segments it has written and the
producer indices it has rung so far. -/
structure Call where
  rqWqeIdx : UInt32
  dataSz : UInt32
  sqData : UInt32
  origin : Option Nat
  segs : List Nat
  rung : List UInt32
  deriving DecidableEq

inductive Pc where
  | asleep
  | entry
  | check
  | read
  | copy (c : Call)
  | swap (c : Call)
  | ctrl (c : Call)
  | eth (c : Call)
  | data (c : Call)
  | skip (c : Call)
  | ringDb (c : Call)
  | credit (c : Call)
  | stepCq
  | arm
  deriving DecidableEq

/-- A call of `process_packet`: the completion, the place and the bytes it left in the data buffer, the
segments it left in the send queue and the producer indices it rang. -/
structure Handled where
  origin : Option Nat
  slot : Nat
  data : List UInt8
  segs : List (Nat × Option Seg)
  rung : List UInt32
  deriving DecidableEq

/-- The queues and buffers, the device, and the history: the frames received, the receive buffers
returned, the calls of `process_packet`, and the completions at the last check of the handler. -/
structure State where
  cqRing : Nat → Cqe
  rqData : Nat → Nat → UInt8
  sqData : Nat → UInt8
  sqRing : Nat → Option Seg
  dev : Dev
  pc : Pc
  frames : List (List UInt8)
  credits : Nat
  handled : List Handled
  seen : Nat
  armed : List UInt32

def State.init : State :=
  ⟨allocateCqMemory, fun _ _ => 0, fun _ => 0, fun _ => none, .zero, .asleep, [], 0, [], 0, []⟩

def frameAt (frames : List (List UInt8)) (k : Nat) : List UInt8 := frames.getD k []

def cqeOf (frames : List (List UInt8)) (k : Nat) : Cqe :=
  ⟨.ofNat (k / 128 % 2), .ofNat k, .ofNat (frameAt frames k).length, some k⟩

def receive (s : State) (frame : List UInt8) : Option State :=
  let k := s.frames.length
  if k < 128 + s.credits ∧ 14 ≤ frame.length ∧ frame.length ≤ 2048 then
    some { s with
      frames := s.frames ++ [frame]
      rqData := update s.rqData (k % 128) (overlay frame (s.rqData (k % 128)))
      cqRing := update s.cqRing (k % 128) (cqeOf (s.frames ++ [frame]) k) }
  else none

def post (s : State) (c : Call) (seg : Seg) (next : Call → Pc) : State :=
  let (idx, d) := getNextSqe s.dev
  { s with
    dev := d
    sqRing := update s.sqRing idx.toNat (some seg)
    pc := next { c with segs := c.segs ++ [idx.toNat] } }

def handlerStep (cfg : Config) (s : State) : Option State :=
  match s.pc with
  | .asleep => none
  | .entry => some { s with pc := if s.dev.isInitalized then .check else .asleep }
  | .check =>
    let cqe := s.cqRing s.dev.cqe
    some { s with
      seen := s.frames.length
      pc := if cqe.owner ≠ s.dev.cqHwOwnerBit then .read else .arm }
  | .read =>
    let cqe := s.cqRing s.dev.cqe
    some { s with pc := .copy ⟨cqe.wqeCounter.toUInt32, cqe.byteCnt, 0, cqe.origin, [], []⟩ }
  | .copy c =>
    let rqData := s.rqData (c.rqWqeIdx &&& IDX_MASK).toNat
    let (sqData, d) := getNextDte s.dev
    some { s with
      dev := d
      sqData := memcpy s.sqData sqData.toNat rqData c.dataSz.toNat
      pc := .swap { c with sqData := sqData } }
  | .swap c => some { s with sqData := swapMacs s.sqData c.sqData.toNat, pc := .ctrl c }
  | .ctrl c => some (post s c (.ctrl s.dev.sqPi cfg.sqNumber) .eth)
  | .eth c => some (post s c .eth .data)
  | .data c => some (post s c (.data c.dataSz cfg.lkey (cfg.sqTxBuff + c.sqData.toNat)) .skip)
  | .skip c => some { s with dev := (getNextSqe s.dev).2, pc := .ringDb c }
  | .ringDb c =>
    let sqPi := s.dev.sqPi + 1
    some { s with dev := { s.dev with sqPi := sqPi }, pc := .credit { c with rung := c.rung ++ [sqPi] } }
  | .credit c =>
    let data := (List.range c.dataSz.toNat).map fun i => s.sqData (c.sqData.toNat + i)
    let segs := c.segs.map fun idx => (idx, s.sqRing idx)
    some { s with
      credits := s.credits + 1
      handled := s.handled ++ [⟨c.origin, c.sqData.toNat, data, segs, c.rung⟩]
      pc := .stepCq }
  | .stepCq => some { s with dev := stepCq s.dev, pc := .check }
  | .arm => some { s with armed := s.armed ++ [s.dev.cqIdx], pc := .asleep }

inductive Ev where
  | receive (frame : List UInt8)
  | deviceInit
  | activate
  | run

def step (cfg : Config) (s : State) : Ev → Option State
  | .receive frame => receive s frame
  | .deviceInit => if s.dev.isInitalized then none else some { s with dev := deviceInit s.dev }
  | .activate => if s.pc = .asleep then some { s with pc := .entry } else none
  | .run => handlerStep cfg s

/-! ## What a call should do -/

def swapped (frame : List UInt8) : List UInt8 := (frame.drop 6).take 6 ++ frame.take 6 ++ frame.drop 12

def expected (cfg : Config) (frames : List (List UInt8)) (n : Nat) : Handled where
  origin := some n
  slot := 2048 * (n % 128)
  data := swapped (frameAt frames n)
  segs :=
    [(4 * n % 512, some (.ctrl (.ofNat n) cfg.sqNumber)), ((4 * n + 1) % 512, some .eth),
      ((4 * n + 2) % 512,
        some (.data (.ofNat (frameAt frames n).length) cfg.lkey (cfg.sqTxBuff + 2048 * (n % 128))))]
  rung := [.ofNat (n + 1)]

end Doca.L2Reflector
