import Mathlib.Algebra.Group.Int.Defs
import Mathlib.Algebra.Group.Nat.Defs
import Mathlib.Tactic.Common

/-!
# Congestion control: the RTT template

Model of `rtt_template.c`, the algorithm that the reaction point runs for every event of a flow.

* `Param`, `paramDef` — the parameters with the bounds that `rtt_template_init` registers.
* `Ctx` — the context of a flow; `Event` — what the handlers read of an event.
* `algorithmCore` — the new rate for a measured round trip time.
* `handleRoceTx`, `handleRoceRtt`, `handleRoceCnp`, `handleRoceNack`, `handleNewFlow` — one handler for
  each kind of event; `rttTemplateAlgo` — the entry point; `runAlgo` — a sequence of events.

All numbers wrap as in the source.  `Build` has the options of the build and the reciprocal of the
device.

Principal results: `paramDef_default` — the defaults are in their bounds; `algorithmCore_bounds`;
`rate_legal`; `results_fresh_iff`; `differencesAgree_iff`; `congestion_lowers_iff`.
-/

namespace Doca.Pcc

/-! ## Parameters -/

inductive Param where
  | updateFactor
  | ai
  | baseRtt
  | newFlowRate
  | minRate
  | maxDelay
  deriving DecidableEq

structure ParamDef where
  default : UInt32
  max : UInt32
  min : UInt32

def paramDef : Param → ParamDef
  | .updateFactor => ⟨.ofNat (2 ^ 16 * 10 / 100), .ofNat (10 * 2 ^ 16), 1⟩
  | .ai => ⟨.ofNat (2 ^ 20 * 5 / 100), .ofNat (2 ^ 20), 1⟩
  | .baseRtt => ⟨13000, 0xffffffff, 1⟩
  | .newFlowRate => ⟨.ofNat (2 ^ 20), .ofNat (2 ^ 20), 1⟩
  | .minRate => ⟨.ofNat (2 ^ (20 - 14)), .ofNat (2 ^ 20), 1⟩
  | .maxDelay => ⟨150000, 0xffffffff, 1⟩

abbrev Params := Param → UInt32

def Registered (param : Params) : Prop :=
  ∀ i, (paramDef i).min ≤ param i ∧ param i ≤ (paramDef i).max

theorem paramDef_default : Registered fun i => (paramDef i).default := by
  intro i
  cases i <;> decide

/-! ## Contexts and events -/

structure Ctx where
  curRate : UInt32
  startDelay : UInt32
  rtt : UInt32
  wasNack : Bool
  wasCnp : Bool
  abortCnt : UInt8
  rttMeasPsn : UInt8
  rttReqToRttSent : UInt8
  lastNpRxBytes : UInt32
  lastNpRxBytesTimestampUs : UInt32
  deriving DecidableEq

def Ctx.zero : Ctx := ⟨0, 0, 0, false, false, 0, 0, 0, 0, 0⟩

inductive EventType where
  | roceTx
  | rtt
  | roceCnp
  | roceNack
  | other
  deriving DecidableEq

/-- What the handlers read: type, flags and timestamps, the two words of the user data, and the
utilisation of the port that was sampled last. -/
structure Event where
  evType : EventType
  flags : UInt8
  timestamp : UInt32
  rttReqSendTimestamp : UInt32
  rttReqRecvTimestamp : UInt32
  npRxBytes : UInt32
  npRxBytesTimestampUs : UInt32
  lastTxPortUtil : UInt32
  deriving DecidableEq

structure Results where
  rate : UInt32
  rttReq : UInt8
  deriving DecidableEq

/-- The options `TIME_SYNC`, `DOCA_PCC_SAMPLE_TX_BYTES` and `DOCA_PCC_NP_RX_RATE`, and
`doca_pcc_dev_fxp_recip`. -/
structure Build where
  timeSync : Bool
  sampleTxBytes : Bool
  npRxRate : Bool
  fxpRecip : UInt32 → UInt32

/-! ## The core of the algorithm -/

def maxRate : UInt32 := .ofNat (2 ^ 20)

def mult (a b : UInt32) : UInt64 := a.toUInt64 * b.toUInt64

def fxpMult (a b : UInt32) : UInt32 := (mult a b >>> 16).toUInt32

/-- `k` is 1 for `DEC_FACTOR`, 2 for `CNP_DEC_FACTOR`, 5 for `NACK_DEC_FACTOR`, and twice as much with a
high utilisation. -/
def decFactor (param : Params) (k : UInt32) : UInt32 := 65536 - k * param .updateFactor

variable (b : Build)

def algorithmCore (c : Ctx) (rtt curRate : UInt32) (param : Params) (isHighUtil : Bool)
    (normNpRxRate : UInt32) : UInt32 × Ctx :=
  let (rate, c) :=
    if c.wasNack ∧ rtt ≥ param .maxDelay then
      (fxpMult (decFactor param (if isHighUtil then 10 else 5)) curRate, { c with wasNack := false })
    else if c.wasCnp ∨ rtt ≥ param .maxDelay then
      (fxpMult (decFactor param (if isHighUtil then 4 else 2)) curRate, { c with wasCnp := false })
    else if rtt > param .baseRtt then
      (fxpMult (decFactor param (if isHighUtil then 2 else 1)) curRate, c)
    else if b.npRxRate ∧ normNpRxRate < 58982 then
      (fxpMult (b.fxpRecip normNpRxRate) curRate, c)
    else (curRate + param .ai, c)
  let rate := if rate > maxRate then maxRate else rate
  let rate := if rate < param .minRate then param .minRate else rate
  (rate, c)

/-! ## The handlers -/

variable (ev : Event)

def Event.rttReqSent : Bool := ev.flags &&& 4 ≠ 0

def abortThreshold (abortCnt : UInt8) : UInt32 := (300000 : UInt32) <<< abortCnt.toUInt32

variable (start stop : UInt32)

/-- The difference of two timestamps, with a correction by `UINT32_MAX` if the second is smaller. -/
def elapsed : UInt32 :=
  if stop < start then stop - start + 0xffffffff else stop - start

def rttTillNow (c : Ctx) (ev : Event) : UInt32 :=
  if c.rttMeasPsn = 0 then 0 else elapsed c.startDelay ev.timestamp

/-- `rtt_req_to_rtt_sent` as it is compared with 2: it counts the TX events before the request is
reported as sent. -/
def reqToRttSent (c : Ctx) : UInt8 :=
  if c.rttMeasPsn = 0 then c.rttReqToRttSent + 1 else c.rttReqToRttSent

def TimedOut (c : Ctx) (ev : Event) : Prop := rttTillNow c ev > abortThreshold c.abortCnt

instance (c : Ctx) (ev : Event) : Decidable (TimedOut c ev) := by
  unfold TimedOut
  infer_instance

def handleRoceTx (curRate : UInt32) (c : Ctx) : Ctx × Results :=
  if ev.rttReqSent ∧ c.rttMeasPsn = 0 then
    ({ c with rttMeasPsn := 1, rttReqToRttSent := 0, startDelay := ev.timestamp, curRate := curRate },
      ⟨curRate, 0⟩)
  else if TimedOut c ev ∨ reqToRttSent c > 2 then
    ({ c with
        abortCnt := if TimedOut c ev then c.abortCnt + 1 else c.abortCnt
        rttReqToRttSent := 1, curRate := curRate },
      ⟨curRate, 1⟩)
  else ({ c with rttReqToRttSent := reqToRttSent c, curRate := curRate }, ⟨curRate, 0⟩)

def measuredRtt : UInt32 :=
  elapsed ev.rttReqSendTimestamp (if b.timeSync then ev.rttReqRecvTimestamp else ev.timestamp)

def npDelta (last now : UInt32) : UInt32 := elapsed last now

def normNpRxRate (c : Ctx) (ev : Event) : UInt32 :=
  if b.npRxRate then
    let delta256 := npDelta c.lastNpRxBytes ev.npRxBytes >>> 8
    let deltaUs := npDelta c.lastNpRxBytesTimestampUs ev.npRxBytesTimestampUs
    let npRxRate := (mult delta256 (b.fxpRecip deltaUs) >>> 8).toUInt32
    if npRxRate < .ofNat (25000 * 2 ^ 16) then (mult npRxRate (b.fxpRecip 25000) >>> 32).toUInt32
    else 65536
  else 65536

def measured (c : Ctx) : Ctx :=
  { c with
    rttMeasPsn := 0
    abortCnt := 0
    rtt := measuredRtt b ev
    lastNpRxBytes := if b.npRxRate then ev.npRxBytes else c.lastNpRxBytes
    lastNpRxBytesTimestampUs :=
      if b.npRxRate then ev.npRxBytesTimestampUs else c.lastNpRxBytesTimestampUs }

def isHighTxUtil : Bool := b.sampleTxBytes && ev.lastTxPortUtil > 55704

variable (param : Params)

def newRate (ev : Event) (curRate : UInt32) (c : Ctx) : UInt32 × Ctx :=
  algorithmCore b (measured b ev c) (measuredRtt b ev) curRate param (isHighTxUtil b ev)
    (normNpRxRate b c ev)

def handleRoceRtt (ev : Event) (curRate : UInt32) (c : Ctx) : Ctx × Results :=
  if c.rttMeasPsn = 0 ∧ c.rttReqToRttSent = 0 then (c, ⟨curRate, 0⟩)
  else
    let (rate, c) := newRate b param ev curRate c
    ({ c with rttReqToRttSent := 1, curRate := rate }, ⟨rate, 1⟩)

variable (curRate : UInt32) (c : Ctx)

def handleRoceCnp : Ctx × Results :=
  ({ c with wasCnp := true, curRate := curRate }, ⟨curRate, 0⟩)

/-- `rtt_template_handle_roce_nack`; it leaves `rtt_req` as it is. -/
def handleRoceNack (results : Results) : Ctx × Results :=
  ({ c with wasNack := true, curRate := curRate }, { results with rate := curRate })

def handleNewFlow (ev : Event) (c : Ctx) : Ctx × Results :=
  ({ c with
      curRate := param .newFlowRate, startDelay := ev.timestamp, rttMeasPsn := 0
      rttReqToRttSent := 1, abortCnt := 0, wasNack := false },
    ⟨param .newFlowRate, 1⟩)

/-- A flow: its context, the results of the last event, and the counters of TX and RTT events, if any. -/
structure Flow where
  ctx : Ctx
  results : Results
  counter : Option (UInt32 × UInt32)

variable (s : Flow)

def rttTemplateAlgo (ev : Event) : Flow :=
  let c := s.ctx
  if c.curRate = 0 then
    let (ctx, results) := handleNewFlow param ev c
    { s with ctx := ctx, results := results }
  else match ev.evType with
    | .roceTx =>
      let (ctx, results) := handleRoceTx ev c.curRate c
      ⟨ctx, results, s.counter.map fun n => (n.1 + 1, n.2)⟩
    | .rtt =>
      let (ctx, results) := handleRoceRtt b param ev c.curRate c
      ⟨ctx, results, s.counter.map fun n => (n.1, n.2 + 1)⟩
    | .roceCnp =>
      let (ctx, results) := handleRoceCnp c.curRate c
      { s with ctx := ctx, results := results }
    | .roceNack =>
      let (ctx, results) := handleRoceNack c.curRate c s.results
      { s with ctx := ctx, results := results }
    | .other => { s with results := ⟨c.curRate, 0⟩ }

def runAlgo (events : List Event) : Flow :=
  events.foldl (rttTemplateAlgo b param) s

theorem runAlgo_concat (events : List Event) (ev : Event) :
    runAlgo b param s (events ++ [ev]) = rttTemplateAlgo b param (runAlgo b param s events) ev := by
  unfold runAlgo
  rw [List.foldl_append, List.foldl_cons, List.foldl_nil]

def AcceptedRtt (ev : Event) : Prop :=
  c.curRate ≠ 0 ∧ ev.evType = .rtt ∧ ¬ (c.rttMeasPsn = 0 ∧ c.rttReqToRttSent = 0)

/-! ## The rate -/

structure Legal : Prop where
  shown : s.results.rate = s.ctx.curRate
  pos : 0 < s.ctx.curRate
  le : s.ctx.curRate ≤ maxRate

variable {param : Params}

theorem Registered.minRate (h : Registered param) : 0 < param .minRate ∧ param .minRate ≤ maxRate := by
  obtain ⟨hmin, hmax⟩ := h .minRate
  exact ⟨UInt32.lt_of_lt_of_le (by decide) hmin, hmax⟩

theorem Registered.newFlowRate (h : Registered param) :
    0 < param .newFlowRate ∧ param .newFlowRate ≤ maxRate := by
  obtain ⟨hmin, hmax⟩ := h .newFlowRate
  exact ⟨UInt32.lt_of_lt_of_le (by decide) hmin, hmax⟩

theorem clamp_bounds {lo rate : UInt32} (h : lo ≤ maxRate) :
    let top := if rate > maxRate then maxRate else rate
    let out := if top < lo then lo else top
    lo ≤ out ∧ out ≤ maxRate := by
  dsimp only
  simp only [UInt32.le_iff_toNat_le, UInt32.lt_iff_toNat_lt, gt_iff_lt] at h ⊢
  split
  · split
    · exact ⟨Nat.le_refl _, h⟩
    · exact ⟨h, Nat.le_refl _⟩
  · split
    · exact ⟨Nat.le_refl _, h⟩
    · omega

/-- **The rate that the algorithm computes is in its bounds**, whatever the products give. -/
theorem algorithmCore_bounds (rtt curRate : UInt32) (isHighUtil : Bool)
    (norm : UInt32) (h : param .minRate ≤ maxRate) :
    param .minRate ≤ (algorithmCore b c rtt curRate param isHighUtil norm).1 ∧
      (algorithmCore b c rtt curRate param isHighUtil norm).1 ≤ maxRate := by
  unfold algorithmCore
  exact clamp_bounds h

theorem newRate_bounds
    (h : param .minRate ≤ maxRate) :
    param .minRate ≤ (newRate b param ev curRate c).1 ∧ (newRate b param ev curRate c).1 ≤ maxRate :=
  algorithmCore_bounds _ _ _ _ _ _ h

theorem handleRoceTx_rate :
    (handleRoceTx ev curRate c).1.curRate = curRate ∧ (handleRoceTx ev curRate c).2.rate = curRate := by
  unfold handleRoceTx
  split
  · exact ⟨rfl, rfl⟩
  · split <;> exact ⟨rfl, rfl⟩

variable {b : Build}

theorem handleRoceRtt_accepted {ev : Event} {curRate : UInt32} {c : Ctx}
    (h : ¬ (c.rttMeasPsn = 0 ∧ c.rttReqToRttSent = 0)) :
    handleRoceRtt b param ev curRate c = ({ (newRate b param ev curRate c).2 with
          rttReqToRttSent := 1, curRate := (newRate b param ev curRate c).1 },
        ⟨(newRate b param ev curRate c).1, 1⟩) := by
  unfold handleRoceRtt
  rw [if_neg h]

theorem rttTemplateAlgo_legal {s : Flow} (ev : Event) (hparam : Registered param)
    (hs : s.ctx.curRate = 0 ∨ Legal s) :
    Legal (rttTemplateAlgo b param s ev) ∧
      (AcceptedRtt s.ctx ev → param .minRate ≤ (rttTemplateAlgo b param s ev).ctx.curRate) := by
  obtain ⟨hpos, hle⟩ := hparam.minRate
  unfold rttTemplateAlgo
  dsimp only
  split
  · rename_i h0
    exact ⟨⟨rfl, hparam.newFlowRate.1, hparam.newFlowRate.2⟩, fun hacc => absurd h0 hacc.1⟩
  rename_i h0
  have hlegal : Legal s := hs.resolve_left h0
  split
  · -- a TX event
    rename_i htx
    obtain ⟨hc, hr⟩ := handleRoceTx_rate ev s.ctx.curRate s.ctx
    refine ⟨⟨hr.trans hc.symm, ?_, ?_⟩, fun hacc => ?_⟩
    · rw [hc]
      exact hlegal.pos
    · rw [hc]
      exact hlegal.le
    · exact nomatch htx.symm.trans hacc.2.1
  · -- an RTT event
    by_cases hguard : s.ctx.rttMeasPsn = 0 ∧ s.ctx.rttReqToRttSent = 0
    · unfold handleRoceRtt
      rw [if_pos hguard]
      exact ⟨⟨rfl, hlegal.pos, hlegal.le⟩, fun hacc => absurd hguard hacc.2.2⟩
    · rw [handleRoceRtt_accepted hguard]
      obtain ⟨hlo, hhi⟩ := newRate_bounds b ev s.ctx.curRate s.ctx hle
      exact ⟨⟨rfl, UInt32.lt_of_lt_of_le hpos hlo, hhi⟩, fun _ => hlo⟩
  all_goals
    rename_i hty
    exact ⟨⟨rfl, hlegal.pos, hlegal.le⟩, fun hacc => nomatch hty.symm.trans hacc.2.1⟩

theorem runAlgo_legal (hparam : Registered param) (events : List Event) {s : Flow}
    (hs : s.ctx.curRate = 0 ∨ Legal s) :
    (runAlgo b param s events).ctx.curRate = 0 ∨ Legal (runAlgo b param s events) := by
  induction events generalizing s with
  | nil => exact hs
  | cons ev rest ih => exact ih (.inr (rttTemplateAlgo_legal ev hparam hs).1)

/-- **The rate stays legal** after any sequence of events: positive, at most the maximal one, and at
    least `MIN_RATE` after an accepted RTT event. -/
theorem rate_legal (b : Build) {param : Params} (hparam : Registered param) {s : Flow}
    (hzero : s.ctx = Ctx.zero) (events : List Event) (ev : Event) :
    Legal (runAlgo b param s (events ++ [ev])) ∧ (AcceptedRtt (runAlgo b param s events).ctx ev →
        param .minRate ≤ (runAlgo b param s (events ++ [ev])).ctx.curRate) := by
  rw [runAlgo_concat]
  refine rttTemplateAlgo_legal ev hparam (runAlgo_legal hparam events (.inl ?_))
  rw [hzero]
  rfl

def plainBuild : Build := ⟨false, false, false, fun x => x⟩

def slowRtt : Event := ⟨.rtt, 0, 20000, 0, 0, 0, 0, 0⟩

/-- With the default parameters, the second event is an accepted RTT event that lowers the rate. -/
theorem rate_legal_default :
    AcceptedRtt (runAlgo plainBuild (fun i => (paramDef i).default) ⟨Ctx.zero, ⟨0, 0⟩, none⟩
        [slowRtt]).ctx slowRtt ∧
      Legal (runAlgo plainBuild (fun i => (paramDef i).default) ⟨Ctx.zero, ⟨0, 0⟩, none⟩
        [slowRtt, slowRtt]) :=
  ⟨⟨by decide, by decide, by decide⟩, (rate_legal plainBuild paramDef_default rfl [slowRtt] slowRtt).1⟩

/-! ## The results -/

/-- **When the results do not depend on what they were.**  Every handler writes both fields, except the
one for a NACK. -/
theorem results_fresh_iff (b : Build) (param : Params) (c : Ctx) (n : Option (UInt32 × UInt32))
    (ev : Event) :
    (∀ r r', rttTemplateAlgo b param ⟨c, r, n⟩ ev = rttTemplateAlgo b param ⟨c, r', n⟩ ev) ↔
      (c.curRate = 0 ∨ ev.evType ≠ .roceNack) := by
  unfold rttTemplateAlgo
  dsimp only
  constructor
  · intro h
    by_contra hnack
    obtain ⟨hrate, htype⟩ := not_or.1 hnack
    have hreq := congrArg (fun s => s.results.rttReq) (h ⟨0, 0⟩ ⟨0, 1⟩)
    rw [if_neg hrate, if_neg hrate, not_not.1 htype] at hreq
    exact nomatch hreq
  · intro h r r'
    split
    · rfl
    · rename_i hrate
      cases htype : ev.evType with
      | roceNack => exact absurd htype (h.resolve_left hrate)
      | _ => rfl

/-- A NACK for a flow with a rate, after a result with and one without an RTT request. -/
theorem nack_keeps_request :
    let algo := fun r => rttTemplateAlgo ⟨false, false, false, fun x => x⟩ (fun i => (paramDef i).default)
      ⟨{ Ctx.zero with curRate := 1 }, r, none⟩ ⟨.roceNack, 0, 0, 0, 0, 0, 0, 0⟩
    (algo ⟨1, 0⟩).results = ⟨1, 0⟩ ∧ (algo ⟨1, 1⟩).results = ⟨1, 1⟩ := by
  decide

/-! ## Differences with a wrap-around -/

def diffWithWrap32 (greaterNum smallerNum : UInt32) : UInt32 :=
  if greaterNum < smallerNum then 0xffffffff - smallerNum + greaterNum + 1 else greaterNum - smallerNum

/-- The differences for the samples `start` and `stop`, wherever they are computed, are
`(stop - start) mod 2^32`. -/
def DifferencesAgree : Prop :=
  let d : Int := (stop.toNat - start.toNat) % 2 ^ 32
  (∀ c ev, c.rttMeasPsn ≠ 0 → c.startDelay = start → ev.timestamp = stop → (rttTillNow c ev).toNat = d) ∧
  (∀ b ev, ev.rttReqSendTimestamp = start →
    (if b.timeSync then ev.rttReqRecvTimestamp else ev.timestamp) = stop → (measuredRtt b ev).toNat = d) ∧
  (npDelta start stop).toNat = d ∧ (diffWithWrap32 stop start).toNat = d

theorem sub_toNat_emod :
    ((stop - start).toNat : Int) = ((stop.toNat : Int) - start.toNat) % 2 ^ 32 := by
  have hstart := start.toNat_lt
  rw [UInt32.toNat_sub]
  omega

theorem diffWithWrap32_eq : diffWithWrap32 stop start = stop - start := by
  unfold diffWithWrap32
  split
  · grind
  · rfl

theorem elapsed_eq_iff : elapsed start stop = stop - start ↔ start ≤ stop := by
  unfold elapsed
  split
  · rename_i hwrap
    refine iff_of_false (fun h => ?_) (UInt32.not_le.2 hwrap)
    grind
  · rename_i hle
    exact iff_of_true rfl (UInt32.not_lt.1 hle)

/-- **When the differences agree**: only if the counter did not wrap around in between, since the
handlers of events add `2^32 - 1` and not `2^32`. -/
theorem differencesAgree_iff (start stop : UInt32) : DifferencesAgree start stop ↔ start ≤ stop := by
  unfold DifferencesAgree
  simp only [← sub_toNat_emod, Int.natCast_inj, UInt32.toNat_inj]
  constructor
  · rintro ⟨-, -, hnp, -⟩
    exact (elapsed_eq_iff start stop).1 hnp
  · intro h
    have helapsed := (elapsed_eq_iff start stop).2 h
    refine ⟨fun c ev hmeas hstart hstop => ?_, fun b ev hstart hstop => ?_, helapsed,
      diffWithWrap32_eq start stop⟩
    · rw [rttTillNow, if_neg hmeas, hstart, hstop, helapsed]
    · rw [measuredRtt, hstart, hstop, helapsed]

/-- From 4294967295 to 4 it is 5, but 4 for the handlers. -/
theorem differences_disagree : ¬ DifferencesAgree 0xffffffff 4 ∧ elapsed 0xffffffff 4 = 4 ∧
    diffWithWrap32 4 0xffffffff = 5 :=
  ⟨fun h => absurd h.2.2.1 (by decide), by decide, by decide⟩

/-! ## Congestion -/

/-- The branch that a call of `algorithm_core` takes, by its factor: 5 for NACK, 2 for CNP and 1 for RTT,
and twice as much with a high utilisation. -/
def decrease? (param : Params) (c : Ctx) (rtt : UInt32) (isHighUtil : Bool) : Option UInt32 :=
  if c.wasNack ∧ rtt ≥ param .maxDelay then some (if isHighUtil then 10 else 5)
  else if c.wasCnp ∨ rtt ≥ param .maxDelay then some (if isHighUtil then 4 else 2)
  else if rtt > param .baseRtt then some (if isHighUtil then 2 else 1)
  else none

/-- Congestion does not raise the rate, and with everything else equal a branch with a larger factor does
not return a larger rate. -/
def Lowers (param : Params) : Prop :=
  ∀ b c c' rtt rtt' curRate isHighUtil norm k k',
    decrease? param c rtt isHighUtil = some k → decrease? param c' rtt' isHighUtil = some k' →
    k' ≤ k → 0 < curRate → curRate ≤ maxRate →
      let rate := (algorithmCore b c rtt curRate param isHighUtil norm).1
      rate.toNat ≤ max curRate.toNat (param .minRate).toNat ∧
        rate ≤ (algorithmCore b c' rtt' curRate param isHighUtil norm).1

variable {k : UInt32}

theorem algorithmCore_decrease {c : Ctx} {rtt : UInt32} {isHighUtil : Bool}
    (h : decrease? param c rtt isHighUtil = some k) (curRate norm : UInt32) :
    k.toNat ≤ 10 ∧ (algorithmCore b c rtt curRate param isHighUtil norm).1.toNat =
      max (min (fxpMult (decFactor param k) curRate).toNat (2 ^ 20)) (param .minRate).toNat := by
  have hmax : maxRate.toNat = 2 ^ 20 := rfl
  unfold decrease? at h
  unfold algorithmCore
  split_ifs at h
  all_goals
    cases h
    refine ⟨by decide, ?_⟩
    simp only [*, if_true, if_false, and_self, Bool.false_eq_true, UInt32.lt_iff_toNat_lt, gt_iff_lt]
    generalize fxpMult _ curRate = rate
    split <;> split <;> omega

theorem fxpMult_toNat (f rate : UInt32) :
    (fxpMult f rate).toNat = f.toNat * rate.toNat / 2 ^ 16 % 2 ^ 32 := by
  have hprod : f.toNat * rate.toNat < 2 ^ 64 :=
    Nat.lt_of_lt_of_eq (Nat.mul_lt_mul'' f.toNat_lt rate.toNat_lt) (by decide)
  have hshift : UInt64.toNat 16 % 64 = 16 := rfl
  rw [fxpMult, mult, UInt64.toNat_toUInt32, UInt64.toNat_shiftRight, UInt64.toNat_mul, hshift,
    Nat.shiftRight_eq_div_pow, UInt32.toNat_toUInt64, UInt32.toNat_toUInt64, Nat.mod_eq_of_lt hprod]

theorem decFactor_toNat (k : UInt32) : (decFactor param k).toNat =
      (2 ^ 32 - k.toNat * (param .updateFactor).toNat % 2 ^ 32 + 2 ^ 16) % 2 ^ 32 := by
  rw [decFactor, UInt32.toNat_sub, UInt32.toNat_mul]
  rfl

theorem fxpMult_decFactor (hk : k.toNat ≤ 10) (h : (param .updateFactor).toNat ≤ 6553) (curRate : UInt32) :
    (fxpMult (decFactor param k) curRate).toNat =
      (2 ^ 16 - k.toNat * (param .updateFactor).toNat) * curRate.toNat / 2 ^ 16 := by
  have hprod := Nat.mul_le_mul hk h
  have hrate := curRate.toNat_lt
  have hfactor : (decFactor param k).toNat = 2 ^ 16 - k.toNat * (param .updateFactor).toNat := by
    rw [decFactor_toNat]
    omega
  rw [fxpMult_toNat, hfactor, Nat.mod_eq_of_lt]
  have hlow := Nat.mul_le_mul_right curRate.toNat
    (Nat.sub_le (2 ^ 16) (k.toNat * (param .updateFactor).toNat))
  omega

theorem fxpMult_wraps (hparam : Registered param) (h : ¬ (param .updateFactor).toNat ≤ 6553) :
    2 ^ 20 ≤ (fxpMult (decFactor param 10) 65536).toNat := by
  have hmax : (param .updateFactor).toNat ≤ 655360 := (hparam .updateFactor).2
  have hfactor : (decFactor param 10).toNat = 2 ^ 32 + 2 ^ 16 - 10 * (param .updateFactor).toNat := by
    rw [decFactor_toNat]
    change (2 ^ 32 - 10 * (param .updateFactor).toNat % 2 ^ 32 + 2 ^ 16) % 2 ^ 32 = _
    omega
  rw [fxpMult_toNat, hfactor]
  change 2 ^ 20 ≤ _ * 2 ^ 16 / 2 ^ 16 % 2 ^ 32
  rw [Nat.mul_div_cancel _ (by decide), Nat.mod_eq_of_lt (by omega)]
  omega

/-- **When congestion lowers the rate**: above an update factor of 6553 the factor for a NACK wraps
    around, and the rate jumps to the maximum. -/
theorem congestion_lowers_iff (hparam : Registered param) :
    Lowers param ↔ param .updateFactor ≤ 6553 ∨ param .minRate = maxRate := by
  have hmin : (param .minRate).toNat ≤ 2 ^ 20 := (hparam .minRate).2
  rw [UInt32.le_iff_toNat_le, ← UInt32.toNat_inj]
  change _ ↔ (param .updateFactor).toNat ≤ 6553 ∨ (param .minRate).toNat = 2 ^ 20
  constructor
  · intro hlowers
    by_contra hne
    obtain ⟨hfactor, hrate⟩ := not_or.1 hne
    have hnack : decrease? param { Ctx.zero with wasNack := true } 0xffffffff true = some 10 :=
      if_pos ⟨rfl, Nat.le_of_lt_succ (param .maxDelay).toNat_lt⟩
    have h := (hlowers plainBuild _ _ _ _ 65536 true 0 _ _ hnack hnack (UInt32.le_refl _) (by decide)
      (by decide)).1
    rw [(algorithmCore_decrease hnack 65536 0).2] at h
    have hwraps := fxpMult_wraps hparam hfactor
    have h16 : UInt32.toNat 65536 = 65536 := rfl
    omega
  · intro h b c c' rtt rtt' curRate isHighUtil norm k k' hk hk' hle _ _
    dsimp only
    obtain ⟨hten, hrate⟩ := algorithmCore_decrease (b := b) hk curRate norm
    obtain ⟨hten', hrate'⟩ := algorithmCore_decrease (b := b) hk' curRate norm
    rw [UInt32.le_iff_toNat_le, hrate, hrate']
    obtain h | h := h
    · rw [fxpMult_decFactor hten h, fxpMult_decFactor hten' h]
      rw [UInt32.le_iff_toNat_le] at hle
      have hfactors := Nat.sub_le_sub_left (Nat.mul_le_mul_right (param .updateFactor).toNat hle) (2 ^ 16)
      have hdiv := Nat.div_le_div_right (Nat.mul_le_mul_right curRate.toNat hfactors) (c := 2 ^ 16)
      have hlow := Nat.mul_le_mul_right curRate.toNat
        (Nat.sub_le (2 ^ 16) (k.toNat * (param .updateFactor).toNat))
      omega
    · omega

theorem congestion_lowers_default : Lowers fun i => (paramDef i).default :=
  (congestion_lowers_iff paramDef_default).2 (.inl (by decide))

def steepParams : Params
  | .updateFactor => 6554
  | i => (paramDef i).default

/-- **A NACK that raises the rate**, from a sixteenth of the maximum to the maximum. -/
theorem nack_raises : Registered steepParams ∧
    (algorithmCore plainBuild { Ctx.zero with wasNack := true } 150000 65536 steepParams true 0).1 =
      maxRate := by
  refine ⟨fun i => ?_, by decide⟩
  cases i <;> decide

end Doca.Pcc
