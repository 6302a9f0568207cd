import Doca.IpsecGw.RoundTrip
import Mathlib.Algebra.Order.Group.Multiset
import Mathlib.Tactic.Abel

/-!
# The packet loop of a core

Model of `handle_packets_received` and `process_queue_packets` (`ipsec_security_gw.c`).  A packet is
the address of its mbuf; the two arrays of the loop and its retry counter live across bursts, as in
the source.

The handlers of the two ports are a parameter (`Handlers`), `gatewayHandlers` are those of the
gateway; so is `rte_eth_tx_burst` (`TxBurst`), which takes any number of the packets it is offered.
`num_of_tries` is an `int`: a burst in which its decrement overflows is logged as not completed, and
the log ends there.

Principal results: `txLoop_spec`, `processBurst_spec`, `packets_conserved_iff`.
-/

namespace Doca.IpsecGw

open List Function

/-! ## The functions of the source -/

def PACKET_BURST : Nat := 32
def NB_TX_BURST_TRIES : Nat := 5
def INT_MIN : Int := -2147483648

inductive FlowMode where
  | vnf
  | switch
  deriving DecidableEq

/-- The configuration that the loop reads: `flow_mode`, the port ids of `ctx->ports` and
    `nb_ports`. -/
structure QueueConfig where
  flowMode : FlowMode
  securedPort : Nat
  unsecuredPort : Nat
  nbPorts : Nat
  deriving DecidableEq

/-- What the loop uses of the packet handlers, over a state that they change: the bit `encrypt` of a
    packet, `handle_unsecured_packets_received` and `handle_secured_packets_received`. -/
structure Handlers (σ P : Type) where
  encrypt : σ → P → Bool
  unsecured : σ → P → DocaError × σ
  secured : σ → P → DocaError × σ

/-- The state of `handle_packets_received`: the context, and the two arrays with their counters. -/
structure Sorting (σ P : Type) where
  ctx : σ
  nbProcessed : Nat
  processed : Nat → Option P
  unprocessedIdx : Nat
  unprocessed : Nat → Option P

section Source

variable {σ P : Type}

variable (h : Handlers σ P) (cfg : QueueConfig) (portId : Nat)

def handlerPort (ctx : σ) (p : P) : Nat :=
  match cfg.flowMode with
  | .vnf => portId
  | .switch => if h.encrypt ctx p then cfg.unsecuredPort else cfg.securedPort

def runHandler (ctx : σ) (p : P) : DocaError × σ :=
  if handlerPort h cfg portId ctx p = cfg.unsecuredPort then h.unsecured ctx p else h.secured ctx p

def handlePacket (a : Sorting σ P) (p : P) :
    Sorting σ P :=
  let r := runHandler h cfg portId a.ctx p
  if r.1 = .success then
    { a with
      ctx := r.2
      processed := update a.processed a.nbProcessed (some p)
      nbProcessed := a.nbProcessed + 1 }
  else
    { a with
      ctx := r.2
      unprocessed := update a.unprocessed a.unprocessedIdx (some p)
      unprocessedIdx := a.unprocessedIdx + 1 }

/-- `handle_packets_received`: the arrays keep what earlier bursts left in them. -/
def handlePacketsReceived (packets : List P)
    (ctx : σ) (processed unprocessed : Nat → Option P) : Sorting σ P :=
  packets.foldl (handlePacket h cfg portId) ⟨ctx, 0, processed, 0, unprocessed⟩

/-- `rte_eth_tx_burst`: how many of `n` offered packets the `i`-th call of a run takes. -/
structure TxBurst where
  accept : Nat → Nat → Nat
  accept_le : ∀ i n, accept i n ≤ n

/-- The transmission loop; `calls` counts the calls of `rte_eth_tx_burst` so far, `accepted` is what they
    took of this burst. -/
structure TxState (P : Type) where
  calls : Nat
  numOfTries : Int
  nbPkts : Nat
  accepted : List (Option P)
  overflow : Bool

variable (tx : TxBurst)

def txTry (slots : Nat → Option P) (n : Nat) (s : TxState P) : TxState P :=
  let k := tx.accept s.calls (n - s.nbPkts)
  { calls := s.calls + 1
    numOfTries := s.numOfTries - 1
    nbPkts := s.nbPkts + k
    accepted := s.accepted ++ (List.range' s.nbPkts k).map slots
    overflow := decide (s.numOfTries = INT_MIN) }

/-- The `do … while` with at most `fuel` further rounds; `num_of_tries - 1` are enough. -/
def txLoop (slots : Nat → Option P) (n : Nat) : Nat → TxState P → TxState P
  | 0, s => txTry tx slots n s
  | fuel + 1, s =>
    let s' := txTry tx slots n s
    if s'.overflow = false ∧ s'.nbPkts < n ∧ 0 < s'.numOfTries then txLoop slots n fuel s' else s'

/-- The variables of `process_queue_packets` that live across bursts, and the number of
    transmissions so far. -/
structure QueueState (σ P : Type) where
  ctx : σ
  processed : Nat → Option P
  toDrop : Nat → Option P
  numOfTries : Int
  calls : Nat

/-- What happened to a burst: `firstCall` transmissions were made before it and `calls` for it. -/
structure Burst (P : Type) where
  packets : List P
  nbProcessed : Nat
  txPort : Nat
  firstCall : Nat
  calls : Nat
  accepted : List (Option P)
  freed : List (Option P)
  completed : Bool

def processBurst (s : QueueState σ P)
    (portId : Nat) (packets : List P) : QueueState σ P × Burst P :=
  let a := handlePacketsReceived h cfg portId packets s.ctx s.processed s.toDrop
  let t := txLoop tx a.processed a.nbProcessed (s.numOfTries - 1).toNat
    ⟨s.calls, s.numOfTries, 0, [], false⟩
  let nbPacketsToDrop := packets.length - a.nbProcessed
  (⟨a.ctx, a.processed, a.unprocessed, t.numOfTries, t.calls⟩,
    { packets := packets
      nbProcessed := a.nbProcessed
      txPort := match cfg.flowMode with
        | .vnf => portId ^^^ 1
        | .switch => portId
      firstCall := s.calls
      calls := t.calls - s.calls
      accepted := t.accepted
      freed := if t.overflow then [] else (List.range nbPacketsToDrop).map a.unprocessed
      completed := !t.overflow })

def processBursts :
    QueueState σ P → List (Nat × List P) → List (Burst P)
  | _, [] => []
  | s, (portId, packets) :: rest =>
    if packets = [] then processBursts s rest
    else
      let r := processBurst h cfg tx s portId packets
      if r.2.completed then r.2 :: processBursts r.1 rest else [r.2]

def QueueState.init (ctx : σ) : QueueState σ P :=
  ⟨ctx, fun _ => none, fun _ => none, NB_TX_BURST_TRIES, 0⟩

/-- `rte_eth_rx_burst`: the packets of a round and a port, at most `PACKET_BURST`. -/
structure RxBurst (P : Type) where
  packets : Nat → Nat → List P
  length_le : ∀ round portId, (packets round portId).length ≤ PACKET_BURST

def processQueuePackets (rx : RxBurst P)
    (rounds : Nat) (ctx : σ) : List (Burst P) :=
  processBursts h cfg tx (QueueState.init ctx) ((List.range rounds).flatMap fun round =>
    (List.range cfg.nbPorts).map fun portId => (portId, rx.packets round portId))

/-- The handlers of the gateway, on the context and the memory of the mbufs. After an access outside of a
    buffer the state is `none`, and `after` is what a handler returns. -/
def gatewayHandlers [DecidableEq P] (d : Dpdk) (after : DocaError) :
    Handlers (Option (CoreCtx × (P → Mbuf))) P :=
  let store (p : P) (mem : P → Mbuf) (r : Option (DocaError × CoreCtx × Mbuf)) :
      DocaError × Option (CoreCtx × (P → Mbuf)) :=
    match r with
    | none => (after, none)
    | some (e, ctx, m) => (e, some (ctx, update mem p m))
  { encrypt := fun s p => match s with
      | none => false
      | some (_, mem) => (PktMeta.ofU32 (mem p).metadata.toNat).encrypt = 1
    unsecured := fun s p => match s with
      | none => (after, none)
      | some (ctx, mem) => store p mem (handleUnsecuredPacketsReceived d ctx (mem p))
    secured := fun s p => match s with
      | none => (after, none)
      | some (ctx, mem) =>
        store p mem (handleSecuredPacketsReceived d ctx ctx.config.isFwdSyndromeRss (mem p)) }

end Source

section Loop

variable {σ P : Type}

/-! ## Sorting a burst -/

def HoldsList (slots : Nat → Option P) (l : List P) : Prop := ∀ i < l.length, slots i = l[i]?

theorem HoldsList.push {slots : Nat → Option P} {l : List P} (h : HoldsList slots l) (p : P) :
    HoldsList (update slots l.length (some p)) (l ++ [p]) := by
  intro i hi
  rw [length_append, length_singleton] at hi
  by_cases heq : i = l.length
  · subst heq
    simp
  · have hlt : i < l.length := by omega
    rw [update_of_ne heq, getElem?_append_left hlt]
    exact h i hlt

theorem HoldsList.map_range' {slots : Nat → Option P} {l : List P} (h : HoldsList slots l)
    {s k : Nat} (hk : s + k ≤ l.length) :
    (range' s k).map slots = ((l.drop s).take k).map some := by
  refine ext_getElem? fun i => ?_
  by_cases hi : i < k
  · have hlt : s + i < l.length := by omega
    simp [h (s + i) hlt, hi, getElem?_eq_getElem hlt]
  · rw [getElem?_eq_none (by simp; omega), getElem?_eq_none (by simp; omega)]

structure Sorting.Holds (a : Sorting σ P) (good bad : List P) : Prop where
  nbProcessed : a.nbProcessed = good.length
  processed : HoldsList a.processed good
  unprocessedIdx : a.unprocessedIdx = bad.length
  unprocessed : HoldsList a.unprocessed bad

theorem Sorting.Holds.handlePacket {a : Sorting σ P} {good bad : List P} (ha : a.Holds good bad)
    (h : Handlers σ P) (cfg : QueueConfig) (portId : Nat) (p : P) :
    (IpsecGw.handlePacket h cfg portId a p).Holds (good ++ [p]) bad ∨
      (IpsecGw.handlePacket h cfg portId a p).Holds good (bad ++ [p]) := by
  unfold IpsecGw.handlePacket
  dsimp only
  split
  · refine Or.inl ⟨?_, ?_, ha.unprocessedIdx, ha.unprocessed⟩
    · simp [ha.nbProcessed]
    · rw [ha.nbProcessed]
      exact ha.processed.push p
  · refine Or.inr ⟨ha.nbProcessed, ha.processed, ?_, ?_⟩
    · simp [ha.unprocessedIdx]
    · rw [ha.unprocessedIdx]
      exact ha.unprocessed.push p

variable (h : Handlers σ P) (cfg : QueueConfig) (portId : Nat)

theorem foldl_handlePacket_holds :
    ∀ (packets : List P) {a : Sorting σ P} {good bad : List P}, a.Holds good bad →
      ∃ good' bad', (packets.foldl (handlePacket h cfg portId) a).Holds good' bad' ∧
        (good' ++ bad').Perm (good ++ bad ++ packets) := by
  intro packets
  induction packets with
  | nil =>
    intro a good bad ha
    exact ⟨good, bad, ha, by simp⟩
  | cons p packets ih =>
    intro a good bad ha
    rcases ha.handlePacket h cfg portId p with ha' | ha'
    · obtain ⟨good', bad', hholds, hperm⟩ := ih ha'
      refine ⟨good', bad', hholds, hperm.trans ?_⟩
      -- the packet moves over the dropped ones to its place
      have hmove : (good ++ [p] ++ bad).Perm (good ++ bad ++ [p]) := by
        rw [append_assoc, append_assoc]
        exact perm_append_comm.append_left good
      simpa using hmove.append_right packets
    · obtain ⟨good', bad', hholds, hperm⟩ := ih ha'
      exact ⟨good', bad', hholds, by simpa using hperm⟩

/-- **A burst is split in two**, whatever the arrays held before. -/
theorem handlePacketsReceived_holds
    (packets : List P) (ctx : σ) (processed unprocessed : Nat → Option P) :
    ∃ good bad, (handlePacketsReceived h cfg portId packets ctx processed unprocessed).Holds good bad ∧
      (good ++ bad).Perm packets := by
  have hstart : (⟨ctx, 0, processed, 0, unprocessed⟩ : Sorting σ P).Holds [] [] :=
    ⟨rfl, fun i hi => absurd hi (Nat.not_lt_zero i), rfl, fun i hi => absurd hi (Nat.not_lt_zero i)⟩
  obtain ⟨good, bad, hholds, hperm⟩ := foldl_handlePacket_holds h cfg portId packets hstart
  exact ⟨good, bad, hholds, by simpa using hperm⟩

/-! ## Transmitting a burst -/

variable (tx : TxBurst)

/-- How many of `n` packets are sent after `k` tries from the call `c` on, if `a` were sent
    before. -/
def sentFrom (n : Nat) : Nat → Nat → Nat → Nat
  | _, a, 0 => a
  | c, a, k + 1 => sentFrom n (c + 1) (a + tx.accept c (n - a)) k

theorem sentFrom_full (n : Nat) : ∀ k c, sentFrom tx n c n k = n := by
  intro k
  induction k with
  | zero => exact fun c => rfl
  | succ k ih =>
    intro c
    have h0 : tx.accept c (n - n) = 0 := by
      have := tx.accept_le c (n - n)
      omega
    simp only [sentFrom, h0, Nat.add_zero, ih]

def TxState.Counts (s : TxState P) : Prop :=
  s.numOfTries = (NB_TX_BURST_TRIES : Int) - s.calls ∧ s.calls ≤ 2147483653

structure TxSpec (slots : Nat → Option P) (n k : Nat) (s s' : TxState P) : Prop where
  sent : s'.nbPkts = sentFrom tx n s.calls s.nbPkts k
  le : s.nbPkts ≤ s'.nbPkts ∧ s'.nbPkts ≤ n
  accepted : s'.accepted = s.accepted ++ (List.range' s.nbPkts (s'.nbPkts - s.nbPkts)).map slots
  calls : s.calls < s'.calls ∧ s'.calls ≤ s.calls + k
  all : s'.nbPkts < n → s'.calls = s.calls + k
  tries : s'.numOfTries = (NB_TX_BURST_TRIES : Int) - s'.calls
  overflow : s'.overflow = decide (s.calls = 2147483653)

theorem txTry_spec (slots : Nat → Option P) {n : Nat} {s : TxState P}
    (hs : s.Counts) (hle : s.nbPkts ≤ n) : TxSpec tx slots n 1 s (txTry tx slots n s) := by
  have hk := tx.accept_le s.calls (n - s.nbPkts)
  obtain ⟨htries, hcalls⟩ := hs
  refine ⟨rfl, ⟨?_, ?_⟩, ?_, ⟨?_, ?_⟩, fun _ => rfl, ?_, ?_⟩
  · simp only [txTry]; omega
  · simp only [txTry]; omega
  · simp only [txTry, Nat.add_sub_cancel_left]
  · simp only [txTry]; omega
  · simp only [txTry]; omega
  · simp only [txTry]; omega
  · simp only [txTry, htries, INT_MIN, NB_TX_BURST_TRIES, decide_eq_decide]
    omega

/-- **A burst has `max(1, num_of_tries)` tries**, and uses all of them unless everything is sent. -/
theorem txLoop_spec (slots : Nat → Option P) {n : Nat} :
    ∀ (fuel : Nat) {s : TxState P}, s.Counts → s.nbPkts ≤ n → fuel = (s.numOfTries - 1).toNat →
      TxSpec tx slots n (fuel + 1) s (txLoop tx slots n fuel s) := by
  intro fuel
  induction fuel with
  | zero =>
    intro s hs hle _
    exact txTry_spec tx slots hs hle
  | succ fuel ih =>
    intro s hs hle hfuel
    have htry := txTry_spec tx slots hs hle
    have htries := hs.1
    rw [txLoop]
    generalize hs1 : txTry tx slots n s = s1 at htry
    have hstep : s1.calls = s.calls + 1 := by
      have h1 := htry.calls
      omega
    have htries1 := htry.tries
    have hno : s1.overflow = false := by
      rw [htry.overflow, decide_eq_false_iff_not]
      simp only [NB_TX_BURST_TRIES] at htries
      omega
    have hfuel1 : fuel = (s1.numOfTries - 1).toNat := by omega
    have hpos : 0 < s1.numOfTries := by omega
    have hsent1 : s1.nbPkts = s.nbPkts + tx.accept s.calls (n - s.nbPkts) := htry.sent
    by_cases hmore : s1.nbPkts < n
    · rw [if_pos ⟨hno, hmore, hpos⟩]
      have hcounts1 : s1.Counts := ⟨htries1, by simp only [NB_TX_BURST_TRIES] at htries; omega⟩
      have hrest := ih hcounts1 htry.le.2 hfuel1
      generalize txLoop tx slots n fuel s1 = s2 at hrest
      refine ⟨?_, ⟨?_, hrest.le.2⟩, ?_, ⟨?_, ?_⟩, ?_, hrest.tries, ?_⟩
      · rw [hrest.sent, hstep, hsent1]
        rfl
      · exact Nat.le_trans htry.le.1 hrest.le.1
      · have h1 := htry.le.1
        have h2 := hrest.le.1
        rw [hrest.accepted, htry.accepted, append_assoc, ← map_append]
        congr 2
        have hsplit : s2.nbPkts - s.nbPkts =
            (s1.nbPkts - s.nbPkts) + (s2.nbPkts - s1.nbPkts) := by omega
        have hmid : s1.nbPkts = s.nbPkts + (s1.nbPkts - s.nbPkts) := by omega
        rw [hsplit, ← range'_append_1, ← hmid]
      · have h1 := hrest.calls.1
        omega
      · have h2 := hrest.calls.2
        omega
      · intro hlt
        have h3 := hrest.all hlt
        omega
      · rw [hrest.overflow, decide_eq_decide]
        simp only [NB_TX_BURST_TRIES] at htries
        omega
    · rw [if_neg (fun hc => hmore hc.2.1)]
      have hall : s1.nbPkts = n := by
        have h1 := htry.le.2
        omega
      refine ⟨?_, htry.le, htry.accepted, ⟨htry.calls.1, ?_⟩, fun hlt => absurd hlt hmore,
        htry.tries, htry.overflow⟩
      · rw [sentFrom, ← hsent1, hall, sentFrom_full]
      · omega

/-! ## One burst -/

def QueueState.Counts (s : QueueState σ P) : Prop :=
  s.numOfTries = (NB_TX_BURST_TRIES : Int) - s.calls ∧ s.calls ≤ 2147483653

def triesAfter (c : Nat) : Nat := max 1 (NB_TX_BURST_TRIES - c)

/-- The packets of a burst: of those processed, a part is taken by `rte_eth_tx_burst` and the others are
    `left`; those not processed are freed. -/
structure Burst.Spec (b : Burst P) (left : List P) : Prop where
  firstCall : b.firstCall ≤ 2147483653
  sent : sentFrom tx b.nbProcessed b.firstCall 0 (triesAfter b.firstCall) = b.accepted.length
  nbProcessed : b.accepted.length + left.length = b.nbProcessed
  completed : b.completed = decide (b.firstCall ≠ 2147483653)
  perm : b.completed = true → (b.packets.map some).Perm (b.accepted ++ left.map some ++ b.freed)
  calls : 0 < b.calls ∧ b.calls ≤ triesAfter b.firstCall
  all : left ≠ [] → b.calls = triesAfter b.firstCall

/-- **One burst**, from any content of the two arrays. -/
theorem processBurst_spec {s : QueueState σ P}
    (hs : s.Counts) (portId : Nat) (packets : List P) :
    (∃ left, (processBurst h cfg tx s portId packets).2.Spec tx left) ∧
      ((processBurst h cfg tx s portId packets).2.completed = true →
        (processBurst h cfg tx s portId packets).1.Counts) := by
  obtain ⟨good, bad, hholds, hperm⟩ :=
    handlePacketsReceived_holds h cfg portId packets s.ctx s.processed s.toDrop
  obtain ⟨htries, hcalls⟩ := hs
  have hloop := txLoop_spec tx
    (handlePacketsReceived h cfg portId packets s.ctx s.processed s.toDrop).processed
    (s.numOfTries - 1).toNat (s := ⟨s.calls, s.numOfTries, 0, [], false⟩)
    ⟨htries, hcalls⟩ (Nat.zero_le good.length) rfl
  have hbudget : (s.numOfTries - 1).toNat + 1 = triesAfter s.calls := by
    simp only [triesAfter, NB_TX_BURST_TRIES] at htries ⊢
    omega
  rw [hbudget] at hloop
  unfold processBurst
  simp only [hholds.nbProcessed]
  generalize txLoop tx _ good.length _ _ = t at hloop
  have hlen : packets.length = good.length + bad.length := by
    rw [← hperm.length_eq, length_append]
  have hsent := hloop.sent
  have hle := hloop.le.2
  have hacc : t.accepted = (good.take t.nbPkts).map some := by
    have haccepted := hloop.accepted
    simp only [nil_append, Nat.sub_zero] at haccepted
    rw [haccepted, hholds.processed.map_range' (by omega), drop_zero]
  have hacclen : t.accepted.length = t.nbPkts := by
    rw [hacc, length_map, length_take, Nat.min_eq_left hle]
  refine ⟨⟨good.drop t.nbPkts, hcalls, ?_, ?_, ?_, ?_, ?_, ?_⟩, ?_⟩
  · simp only [hacclen, hsent]
  · simp only [hacclen, length_drop]
    omega
  · simp only [hloop.overflow, ne_eq, decide_not]
  · intro hdone
    simp only [Bool.not_eq_true'] at hdone
    have hfree : (range (packets.length - good.length)).map
        (handlePacketsReceived h cfg portId packets s.ctx s.processed s.toDrop).unprocessed =
        bad.map some := by
      rw [hlen, Nat.add_sub_cancel_left, range_eq_range',
        hholds.unprocessed.map_range' (by omega), drop_zero, take_length]
    simp only [hdone, Bool.false_eq_true, if_false, hacc, hfree, ← map_append, take_append_drop]
    exact hperm.symm.map some
  · have hc := hloop.calls
    simp only at hc ⊢
    omega
  · intro hleft
    have hlt : t.nbPkts < good.length := by
      by_contra hge
      exact hleft (drop_eq_nil_of_le (by omega))
    have hall := hloop.all hlt
    simp only at hall ⊢
    omega
  · intro hdone
    refine ⟨hloop.tries, ?_⟩
    have hc := hloop.calls.2
    have hover := hloop.overflow
    simp only [Bool.not_eq_true'] at hdone
    rw [hdone, eq_comm, decide_eq_false_iff_not] at hover
    simp only [triesAfter, NB_TX_BURST_TRIES] at hc hover ⊢
    omega

/-! ## Whole runs -/

theorem processBursts_spec :
    ∀ (arrivals : List (Nat × List P)) {s : QueueState σ P}, s.Counts →
      ∀ b ∈ processBursts h cfg tx s arrivals, ∃ left, b.Spec tx left := by
  intro arrivals
  induction arrivals with
  | nil => exact fun _ b hb => absurd hb not_mem_nil
  | cons x arrivals ih =>
    intro s hs b hb
    obtain ⟨portId, packets⟩ := x
    rw [processBursts] at hb
    split at hb
    · exact ih hs b hb
    · obtain ⟨hspec, hcounts⟩ := processBurst_spec h cfg tx hs portId packets
      dsimp only at hb
      split at hb
      · rename_i hdone
        rcases mem_cons.mp hb with rfl | hb
        · exact hspec
        · exact ih (hcounts hdone) b hb
      · rw [mem_singleton.mp hb]
        exact hspec

theorem QueueState.init_counts (ctx : σ) : (QueueState.init ctx : QueueState σ P).Counts :=
  ⟨by simp [QueueState.init], Nat.zero_le _⟩

/-- The bursts of a log as specified: every packet is taken by `rte_eth_tx_burst` or freed, once, and a
    burst not taken in full is offered `NB_TX_BURST_TRIES` times. -/
structure Conserved (log : List (Burst P)) : Prop where
  completed : ∀ b ∈ log, b.completed = true
  once : ((log.flatMap Burst.packets).map some).Perm
    (log.flatMap Burst.accepted ++ log.flatMap Burst.freed)
  offered : ∀ b ∈ log, b.calls ≤ NB_TX_BURST_TRIES ∧
    (b.accepted.length < b.nbProcessed → b.calls = NB_TX_BURST_TRIES)

/-- All processed packets are taken within the tries that are left, and `num_of_tries` does not overflow. -/
def Burst.SentInTime (b : Burst P) : Prop :=
  b.firstCall < 2147483653 ∧
    sentFrom tx b.nbProcessed b.firstCall 0 (triesAfter b.firstCall) = b.nbProcessed

theorem triesAfter_le (c : Nat) : triesAfter c ≤ NB_TX_BURST_TRIES := by
  simp only [triesAfter, NB_TX_BURST_TRIES]
  omega

theorem log_lost {tx : TxBurst} : ∀ {log : List (Burst P)},
    (∀ b ∈ log, ∃ left, b.Spec tx left) → (∀ b ∈ log, b.completed = true) →
    ∃ lost : List P, ((log.flatMap Burst.packets).map some).Perm
        (log.flatMap Burst.accepted ++ log.flatMap Burst.freed ++ lost.map some) ∧
      (lost = [] ↔ ∀ b ∈ log, b.accepted.length = b.nbProcessed) := by
  intro log
  induction log with
  | nil => exact fun _ _ => ⟨[], by simp, by simp⟩
  | cons b log ih =>
    intro hspec hdone
    obtain ⟨left, hb⟩ := hspec b (mem_cons_self ..)
    obtain ⟨lost, hperm, hlost⟩ := ih (fun c hc => hspec c (mem_cons_of_mem _ hc))
      (fun c hc => hdone c (mem_cons_of_mem _ hc))
    have hhead := hb.perm (hdone b (mem_cons_self ..))
    have hcount := hb.nbProcessed
    refine ⟨left ++ lost, ?_, ?_⟩
    · simp only [flatMap_cons, map_append]
      refine (hhead.append hperm).trans ?_
      rw [← Multiset.coe_eq_coe]
      simp only [← Multiset.coe_add]
      abel
    · rw [append_eq_nil_iff, hlost, forall_mem_cons, ← length_eq_zero_iff]
      refine and_congr_left fun _ => ?_
      omega

/-- **No packet of a run is lost or handled twice, and every burst has its tries, exactly if every
    burst is sent within the tries that the earlier ones have left.** -/
theorem packets_conserved_iff (h : Handlers σ P) (cfg : QueueConfig) (tx : TxBurst) (rx : RxBurst P)
    (rounds : Nat) (ctx : σ) :
    Conserved (processQueuePackets h cfg tx rx rounds ctx) ↔
      ∀ b ∈ processQueuePackets h cfg tx rx rounds ctx, b.SentInTime tx := by
  have hspec := processBursts_spec h cfg tx ((range rounds).flatMap fun round =>
      (range cfg.nbPorts).map fun portId => (portId, rx.packets round portId))
    (QueueState.init_counts ctx)
  change ∀ b ∈ processQueuePackets h cfg tx rx rounds ctx, ∃ left, b.Spec tx left at hspec
  generalize processQueuePackets h cfg tx rx rounds ctx = log at hspec
  constructor
  · intro hcons b hb
    obtain ⟨left, hbspec⟩ := hspec b hb
    obtain ⟨lost, hperm, hlost⟩ := log_lost hspec hcons.completed
    have hnone : lost = [] := by
      have hlen := hperm.length_eq
      have honce := hcons.once.length_eq
      simp only [length_append, length_map] at hlen honce
      exact length_eq_zero_iff.mp (by omega)
    have hdone := hbspec.completed
    rw [hcons.completed b hb, eq_comm, decide_eq_true_iff] at hdone
    have hle := hbspec.firstCall
    exact ⟨by omega, hbspec.sent.trans (hlost.mp hnone b hb)⟩
  · intro hsent
    have hdone : ∀ b ∈ log, b.completed = true := by
      intro b hb
      obtain ⟨left, hbspec⟩ := hspec b hb
      have hlt := (hsent b hb).1
      rw [hbspec.completed, decide_eq_true_iff]
      omega
    have hall : ∀ b ∈ log, b.accepted.length = b.nbProcessed := by
      intro b hb
      obtain ⟨left, hbspec⟩ := hspec b hb
      exact hbspec.sent.symm.trans (hsent b hb).2
    obtain ⟨lost, hperm, hlost⟩ := log_lost hspec hdone
    rw [hlost.mpr hall, map_nil, append_nil] at hperm
    refine ⟨hdone, hperm, fun b hb => ?_⟩
    obtain ⟨left, hbspec⟩ := hspec b hb
    refine ⟨Nat.le_trans hbspec.calls.2 (triesAfter_le _), fun hlt => ?_⟩
    have := hall b hb
    omega

/-- **No packet is sent or freed twice**, whatever the handlers and the NIC do, as long as `num_of_tries`
    does not overflow. -/
theorem sent_or_freed_once [DecidableEq P] (h : Handlers σ P) (cfg : QueueConfig) (tx : TxBurst)
    (rx : RxBurst P) (rounds : Nat) (ctx : σ) {log : List (Burst P)}
    (hlog : log = processQueuePackets h cfg tx rx rounds ctx) (hdone : ∀ b ∈ log, b.completed = true)
    (hnodup : (log.flatMap Burst.packets).Nodup) (p : P) :
    (log.flatMap Burst.accepted).count (some p) + (log.flatMap Burst.freed).count (some p) ≤ 1 := by
  have hspec : ∀ b ∈ log, ∃ left, b.Spec tx left := by
    rw [hlog]
    exact processBursts_spec h cfg tx _ (QueueState.init_counts ctx)
  obtain ⟨lost, hperm, -⟩ := log_lost hspec hdone
  have hcount := hperm.count_eq (some p)
  rw [count_append, count_append, count_map_of_injective _ _ (Option.some_injective P)] at hcount
  have hle := nodup_iff_count_le_one.mp hnodup p
  omega

end Loop

/-! ## A burst that is lost -/

def vnfPorts : QueueConfig := ⟨.vnf, 0, 1, 2⟩

def busyTx : TxBurst := ⟨fun i n => if i = 4 then n else 0, fun i n => by split <;> omega⟩

def onePerRound : RxBurst Nat :=
  ⟨fun round portId => if portId = 1 then [round] else [],
    fun round portId => by split <;> simp [PACKET_BURST]⟩

def busyLog : List (Burst Nat) :=
  processQueuePackets (gatewayHandlers Dpdk.reference .badState) vnfPorts busyTx onePerRound 2
    (some (shortCtx .tunnel, fun _ => shortFrame))

/-- The first packet is sent with the fifth try.  The second one is offered once, is not taken, and is
    not freed. -/
theorem second_burst_lost :
    busyLog.map Burst.packets = [[0], [1]] ∧ busyLog.map Burst.nbProcessed = [1, 1] ∧
    busyLog.map Burst.calls = [5, 1] ∧ busyLog.map Burst.accepted = [[some 0], []] ∧
    busyLog.map Burst.freed = [[], []] ∧ ¬ Conserved busyLog := by
  refine ⟨by decide +kernel, by decide +kernel, by decide +kernel, by decide +kernel,
    by decide +kernel, fun hcons => ?_⟩
  exact absurd hcons.once.length_eq (by decide +kernel)

theorem sent_or_freed_once_busy : (busyLog.flatMap Burst.accepted).count (some 1) +
    (busyLog.flatMap Burst.freed).count (some 1) ≤ 1 :=
  sent_or_freed_once _ _ _ _ _ _ rfl (by decide +kernel) (by decide +kernel) 1

end Doca.IpsecGw
