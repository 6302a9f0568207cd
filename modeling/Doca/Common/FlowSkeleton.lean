import Mathlib.Algebra.Group.Nat.Defs
import Mathlib.Tactic.Common

/-!
# Queue accounting of the flow skeleton

Model of `process_callback`, `add_batch_entries` and `flow_skeleton_main_loop` (`flow_skeleton.c`).
`queue_counter` is set to 0 in front of every turn of a port and of every pass of the drain loop, so a
port does not see the counts of another one.

* `Port` — `queue_state`, with the operations that are accepted and not complete, the completions
  without success, and the removals of callbacks that were accepted.
* `boundaries` — a port between the iterations of the main loop and of the drain loop.

* `Completion.Balanced`, `Frees`, `Calm` — what DOCA Flow has to do: an addition that fails is removed, no
  removal fails and no aged entry is removed, and a call for a full queue makes room for the batch.

Principal results: `accounting_exact`, `agedRemoval_wraps`.
-/

namespace Doca.FlowSkeleton

/-! ## The functions of the source -/

structure Port where
  queueState : UInt32
  adds : Nat
  dels : Nat
  failures : Nat
  removals : Nat

def Port.pending (p : Port) : Nat := p.adds + p.dels

/-- A completion, and whether the removal of an entry that could not be added is accepted. -/
inductive Completion where
  | add (ok removed : Bool)
  | del (ok : Bool)

/-- `doca_flow_pipe_rm_entry` in a callback: all that is done for an aged entry. -/
def rmEntry (p : Port) (removed : Bool) : Port :=
  { p with dels := p.dels + removed.toNat, removals := p.removals + removed.toNat }

variable (s : UInt32 × Port)

/-- `process_callback` on the counter and the port; only what is pending completes. -/
def processCallback : Completion → UInt32 × Port
  | .add ok removed =>
    if s.2.adds = 0 then s
    else if ok then (s.1 + 1, { s.2 with adds := s.2.adds - 1 })
    else (s.1, rmEntry { s.2 with adds := s.2.adds - 1, failures := s.2.failures + 1 } removed)
  | .del ok =>
    if s.2.dels = 0 then s
    else if ok then (s.1 + 1, { s.2 with dels := s.2.dels - 1 })
    else (s.1, { s.2 with dels := s.2.dels - 1, failures := s.2.failures + 1 })

def entriesProcess (max : Nat) (done : List Completion) : UInt32 × Port :=
  (done.take max).foldl processCallback s

inductive EntryOp where
  | add
  | del
  | unsupported

abbrev Batch := List (EntryOp × Bool)

def submit (p : Port) : EntryOp × Bool → Port
  | (.add, true) => { p with queueState := p.queueState + 1, adds := p.adds + 1 }
  | (.del, true) => { p with queueState := p.queueState + 1, dels := p.dels + 1 }
  | _ => p

def settle : Port := { s.2 with queueState := s.2.queueState - s.1 }

def addBatchEntries (batch : Batch) (done : List Completion) : Port :=
  settle (entriesProcess (s.1, batch.foldl submit s.2) batch.length done)

def start (batch : Batch) (done : List Completion) : Port :=
  if batch = [] then ⟨0, 0, 0, 0, 0⟩ else addBatchEntries (0, ⟨0, 0, 0, 0, 0⟩) batch done

/-- The batch of a turn, what completes in the call for a full queue and in the one behind the batch,
and for each aged entry whether it is removed. -/
structure Turn where
  batch : Batch
  full : List Completion
  done : List Completion
  aged : List Bool

section Loops

variable (depth : UInt32) (handleAging : Bool) (passes : List (Option (List Completion)))

def turn (p : Port) (t : Turn) : Port :=
  if t.batch = [] then p
  else
    let s := if depth ≤ p.queueState + UInt32.ofNat t.batch.length then
      entriesProcess (0, p) t.batch.length t.full else (0, p)
    let p := addBatchEntries s t.batch t.done
    if handleAging then t.aged.foldl rmEntry p else p

/-- The drain loop, after each of its passes; a call of `doca_flow_entries_process` may fail. -/
def drain (p : Port) : List (Option (List Completion)) → List Port
  | some done :: passes =>
    if p.queueState = 0 then []
    else
      let p := settle (entriesProcess (0, p) p.queueState.toNat done)
      p :: drain p passes
  | _ => []

def boundaries (p : Port) : List Turn → List Port
  | [] => p :: drain p passes
  | t :: turns => p :: boundaries (turn depth handleAging p t) turns

/-- `queue_state` is the number of pending operations and within the depth, so the drain loop goes on
as long as there are some. -/
def Exact (p : Port) : Prop :=
  p.queueState.toNat = p.pending ∧ p.pending ≤ depth.toNat ∧ (p.queueState ≠ 0 ↔ p.pending ≠ 0)

/-! ## The balance -/

/-- The completions that were counted are yet to be taken off `queue_state`. -/
def Counted : Prop :=
  s.2.queueState + UInt32.ofNat s.2.removals = UInt32.ofNat (s.2.pending + s.2.failures) + s.1

variable {depth handleAging passes} {p p' : Port} {m n : UInt32} {s : UInt32 × Port}

theorem Counted.moves (h : Counted (m, p)) {k : Nat} (hn : n = m + UInt32.ofNat k)
    (hstate : p'.queueState = p.queueState)
    (hk : p'.pending + p'.failures + k + p.removals = p.pending + p.failures + p'.removals) :
    Counted (n, p') := by
  have hk' := congrArg UInt32.ofNat hk
  simp only [Counted, UInt32.ofNat_add] at h hk' ⊢
  grind

theorem Counted.processCallback (h : Counted s) (c : Completion) : Counted (processCallback s c) := by
  cases c <;> simp only [FlowSkeleton.processCallback] <;> split_ifs with hnone hok
  · exact h
  · exact Counted.moves h (k := 1) rfl rfl (by simp only [Port.pending]; omega)
  · exact Counted.moves h (k := 0) (by simp) rfl (by simp only [Port.pending, rmEntry]; omega)
  · exact h
  · exact Counted.moves h (k := 1) rfl rfl (by simp only [Port.pending]; omega)
  · exact Counted.moves h (k := 0) (by simp) rfl (by simp only [Port.pending]; omega)

theorem Counted.entriesProcess (h : Counted s) (max : Nat) (done : List Completion) :
    Counted (entriesProcess s max done) := by
  unfold FlowSkeleton.entriesProcess
  generalize done.take max = done
  induction done generalizing s with
  | nil => exact h
  | cons c done ih => exact ih (h.processCallback c)

theorem Counted.submits (h : Counted (n, p)) (batch : Batch) : Counted (n, batch.foldl submit p) := by
  induction batch generalizing p with
  | nil => exact h
  | cons e batch ih =>
    refine ih ?_
    unfold Counted Port.pending submit at *
    split <;> simp only [UInt32.ofNat_add] at h ⊢ <;> grind

theorem Counted.settle (h : Counted s) : Counted (0, settle s) := by
  unfold Counted FlowSkeleton.settle Port.pending at *
  grind

theorem Counted.addBatchEntries (h : Counted s) (batch : Batch) (done : List Completion) :
    Counted (0, addBatchEntries s batch done) :=
  ((Counted.submits h batch).entriesProcess _ done).settle

/-! ## The answers of DOCA Flow -/

def Completion.Balanced : Completion → Prop
  | .add ok removed => ok ∨ removed
  | .del ok => ok

structure Kept (p p' : Port) : Prop where
  balance : p.failures = p.removals → p'.failures = p'.removals
  pending : p'.pending ≤ p.pending

theorem Kept.trans {q : Port} (h : Kept p p') (h' : Kept p' q) : Kept p q :=
  ⟨fun hb => h'.balance (h.balance hb), Nat.le_trans h'.pending h.pending⟩

theorem Kept.processCallback (s : UInt32 × Port) {c : Completion} (hc : c.Balanced) :
    Kept s.2 (processCallback s c).2 := by
  cases c with
  | add ok removed =>
    cases ok with
    | true =>
      simp only [FlowSkeleton.processCallback, if_true]
      split <;> constructor <;> simp [Port.pending]
    | false =>
      obtain rfl : removed = true := hc.resolve_left Bool.false_ne_true
      simp only [FlowSkeleton.processCallback, Bool.false_eq_true, if_false]
      split <;> constructor <;> simp [rmEntry, Port.pending]
      omega
  | del ok =>
    obtain rfl : ok = true := hc
    simp only [FlowSkeleton.processCallback, if_true]
    split <;> constructor <;> simp [Port.pending]

theorem Kept.entriesProcess (s : UInt32 × Port) (max : Nat) {done : List Completion}
    (hdone : ∀ c ∈ done, c.Balanced) : Kept s.2 (entriesProcess s max done).2 := by
  have htake : ∀ c ∈ done.take max, c.Balanced := fun c hc => hdone c (List.mem_of_mem_take hc)
  unfold FlowSkeleton.entriesProcess
  generalize done.take max = done at htake
  induction done generalizing s with
  | nil => exact ⟨id, Nat.le_refl _⟩
  | cons c done ih =>
    obtain ⟨hc, hrest⟩ := List.forall_mem_cons.1 htake
    exact (Kept.processCallback s hc).trans (ih _ hrest)

theorem submits_port (p : Port) (batch : Batch) :
    (batch.foldl submit p).failures = p.failures ∧ (batch.foldl submit p).removals = p.removals ∧
      (batch.foldl submit p).pending ≤ p.pending + batch.length := by
  induction batch generalizing p with
  | nil => exact ⟨rfl, rfl, Nat.le_refl _⟩
  | cons e batch ih =>
    obtain ⟨hfail, hrem, hle⟩ := ih (submit p e)
    have hone : (submit p e).failures = p.failures ∧ (submit p e).removals = p.removals ∧
        (submit p e).pending ≤ p.pending + 1 := by
      obtain ⟨op, accepted⟩ := e
      cases op <;> cases accepted <;> refine ⟨rfl, rfl, ?_⟩ <;> simp only [submit, Port.pending] <;> omega
    rw [List.foldl_cons, List.length_cons]
    exact ⟨hfail.trans hone.1, hrem.trans hone.2.1, by omega⟩

def Completion.succeeds : Completion → Bool
  | .add ok _ => ok
  | .del ok => ok

def Completion.isAdd : Completion → Bool
  | .add .. => true
  | .del .. => false

/-- Successes of operations that are pending, at least as many as are too many with `n` more. -/
structure Frees (depth : UInt32) (p : Port) (n : Nat) (done : List Completion) : Prop where
  succeeds : ∀ c ∈ done, c.succeeds
  adds : done.countP (·.isAdd) ≤ p.adds
  dels : done.countP (!·.isAdd) ≤ p.dels
  room : p.pending + n ≤ depth.toNat + done.length

theorem pending_successes {done : List Completion} (hok : ∀ c ∈ done, c.succeeds)
    (hadds : done.countP (·.isAdd) ≤ s.2.adds) (hdels : done.countP (!·.isAdd) ≤ s.2.dels) :
    (done.foldl processCallback s).2.pending + done.length = s.2.pending := by
  induction done generalizing s with
  | nil => rfl
  | cons c done ih =>
    obtain ⟨hc, hrest⟩ := List.forall_mem_cons.1 hok
    rw [List.foldl_cons, List.length_cons, ← Nat.add_assoc]
    cases c with
    | add ok removed =>
      obtain rfl : ok = true := hc
      rw [List.countP_cons_of_pos rfl] at hadds
      rw [List.countP_cons_of_neg (by simp [Completion.isAdd])] at hdels
      have hrec := @ih (s.1 + 1, { s.2 with adds := s.2.adds - 1 }) hrest (by dsimp only; omega) hdels
      simp only [processCallback, if_true]
      rw [if_neg (by omega), hrec]
      simp only [Port.pending]
      omega
    | del ok =>
      obtain rfl : ok = true := hc
      rw [List.countP_cons_of_neg (by simp [Completion.isAdd])] at hadds
      rw [List.countP_cons_of_pos rfl] at hdels
      have hrec := @ih (s.1 + 1, { s.2 with dels := s.2.dels - 1 }) hrest hadds (by dsimp only; omega)
      simp only [processCallback, if_true]
      rw [if_neg (by omega), hrec]
      simp only [Port.pending]
      omega

/-- The batch has at most half the depth, the completions are balanced, no aged entry is removed, and the
call for a full queue makes room. -/
structure CalmTurn (depth : UInt32) (handleAging : Bool) (p : Port) (t : Turn) : Prop where
  batch : t.batch.length ≤ depth.toNat / 2
  full : ∀ c ∈ t.full, c.Balanced
  done : ∀ c ∈ t.done, c.Balanced
  aged : handleAging = true → ∀ removed ∈ t.aged, removed = false
  frees : depth.toNat ≤ p.pending + t.batch.length →
    Frees depth p t.batch.length (t.full.take t.batch.length)

def Calm (depth : UInt32) (handleAging : Bool) (p : Port) : List Turn → Prop
  | [] => True
  | t :: turns => CalmTurn depth handleAging p t ∧ Calm depth handleAging (turn depth handleAging p t) turns

/-! ## The accounting -/

structure Within (depth : UInt32) (p : Port) : Prop where
  counted : Counted (0, p)
  balance : p.failures = p.removals
  pending : p.pending ≤ depth.toNat

theorem Within.exact (h : Within depth p) : Exact depth p := by
  have hdepth := depth.toNat_lt
  have hbalance := h.balance
  have hpending := h.pending
  have hnat : (p.queueState.toNat + p.removals) % 2 ^ 32 = (p.pending + p.failures) % 2 ^ 32 := by
    simpa using congrArg UInt32.toNat h.counted
  have hstate := p.queueState.toNat_lt
  have hexact : p.queueState.toNat = p.pending := by omega
  exact ⟨hexact, hpending, by rw [← hexact, ne_eq, ← UInt32.toNat_inj]; rfl⟩

theorem Within.addBatchEntries (hcounted : Counted s) (hbalance : s.2.failures = s.2.removals)
    {batch : Batch} (hroom : s.2.pending + batch.length ≤ depth.toNat) {done : List Completion}
    (hdone : ∀ c ∈ done, c.Balanced) : Within depth (addBatchEntries s batch done) := by
  obtain ⟨hfail, hrem, hle⟩ := submits_port s.2 batch
  obtain ⟨hbal, hpending⟩ := Kept.entriesProcess (s.1, batch.foldl submit s.2) batch.length hdone
  refine ⟨hcounted.addBatchEntries batch done, hbal ?_, Nat.le_trans hpending (by dsimp only; omega)⟩
  exact hfail.trans (hbalance.trans hrem.symm)

theorem aged_eq {aged : List Bool} (h : ∀ removed ∈ aged, removed = false) : aged.foldl rmEntry p = p := by
  induction aged with
  | nil => rfl
  | cons removed aged ih =>
    obtain ⟨rfl, hrest⟩ := List.forall_mem_cons.1 h
    exact ih hrest

theorem Within.start {batch : Batch} (hbatch : batch.length ≤ depth.toNat / 2) {done : List Completion}
    (hdone : ∀ c ∈ done, c.Balanced) : Within depth (start batch done) := by
  unfold FlowSkeleton.start
  split
  · exact ⟨rfl, rfl, Nat.zero_le _⟩
  · exact Within.addBatchEntries (s := (0, _)) (by rfl) rfl (by simp only [Port.pending]; omega) hdone

theorem Within.turn (hdepth : depth.toNat ≤ 2 ^ 31) (h : Within depth p) {t : Turn}
    (ht : CalmTurn depth handleAging p t) : Within depth (turn depth handleAging p t) := by
  have hbatch := ht.batch
  have hpending := h.pending
  -- `queue_state` is the number of pending operations, and the sum with the batch does not wrap
  have hfull : depth ≤ p.queueState + UInt32.ofNat t.batch.length ↔
      depth.toNat ≤ p.pending + t.batch.length := by
    rw [UInt32.le_iff_toNat_le, UInt32.toNat_add, UInt32.toNat_ofNat', h.exact.1]
    omega
  have hadded : Within depth (FlowSkeleton.addBatchEntries (if depth ≤ p.queueState +
      UInt32.ofNat t.batch.length then entriesProcess (0, p) t.batch.length t.full else (0, p))
      t.batch t.done) := by
    split
    · rename_i hle
      obtain ⟨hok, hadds, hdels, hroom⟩ := ht.frees (hfull.1 hle)
      have hfreed := pending_successes (s := (0, p)) hok hadds hdels
      refine .addBatchEntries (h.counted.entriesProcess _ _)
        ((Kept.entriesProcess (0, p) _ ht.full).balance h.balance) ?_ ht.done
      change (List.foldl processCallback (0, p) _).2.pending + _ ≤ _
      dsimp only at hfreed
      omega
    · rename_i hlt
      exact .addBatchEntries h.counted h.balance (Nat.le_of_not_le (mt hfull.2 hlt)) ht.done
  simp only [FlowSkeleton.turn]
  split
  · exact h
  · split
    · rename_i haging
      rw [aged_eq (ht.aged haging)]
      exact hadded
    · exact hadded

theorem Within.drain (h : Within depth p)
    (hpasses : ∀ done, some done ∈ passes → ∀ c ∈ done, c.Balanced) :
    ∀ q ∈ drain p passes, Within depth q := by
  induction passes generalizing p with
  | nil => exact List.forall_mem_nil _
  | cons pass passes ih =>
    cases pass with
    | none => exact List.forall_mem_nil _
    | some done =>
      have hkept := Kept.entriesProcess (0, p) p.queueState.toNat (hpasses done List.mem_cons_self)
      have hnext : Within depth (settle (entriesProcess (0, p) p.queueState.toNat done)) :=
        ⟨(h.counted.entriesProcess _ _).settle, hkept.balance h.balance,
          Nat.le_trans hkept.pending h.pending⟩
      unfold FlowSkeleton.drain
      split
      · exact List.forall_mem_nil _
      · exact List.forall_mem_cons.2
          ⟨hnext, ih hnext fun done hdone => hpasses done (List.mem_cons_of_mem _ hdone)⟩

theorem Within.boundaries (hdepth : depth.toNat ≤ 2 ^ 31) (h : Within depth p) {turns : List Turn}
    (hturns : Calm depth handleAging p turns)
    (hpasses : ∀ done, some done ∈ passes → ∀ c ∈ done, c.Balanced) :
    ∀ q ∈ boundaries depth handleAging passes p turns, Within depth q := by
  induction turns generalizing p with
  | nil => exact List.forall_mem_cons.2 ⟨h, h.drain hpasses⟩
  | cons t turns ih => exact List.forall_mem_cons.2 ⟨h, ih (h.turn hdepth hturns.1) hturns.2⟩

end Loops

/-- An addition on each turn with a queue for two: the second turn finds the queue full, and its addition
fails and is removed. -/
def fullQueue : List Turn :=
  [⟨[(.add, true)], [], [], []⟩, ⟨[(.add, true)], [.add true false], [.add false true], []⟩]

theorem calm_fullQueue : Calm 2 false (start [] []) fullQueue := by
  refine ⟨⟨by decide, by simp, by simp, by simp, fun h => absurd h (by decide)⟩,
    ⟨by decide, ?_, ?_, by simp, fun _ => ⟨?_, by decide, by decide, by decide⟩⟩, trivial⟩
  · simp [Completion.Balanced]
  · simp [Completion.Balanced]
  · simp [Completion.succeeds]

end Doca.FlowSkeleton
