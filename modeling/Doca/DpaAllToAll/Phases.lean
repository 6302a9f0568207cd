import Doca.DpaAllToAll.Kernel

/-!
# All-to-all: one connection in one round

What a rank sends to another goes through four phases in each round: nothing posted, the write
posted, the signal posted, everything taken effect.

* `byteOp`, `writeOps_eq` — the operations of a block, with the handles of the exchange.
* `Ops`, `Written`, `ConnOk` — what the phase says about the operations in flight, the event and the
  memory of the target.
* `ConnOk.postWrite`, `ConnOk.postSignal`, `ConnOk.deliverByte`, `ConnOk.deliverSignal` — how it moves
  on.
-/

namespace Doca.DpaAllToAll

open Doca.Lib List Nat

variable {J : Job}

/-! ## Blocks -/

namespace Job

def block (J : Job) : Nat := J.count * J.extent

theorem bufSize_eq (J : Job) : J.bufSize = J.numRanks * J.block := by
  rw [bufSize, block, mul_comm, mul_comm J.extent]

theorem block_le {i : Nat} (hi : i < J.numRanks) : i * J.block + J.block ≤ J.bufSize := by
  rw [J.bufSize_eq, ← succ_mul]
  exact mul_le_mul_right _ hi

theorem block_ne {i j b c : Nat} (hij : i ≠ j) (hb : b < J.block) (hc : c < J.block) :
    i * J.block + b ≠ j * J.block + c := by
  rcases lt_or_gt_of_ne hij with hlt | hlt
  all_goals
    have hle := mul_le_mul_right J.block (succ_le_of_lt hlt)
    rw [succ_mul] at hle
    omega

end Job

def byteOp (J : Job) (src dst b : Nat) : Op :=
  .byte dst (J.recvbuf dst + (src * J.block + b)) (J.sendbuf src + (dst * J.block + b))

theorem byteOp_injective {src dst b c : Nat} (h : byteOp J src dst b = byteOp J src dst c) : b = c := by
  simp only [byteOp, Op.byte.injEq] at h
  omega

theorem writeOps_eq {src dst : Nat} (hsrc : src < J.numRanks) (hdst : dst < J.numRanks) :
    writeOps J src dst = (List.range J.block).map (byteOp J src dst) := by
  unfold writeOps
  rw [mul_comm J.extent]
  apply map_congr_left
  intro b _
  simp only [byteOp, Job.remoteMmaps, Job.remoteRecvbufs, Job.block,
    J.exports.exportMmaps_eq hsrc hdst, mul_assoc, add_assoc]

/-! ## Phases of a connection -/

/-- How far the sender is with its block in this round: nothing posted, the write posted, the signal
posted, all taken effect. -/
inductive Phase where
  | fresh
  | writing
  | signalled
  | finished
  deriving DecidableEq

def Phase.Sent (ph : Phase) : Prop := ph = .signalled ∨ ph = .finished

def PhaseAt (dst : Nat) (ph : Phase) : Thread → Prop
  | .post i => (dst < i → ph.Sent) ∧ (i ≤ dst → ph = .fresh)
  | .signal i => (dst < i → ph.Sent) ∧ (dst = i → ph = .writing) ∧ (i < dst → ph = .fresh)
  | .wait i | .sync i => (dst < i → ph = .finished) ∧ ph.Sent
  | .done => ph = .finished

def Ops (J : Job) (src dst : Nat) (seq : UInt64) (pending : List Op) (event : UInt64) : Phase → Prop
  | .fresh => pending = [] ∧ event = seq - 1
  | .writing => (∀ op ∈ pending, ∃ b < J.block, op = byteOp J src dst b) ∧ event = seq - 1
  | .signalled => ∃ bytes, (∀ op ∈ bytes, ∃ b < J.block, op = byteOp J src dst b) ∧
      pending = bytes ++ [.signal ⟨dst, src⟩ seq] ∧ event = seq - 1
  | .finished => pending = [] ∧ event = seq

def Written (J : Job) (src dst : Nat) (given : Nat → UInt8) (pending : List Op)
    (mem : Nat → UInt8) : Prop :=
  ∀ b < J.block, byteOp J src dst b ∈ pending ∨
    mem (J.recvbuf dst + (src * J.block + b)) = given (dst * J.block + b)

structure ConnOk (J : Job) (src dst rounds : Nat) (seq : UInt64) (given : Nat → UInt8)
    (th : Thread) (pending : List Op) (event : UInt64) (mem : Nat → UInt8) (ph : Phase) : Prop where
  ops : Ops J src dst seq pending event ph
  written : ph ≠ .fresh → rounds ≠ 0 → Written J src dst given pending mem
  phase : PhaseAt dst ph th

section Conn

variable {src dst rounds : Nat} {seq : UInt64} {given : Nat → UInt8} {th th' : Thread}
  {pending : List Op} {event : UInt64} {mem mem' : Nat → UInt8} {ph : Phase}

theorem seq_ne_pred (x : UInt64) : x ≠ x - 1 := by
  intro h
  have := congrArg UInt64.toNat h
  grind

theorem PhaseAt.finish (h : PhaseAt dst .signalled th) : PhaseAt dst .finished th := by
  cases th with
  | post i => exact ⟨fun _ => .inr rfl, fun hle => absurd (h.2 hle) (by decide)⟩
  | signal i =>
    exact ⟨fun _ => .inr rfl, fun heq => absurd (h.2.1 heq) (by decide),
      fun hlt => absurd (h.2.2 hlt) (by decide)⟩
  | wait i | sync i => exact ⟨fun _ => rfl, .inr rfl⟩
  | done => rfl

theorem ConnOk.finished_of_drained
    (h : ConnOk J src dst rounds seq given th [] event mem ph) (hsent : ph.Sent) :
    ph = .finished := by
  rcases hsent with rfl | rfl
  · obtain ⟨bytes, -, hnil, -⟩ := h.ops
    simp at hnil
  · rfl

theorem ConnOk.postWrite (h : ConnOk J src dst rounds seq given (.post dst) pending event mem ph) :
    ConnOk J src dst rounds seq given (.signal dst)
      (pending ++ (List.range J.block).map (byteOp J src dst)) event mem .writing := by
  have hfresh : ph = .fresh := h.phase.2 (le_refl dst)
  subst hfresh
  obtain ⟨rfl, hev⟩ := h.ops
  refine ⟨⟨?_, hev⟩, ?_, ?_⟩
  · intro op hop
    simp only [nil_append, mem_map, mem_range] at hop
    obtain ⟨b, hb, rfl⟩ := hop
    exact ⟨b, hb, rfl⟩
  · intro _ _ b hb
    left
    simp only [nil_append, mem_map, mem_range]
    exact ⟨b, hb, rfl⟩
  · simp [PhaseAt]

theorem ConnOk.postSignal {n : Nat} (hn : 0 < n)
    (h : ConnOk J src dst rounds seq given (.signal dst) pending event mem ph) :
    ConnOk J src dst rounds seq given (.post (dst + n))
      (pending ++ [.signal ⟨dst, src⟩ seq]) event mem .signalled := by
  have hwriting : ph = .writing := h.phase.2.1 rfl
  subst hwriting
  obtain ⟨hbytes, hev⟩ := h.ops
  refine ⟨⟨pending, hbytes, rfl, hev⟩, ?_, ?_⟩
  · intro _ hr b hb
    rcases h.written (by decide) hr b hb with hin | hdone
    · exact .inl (mem_append_left _ hin)
    · exact .inr hdone
  · refine ⟨fun _ => .inl rfl, ?_⟩
    intro hle
    omega

variable (h : ConnOk J src dst rounds seq given th pending event mem ph)

include h

theorem ConnOk.move (hth : PhaseAt dst ph th → PhaseAt dst ph th') :
    ConnOk J src dst rounds seq given th' pending event mem ph :=
  ⟨h.ops, h.written, hth h.phase⟩

theorem ConnOk.of_mem (hmem : ∀ b < J.block, mem' (J.recvbuf dst + (src * J.block + b)) =
      mem (J.recvbuf dst + (src * J.block + b))) :
    ConnOk J src dst rounds seq given th pending event mem' ph := by
  refine ⟨h.ops, ?_, h.phase⟩
  intro hph hr b hb
  rw [hmem b hb]
  exact h.written hph hr b hb

theorem ConnOk.finished_of_event (hev : event = seq) : ph = .finished := by
  have hops := h.ops
  cases ph with
  | finished => rfl
  | fresh | writing => exact absurd (hev.symm.trans hops.2) (seq_ne_pred seq)
  | signalled =>
    obtain ⟨_, -, -, hpred⟩ := hops
    exact absurd (hev.symm.trans hpred) (seq_ne_pred seq)

theorem ConnOk.event_cases : event = seq - 1 ∨ event = seq := by
  have hops := h.ops
  cases ph with
  | fresh | writing => exact .inl hops.2
  | signalled =>
    obtain ⟨_, -, -, hpred⟩ := hops
    exact .inl hpred
  | finished => exact .inr hops.2

/-! ## Operations that take effect -/

theorem ConnOk.byte_of_getElem? {n mmap d a : Nat} (hn : pending[n]? = some (.byte mmap d a)) :
    ph ≠ .fresh ∧ ph ≠ .finished ∧ ∃ b < J.block, .byte mmap d a = byteOp J src dst b := by
  have hops := h.ops
  have hmem : Op.byte mmap d a ∈ pending := mem_of_getElem? hn
  cases ph with
  | fresh =>
    rw [hops.1] at hmem
    cases hmem
  | writing => exact ⟨by decide, by decide, hops.1 _ hmem⟩
  | signalled =>
    obtain ⟨bytes, hbytes, rfl, -⟩ := hops
    refine ⟨by decide, by decide, ?_⟩
    rcases List.mem_append.mp hmem with hin | hin
    · exact hbytes _ hin
    · simp at hin
  | finished =>
    rw [hops.1] at hmem
    cases hmem

theorem ConnOk.deliverByte {n b : Nat} {x : UInt8} (hb : b < J.block)
    (hn : pending[n]? = some (byteOp J src dst b)) (hx : x = given (dst * J.block + b)) :
    ConnOk J src dst rounds seq given th (pending.eraseIdx n) event
      (Function.update mem (J.recvbuf dst + (src * J.block + b)) x) ph := by
  refine ⟨?_, ?_, h.phase⟩
  · have hops := h.ops
    cases ph with
    | fresh | finished => simp [hops.1] at hn
    | writing =>
      refine ⟨?_, hops.2⟩
      intro op hop
      exact hops.1 op (mem_of_mem_eraseIdx hop)
    | signalled =>
      obtain ⟨bytes, hbytes, rfl, hev⟩ := hops
      have hlt : n < bytes.length := by
        apply Nat.lt_of_not_le
        intro hle
        rw [getElem?_append_right hle] at hn
        have hmem := mem_of_getElem? hn
        simp [byteOp] at hmem
      refine ⟨bytes.eraseIdx n, ?_, eraseIdx_append_of_lt_length hlt _, hev⟩
      intro op hop
      exact hbytes op (mem_of_mem_eraseIdx hop)
  · intro hph hr c hc
    by_cases hcb : c = b
    · subst hcb
      right
      rw [Function.update_self, hx]
    · rcases h.written hph hr c hc with hin | hdone
      · left
        obtain ⟨i, hi⟩ := mem_iff_getElem?.mp hin
        refine mem_eraseIdx_iff_getElem?.mpr ⟨i, ?_, hi⟩
        rintro rfl
        rw [hn] at hi
        exact hcb (byteOp_injective (Option.some.inj hi)).symm
      · right
        rw [Function.update_of_ne (by omega), hdone]

theorem ConnOk.deliverSignal {n : Nat} {handle : EventHandle} {value : UInt64}
    (hn : pending[n]? = some (.signal handle value))
    (hfirst : (pending.take n).any Op.isByte = false) :
    handle = ⟨dst, src⟩ ∧ value = seq ∧ event = seq - 1 ∧
      ConnOk J src dst rounds seq given th (pending.eraseIdx n) seq mem .finished := by
  have hops := h.ops
  have hmem : Op.signal handle value ∈ pending := mem_of_getElem? hn
  cases ph with
  | fresh | finished =>
    rw [hops.1] at hmem
    cases hmem
  | writing =>
    obtain ⟨b, -, hb⟩ := hops.1 _ hmem
    cases hb
  | signalled =>
    obtain ⟨bytes, hbytes, rfl, hev⟩ := hops
    have hge : bytes.length ≤ n := by
      apply Nat.le_of_not_lt
      intro hlt
      rw [getElem?_append_left hlt] at hn
      obtain ⟨b, -, hb⟩ := hbytes _ (mem_of_getElem? hn)
      cases hb
    -- no byte was posted before the signal that is still in flight
    have hnil : bytes = [] := by
      cases bytes with
      | nil => rfl
      | cons op rest =>
        obtain ⟨b, -, rfl⟩ := hbytes op mem_cons_self
        cases n with
        | zero => simp at hge
        | succ n => simp [byteOp, Op.isByte] at hfirst
    subst hnil
    have hzero : n = 0 := by
      cases n with
      | zero => rfl
      | succ n => simp at hn
    subst hzero
    simp only [nil_append, getElem?_cons_zero, Option.some.injEq, Op.signal.injEq] at hn
    obtain ⟨rfl, rfl⟩ := hn
    refine ⟨rfl, rfl, hev, ⟨⟨rfl, rfl⟩, ?_, h.phase.finish⟩⟩
    intro _ hr b hb
    rcases h.written (by decide) hr b hb with hin | hdone
    · simp [byteOp] at hin
    · exact .inr hdone

end Conn

end Doca.DpaAllToAll
