import Doca.L2Reflector.Device
import Doca.Lib.Ring

/-!
# The L2 reflector handles every packet exactly once

The invariant of the L2 reflector ties the indices of the device, which run freely through 32 bits, to the
number of packets handled, and the completion queue to the number of frames received; the NIC is never more
than one lap ahead, because a receive buffer is returned only after its frame has been copied.

* `Ctx` — the device context after so many packets; `stepCq_ctx`, `getNextDte_ctx`, `getNextSqe_ctx`.
* `swapMacs_apply` — the loop that swaps the addresses.
* `Inv`, `receive_inv`, `handlerStep_inv` — the invariant and its steps.

Principal result: `reflect_exactly_once`.
-/

namespace Doca.L2Reflector

open Doca.Lib Function List UInt32 Nat

/-! ## Indices -/

theorem ofNat_succ (n : Nat) : ofNat n + 1 = ofNat (n + 1) := by
  rw [ofNat_add]
  rfl

theorem and_idxMask (n : Nat) : (UInt32.ofNat n &&& IDX_MASK).toNat = n % 128 := by
  have hmask : IDX_MASK.toNat = 2 ^ 7 - 1 := rfl
  rw [UInt32.toNat_and, hmask, and_two_pow_sub_one_eq_mod, UInt32.toNat_ofNat']
  omega

theorem and_sqIdxMask (n : Nat) : (UInt32.ofNat n &&& SQ_IDX_MASK).toNat = n % 512 := by
  have hmask : SQ_IDX_MASK.toNat = 2 ^ 9 - 1 := rfl
  rw [UInt32.toNat_and, hmask, and_two_pow_sub_one_eq_mod, UInt32.toNat_ofNat']
  omega

def ownerBit (n : Nat) : UInt8 := if n / 128 % 2 = 0 then 1 else 0

structure Ctx (d : Dev) (n tx seg pi : Nat) : Prop where
  isInitalized : d.isInitalized = true
  cqe : d.cqe = n % 128
  cqIdx : d.cqIdx = .ofNat n
  owner : d.cqHwOwnerBit = ownerBit n
  txBuffIdx : d.txBuffIdx = .ofNat tx
  sqWqeSegIdx : d.sqWqeSegIdx = .ofNat seg
  sqPi : d.sqPi = .ofNat pi

variable {d : Dev} {n tx seg pi : Nat}

theorem deviceInit_ctx (h : d.sqPi = 0) : Ctx (deviceInit d) 0 0 0 0 := ⟨rfl, rfl, rfl, rfl, rfl, rfl, h⟩

theorem ownerBit_succ (n : Nat) : ownerBit (n + 1) =
    if (n + 1) % 128 = 0 then (if ownerBit n = 0 then 1 else 0) else ownerBit n := by
  unfold ownerBit
  by_cases hlap : (n + 1) % 128 = 0
  · have hdiv : (n + 1) / 128 = n / 128 + 1 := by omega
    rw [if_pos hlap, hdiv]
    rcases mod_two_eq_zero_or_one (n / 128) with heven | hodd
    · rw [if_pos heven, if_neg (show ¬ (n / 128 + 1) % 2 = 0 by omega)]
      rfl
    · rw [if_pos (show (n / 128 + 1) % 2 = 0 by omega), if_neg (show ¬ n / 128 % 2 = 0 by omega)]
      rfl
  · have hdiv : (n + 1) / 128 = n / 128 := by omega
    rw [if_neg hlap, hdiv]

/-- **The indices run through 32 bits, and the owner bit changes with every lap.** -/
theorem stepCq_ctx (h : Ctx d n tx seg pi) : Ctx (stepCq d) (n + 1) tx seg pi := by
  have hidx : d.cqIdx + 1 = .ofNat (n + 1) := by rw [h.cqIdx, ofNat_succ]
  have hzero : ofNat (n + 1) &&& IDX_MASK = 0 ↔ (n + 1) % 128 = 0 := by
    rw [← UInt32.toNat_inj, and_idxMask]
    rfl
  unfold stepCq
  refine ⟨h.isInitalized, ?_, hidx, ?_, h.txBuffIdx, h.sqWqeSegIdx, h.sqPi⟩
  · dsimp only
    rw [hidx, and_idxMask]
  · dsimp only
    rw [hidx, h.owner, ownerBit_succ]
    exact if_congr hzero rfl rfl

theorem getNextDte_ctx (h : Ctx d n tx seg pi) :
    (getNextDte d).1.toNat = 2048 * (tx % 128) ∧ Ctx (getNextDte d).2 n (tx + 1) seg pi := by
  unfold getNextDte
  refine ⟨?_, h.isInitalized, h.cqe, h.cqIdx, h.owner, ?_, h.sqWqeSegIdx, h.sqPi⟩
  · have hlog : LOG_WQ_DATA_ENTRY_BSIZE.toNat = 11 := rfl
    rw [h.txBuffIdx, UInt32.toNat_shiftLeft, and_idxMask, hlog, shiftLeft_eq]
    show tx % 128 * 2 ^ 11 % 2 ^ 32 = _
    omega
  · dsimp only
    rw [h.txBuffIdx, ofNat_succ]

theorem getNextSqe_ctx (h : Ctx d n tx seg pi) :
    (getNextSqe d).1.toNat = seg % 512 ∧ Ctx (getNextSqe d).2 n tx (seg + 1) pi := by
  unfold getNextSqe
  refine ⟨?_, h.isInitalized, h.cqe, h.cqIdx, h.owner, h.txBuffIdx, ?_, h.sqPi⟩
  · rw [h.sqWqeSegIdx, and_sqIdxMask]
  · dsimp only
    rw [h.sqWqeSegIdx, ofNat_succ]

/-! ## The bytes of a frame -/

theorem swapBytes_apply (mem : Nat → UInt8) (off : Nat) {b : Nat} (hb : b ≤ 6) (i : Nat) :
    ((range b).foldl (fun mem byte => swapByte mem off byte) mem) (off + i) =
      if i < b then mem (off + i + 6) else if 6 ≤ i ∧ i < 6 + b then mem (off + i - 6)
      else mem (off + i) := by
  induction b generalizing i with
  | zero =>
    rw [if_neg (not_lt_zero _), if_neg (by omega)]
    rfl
  | succ b ih =>
    have ih := ih (by omega)
    rw [range_succ, foldl_append, foldl_cons, foldl_nil]
    generalize (range b).foldl (fun mem byte => swapByte mem off byte) mem = mem' at ih ⊢
    unfold swapByte
    by_cases hlow : i = b
    · subst hlow
      rw [update_of_ne (by omega), update_self, add_assoc, ih (i + 6),
        if_neg (by omega), if_neg (by omega), if_pos (lt_succ_self i)]
    · by_cases hhigh : i = b + 6
      · subst hhigh
        rw [← add_assoc, update_self, ih b, if_neg (by omega), if_neg (by omega),
          if_neg (by omega), if_pos (by omega)]
        congr 1
      · rw [update_of_ne (by omega), update_of_ne (by omega), ih i]
        by_cases hlt : i < b
        · rw [if_pos hlt, if_pos (by omega)]
        · rw [if_neg hlt, if_neg (show ¬ i < b + 1 by omega)]
          exact if_congr (by omega) rfl rfl

theorem swapMacs_apply (mem : Nat → UInt8) (off i : Nat) : swapMacs mem off (off + i) =
      if i < 6 then mem (off + i + 6) else if i < 12 then mem (off + i - 6) else mem (off + i) := by
  unfold swapMacs
  rw [swapBytes_apply mem off (le_refl 6) i]
  by_cases hi : i < 6
  · rw [if_pos hi, if_pos hi]
  · rw [if_neg hi, if_neg hi]
    exact if_congr (by omega) rfl rfl

variable {frame : List UInt8}

theorem swapped_length (h : 12 ≤ frame.length) : (swapped frame).length = frame.length := by
  unfold swapped
  simp only [length_append, length_take, length_drop]
  omega

theorem swapped_getElem (h : 12 ≤ frame.length) {i : Nat} : (swapped frame)[i]? =
      if i < 6 then frame[i + 6]? else if i < 12 then frame[i - 6]? else frame[i]? := by
  unfold swapped
  have hfirst : ((frame.drop 6).take 6).length = 6 := by
    rw [length_take, length_drop]
    omega
  have hsecond : (frame.take 6).length = 6 := by
    rw [length_take]
    omega
  rw [append_assoc]
  by_cases hi : i < 6
  · rw [if_pos hi, getElem?_append_left (by omega), getElem?_take_of_lt hi, getElem?_drop, add_comm]
  · rw [if_neg hi, getElem?_append_right (by omega), hfirst]
    by_cases hj : i < 12
    · rw [if_pos hj, getElem?_append_left (by omega), getElem?_take_of_lt (by omega)]
    · rw [if_neg hj, getElem?_append_right (by omega), hsecond, getElem?_drop]
      congr 1
      omega

def HoldsFrame (frame : List UInt8) (buf : Nat → UInt8) : Prop :=
  ∀ i b, frame[i]? = some b → buf i = b

theorem overlay_holds (frame : List UInt8) (buf : Nat → UInt8) : HoldsFrame frame (overlay frame buf) := by
  intro i b hb
  unfold overlay
  rw [getD_eq_getElem?_getD, hb]
  rfl

theorem memcpy_holds {frame : List UInt8} {buf : Nat → UInt8} (h : HoldsFrame frame buf)
    (mem : Nat → UInt8) (dst : Nat) :
    HoldsFrame frame fun i => memcpy mem dst buf frame.length (dst + i) := by
  intro i b hb
  obtain ⟨hlt, -⟩ := List.getElem?_eq_some_iff.mp hb
  unfold memcpy
  dsimp only
  rw [if_pos ⟨by omega, by omega⟩, Nat.add_sub_cancel_left]
  exact h i b hb

theorem swapMacs_holds {mem : Nat → UInt8} {off : Nat} (hlen : 12 ≤ frame.length)
    (h : HoldsFrame frame fun i => mem (off + i)) :
    HoldsFrame (swapped frame) fun i => swapMacs mem off (off + i) := by
  intro i b hb
  dsimp only
  rw [swapped_getElem hlen] at hb
  rw [swapMacs_apply]
  split at hb
  · rename_i hi
    rw [if_pos hi, add_assoc]
    exact h _ _ hb
  · rename_i hi
    rw [if_neg hi]
    split at hb
    · rename_i hj
      rw [if_pos hj, Nat.add_sub_assoc (by omega)]
      exact h _ _ hb
    · rename_i hj
      rw [if_neg hj]
      exact h _ _ hb

theorem map_range_of_holds {buf : Nat → UInt8} (h : HoldsFrame frame buf) :
    (range frame.length).map buf = frame := by
  refine ext_getElem (by simp) fun i hi hi' => ?_
  rw [getElem_map, getElem_range]
  exact h i _ (getElem?_eq_getElem hi')

/-! ## The invariant -/

section Frames

variable {frames : List (List UInt8)} {frame : List UInt8} {k : Nat} {cfg : Config}

theorem frameAt_append (h : k < frames.length) : frameAt (frames ++ [frame]) k = frameAt frames k := by
  unfold frameAt
  rw [getD_eq_getElem?_getD, getD_eq_getElem?_getD, getElem?_append_left h]

theorem frameAt_last : frameAt (frames ++ [frame]) frames.length = frame := by
  unfold frameAt
  rw [getD_eq_getElem?_getD, getElem?_concat_length]
  rfl

theorem cqeOf_append (h : k < frames.length) : cqeOf (frames ++ [frame]) k = cqeOf frames k := by
  unfold cqeOf
  rw [frameAt_append h]

theorem expected_append (h : k < frames.length) :
    expected cfg (frames ++ [frame]) k = expected cfg frames k := by
  unfold expected
  rw [frameAt_append h]

theorem frameAt_mem (h : k < frames.length) : frameAt frames k ∈ frames := by
  unfold frameAt
  rw [getD_eq_getElem?_getD, getElem?_eq_getElem h]
  exact getElem_mem h

end Frames

/-- The `n`-th call once the frame is copied: its local variables, the first `j` segments in the send queue,
the producer indices rung, and `frame` in the data buffer. -/
structure InCall (cfg : Config) (mem : Nat → UInt8) (ring : Nat → Option Seg) (frames : List (List UInt8))
    (n j : Nat) (rung : List UInt32) (frame : List UInt8) (c : Call) : Prop where
  lt : n < frames.length
  origin : c.origin = some n
  dataSz : c.dataSz = .ofNat (frameAt frames n).length
  sqData : c.sqData.toNat = 2048 * (n % 128)
  segs : c.segs = ((expected cfg frames n).segs.take j).map Prod.fst
  ring : ∀ g ∈ (expected cfg frames n).segs.take j, ring g.1 = g.2
  rung : c.rung = rung
  data : HoldsFrame frame fun i => mem (c.sqData.toNat + i)

def PcOk (cfg : Config) (d : Dev) (mem : Nat → UInt8) (ring : Nat → Option Seg)
    (frames : List (List UInt8)) (seen n : Nat) : Pc → Prop
  | .asleep => (d = .zero ∧ n = 0) ∨ Ctx d n n (4 * n) n
  | .entry => (d = .zero ∧ n = 0) ∨ Ctx d n n (4 * n) n
  | .check => Ctx d n n (4 * n) n
  | .arm => Ctx d n n (4 * n) n ∧ seen ≤ n
  | .read => Ctx d n n (4 * n) n ∧ n < frames.length
  | .copy c => Ctx d n n (4 * n) n ∧ n < frames.length ∧
      c = ⟨(cqeOf frames n).wqeCounter.toUInt32, (cqeOf frames n).byteCnt, 0, some n, [], []⟩
  | .swap c => Ctx d n (n + 1) (4 * n) n ∧ InCall cfg mem ring frames n 0 [] (frameAt frames n) c
  | .ctrl c => Ctx d n (n + 1) (4 * n) n ∧ InCall cfg mem ring frames n 0 [] (swapped (frameAt frames n)) c
  | .eth c =>
    Ctx d n (n + 1) (4 * n + 1) n ∧ InCall cfg mem ring frames n 1 [] (swapped (frameAt frames n)) c
  | .data c =>
    Ctx d n (n + 1) (4 * n + 2) n ∧ InCall cfg mem ring frames n 2 [] (swapped (frameAt frames n)) c
  | .skip c =>
    Ctx d n (n + 1) (4 * n + 3) n ∧ InCall cfg mem ring frames n 3 [] (swapped (frameAt frames n)) c
  | .ringDb c =>
    Ctx d n (n + 1) (4 * n + 4) n ∧ InCall cfg mem ring frames n 3 [] (swapped (frameAt frames n)) c
  | .credit c => Ctx d n (n + 1) (4 * n + 4) (n + 1) ∧
      InCall cfg mem ring frames n 3 (expected cfg frames n).rung (swapped (frameAt frames n)) c
  | .stepCq => ∃ m, n = m + 1 ∧ Ctx d m n (4 * n) n

structure Inv (cfg : Config) (s : State) : Prop where
  sizes : ∀ f ∈ s.frames, 14 ≤ f.length ∧ f.length ≤ 2048
  credits : s.credits = s.handled.length
  room : s.frames.length ≤ s.handled.length + 128
  handledLe : s.handled.length ≤ s.frames.length
  cq : RingHolds 128 (fun k c => c = cqeOf s.frames k) (fun c => c = ⟨1, 0, 0, none⟩) s.frames.length
    s.cqRing
  rq : RingHolds 128 (fun k buf => HoldsFrame (frameAt s.frames k) buf) (fun _ => True) s.frames.length
    s.rqData
  calls : s.handled = (List.range s.handled.length).map (expected cfg s.frames)
  pc : PcOk cfg s.dev s.sqData s.sqRing s.frames s.seen s.handled.length s.pc

variable {cfg : Config} {s s' : State}

theorem InCall.receive {mem : Nat → UInt8} {ring : Nat → Option Seg} {frames : List (List UInt8)} {j : Nat}
    {rung : List UInt32} {sent : List UInt8} {c : Call} (h : InCall cfg mem ring frames n j rung sent c) :
    InCall cfg mem ring (frames ++ [frame]) n j rung sent c := by
  have hframe := @frameAt_append frames frame n h.lt
  have hexp := @expected_append frames frame n cfg h.lt
  refine ⟨?_, h.origin, hframe ▸ h.dataSz, h.sqData, hexp ▸ h.segs, hexp ▸ h.ring, h.rung, h.data⟩
  rw [length_append]
  exact lt_of_lt_of_le h.lt (le_add_right _ _)

theorem PcOk.receive {mem : Nat → UInt8} {ring : Nat → Option Seg} {frames : List (List UInt8)}
    {seen : Nat} {pc : Pc} (h : PcOk cfg d mem ring frames seen n pc) :
    PcOk cfg d mem ring (frames ++ [frame]) seen n pc := by
  have hlen : frames.length ≤ (frames ++ [frame]).length := by simp
  cases pc
  case asleep | entry | check | arm | stepCq => exact h
  case read => exact ⟨h.1, lt_of_lt_of_le h.2 hlen⟩
  case copy c =>
    obtain ⟨hctx, hlt, hc⟩ := h
    refine ⟨hctx, lt_of_lt_of_le hlt hlen, ?_⟩
    rw [hc, ← @cqeOf_append frames frame n hlt]
  case credit c =>
    refine ⟨h.1, ?_⟩
    rw [frameAt_append h.2.lt, expected_append h.2.lt]
    exact h.2.receive
  all_goals
    refine ⟨h.1, ?_⟩
    rw [frameAt_append h.2.lt]
    exact h.2.receive

theorem receive_inv (h : Inv cfg s) (hs : receive s frame = some s') : Inv cfg s' := by
  unfold receive at hs
  dsimp only at hs
  split at hs <;> cases hs
  rename_i hcond
  obtain ⟨hroom, hmin, hmax⟩ := hcond
  have hcred := h.credits
  have hcq : RingHolds 128 (fun k c => c = cqeOf (s.frames ++ [frame]) k)
      (fun c => c = ⟨1, 0, 0, none⟩) s.frames.length s.cqRing :=
    h.cq.mono fun k c hk hc => hc.trans (cqeOf_append hk).symm
  have hrq : RingHolds 128 (fun k buf => HoldsFrame (frameAt (s.frames ++ [frame]) k) buf)
      (fun _ => True) s.frames.length s.rqData :=
    h.rq.mono fun k buf hk hbuf => by
      rw [frameAt_append hk]
      exact hbuf
  refine ⟨?_, hcred, ?_, ?_, ?_, ?_, ?_, h.pc.receive⟩
  · intro f hf
    rcases mem_append.mp hf with hf | hf
    · exact h.sizes f hf
    · rw [mem_singleton.mp hf]
      exact ⟨hmin, hmax⟩
  · show (s.frames ++ [frame]).length ≤ s.handled.length + 128
    rw [length_append, length_singleton]
    omega
  · show s.handled.length ≤ (s.frames ++ [frame]).length
    rw [length_append]
    exact le_trans h.handledLe (le_add_right _ _)
  · dsimp only
    rw [length_append, length_singleton]
    exact hcq.write rfl
  · dsimp only
    rw [length_append, length_singleton]
    refine hrq.write ?_
    rw [frameAt_last]
    exact overlay_holds _ _
  · show s.handled = _
    refine h.calls.trans (map_congr_left fun k hk => ?_)
    have hk := mem_range.mp hk
    exact (expected_append (lt_of_lt_of_le hk h.handledLe)).symm

/-- **The device sees a completion as new exactly if it was written.** -/
theorem check_new (h : Inv cfg s) : (s.cqRing (s.handled.length % 128)).owner ≠ ownerBit s.handled.length ↔
      s.handled.length < s.frames.length := by
  have hle := h.handledLe
  have hroom := h.room
  rcases lt_or_ge s.handled.length s.frames.length with hlt | hge
  · have hcqe := h.cq.recent hlt (by omega)
    rw [hcqe]
    refine ⟨fun _ => hlt, fun _ => ?_⟩
    show UInt8.ofNat (s.handled.length / 128 % 2) ≠ ownerBit s.handled.length
    unfold ownerBit
    rcases mod_two_eq_zero_or_one (s.handled.length / 128) with heven | hodd
    · rw [heven]
      decide
    · rw [hodd]
      decide
  · have heq : s.frames.length = s.handled.length := by omega
    refine ⟨fun hnew => absurd ?_ hnew, fun hlt => absurd hlt (by omega)⟩
    have hnext := h.cq.read_next (by decide)
    rw [heq] at hnext
    rcases hnext with ⟨hlap, hcqe⟩ | ⟨hfirst, hcqe⟩
    · -- the slot still has the completion of the lap before
      rw [hcqe]
      show UInt8.ofNat ((s.handled.length - 128) / 128 % 2) = ownerBit s.handled.length
      have hdiv : s.handled.length / 128 = (s.handled.length - 128) / 128 + 1 := by omega
      unfold ownerBit
      rw [hdiv]
      rcases mod_two_eq_zero_or_one ((s.handled.length - 128) / 128) with heven | hodd
      · rw [heven, if_neg (by omega)]
        rfl
      · rw [hodd, if_pos (by omega)]
        rfl
    · rw [hcqe]
      unfold ownerBit
      rw [if_pos (by omega)]

/-! ## The steps of the handler -/

theorem Inv.of_pc (h : Inv cfg s) {mem : Nat → UInt8} {ring : Nat → Option Seg} {d : Dev} {pc : Pc}
    {seen : Nat} {armed : List UInt32} (hpc : PcOk cfg d mem ring s.frames seen s.handled.length pc) :
    Inv cfg { s with sqData := mem, sqRing := ring, dev := d, pc := pc, seen := seen, armed := armed } :=
  ⟨h.sizes, h.credits, h.room, h.handledLe, h.cq, h.rq, h.calls, hpc⟩

theorem expected_seg_fst {frames : List (List UInt8)} {j : Nat} {g : Nat × Option Seg}
    (hg : g ∈ (expected cfg frames n).segs.take j) : ∃ i < j, g.1 = (4 * n + i) % 512 := by
  obtain ⟨i, hi, rfl⟩ := mem_take_iff_getElem.1 hg
  have hlen : (expected cfg frames n).segs.length = 3 := rfl
  refine ⟨i, by omega, ?_⟩
  obtain rfl | rfl | rfl : i = 0 ∨ i = 1 ∨ i = 2 := by omega
  all_goals rfl

theorem InCall.post {mem : Nat → UInt8} {ring : Nat → Option Seg} {frames : List (List UInt8)} {j : Nat}
    {sent : List UInt8} {c : Call} {seg : Seg}
    (hc : Ctx d n (n + 1) (4 * n + j) n ∧ InCall cfg mem ring frames n j [] sent c)
    (hseg : (expected cfg frames n).segs[j]? = some ((4 * n + j) % 512, some seg)) :
    Ctx (getNextSqe d).2 n (n + 1) (4 * n + (j + 1)) n ∧
      InCall cfg mem (update ring (getNextSqe d).1.toNat (some seg)) frames n (j + 1) [] sent
        { c with segs := c.segs ++ [(getNextSqe d).1.toNat] } := by
  obtain ⟨hctx, hcall⟩ := hc
  obtain ⟨hidx, hctx'⟩ := getNextSqe_ctx hctx
  have htake : (expected cfg frames n).segs.take (j + 1) =
      (expected cfg frames n).segs.take j ++ [((4 * n + j) % 512, some seg)] := by
    rw [take_add_one, hseg]
    rfl
  have hj : j < 3 := (List.getElem?_eq_some_iff.1 hseg).1
  refine ⟨hctx', hcall.lt, hcall.origin, hcall.dataSz, hcall.sqData, ?_, fun g hg => ?_, hcall.rung,
    hcall.data⟩
  · rw [hidx, htake, map_append, ← hcall.segs]
    rfl
  · rw [hidx]
    rw [htake] at hg
    rcases mem_append.1 hg with hold | hnew
    · obtain ⟨i, hi, hfst⟩ := expected_seg_fst hold
      rw [update_of_ne (by omega)]
      exact hcall.ring g hold
    · rw [mem_singleton.1 hnew]
      exact update_self ..

theorem credit_inv {c : Call} (h : Inv cfg s)
    (hpc : PcOk cfg s.dev s.sqData s.sqRing s.frames s.seen s.handled.length (.credit c)) :
    Inv cfg { s with
      credits := s.credits + 1
      handled := s.handled ++ [⟨c.origin, c.sqData.toNat,
        (range c.dataSz.toNat).map fun i => s.sqData (c.sqData.toNat + i),
        c.segs.map fun idx => (idx, s.sqRing idx), c.rung⟩]
      pc := .stepCq } := by
  obtain ⟨hctx, hcall⟩ := hpc
  obtain ⟨hmin, hmax⟩ := h.sizes _ (frameAt_mem hcall.lt)
  have hlen : c.dataSz.toNat = (swapped (frameAt s.frames s.handled.length)).length := by
    rw [hcall.dataSz, toNat_ofNat', swapped_length (by omega), mod_eq_of_lt (by omega)]
  have hsegs : (c.segs.map fun idx => (idx, s.sqRing idx)) =
      (expected cfg s.frames s.handled.length).segs := by
    rw [hcall.segs, map_map]
    refine (map_congr_left fun g hg => ?_).trans (map_id _)
    exact Prod.ext rfl (hcall.ring g hg)
  have hrecord : (⟨c.origin, c.sqData.toNat,
      (range c.dataSz.toNat).map fun i => s.sqData (c.sqData.toNat + i),
      c.segs.map fun idx => (idx, s.sqRing idx), c.rung⟩ : Handled) =
        expected cfg s.frames s.handled.length := by
    rw [hlen, map_range_of_holds hcall.data, hsegs, hcall.origin, hcall.sqData, hcall.rung]
    rfl
  rw [hrecord]
  refine ⟨h.sizes, ?_, ?_, ?_, h.cq, h.rq, ?_, ?_⟩
  · show s.credits + 1 = (s.handled ++ [_]).length
    rw [h.credits, length_append, length_singleton]
  · show s.frames.length ≤ (s.handled ++ [_]).length + 128
    have hroom := h.room
    rw [length_append, length_singleton]
    omega
  · show (s.handled ++ [_]).length ≤ s.frames.length
    rw [length_append, length_singleton]
    exact hcall.lt
  · dsimp only
    rw [length_append, length_singleton, range_succ, map_append, ← h.calls]
    rfl
  · dsimp only
    rw [length_append, length_singleton]
    exact ⟨s.handled.length, rfl, hctx⟩

theorem handlerStep_inv (h : Inv cfg s) (hs : handlerStep cfg s = some s') : Inv cfg s' := by
  have hpc := h.pc
  unfold handlerStep at hs
  split at hs <;> rename_i heq <;> rw [heq] at hpc
  · cases hs
  · -- entry
    cases hs
    refine h.of_pc ?_
    rcases hpc with ⟨hzero, hn⟩ | hctx
    · rw [hzero]
      exact .inl ⟨rfl, hn⟩
    · rw [hctx.isInitalized]
      exact hctx
  · -- check
    cases hs
    have hctx : Ctx s.dev _ _ _ _ := hpc
    have hnew := check_new h
    refine h.of_pc ?_
    rw [hctx.cqe, hctx.owner]
    split
    · rename_i howner
      exact ⟨hctx, hnew.mp howner⟩
    · rename_i howner
      exact ⟨hctx, Nat.le_of_not_lt fun hlt => howner (hnew.mpr hlt)⟩
  · -- read
    cases hs
    obtain ⟨hctx, hlt⟩ := hpc
    have hroom := h.room
    refine h.of_pc ⟨hctx, hlt, ?_⟩
    rw [hctx.cqe, h.cq.recent hlt (by omega)]
    rfl
  · -- copy
    cases hs
    obtain ⟨hctx, hlt, rfl⟩ := hpc
    have hroom := h.room
    obtain ⟨hmin, hmax⟩ := h.sizes _ (frameAt_mem hlt)
    obtain ⟨hoff, hctx'⟩ := getNextDte_ctx hctx
    have hslot : ((cqeOf s.frames s.handled.length).wqeCounter.toUInt32 &&& IDX_MASK).toNat =
        s.handled.length % 128 := by
      have hcnt : (cqeOf s.frames s.handled.length).wqeCounter.toUInt32 =
          ofNat (s.handled.length % 2 ^ 16) := by
        rw [← UInt32.toNat_inj, UInt16.toNat_toUInt32, UInt32.toNat_ofNat', mod_eq_of_lt (by omega)]
        rfl
      rw [hcnt, and_idxMask]
      omega
    have hsz : (cqeOf s.frames s.handled.length).byteCnt.toNat =
        (frameAt s.frames s.handled.length).length := by
      show (ofNat _).toNat = _
      rw [toNat_ofNat', mod_eq_of_lt (by omega)]
    refine h.of_pc ⟨hctx', hlt, rfl, rfl, hoff, rfl, fun _ hg => absurd hg not_mem_nil, rfl, ?_⟩
    dsimp only
    rw [hslot, hsz]
    exact memcpy_holds (h.rq.recent hlt (by omega)) _ _
  · -- swap
    cases hs
    obtain ⟨hctx, hcall⟩ := hpc
    obtain ⟨hmin, -⟩ := h.sizes _ (frameAt_mem hcall.lt)
    exact h.of_pc ⟨hctx, { hcall with data := swapMacs_holds (by omega) hcall.data }⟩
  · -- the control segment
    cases hs
    exact h.of_pc (InCall.post (j := 0) hpc (by rw [hpc.1.sqPi]; rfl))
  · -- the Ethernet segment
    cases hs
    exact h.of_pc (InCall.post (j := 1) hpc rfl)
  · -- the data segment
    cases hs
    exact h.of_pc (InCall.post (j := 2) hpc (by rw [hpc.2.dataSz, hpc.2.sqData]; rfl))
  · -- the fourth segment is skipped
    cases hs
    exact h.of_pc ⟨(getNextSqe_ctx hpc.1).2, hpc.2⟩
  · -- the doorbell
    cases hs
    obtain ⟨hctx, hcall⟩ := hpc
    have hpi : s.dev.sqPi + 1 = ofNat (s.handled.length + 1) := by rw [hctx.sqPi, ofNat_succ]
    refine h.of_pc ⟨{ hctx with sqPi := hpi }, ⟨hcall.lt, hcall.origin, hcall.dataSz, hcall.sqData,
      hcall.segs, hcall.ring, ?_, hcall.data⟩⟩
    dsimp only
    rw [hcall.rung, hpi]
    rfl
  · -- the credit
    cases hs
    exact credit_inv h hpc
  · -- step_cq
    cases hs
    obtain ⟨m, hm, hctx⟩ := hpc
    refine h.of_pc ?_
    have hctx' := stepCq_ctx hctx
    rw [← hm] at hctx'
    exact hctx'
  · -- arm
    cases hs
    exact h.of_pc (.inr hpc.1)

theorem step_inv {ev : Ev} (h : Inv cfg s) (hs : step cfg s ev = some s') : Inv cfg s' := by
  cases ev with
  | receive frame => exact receive_inv h hs
  | deviceInit =>
    simp only [step] at hs
    split at hs <;> cases hs
    rename_i hinit
    refine h.of_pc ?_
    -- before the initialisation the thread does nothing but to go back to sleep
    have hno : ∀ {m tx seg pi}, ¬ Ctx s.dev m tx seg pi := fun hctx => hinit hctx.isInitalized
    have hold := h.pc
    cases hpc : s.pc <;> rw [hpc] at hold
    case asleep | entry =>
      obtain ⟨hzero, hn⟩ := hold.resolve_right hno
      rw [hn]
      exact .inr (deviceInit_ctx (by rw [hzero]; rfl))
    case check => exact absurd hold hno
    case stepCq =>
      obtain ⟨m, -, hctx⟩ := hold
      exact absurd hctx hno
    all_goals exact absurd hold.1 hno
  | activate =>
    simp only [step] at hs
    split at hs <;> cases hs
    rename_i hpc
    have hold := h.pc
    rw [hpc] at hold
    exact h.of_pc hold
  | run => exact handlerStep_inv h hs

theorem init_inv (cfg : Config) : Inv cfg State.init :=
  ⟨nofun, rfl, zero_le _, le_refl _, .empty fun _ => rfl, .empty fun _ => trivial, rfl, .inl ⟨rfl, rfl⟩⟩

/-- **The L2 reflector handles every packet exactly once and in order**, and arms the queue only when
    the last check saw nothing to handle. -/
theorem reflect_exactly_once (h : Reach (step cfg) (fun _ _ => True) State.init s) :
    s.handled = (List.range s.handled.length).map (expected cfg s.frames) ∧
      s.handled.length ≤ s.frames.length ∧ (s.pc = .arm → s.seen ≤ s.handled.length) := by
  have hinv : Inv cfg s := h.invariant (init_inv cfg) fun _ _ _ hi _ hs => step_inv hi hs
  refine ⟨hinv.calls, hinv.handledLe, fun hpc => ?_⟩
  have harm := hinv.pc
  rw [hpc] at harm
  exact harm.2

/-! ### A run -/

def sampleFrame : List UInt8 := [1, 2, 3, 4, 5, 6, 7, 8, 9, 10, 11, 12, 8, 0, 42]

def sampleRun : List Ev :=
  [.activate, .run, .deviceInit, .receive sampleFrame, .activate] ++ List.replicate 4 .run ++
    .receive (sampleFrame ++ [7]) :: List.replicate 20 .run

theorem reflect_exactly_once_two :
    ∃ s, Reach (step ⟨5, 9, 4096⟩) (fun _ _ => True) State.init s ∧ s.handled.length = 2 ∧ s.pc = .arm ∧
      s.handled = (List.range 2).map (expected ⟨5, 9, 4096⟩ s.frames) ∧ s.seen ≤ 2 := by
  have hreach : Reach (step ⟨5, 9, 4096⟩) (fun _ _ => True) State.init _ :=
    .run (l := sampleRun) (fun _ _ => trivial) .init rfl
  obtain ⟨hcalls, -, harm⟩ := reflect_exactly_once hreach
  exact ⟨_, hreach, rfl, rfl, hcalls, harm rfl⟩

end Doca.L2Reflector
