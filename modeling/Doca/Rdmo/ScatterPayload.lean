import Doca.Lib.Bytes
import Doca.Rdmo.Scatter

/-!
# RDMO worker: the payload of a scatter request

The loop of `urom_worker_rdmo_scatter_progress` over the bytes at `req->data`: descriptors, each in
front of its data.

* `payloadIovs` — the descriptors that the loop comes to, if nothing stops it.

Principal results: `scatterWalk_loop`; `scatter_inside`.
-/

namespace Doca.Rdmo

open Doca.Lib List

/-- `sizeof(struct urom_rdmo_scatter_iov)`, with the padding behind `len`. -/
def IOV_SIZE : Nat := 24

def iovAt (mem : Nat → UInt8) (a : Nat) : Iov :=
  ⟨.ofNat (readLe mem a 8), .ofNat (readLe mem (a + 8) 8), .ofNat (readLe mem (a + 16) 2)⟩

def nextIov (mem : Nat → UInt8) (a : Nat) : Nat := a + IOV_SIZE + (iovAt mem a).len.toNat

def recordsEnd (mem : Nat → UInt8) : Nat → Nat → Nat
  | 0, a => a
  | n + 1, a => recordsEnd mem n (nextIov mem a)

def iovsFrom (mem : Nat → UInt8) : Nat → Nat → List Iov
  | 0, _ => []
  | n + 1, a => iovAt mem a :: iovsFrom mem n (nextIov mem a)

theorem iovsFrom_length (mem : Nat → UInt8) : ∀ n a, (iovsFrom mem n a).length = n
  | 0, _ => rfl
  | n + 1, a => congrArg (· + 1) (iovsFrom_length mem n (nextIov mem a))

def payloadIovs (mem : Nat → UInt8) (count : UInt64) : Iovs :=
  ⟨iovsFrom mem count.toNat 0, by rw [iovsFrom_length]; exact count.toNat_lt⟩

structure Range where
  start : Nat
  size : Nat
  deriving DecidableEq

/-- The loop for `n` more descriptors, the next at offset `a`: how it ends, and what it reads, data if it
    is copied or passed to `ucp_put_nbx`. -/
def scatterWalk (host : Host) (r : Request) (mem : Nat → UInt8) :
    Nat → Nat → UInt64 → Option Mkey → Nat → Worker → (ScatterExit × Worker) × List Range
  | 0, _, _, _, _, s => ((.done, s), [])
  | n + 1, a, prev, cur, i, s =>
    let iov := iovAt mem a
    match scatterMkey host r.client prev cur iov with
    | none => ((if iov.rkey ≠ prev then .unknownRkey else .nullMkey, s), [⟨a, IOV_SIZE⟩])
    | some m =>
      if outOfBounds m iov.addr iov.len.toUInt64 then ((.outOfBounds, s), [⟨a, IOV_SIZE⟩])
      else
        let reads := [⟨a, IOV_SIZE⟩, ⟨a + IOV_SIZE, iov.len.toNat⟩]
        let t := scatterIov host r i iov m s
        if t.1 then
          let e := scatterWalk host r mem n (nextIov mem a) iov.rkey (some m) (i + 1) t.2
          (e.1, reads ++ e.2)
        else ((.driver, t.2), reads)

def scatterReads (host : Host) (r : Request) (mem : Nat → UInt8) (count : UInt64) (s : Worker) :
    List Range :=
  if (s.ctx r).stage = 0 ∧ r.body.rndv = false then
    (scatterWalk host r mem count.toNat 0 (0 - 1) none 0 s).2
  else []

def StaysInside (length : Nat) (reads : List Range) : Prop :=
  ∀ x ∈ reads, x.start + x.size ≤ length

section Walk

variable {host : Host} {r : Request} {mem : Nat → UInt8}

/-- **The walk over the bytes is the loop over the descriptors.** -/
theorem scatterWalk_loop (n a : Nat) (prev : UInt64) (cur : Option Mkey) (i : Nat) (s : Worker) :
    (scatterWalk host r mem n a prev cur i s).1 = scatterLoop host r prev cur i (iovsFrom mem n a) s := by
  induction n generalizing a prev cur i s with
  | zero => simp only [scatterWalk, iovsFrom, scatterLoop]
  | succ n ih =>
    rw [scatterWalk, iovsFrom, scatterLoop]
    dsimp only
    cases scatterMkey host r.client prev cur (iovAt mem a) with
    | none => rfl
    | some m =>
      dsimp only
      split
      · rfl
      split
      · exact ih ..
      · rfl

end Walk

/-! ## Payloads that hold -/

/-- The key of the `i`-th descriptor is known, and its range in the region of the key.  A first key of
`UINT64_MAX` is not looked up. -/
def Admitted (host : Host) (c i : Nat) (iov : Iov) : Prop :=
  (i = 0 → iov.rkey ≠ 0 - 1) ∧ Good host c iov

/-- From the `i`-th descriptor on, at offset `a`, with `n` of them to come: behind descriptors that are
admitted there is another one in the payload, or the end of the last record. -/
def PayloadHolds (host : Host) (c : Nat) (mem : Nat → UInt8) (length n i a : Nat) : Prop :=
  ∀ k ≤ n, (∀ j < k, Admitted host c (i + j) (iovAt mem (recordsEnd mem j a))) →
    recordsEnd mem k a + (if k < n then IOV_SIZE else 0) ≤ length

section Inside

variable {host : Host} {r : Request} {c n i a length : Nat} {mem : Nat → UInt8} {prev : UInt64}
  {cur : Option Mkey} {iov : Iov}

theorem payloadHolds_zero : PayloadHolds host c mem length 0 i a ↔ a ≤ length := by
  constructor
  · intro h
    exact h 0 (Nat.le_refl 0) (fun j hj => absurd hj (Nat.not_lt_zero j))
  · intro h k hk _
    obtain rfl := Nat.le_zero.1 hk
    exact h

theorem payloadHolds_succ : PayloadHolds host c mem length (n + 1) i a ↔ a + IOV_SIZE ≤ length ∧
    (Admitted host c i (iovAt mem a) → PayloadHolds host c mem length n (i + 1) (nextIov mem a)) := by
  constructor
  · intro h
    refine ⟨h 0 (Nat.zero_le _) (fun j hj => absurd hj (Nat.not_lt_zero j)), fun hi k hk hpre => ?_⟩
    have hnext := h (k + 1) (Nat.succ_le_succ hk) fun j hj => by
      cases j with
      | zero => exact hi
      | succ j =>
        rw [← Nat.succ_add_eq_add_succ]
        exact hpre j (Nat.lt_of_succ_lt_succ hj)
    simpa only [recordsEnd, Nat.add_lt_add_iff_right] using hnext
  · rintro ⟨hfirst, hrest⟩ k hk hpre
    cases k with
    | zero => exact hfirst
    | succ k =>
      have hnext := hrest (hpre 0 (Nat.succ_pos k)) k (Nat.le_of_succ_le_succ hk) fun j hj => by
        rw [Nat.succ_add_eq_add_succ]
        exact hpre (j + 1) (Nat.succ_lt_succ hj)
      simpa only [recordsEnd, Nat.add_lt_add_iff_right] using hnext

def KeyFound (host : Host) (c i : Nat) (prev : UInt64) (cur : Option Mkey) : Prop :=
  (i = 0 ∧ prev = 0 - 1 ∧ cur = none) ∨ (i ≠ 0 ∧ cur = host.mkeys c prev)

theorem admitted_iff (h : KeyFound host c i prev cur) : Admitted host c i iov ↔
    ∃ m, scatterMkey host c prev cur iov = some m ∧ outOfBounds m iov.addr iov.len.toUInt64 = false := by
  unfold Admitted Good scatterMkey
  rcases h with ⟨hi, rfl, rfl⟩ | ⟨hi, h⟩
  · by_cases hkey : iov.rkey = 0 - 1
    · simp [hi, hkey]
    · rw [if_pos hkey]
      exact and_iff_right fun _ => hkey
  · by_cases hkey : iov.rkey = prev
    · simp [hi, hkey, h]
    · simp [hi, hkey]

theorem KeyFound.next (h : KeyFound host c i prev cur) {m : Mkey}
    (hm : scatterMkey host c prev cur iov = some m) : KeyFound host c (i + 1) iov.rkey (some m) := by
  refine .inr ⟨Nat.succ_ne_zero i, ?_⟩
  rw [scatterMkey] at hm
  split at hm
  · exact hm.symm
  · rename_i hkey
    rw [Classical.not_not.mp hkey, ← hm]
    rcases h with ⟨-, -, rfl⟩ | ⟨-, h⟩
    · cases hm
    · exact h

theorem scatterWalk_inside (h : KeyFound host r.client i prev cur) (s : Worker) :
    (PayloadHolds host r.client mem length n i a →
      StaysInside length (scatterWalk host r mem n a prev cur i s).2) ∧
    (PutsSucceed host → a ≤ length → StaysInside length (scatterWalk host r mem n a prev cur i s).2 →
      PayloadHolds host r.client mem length n i a) := by
  induction n generalizing a prev cur i s with
  | zero =>
    rw [payloadHolds_zero]
    exact ⟨fun _ => by simp [scatterWalk, StaysInside], fun _ hle _ => hle⟩
  | succ n ih =>
    rw [payloadHolds_succ]
    have hiff := @admitted_iff _ _ _ _ _ (iovAt mem a) h
    -- a descriptor that is not admitted is the last thing that is read
    have hreject : ¬ Admitted host r.client i (iovAt mem a) → ((a + IOV_SIZE ≤ length ∧
        (Admitted host r.client i (iovAt mem a) →
          PayloadHolds host r.client mem length n (i + 1) (nextIov mem a))) ↔
            StaysInside length [⟨a, IOV_SIZE⟩]) := by
      intro hno
      simp [StaysInside, hno]
    have htake : StaysInside length [⟨a, IOV_SIZE⟩, ⟨a + IOV_SIZE, (iovAt mem a).len.toNat⟩] ↔
        nextIov mem a ≤ length := by
      simp only [StaysInside, forall_mem_cons, not_mem_nil, false_implies, implies_true, and_true, nextIov]
      omega
    have hend : PayloadHolds host r.client mem length n (i + 1) (nextIov mem a) →
        nextIov mem a ≤ length := fun hp =>
      Nat.le_trans (Nat.le_add_right _ _) (hp 0 (Nat.zero_le n) fun j hj => absurd hj (Nat.not_lt_zero j))
    rw [scatterWalk]
    dsimp only
    cases hm : scatterMkey host r.client prev cur (iovAt mem a) with
    | none =>
      have hno := hreject fun hadm => by
        obtain ⟨m, hm', -⟩ := hiff.1 hadm
        rw [hm] at hm'
        cases hm'
      exact ⟨hno.1, fun _ _ => hno.2⟩
    | some m =>
      dsimp only
      split
      · rename_i hout
        have hno := hreject fun hadm => by
          obtain ⟨m', hm', hin⟩ := hiff.1 hadm
          cases hm.symm.trans hm'
          rw [hout] at hin
          cases hin
        exact ⟨hno.1, fun _ _ => hno.2⟩
      rename_i hin
      have hadm := hiff.2 ⟨m, hm, Bool.eq_false_iff.2 hin⟩
      obtain ⟨hholds, hneeds⟩ := @ih (i + 1) (nextIov mem a) _ _ (h.next hm)
        (scatterIov host r i (iovAt mem a) m s).2
      split
      · rw [StaysInside, forall_mem_append]
        refine ⟨fun hp => ⟨htake.2 (hend (hp.2 hadm)), hholds (hp.2 hadm)⟩, fun hput _ hstay => ?_⟩
        exact ⟨hstay.1 _ mem_cons_self, fun _ => hneeds hput (htake.1 hstay.1) hstay.2⟩
      · rename_i hfail
        exact ⟨fun hp => htake.2 (hend (hp.2 hadm)),
          fun hput => absurd (scatterIov_continues hput r i (iovAt mem a) m s) hfail⟩

/-- **When the walk stays inside the payload**: nothing in the code compares the records with the length
    of the message. -/
theorem scatter_inside (host : Host) (r : Request) (mem : Nat → UInt8) (length : Nat)
    (count : UInt64) (s : Worker) :
    (((s.ctx r).stage = 0 → r.body.rndv = false →
        PayloadHolds host r.client mem length count.toNat 0 0) →
      StaysInside length (scatterReads host r mem count s)) ∧
    (PutsSucceed host → StaysInside length (scatterReads host r mem count s) →
      (s.ctx r).stage = 0 → r.body.rndv = false →
        PayloadHolds host r.client mem length count.toNat 0 0) := by
  obtain ⟨hholds, hneeds⟩ := @scatterWalk_inside host r count.toNat 0 0 length mem (0 - 1) none
    (.inl ⟨rfl, rfl, rfl⟩) s
  unfold scatterReads
  split
  · rename_i hloop
    exact ⟨fun hp => hholds (hp hloop.1 hloop.2), fun hput hstay _ _ => hneeds hput (Nat.zero_le _) hstay⟩
  · rename_i hloop
    refine ⟨fun _ => ?_, fun _ _ hstage hrndv => absurd ⟨hstage, hrndv⟩ hloop⟩
    exact forall_mem_nil _

end Inside

def lateData : Nat → UInt8
  | 1 => 16
  | 8 => 7
  | 16 => 16
  | _ => 0

def lateReads : List Range :=
  scatterReads (Host.plain lowRegion fun _ _ => .ok)
    ⟨0, 0, 0, false, ⟨.scatter (payloadIovs lateData 1), false, 24⟩⟩ lateData 1 .idle

theorem scatter_inside_late : StaysInside 40 lateReads :=
  (scatter_inside _ _ _ 40 1 _).1 fun _ _ =>
    payloadHolds_succ.2 ⟨by decide, fun _ => payloadHolds_zero.2 (by decide +kernel)⟩

/-- **A payload of 24 bytes with one descriptor and no data**: the 16 bytes behind it are put. -/
theorem scatter_reads_behind : lateReads = [⟨0, 24⟩, ⟨24, 16⟩] ∧ ¬ StaysInside 24 lateReads := by
  have hreads : lateReads = [⟨0, 24⟩, ⟨24, 16⟩] := by decide +kernel
  refine ⟨hreads, fun h => ?_⟩
  rw [hreads] at h
  exact absurd (h ⟨24, 16⟩ (by simp)) (by decide)

end Doca.Rdmo
