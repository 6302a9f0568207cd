import Doca.IpsecGw.Context
import Mathlib.Data.Rat.Floor

/-!
# IPsec security gateway: the slices of the rules

Model of the loop of `run_multithread_insertion` (`ipsec_security_gw.c`) that gives each queue its slice of
the encrypt and of the decrypt rules.

* `Partition` — the slices are disjoint and make up the rules.

Principal result: `slices_partition`.

The ratio is the exact quotient; a rule count is at most `MAX_NB_RULES`, so no index or offset wraps.
-/

namespace Doca.IpsecGw

def MIN_ENTRIES_PER_CORE : Nat := 1024

/-- `encrypt_rule_offset` and `nb_encrypted_rules` of a thread, or those of the decrypt rules. -/
structure Slice where
  offset : Int
  nbRules : Int
  deriving DecidableEq

def Slice.Has (s : Slice) (r : Int) : Prop := s.offset ≤ r ∧ r < s.offset + s.nbRules

structure MultiThreadInsertionCtx where
  queueId : Nat
  encrypt : Slice
  decrypt : Slice
  deriving DecidableEq

/-- One turn of the loop for one kind of rules: the slice of queue `i`, and the next offset. -/
def sliceStep (nbRules nbQueues i : Nat) (next : Int) : Slice × Int :=
  let ratio : ℚ := nbRules / nbQueues
  if ratio < 1 then (⟨i, if i < nbRules then 1 else 0⟩, next)
  else
    let next' : Int := if i + 1 ≠ nbQueues then ⌊(i + 1 : ℕ) * ratio⌋ else nbRules
    (⟨next, next' - next⟩, next')

def insertionLoop (nbEnc nbDec nbQueues : Nat) : Nat → Nat → Int → Int → List MultiThreadInsertionCtx
  | 0, _, _, _ => []
  | n + 1, i, e, d =>
    let enc := sliceStep nbEnc nbQueues i e
    let dec := sliceStep nbDec nbQueues i d
    ⟨i, enc.1, dec.1⟩ :: insertionLoop nbEnc nbDec nbQueues n (i + 1) enc.2 dec.2

def queuesUsed (nbEnc nbDec nbQueues : Nat) : Nat :=
  min nbQueues (max (max (nbEnc / MIN_ENTRIES_PER_CORE) (nbDec / MIN_ENTRIES_PER_CORE)) 1)

/-- `run_multithread_insertion`, up to the launch of the threads; `maxLcore` is `RTE_MAX_LCORE`. -/
def runMultithreadInsertion (maxLcore nbEnc nbDec nbQueues : Nat) :
    Except DocaError (List MultiThreadInsertionCtx) :=
  if nbQueues < 1 ∨ maxLcore < nbQueues then .error .invalidValue
  else if nbEnc = 0 ∧ nbDec = 0 then .ok []
  else
    let n := queuesUsed nbEnc nbDec nbQueues
    .ok (insertionLoop nbEnc nbDec n n 0 0 0)

structure Partition (slices : List Slice) (lo hi : Int) : Prop where
  nonneg : ∀ s ∈ slices, 0 ≤ s.nbRules
  disjoint : slices.Pairwise fun s t => ∀ r, s.Has r → ¬ t.Has r
  union : ∀ r, (∃ s ∈ slices, s.Has r) ↔ lo ≤ r ∧ r < hi

theorem Partition.nil (lo : Int) : Partition [] lo lo :=
  ⟨by simp, .nil, fun r => by simp⟩

theorem Partition.cons {s : Slice} {slices : List Slice} {lo mid hi : Int} (h : Partition slices mid hi)
    (hs : ∀ r, s.Has r ↔ lo ≤ r ∧ r < mid) (hn : 0 ≤ s.nbRules) (h1 : lo ≤ mid) (h2 : mid ≤ hi) :
    Partition (s :: slices) lo hi where
  nonneg := List.forall_mem_cons.2 ⟨hn, h.nonneg⟩
  disjoint := List.pairwise_cons.2 ⟨fun t ht r hsr htr => by
    have hmid := ((h.union r).1 ⟨t, ht, htr⟩).1
    have := ((hs r).1 hsr).2
    omega, h.disjoint⟩
  union r := by
    rw [List.exists_mem_cons_iff, hs, h.union]
    omega

def cut (nbRules nbQueues i : Nat) : Nat :=
  if nbRules < nbQueues then min i nbRules else i * nbRules / nbQueues

theorem cut_mono (nbRules nbQueues : Nat) : Monotone (cut nbRules nbQueues) := by
  intro i j hij
  unfold cut
  split
  · omega
  · exact Nat.div_le_div_right (Nat.mul_le_mul_right _ hij)

/-- **One turn of the loop**: queue `i` gets the rules between two cuts. -/
theorem sliceStep_spec {nbRules nbQueues i : Nat} {next : Int} (hi : i < nbQueues)
    (hnext : nbQueues ≤ nbRules → next = cut nbRules nbQueues i) :
    let p := sliceStep nbRules nbQueues i next
    (∀ r, p.1.Has r ↔ (cut nbRules nbQueues i : Int) ≤ r ∧ r < cut nbRules nbQueues (i + 1)) ∧
      0 ≤ p.1.nbRules ∧ (nbQueues ≤ nbRules → p.2 = cut nbRules nbQueues (i + 1)) := by
  have hq : (0 : ℚ) < nbQueues := by exact_mod_cast (by omega : 0 < nbQueues)
  have hle := cut_mono nbRules nbQueues (Nat.le_add_right i 1)
  have hratio : (nbRules / nbQueues : ℚ) < 1 ↔ nbRules < nbQueues := by
    rw [div_lt_one hq, Nat.cast_lt]
  by_cases hlt : nbRules < nbQueues
  · simp only [sliceStep, if_pos (hratio.2 hlt), Slice.Has, cut, if_pos hlt]
    split <;> refine ⟨fun r => ?_, ?_, ?_⟩ <;> omega
  -- the last queue is no exception: its cut is the number of rules
  have hcut : (if i + 1 ≠ nbQueues then ⌊((i + 1 : ℕ) : ℚ) * (nbRules / nbQueues)⌋ else (nbRules : Int)) =
      cut nbRules nbQueues (i + 1) := by
    rw [cut, if_neg hlt]
    split
    · rw [← mul_div_assoc, ← Nat.cast_mul]
      exact Rat.floor_natCast_div_natCast _ _
    · rw [show i + 1 = nbQueues by omega, Nat.mul_div_cancel_left _ (by omega)]
  obtain rfl := hnext (by omega)
  simp only [sliceStep, if_neg (hratio.not.2 hlt), hcut, Slice.Has]
  refine ⟨fun r => ?_, ?_, fun _ => trivial⟩ <;> omega

def slices (nbRules nbQueues : Nat) : Nat → Nat → Int → List Slice
  | 0, _, _ => []
  | n + 1, i, next =>
    let p := sliceStep nbRules nbQueues i next
    p.1 :: slices nbRules nbQueues n (i + 1) p.2

theorem slices_spec {nbRules nbQueues n i : Nat} {next : Int} (hn : i + n = nbQueues)
    (hnext : nbQueues ≤ nbRules → next = cut nbRules nbQueues i) :
    Partition (slices nbRules nbQueues n i next) (cut nbRules nbQueues i)
      (cut nbRules nbQueues nbQueues) := by
  induction n generalizing i next with
  | zero =>
    subst hn
    exact .nil _
  | succ n ih =>
    obtain ⟨hhas, hnonneg, hnext'⟩ := sliceStep_spec (by omega) hnext
    exact (ih (by omega) hnext').cons hhas hnonneg
      (by exact_mod_cast cut_mono _ _ i.le_succ) (by exact_mod_cast cut_mono _ _ (by omega))

theorem slices_all {nbRules nbQueues : Nat} (h : 0 < nbQueues) :
    Partition (slices nbRules nbQueues nbQueues 0 0) 0 nbRules := by
  have hlast : cut nbRules nbQueues nbQueues = nbRules := by
    unfold cut
    split
    · omega
    · exact Nat.mul_div_cancel_left _ h
  have hfirst : cut nbRules nbQueues 0 = 0 := by simp [cut]
  have hspec := slices_spec (Nat.zero_add nbQueues) (fun _ => by rw [hfirst])
  rwa [hlast, hfirst] at hspec

theorem insertionLoop_slices (nbEnc nbDec nbQueues n i : Nat) (e d : Int) :
    (insertionLoop nbEnc nbDec nbQueues n i e d).map (·.encrypt) = slices nbEnc nbQueues n i e ∧
      (insertionLoop nbEnc nbDec nbQueues n i e d).map (·.decrypt) = slices nbDec nbQueues n i d := by
  induction n generalizing i e d with
  | zero => exact ⟨rfl, rfl⟩
  | succ n ih => exact ⟨congrArg _ (ih ..).1, congrArg _ (ih ..).2⟩

/-- **Multi-threaded insertion partitions the rules** of each kind among the queues that it uses. -/
theorem slices_partition (maxLcore nbEnc nbDec nbQueues : Nat) (hq : 1 ≤ nbQueues ∧ nbQueues ≤ maxLcore)
    (hrules : ¬ (nbEnc = 0 ∧ nbDec = 0)) :
    ∃ ctxs, runMultithreadInsertion maxLcore nbEnc nbDec nbQueues = .ok ctxs ∧
      Partition (ctxs.map (·.encrypt)) 0 nbEnc ∧ Partition (ctxs.map (·.decrypt)) 0 nbDec := by
  have hpos : 0 < queuesUsed nbEnc nbDec nbQueues := by unfold queuesUsed; omega
  refine ⟨_, by rw [runMultithreadInsertion, if_neg (by omega), if_neg hrules], ?_⟩
  rw [(insertionLoop_slices ..).1, (insertionLoop_slices ..).2]
  exact ⟨slices_all hpos, slices_all hpos⟩

/-- 5000 encrypt rules and one decrypt rule: four of the 16 queues are used. -/
theorem slices_partition_four : ∃ ctxs, runMultithreadInsertion 128 5000 1 16 = .ok ctxs ∧
    Partition (ctxs.map (·.encrypt)) 0 (5000 : Nat) ∧ Partition (ctxs.map (·.decrypt)) 0 (1 : Nat) :=
  slices_partition 128 5000 1 16 (by decide) (by decide)

end Doca.IpsecGw
