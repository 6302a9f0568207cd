import Doca.Lib.Reduction
import Mathlib.Data.BitVec

/-!
# All-reduce: super requests and the CPU reducer

The data of `allreduce_core.h` and the functions of `allreduce_reducer.c` (CPU build, integer
datatypes).

* `Buf w` — a vector in memory, as its elements by index; `w` is 8 for `ALLREDUCE_BYTE` and 32 for
  `ALLREDUCE_INT`, with wrap-around arithmetic.
* `allreduceReduce`, `allreduceReduceAll` — `none` where the source dereferences a null pointer or
  reads an unset array entry.

Specifications: `allreduceReduce_result`, `allreduceReduceAll_peers`.
-/

namespace Doca.AllReduce

open Doca.Lib

/-! ## Configuration -/

inductive Role where
  | client
  | daemon
  deriving DecidableEq

inductive Operation where
  | sum
  | prod
  deriving DecidableEq

structure Config where
  role : Role
  operation : Operation
  numClients : Nat
  numPeers : Nat
  deriving DecidableEq

/-! ## Vectors -/

abbrev Buf (w : Nat) := Nat → BitVec w

variable {w : Nat}

def Operation.apply : Operation → BitVec w → BitVec w → BitVec w
  | .sum => fun a b => a + b
  | .prod => fun a b => a * b

def Operation.unit : Operation → BitVec w
  | .sum => 0
  | .prod => 1

instance (o : Operation) : Std.Commutative (o.apply (w := w)) where
  comm a b := by cases o <;> simp only [Operation.apply, add_comm, mul_comm]

instance (o : Operation) : Std.Associative (o.apply (w := w)) where
  assoc a b c := by cases o <;> simp only [Operation.apply, add_assoc, mul_assoc]

instance (o : Operation) : Std.LawfulRightIdentity (o.apply (w := w)) o.unit where
  right_id a := by cases o <;> simp [Operation.apply, Operation.unit]

def reduction {ι : Type} (o : Operation) (s : Finset ι) (v : ι → Buf w) : Buf w :=
  fun k => s.fold o.apply o.unit fun j => v j k

def elementwise (f : BitVec w → BitVec w → BitVec w) (dst src : Buf w) : Nat → Buf w
  | 0 => dst
  | n + 1 =>
    let d := elementwise f dst src n
    Function.update d n (f (d n) (src n))

def summation (dst src : Buf w) (length : Nat) : Buf w :=
  elementwise (fun a b => a + b) dst src length

def product (dst src : Buf w) (length : Nat) : Buf w :=
  elementwise (fun a b => a * b) dst src length

theorem elementwise_apply (f : BitVec w → BitVec w → BitVec w) (dst src : Buf w) (n k : Nat) :
    elementwise f dst src n k = if k < n then f (dst k) (src k) else dst k := by
  induction n generalizing k with
  | zero => rfl
  | succ n ih =>
    simp only [elementwise, Function.update_apply, ih]
    by_cases hk : k = n
    · subst hk; simp
    · have hiff : k < n ↔ k < n + 1 := by omega
      simp [hk, hiff]

/-! ## Super requests -/

/-- `struct allreduce_super_request`; pool memory and the header's id are left out. -/
structure SuperRequest (w : Nat) where
  numAllreduceRequests : Nat
  allreduceRequestsList : List Nat
  numAllreduceOperations : Nat
  resultVectorOwner : Bool
  resultVector : Option (Buf w)
  peerResultVector : Option (Buf w)
  recvVectors : List (Buf w)
  resultVectorSize : Nat

def SuperRequest.recvVectorIter (sr : SuperRequest w) : Nat := sr.recvVectors.length

variable (cfg : Config)

def allreduceReduce (sr : SuperRequest w) (srcVec : Buf w) (isPeer : Bool) :
    Option (SuperRequest w) :=
  if sr.resultVectorSize = 0 then some sr
  else
    match if isPeer then sr.peerResultVector else sr.resultVector with
    | none => none
    | some dstVec =>
      let dst :=
        match cfg.operation with
        | .sum => summation dstVec srcVec sr.resultVectorSize
        | .prod => product dstVec srcVec sr.resultVectorSize
      some (if isPeer then { sr with peerResultVector := some dst }
        else { sr with resultVector := some dst })

def allreduceReduceAll (sr : SuperRequest w) (isPeers : Bool) : Option (SuperRequest w) :=
  let n :=
    if isPeers then sr.recvVectorIter
    else if sr.resultVectorOwner then cfg.numClients - 1
    else cfg.numClients
  if sr.recvVectors.length < n then none
  else (sr.recvVectors.take n).foldlM (fun sr vec => allreduceReduce cfg sr vec isPeers) sr

/-! ## Specifications -/

theorem dst_apply (dst src : Buf w) (n : Nat) : AgreeOn n (match cfg.operation with
        | .sum => summation dst src n
        | .prod => product dst src n)
      (fun k => cfg.operation.apply (dst k) (src k)) := by
  intro k hk
  cases cfg.operation <;>
    simp only [summation, product, elementwise_apply, if_pos hk, Operation.apply]

theorem allreduceReduce_result {sr : SuperRequest w} {b : Buf w}
    (hb : sr.resultVector = some b) (src : Buf w) :
    ∃ b', allreduceReduce cfg sr src false = some { sr with resultVector := some b' } ∧
      AgreeOn sr.resultVectorSize b' (fun k => cfg.operation.apply (b k) (src k)) := by
  unfold allreduceReduce
  split
  · rename_i h0
    refine ⟨b, by rw [← hb], ?_⟩
    rw [h0]
    intro k hk
    cases hk
  · simp only [Bool.false_eq_true, if_false, hb]
    exact ⟨_, rfl, dst_apply cfg b src _⟩

theorem allreduceReduce_peer {sr : SuperRequest w} {p : Buf w}
    (hp : sr.peerResultVector = some p) (src : Buf w) :
    ∃ p', allreduceReduce cfg sr src true = some { sr with peerResultVector := some p' } ∧
      AgreeOn sr.resultVectorSize p' (fun k => cfg.operation.apply (p k) (src k)) := by
  unfold allreduceReduce
  split
  · rename_i h0
    refine ⟨p, by rw [← hp], ?_⟩
    rw [h0]
    intro k hk
    cases hk
  · simp only [if_true, hp]
    exact ⟨_, rfl, dst_apply cfg p src _⟩

theorem foldlM_reduce_peer (vecs : List (Buf w)) :
    ∀ {sr : SuperRequest w} {p : Buf w}, sr.peerResultVector = some p →
      ∃ p', vecs.foldlM (fun sr vec => allreduceReduce cfg sr vec true) sr =
          some { sr with peerResultVector := some p' } ∧
        AgreeOn sr.resultVectorSize p'
          (fun k => vecs.foldl (fun acc vec => cfg.operation.apply acc (vec k)) (p k)) := by
  induction vecs with
  | nil =>
    intro sr p hp
    exact ⟨p, by rw [← hp]; rfl, AgreeOn.refl _ _⟩
  | cons vec rest ih =>
    intro sr p hp
    obtain ⟨p₁, h₁, ha₁⟩ := allreduceReduce_peer cfg hp vec
    obtain ⟨p₂, h₂, ha₂⟩ := @ih { sr with peerResultVector := some p₁ } p₁ rfl
    refine ⟨p₂, ?_, ?_⟩
    · rw [List.foldlM_cons, h₁]
      exact h₂
    · intro k hk
      have hstep : p₁ k = cfg.operation.apply (p k) (vec k) := ha₁ k hk
      refine (ha₂ k hk).trans ?_
      simp only [List.foldl_cons, hstep]

theorem allreduceReduceAll_peers {sr : SuperRequest w} {p : Buf w}
    (hp : sr.peerResultVector = some p) :
    ∃ p', allreduceReduceAll cfg sr true = some { sr with peerResultVector := some p' } ∧
      AgreeOn sr.resultVectorSize p'
        (fun k => sr.recvVectors.foldl (fun acc vec => cfg.operation.apply acc (vec k)) (p k)) := by
  simp only [allreduceReduceAll, if_true, SuperRequest.recvVectorIter, lt_irrefl, if_false,
    List.take_length]
  exact foldlM_reduce_peer cfg sr.recvVectors hp

end Doca.AllReduce
