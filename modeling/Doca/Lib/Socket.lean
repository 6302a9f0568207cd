import Mathlib.Tactic.Common

/-!
# Non-blocking stream sockets

A connected stream socket in non-blocking mode, seen by the program that reads from it.

* `RecvResult`, `Sock`, `recv` — the answers of successive calls of `recv` are fixed in advance by
  the list `pending`, in which the stream is cut into pieces in any way and calls that return
  without data stand anywhere between the pieces.  A piece larger than the request is delivered in
  parts.
* `Sock.rest` — the bytes still to come; `Sock.blocks` — the offsets of the stream at which a call
  returns without data; `Sock.work` — a bound on the calls until nothing is pending.
* `Sock.Delivered`, `Sock.Blocked` — what calls do to the socket; `recv_cases` says that a call does
  one or the other.  `Sock.CutShort` — what is left of a read of several calls that did not get all
  its bytes.
-/

namespace Doca.Lib

open List Nat

/-- The answer of `recv`; `data []` is the return value 0. -/
inductive RecvResult where
  | wouldBlock
  | failed
  | data (bytes : List UInt8)
  deriving DecidableEq

def RecvResult.bytes : RecvResult → List UInt8
  | .data bytes => bytes
  | _ => []

structure Sock where
  pos : Nat
  pending : List RecvResult
  deriving DecidableEq

def recv (want : Nat) (s : Sock) : RecvResult × Sock :=
  match s.pending with
  | [] => (.wouldBlock, s)
  | .data bytes :: pending =>
    if bytes.length ≤ want then (.data bytes, ⟨s.pos + bytes.length, pending⟩)
    else (.data (bytes.take want), ⟨s.pos + want, .data (bytes.drop want) :: pending⟩)
  | answer :: pending => (answer, ⟨s.pos, pending⟩)

def stream (pending : List RecvResult) : List UInt8 := (pending.map RecvResult.bytes).flatten

/-- The offsets at which an answer without data comes, for a list of answers that starts at `pos`. -/
def blockOffsets : Nat → List RecvResult → List Nat
  | _, [] => []
  | pos, .data (b :: bytes) :: pending => blockOffsets (pos + (b :: bytes).length) pending
  | pos, _ :: pending => pos :: blockOffsets pos pending

@[simp] theorem stream_cons (r : RecvResult) (pending : List RecvResult) :
    stream (r :: pending) = r.bytes ++ stream pending := rfl

namespace Sock

def rest (s : Sock) : List UInt8 := stream s.pending

def blocks (s : Sock) : List Nat := blockOffsets s.pos s.pending

def work (s : Sock) : Nat := s.rest.length + s.pending.length

structure Delivered (s t : Sock) (bytes : List UInt8) : Prop where
  pos : t.pos = s.pos + bytes.length
  rest : s.rest = bytes ++ t.rest
  blocks : s.blocks = t.blocks
  pending : t.pending.length ≤ s.pending.length
  noFailure : .failed ∉ s.pending → .failed ∉ t.pending

structure Blocked (s t : Sock) : Prop where
  pos : t.pos = s.pos
  rest : s.rest = t.rest
  blocks : s.pending = [] ∧ t = s ∨ s.blocks = s.pos :: t.blocks ∧ t.pending.length < s.pending.length
  noFailure : .failed ∉ s.pending → .failed ∉ t.pending

namespace Delivered

variable {s t u : Sock} {bytes more : List UInt8}

theorem refl (s : Sock) : Delivered s s [] := ⟨rfl, rfl, rfl, Nat.le_refl _, id⟩

theorem trans (h : Delivered s t bytes) (h' : Delivered t u more) : Delivered s u (bytes ++ more) := by
  refine ⟨?_, ?_, h.blocks.trans h'.blocks, Nat.le_trans h'.pending h.pending,
    fun hf => h'.noFailure (h.noFailure hf)⟩
  · rw [h'.pos, h.pos, length_append, Nat.add_assoc]
  · rw [h.rest, h'.rest, append_assoc]

theorem work (h : Delivered s t bytes) : t.work + bytes.length ≤ s.work := by
  have hp := h.pending
  rw [Sock.work, Sock.work, h.rest, length_append]
  omega

theorem take (h : Delivered s t bytes) {l tail : List UInt8} (hs : s.rest = l ++ tail)
    (hl : bytes.length = l.length) : bytes = l ∧ t.rest = tail :=
  append_inj (h.rest.symm.trans hs) hl

end Delivered

/-- A read of `n` bytes that ended early: fewer were delivered, then a call returned without data. -/
def CutShort (s t : Sock) (n : Nat) : Prop :=
  ∃ got m, got.length < n ∧ Delivered s m got ∧ Blocked m t

theorem Delivered.cutShort {s t u : Sock} {bytes : List UInt8} {n : Nat} (h : Delivered s t bytes)
    (h' : CutShort t u n) : CutShort s u (bytes.length + n) := by
  obtain ⟨got, m, hg, hd, hb⟩ := h'
  refine ⟨bytes ++ got, m, ?_, h.trans hd, hb⟩
  rw [length_append]
  omega

theorem CutShort.block {s t : Sock} {n : Nat} (h : CutShort s t n) (hn : n ≤ s.rest.length) :
    s.blocks = t.pos :: t.blocks ∧ s.pos ≤ t.pos ∧ t.pos < s.pos + n ∧ t.work < s.work ∧
      (t.pos = s.pos → t.rest = s.rest) := by
  obtain ⟨got, m, hg, hd, hb⟩ := h
  have hrest := congrArg length hd.rest
  rw [length_append] at hrest
  have hpos : t.pos = s.pos + got.length := hb.pos.trans hd.pos
  rcases hb.blocks with ⟨hm, -⟩ | ⟨hm, hlt⟩
  · have hnil : m.rest = [] := by rw [Sock.rest, hm]; rfl
    rw [hnil, length_nil] at hrest
    omega
  · refine ⟨by rw [hd.blocks, hm, hb.pos], by omega, by omega, ?_, fun h => ?_⟩
    · have hp := hd.pending
      rw [Sock.work, Sock.work, ← hb.rest]
      omega
    · have hnil : got = [] := List.length_eq_zero_iff.mp (by omega)
      rw [hd.rest, hnil, hb.rest, nil_append]

theorem CutShort.nothing {s t : Sock} {n : Nat} (h : CutShort s t n) (hs : s.rest = []) : t.rest = [] := by
  obtain ⟨got, m, -, hd, hb⟩ := h
  rw [← hb.rest]
  exact (List.append_eq_nil_iff.mp (hd.rest.symm.trans hs)).2

theorem CutShort.noFailure {s t : Sock} {n : Nat} (h : CutShort s t n)
    (hf : .failed ∉ s.pending) : .failed ∉ t.pending := by
  obtain ⟨got, m, -, hd, hb⟩ := h
  exact hb.noFailure (hd.noFailure hf)

end Sock

/-! ## The offsets of calls without data -/

theorem blockOffsets_ge : ∀ (pending : List RecvResult) (pos o : Nat),
    o ∈ blockOffsets pos pending → pos ≤ o
  | [], _, _, h => nomatch h
  | .data (b :: bytes) :: pending, pos, o, h =>
    Nat.le_trans (Nat.le_add_right _ _) (blockOffsets_ge pending (pos + (b :: bytes).length) o h)
  | .data [] :: pending, pos, o, h
  | .wouldBlock :: pending, pos, o, h
  | .failed :: pending, pos, o, h => by
    rcases List.mem_cons.mp h with rfl | h
    · exact Nat.le_refl _
    · exact blockOffsets_ge pending pos o h

theorem blockOffsets_data {bytes : List UInt8} (hb : bytes ≠ []) (pos : Nat) (pending : List RecvResult) :
    blockOffsets pos (.data bytes :: pending) = blockOffsets (pos + bytes.length) pending := by
  match bytes, hb with
  | _ :: _, _ => rfl

theorem blockOffsets_of_stream_nil : ∀ (pending : List RecvResult) (pos o : Nat),
    stream pending = [] → o ∈ blockOffsets pos pending → o = pos
  | [], _, _, _, h => nomatch h
  | .data (b :: bytes) :: pending, _, _, hs, _ => nomatch hs
  | .data [] :: pending, pos, o, hs, h
  | .wouldBlock :: pending, pos, o, hs, h
  | .failed :: pending, pos, o, hs, h => by
    rcases List.mem_cons.mp h with rfl | h
    · rfl
    · exact blockOffsets_of_stream_nil pending pos o hs h

/-! ## One call -/

theorem recv_cases {s : Sock} {want : Nat} (hw : 0 < want) (hf : .failed ∉ s.pending) :
    (∃ bytes t, recv want s = (.data bytes, t) ∧ bytes ≠ [] ∧ bytes.length ≤ want ∧ s.Delivered t bytes) ∨
    ∃ r t, recv want s = (r, t) ∧ (r = .wouldBlock ∨ r = .data []) ∧ s.Blocked t := by
  obtain ⟨pos, pending⟩ := s
  match pending, hf with
  | [], _ => exact .inr ⟨_, _, rfl, .inl rfl, rfl, rfl, .inl ⟨rfl, rfl⟩, id⟩
  | .wouldBlock :: pending, _ =>
    exact .inr ⟨_, _, rfl, .inl rfl, rfl, rfl, .inr ⟨rfl, lt_succ_self _⟩, by simp⟩
  | .failed :: pending, hf => exact absurd (mem_cons_self ..) hf
  | .data [] :: pending, _ =>
    exact .inr ⟨_, _, rfl, .inr rfl, rfl, rfl, .inr ⟨rfl, lt_succ_self _⟩, by simp⟩
  | .data (b :: bytes) :: pending, _ =>
    left
    by_cases hle : (b :: bytes).length ≤ want
    · exact ⟨b :: bytes, ⟨pos + (b :: bytes).length, pending⟩, if_pos hle, cons_ne_nil _ _,
        hle, rfl, rfl, rfl, le_succ _, by simp⟩
    · have hlen : ((b :: bytes).take want).length = want := length_take_of_le (by omega)
      have hne : (b :: bytes).drop want ≠ [] := by
        rw [Ne, drop_eq_nil_iff]
        exact hle
      refine ⟨(b :: bytes).take want, ⟨pos + want, .data ((b :: bytes).drop want) :: pending⟩,
        if_neg hle, ?_, Nat.le_of_eq hlen, by rw [hlen], ?_, ?_, Nat.le_refl _, by simp⟩
      · intro h
        rw [h, length_nil] at hlen
        omega
      · simp only [Sock.rest, stream_cons, RecvResult.bytes]
        rw [← append_assoc, take_append_drop]
      · show blockOffsets _ _ = blockOffsets _ _
        rw [blockOffsets_data hne, blockOffsets_data (cons_ne_nil _ _), length_drop]
        congr 1
        show pos + _ = pos + want + _
        omega

theorem recv_pos_le (want : Nat) (s : Sock) : s.pos ≤ (recv want s).2.pos := by
  unfold recv
  split
  · exact Nat.le_refl _
  · split <;> exact le_add_right _ _
  · exact Nat.le_refl _

end Doca.Lib
