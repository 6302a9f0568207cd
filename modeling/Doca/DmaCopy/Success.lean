import Doca.DmaCopy.Invariant

/-!
# DMA copy: what a success of the host means

* `Understood` — no message is taken for one of another kind.

Principal results: `copy_success_iff`, `copy_truncated`.
-/

namespace Doca.DmaCopy

open Doca.Lib

/-- The kind of message that a program in front of a receive takes the next one for. -/
def HostPc.expects : HostPc → Option Kind
  | .recvDirection => some .direction
  | .waitDescriptor | .waitAddress | .waitLength | .waitFinal => some .status
  | _ => none

@[inherit_doc HostPc.expects]
def DpuPc.expects : DpuPc → Option Kind
  | .recvDirection => some .direction
  | .recvDescriptor => some .descriptor
  | .recvAddress => some .address
  | .recvLength => some .length
  | _ => none

def Understood (s : State) : Prop :=
  (∀ k m, s.host.expects = some k → s.toHost.next? = some m → accepts k m = true → m.kind = k) ∧
    ∀ k m, s.dpu.expects = some k → s.toDpu.next? = some m → accepts k m = true → m.kind = k

variable {c : Setup} {s : State}

theorem host_understands (h : Inv c s) {k : Kind} {m : Msg} (hk : s.host.expects = some k)
    (hm : s.toHost.next? = some m) (hacc : accepts k m = true) : m.kind = k := by
  have hok := h.host
  have hscript := h.toHost.next hm
  have wait : ∀ {n j : Nat}, HostAt c s n j → 1 ≤ j → m.kind = .status := by
    intro n j hat hj
    rw [hat.taken] at hscript
    rcases hscript.status hj with rfl | rfl
    · rfl
    · rfl
  unfold HostOk at hok
  cases hpc : s.host with
  | recvDirection =>
    rw [hpc] at hk hok
    cases hk
    rw [HostAt.taken hok] at hscript
    rcases hscript with rfl | ⟨_, rfl⟩
    · cases hacc
    · split <;> rfl
  | waitDescriptor | waitAddress | waitLength | waitFinal =>
    rw [hpc] at hk hok
    cases hk
    exact wait hok (by decide)
  | connect | validate | sendDirection | prepare | alloc | exportPci | sendDescriptor d | fill
  | sendAddress | sendLength | save | leaving r n | returned r =>
    rw [hpc] at hk
    cases hk

theorem dpu_understands (h : Inv c s) {k : Kind} {m : Msg} (hk : s.dpu.expects = some k)
    (hm : s.toDpu.next? = some m) : m.kind = k := by
  have hok := h.dpu
  have hscript := h.toDpu.next hm
  unfold DpuOk at hok
  cases hpc : s.dpu with
  | recvDirection =>
    rw [hpc] at hk hok
    cases hk
    rw [DpuStart.taken hok] at hscript
    cases hscript
    split <;> rfl
  | recvDescriptor =>
    rw [hpc] at hk hok
    cases hk
    rw [DpuAt.taken hok] at hscript
    exact hscript
  | recvAddress =>
    rw [hpc] at hk hok
    cases hk
    rw [DpuAt.taken hok] at hscript
    obtain ⟨⟨addr, rfl, _⟩, _⟩ := hscript
    rfl
  | recvLength =>
    rw [hpc] at hk hok
    cases hk
    rw [DpuAt.taken hok] at hscript
    cases hscript
    rfl
  | allocateResources | listen | tooBig | sendDirection | alloc | ackDescriptor | createMmap
  | ackAddress | ackLength | remoteBuf | localBuf | fill | submit | save | sendFinal | failing r n
  | leaving r n | returned r =>
    rw [hpc] at hk
    cases hk

def Setup.Readable (c : Setup) : Prop :=
  (c.hostFile.isSome → c.hostReadable) ∧ (c.dpuFile.isSome → c.dpuReadable)

theorem readable_iff (h : c.hostFound ≠ c.dpuFound) :
    c.hostFile.isSome ≠ c.dpuFile.isSome ↔ c.Readable := by
  unfold Setup.hostFound Setup.dpuFound Setup.hostShown Setup.dpuShown at h
  unfold Setup.Readable
  revert h
  cases c.hostReadable <;> cases c.dpuReadable <;> cases c.hostFile <;> cases c.dpuFile <;> simp

/-- **A success of the host means that the copy is complete**, unless a file could not be read or bytes
    were lost when the new one was closed. -/
theorem copy_success_iff (h : Reach (copyStep c) (fun _ _ => True) (State.init c) s) :
    Understood s ∧ (s.host = .returned .success →
      c.content.length ≤ c.maxBufSize.toNat ∧ s.copied = true ∧
        (c.hostFile.isSome ≠ c.dpuFile.isSome ∧ s.destFile c = some c.content ↔
          c.Readable ∧ s.lost = false)) := by
  have hinv : Inv c s := inv_reach h
  refine ⟨⟨fun _ _ hk hm hacc => host_understands hinv hk hm hacc,
    fun _ _ hk hm _ => dpu_understands hinv hk hm⟩, fun hpc => ?_⟩
  have hdone : Done c s := by
    have hok := hinv.host
    unfold HostOk at hok
    rw [hpc] at hok
    exact hok rfl
  refine ⟨?_, hdone.copied, and_congr (readable_iff hdone.negotiated.1) hdone.dest⟩
  rw [content_length hdone.negotiated]
  exact UInt64.le_iff_toNat_le.mp hdone.negotiated.2

def twoBytes : Setup where
  hostFile := some [7, 8]
  dpuFile := none
  hostReadable := true
  dpuReadable := true
  maxBufSize := 10
  hostMem _ := 0
  dpuMem _ := 0
  hostLen f h := by
    cases h
    decide
  dpuLen f h := by cases h

def unreadable : Setup :=
  { twoBytes with
    dpuFile := some [9]
    dpuReadable := false
    dpuLen := fun f h => by
      cases h
      decide }

/-- A run in which nothing fails, except possibly the `fclose` of the new file. -/
def plainRun (closeFails : Option Nat) : List CopyEvent :=
  let ok : DocaError := .success
  [.host (.call ok), .host (.call ok), .dpu (.allocateResources ok ok ok), .dpu (.call ok),
    .dpu (.recv .again), .host (.send ok), .dpu (.recv ok), .dpu (.send ok), .host (.recv ok),
    .host (.prepare ok ok ok), .host (.alloc ⟨ok, some 100, ok, ok⟩), .host (.exportPci ok [1, 2, 3]),
    .host (.send ok), .dpu (.alloc ⟨ok, some 200, ok, ok⟩), .dpu (.recv ok), .dpu (.send ok),
    .dpu (.call ok), .host (.recv ok), .host (.fill ⟨true, 2⟩), .host (.send ok), .dpu (.recv ok),
    .dpu (.send ok), .host (.recv ok), .host (.send ok), .dpu (.recv ok), .dpu (.send ok),
    .host (.recv ok), .dpu (.call ok), .dpu (.call ok), .dpu (.submit ⟨ok, ok, ok, ok, ok, []⟩),
    .dpu (.save ⟨true, 2, closeFails⟩), .dpu (.send ok), .host (.recv ok), .host (.release [ok, ok])]

theorem copy_success_iff_plain : ∃ s : State, s.host = .returned .success ∧
    twoBytes.hostFile.isSome ≠ twoBytes.dpuFile.isSome ∧ s.destFile twoBytes = some twoBytes.content := by
  have hreach : Reach (copyStep twoBytes) (fun _ _ => True) (State.init twoBytes) _ :=
    .of_run (l := plainRun none) .init rfl
  exact ⟨_, rfl, ((copy_success_iff hreach).2 rfl).2.2.mpr ⟨⟨fun _ => rfl, fun _ => rfl⟩, rfl⟩⟩

/-- **Bytes lost when the file is closed go unnoticed, and a file that cannot be read is overwritten.** -/
theorem copy_truncated :
    (∃ s, run (copyStep twoBytes) (State.init twoBytes) (plainRun (some 0)) = some s ∧
      s.host = .returned .success ∧ s.destFile twoBytes = some [] ∧ twoBytes.content = [7, 8]) ∧
    ∃ s, run (copyStep unreadable) (State.init unreadable) (plainRun none) = some s ∧
      s.host = .returned .success ∧ unreadable.dpuFile = some [9] ∧ s.dpuFile = some [7, 8] :=
  ⟨⟨_, rfl, rfl, rfl, rfl⟩, _, rfl, rfl, rfl, rfl⟩

end Doca.DmaCopy
