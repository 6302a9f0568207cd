import Doca.DpaAllToAll.Connect
import Mathlib.Algebra.Order.BigOperators.Group.Finset

/-!
# All-to-all: no deadlock, and the right endpoints

How far a process has got with each of the others determines what it has sent, which receives it has
posted and what its endpoints are connected with (`Inv`), in every run, failures included. A process
that waits needs its partner to have come to a certain statement of its own visit (`needs`), which is
never later than the statement it waits at itself; so two processes that visit each other cannot both
wait, and among processes that all wait two visit each other (`exists_mutual`).

* `inv_step`, `inv_of_reach` — the invariant.
* `next_of_needs` — the next statement can be taken once the partner is far enough.
* `connect_deadlockFree` — the main result.
-/

namespace Doca.DpaAllToAll

open Doca.Lib Function Option Finset

variable {numRanks : Nat} {exported : Nat → Nat → List UInt8}

def Pc.rank : Pc → Nat
  | .exportDetails => 0
  | .isendLen => 1
  | .isendAddr => 2
  | .irecvLen => 3
  | .waitRecvLen => 4
  | .malloc => 5
  | .irecvAddr => 6
  | .waitRecvAddr => 7
  | .connect => 8
  | .waitSendLen => 9
  | .waitSendAddr => 10
  | .free => 11

theorem Pc.rank_le (pc : Pc) : pc.rank ≤ 11 := by
  cases pc <;> simp [Pc.rank]

/-- How far a process has got in its visit of partner `i`; 12 when the visit is over. -/
def prog (p : Proc) (i : Nat) : Nat :=
  if i < p.i then 12 else if i = p.i then p.pc.rank else 0

theorem prog_of_lt {p : Proc} {i : Nat} (h : i < p.i) : prog p i = 12 := if_pos h

theorem prog_of_eq {p : Proc} {i : Nat} (h : p.i = i) : prog p i = p.pc.rank := by
  simp [prog, h]

@[simp] theorem prog_self (p : Proc) : prog p p.i = p.pc.rank := prog_of_eq rfl

/-- `p'` has come one statement further with its partner, and not with any other. -/
structure Advances (p p' : Proc) : Prop where
  other : ∀ i, i ≠ p.i → prog p' i = prog p i
  partner : prog p' p.i = p.pc.rank + 1
  work : 12 * p'.i + p'.pc.rank = 12 * p.i + p.pc.rank + 1
  result : p'.result = p.result

theorem Advances.of_rank {p p' : Proc} (hi : p'.i = p.i) (hpc : p'.pc.rank = p.pc.rank + 1)
    (hres : p'.result = p.result) : Advances p p' := by
  refine ⟨?_, ?_, by omega, hres⟩
  · intro i hne
    simp [prog, hi, hne]
  · rw [← hi, prog_self, hpc]

theorem Advances.of_free {p p' : Proc} (hpc : p.pc = .free) (hi : p'.i = p.i + 1)
    (hpc' : p'.pc = .exportDetails) (hres : p'.result = p.result) : Advances p p' := by
  refine ⟨?_, ?_, ?_, hres⟩
  · intro i hne
    have hlt : i < p.i + 1 ↔ i < p.i := by omega
    simp [prog, hi, hpc', hlt, hne, Pc.rank]
  · rw [prog_of_lt (by omega), hpc]
    rfl
  · simp only [hpc, hpc', hi, Pc.rank]
    omega

/-! ## The invariant -/

def Tracks {α : Type} (procs : Nat → Proc) (k : Nat) (F before after : Nat → Nat → α) : Prop :=
  ∀ r i, F r i = if k ≤ prog (procs r) i then after r i else before r i

section Tracks

variable {α : Type} {procs : Nat → Proc} {k r : Nat} {F F' before after : Nat → Nat → α} {p' : Proc}

section

variable (h : Tracks procs k F before after)

include h

theorem Tracks.keep (ha : Advances (procs r) p') (hk : (procs r).pc.rank + 1 ≠ k) :
    Tracks (update procs r p') k F before after := by
  intro r' i
  rw [h r' i]
  by_cases hr : r' = r
  · subst hr
    rw [update_self]
    by_cases hi : i = (procs r').i
    · subst hi
      rw [ha.partner, prog_self]
      congr 1
      apply propext
      omega
    · rw [ha.other i hi]
  · rw [update_of_ne hr]

theorem Tracks.cross (ha : Advances (procs r) p')
    (hk : (procs r).pc.rank + 1 = k) (hat : F' r (procs r).i = after r (procs r).i)
    (helse : ∀ r' i, ¬ (r' = r ∧ i = (procs r).i) → F' r' i = F r' i) :
    Tracks (update procs r p') k F' before after := by
  intro r' i
  by_cases hr : r' = r
  · subst hr
    rw [update_self]
    by_cases hi : i = (procs r').i
    · subst hi
      rw [hat, ha.partner, if_pos (by omega)]
    · rw [helse _ _ (fun hc => hi hc.2), h, ha.other i hi]
  · rw [helse _ _ (fun hc => hr hc.1), h, update_of_ne hr]

theorem Tracks.same (hp : ∀ i, prog p' i = prog (procs r) i) :
    Tracks (update procs r p') k F before after := by
  intro r' i
  rw [h r' i]
  by_cases hr : r' = r
  · subst hr
    rw [update_self, hp]
  · rw [update_of_ne hr]

theorem Tracks.of_lt (hk : (procs r).pc.rank < k) : F r (procs r).i = before r (procs r).i := by
  rw [h, prog_self, if_neg (by omega)]

theorem Tracks.congr (hF : ∀ r i, F' r i = F r i) :
    Tracks procs k F' before after := fun r i => (hF r i).trans (h r i)

end

end Tracks

/-- The variables that the process of rank `r` still needs, by the statement it is at. -/
def VarsAt (exported : Nat → Nat → List UInt8) (r : Nat) (p : Proc) : Pc → Prop
  | .exportDetails | .free => True
  | .isendLen => p.localDetails = exported r p.i ∧ p.localLen = (exported r p.i).length
  | .isendAddr => p.localDetails = exported r p.i ∧ p.localLen = (exported r p.i).length ∧
      p.req0 = ⟨lenLane r p.i, 0⟩
  | .irecvLen => p.req0 = ⟨lenLane r p.i, 0⟩ ∧ p.req1 = ⟨addrLane r p.i, 0⟩
  | .waitRecvLen => p.req0 = ⟨lenLane r p.i, 0⟩ ∧ p.req1 = ⟨addrLane r p.i, 0⟩ ∧
      p.req2 = ⟨lenLane p.i r, 0⟩
  | .malloc | .irecvAddr => p.req0 = ⟨lenLane r p.i, 0⟩ ∧ p.req1 = ⟨addrLane r p.i, 0⟩ ∧
      p.remoteLen = (exported p.i r).length
  | .waitRecvAddr => p.req0 = ⟨lenLane r p.i, 0⟩ ∧ p.req1 = ⟨addrLane r p.i, 0⟩ ∧
      p.remoteLen = (exported p.i r).length ∧ p.req3 = ⟨addrLane p.i r, 0⟩
  | .connect => p.req0 = ⟨lenLane r p.i, 0⟩ ∧ p.req1 = ⟨addrLane r p.i, 0⟩ ∧
      p.remoteLen = (exported p.i r).length ∧ p.remoteDetails = exported p.i r
  | .waitSendLen => p.req0 = ⟨lenLane r p.i, 0⟩ ∧ p.req1 = ⟨addrLane r p.i, 0⟩
  | .waitSendAddr => p.req1 = ⟨addrLane r p.i, 0⟩

structure ProcOk (numRanks : Nat) (exported : Nat → Nat → List UInt8) (r : Nat) (p : Proc) : Prop where
  bound : p.i ≤ numRanks
  inLoop : 1 ≤ p.pc.rank → p.i < numRanks
  success : p.result = some .success → p.i = numRanks
  vars : VarsAt exported r p p.pc
  connected : ∀ i, p.connected i =
    if 9 ≤ prog p i then some (exported i r, (exported i r).length) else none

/-- What has been sent and posted follows from how far the processes have got. -/
structure MailOk (exported : Nat → Nat → List UInt8) (m : Mail) (procs : Nat → Proc) : Prop where
  sentLen : Tracks procs 2 (fun r i => m.sent (lenLane r i)) (fun _ _ => [])
    (fun r i => [(exported r i).length])
  sentAddr : Tracks procs 3 (fun r i => m.sent (addrLane r i)) (fun _ _ => []) (fun r i => [exported r i])
  postedLen : Tracks procs 4 (fun r i => m.posted (lenLane i r)) (fun _ _ => 0) (fun _ _ => 1)
  postedAddr : Tracks procs 7 (fun r i => m.posted (addrLane i r)) (fun _ _ => 0) (fun _ _ => 1)

structure Inv (numRanks : Nat) (exported : Nat → Nat → List UInt8) (s : Network) : Prop where
  procs : ∀ r, ProcOk numRanks exported r (s.procs r)
  mail : MailOk exported s.mail s.procs

theorem prog_start (i : Nat) : prog Proc.start i = 0 := by
  change (if i < 0 then 12 else if i = 0 then 0 else 0) = 0
  rw [if_neg (Nat.not_lt_zero i), ite_self]

theorem inv_start : Inv numRanks exported Network.start := by
  constructor
  · intro r
    constructor
    case connected =>
      intro i
      simp only [Network.start, prog_start]
      rfl
    all_goals simp [Network.start, Proc.start, Pc.rank, VarsAt]
  · constructor
    all_goals
      intro r i
      simp [Network.start, Mailbox.empty, prog_start]

/-! ## One statement -/

section Next

variable {m m' : Mail} {procs : Nat → Proc} {r : Nat} {p' : Proc}

theorem eq_of_getElem?_ite {α : Type} {c : Prop} [Decidable c] {x y : α} {k : Nat}
    (h : (if c then [x] else [])[k]? = some y) : y = x := by
  split at h
  · cases k with
    | zero => simpa using h.symm
    | succ k => simp at h
  · simp at h

theorem MailOk.len_eq (hm : MailOk exported m procs) {src : Nat} {q : Request Nat Tag} {n : Nat}
    (h : m.received (lenLane src r) q = some n) : n = (exported src r).length := by
  have hsent := Mailbox.of_received h
  rw [show m.sent (lenLane src r) = _ from hm.sentLen src r] at hsent
  exact eq_of_getElem?_ite hsent

theorem MailOk.details_eq (hm : MailOk exported m procs) {src : Nat} {q : Request Nat Tag}
    {details : List UInt8} (h : m.received (addrLane src r) q = some details) :
    details = exported src r := by
  have hsent := Mailbox.of_received h
  rw [show m.sent (addrLane src r) = _ from hm.sentAddr src r] at hsent
  exact eq_of_getElem?_ite hsent

theorem ProcOk.connected_of_advances {p : Proc} (hp : ProcOk numRanks exported r p)
    (ha : Advances p p') (hk : p.pc.rank + 1 ≠ 9) (hc : p'.connected = p.connected) (i : Nat) :
    p'.connected i =
      if 9 ≤ prog p' i then some (exported i r, (exported i r).length) else none := by
  rw [hc, hp.connected i]
  by_cases hi : i = p.i
  · subst hi
    rw [ha.partner, prog_self]
    congr 1
    apply propext
    omega
  · rw [ha.other i hi]

theorem advances_of_procStep {p : Proc} (h : procStep numRanks exported r m p = some (m', p')) :
    Advances p p' ∨ (m' = m ∧ p' = { p with result := some .success } ∧ p.pc = .exportDetails ∧
      ¬ p.i < numRanks) := by
  unfold procStep at h
  split at h <;> rename_i hpc
  case h_1 =>
    split at h
    · cases h
      exact .inl (.of_rank rfl (by simp [hpc, Pc.rank]) rfl)
    · rename_i hi
      cases h
      exact .inr ⟨rfl, rfl, hpc, hi⟩
  case h_5 | h_8 =>
    obtain ⟨x, -, hx⟩ := map_eq_some_iff.mp h
    cases hx
    exact .inl (.of_rank rfl (by simp [hpc, Pc.rank]) rfl)
  case h_10 | h_11 =>
    split at h
    · cases h
      exact .inl (.of_rank rfl (by simp [hpc, Pc.rank]) rfl)
    · cases h
  case h_12 =>
    cases h
    exact .inl (.of_free hpc rfl rfl rfl)
  all_goals
    cases h
    exact .inl (.of_rank rfl (by simp [hpc, Pc.rank]) rfl)

theorem ProcOk.of_rank {p : Proc} (hp : ProcOk numRanks exported r p) (ha : Advances p p')
    (hi : p'.i = p.i) (hk : 1 ≤ p.pc.rank ∧ p.pc.rank + 1 ≠ 9) (hc : p'.connected = p.connected)
    (hvars : VarsAt exported r p' p'.pc) : ProcOk numRanks exported r p' := by
  refine ⟨?_, ?_, ?_, hvars, hp.connected_of_advances ha hk.2 hc⟩
  · rw [hi]
    exact hp.bound
  · intro _
    rw [hi]
    exact hp.inLoop hk.1
  · rw [hi, ha.result]
    exact hp.success

theorem ProcOk.next (hp : ProcOk numRanks exported r (procs r)) (hm : MailOk exported m procs)
    (h : procStep numRanks exported r m (procs r) = some (m', p')) :
    ProcOk numRanks exported r p' := by
  have hsentLen := hm.sentLen.of_lt (r := r)
  have hsentAddr := hm.sentAddr.of_lt (r := r)
  have hpostedLen := hm.postedLen.of_lt (r := r)
  have hpostedAddr := hm.postedAddr.of_lt (r := r)
  generalize procs r = p at hp h hsentLen hsentAddr hpostedLen hpostedAddr
  have hv := hp.vars
  rcases advances_of_procStep h with ha | ⟨-, rfl, hpc, hi⟩
  case inr =>
    have hend : p.i = numRanks := Nat.le_antisymm hp.bound (Nat.le_of_not_lt hi)
    rw [hpc] at hv
    exact { hp with success := fun _ => hend, vars := hpc ▸ hv }
  have hin : 1 ≤ p.pc.rank → p.i < numRanks := hp.inLoop
  unfold procStep at h
  split at h <;> rename_i hpc
  all_goals rw [hpc] at hv hin hsentLen hsentAddr hpostedLen hpostedAddr
  case h_1 =>
    split at h
    · rename_i hi
      cases h
      exact ⟨hp.bound, fun _ => hi, hp.success, ⟨rfl, rfl⟩,
        hp.connected_of_advances ha (by simp [hpc, Pc.rank]) rfl⟩
    · cases h
      exact absurd ha.partner (by simp [prog])
  case h_2 =>
    cases h
    have hnil := hsentLen (by decide)
    exact hp.of_rank ha rfl (by simp [hpc, Pc.rank]) rfl ⟨hv.1, hv.2, by simp [hnil]⟩
  case h_3 =>
    cases h
    have hnil := hsentAddr (by decide)
    exact hp.of_rank ha rfl (by simp [hpc, Pc.rank]) rfl ⟨hv.2.2, by simp [hnil]⟩
  case h_4 =>
    cases h
    have hzero := hpostedLen (by decide)
    exact hp.of_rank ha rfl (by simp [hpc, Pc.rank]) rfl ⟨hv.1, hv.2, by simp [hzero]⟩
  case h_5 =>
    obtain ⟨n, hn, h⟩ := map_eq_some_iff.mp h
    cases h
    exact hp.of_rank ha rfl (by simp [hpc, Pc.rank]) rfl ⟨hv.1, hv.2.1, hm.len_eq hn⟩
  case h_6 =>
    cases h
    exact hp.of_rank ha rfl (by simp [hpc, Pc.rank]) rfl hv
  case h_7 =>
    cases h
    have hzero := hpostedAddr (by decide)
    exact hp.of_rank ha rfl (by simp [hpc, Pc.rank]) rfl ⟨hv.1, hv.2.1, hv.2.2, by simp [hzero]⟩
  case h_8 =>
    obtain ⟨details, hd, h⟩ := map_eq_some_iff.mp h
    cases h
    have hwhole : details.take p.remoteLen = exported p.i r := by
      rw [hm.details_eq hd, hv.2.2.1, List.take_length]
    exact hp.of_rank ha rfl (by simp [hpc, Pc.rank]) rfl ⟨hv.1, hv.2.1, hv.2.2.1, hwhole⟩
  case h_9 =>
    cases h
    refine ⟨hp.bound, fun _ => hin (by decide), hp.success, ⟨hv.1, hv.2.1⟩, ?_⟩
    intro i
    by_cases hi : i = p.i
    · subst hi
      rw [ha.partner, hpc, hv.2.2.1, hv.2.2.2]
      simp [Pc.rank]
    · simp only [update_of_ne hi, ha.other i hi, hp.connected i]
  case h_10 =>
    split at h
    · cases h
      exact hp.of_rank ha rfl (by simp [hpc, Pc.rank]) rfl hv.2
    · cases h
  case h_11 =>
    split at h
    · cases h
      exact hp.of_rank ha rfl (by simp [hpc, Pc.rank]) rfl trivial
    · cases h
  case h_12 =>
    cases h
    refine ⟨hin (by decide), fun hr => by simp [Pc.rank] at hr, ?_, trivial,
      hp.connected_of_advances ha (by simp [hpc, Pc.rank]) rfl⟩
    intro hres
    have := hp.success hres
    have := hin (by decide)
    omega

theorem MailOk.quiet (hm : MailOk exported m procs) (ha : Advances (procs r) p')
    (hquiet : (procs r).pc.rank ∉ [1, 2, 3, 6]) :
    MailOk exported m (update procs r p') := by
  simp only [List.mem_cons, List.not_mem_nil, or_false, not_or] at hquiet
  obtain ⟨h1, h2, h3, h6⟩ := hquiet
  exact ⟨hm.sentLen.keep ha (by omega), hm.sentAddr.keep ha (by omega),
    hm.postedLen.keep ha (by omega), hm.postedAddr.keep ha (by omega)⟩

theorem MailOk.next (hp : ProcOk numRanks exported r (procs r)) (hm : MailOk exported m procs)
    (h : procStep numRanks exported r m (procs r) = some (m', p')) :
    MailOk exported m' (update procs r p') := by
  rcases advances_of_procStep h with ha | ⟨rfl, rfl, -, -⟩
  case inr =>
    exact ⟨hm.sentLen.same fun _ => rfl, hm.sentAddr.same fun _ => rfl,
      hm.postedLen.same fun _ => rfl, hm.postedAddr.same fun _ => rfl⟩
  have hv := hp.vars
  unfold procStep at h
  split at h <;> rename_i hpc
  all_goals rw [hpc] at hv
  case h_1 =>
    split at h
    all_goals
      cases h
      exact hm.quiet ha (by simp [hpc, Pc.rank])
  case h_2 =>
    cases h
    have hrank : (procs r).pc.rank = 1 := by rw [hpc]; rfl
    refine ⟨hm.sentLen.cross ha (by omega) ?_ ?_, (hm.sentAddr.keep ha (by omega)).congr ?_,
      hm.postedLen.keep ha (by omega), hm.postedAddr.keep ha (by omega)⟩
    · refine Mailbox.isend_sent_self.trans ?_
      rw [hm.sentLen.of_lt (by omega), hv.2]
      rfl
    · intro r' i hne
      exact Mailbox.isend_sent_of_ne (by simpa using hne)
    · intro r' i
      apply Mailbox.isend_sent_of_ne
      simp
  case h_3 =>
    cases h
    have hrank : (procs r).pc.rank = 2 := by rw [hpc]; rfl
    refine ⟨(hm.sentLen.keep ha (by omega)).congr ?_, hm.sentAddr.cross ha (by omega) ?_ ?_,
      hm.postedLen.keep ha (by omega), hm.postedAddr.keep ha (by omega)⟩
    · intro r' i
      apply Mailbox.isend_sent_of_ne
      simp
    · refine Mailbox.isend_sent_self.trans ?_
      rw [hm.sentAddr.of_lt (by omega), hv.2.1, hv.1, List.take_length]
      rfl
    · intro r' i hne
      exact Mailbox.isend_sent_of_ne (by simpa using hne)
  case h_4 =>
    cases h
    have hrank : (procs r).pc.rank = 3 := by rw [hpc]; rfl
    refine ⟨hm.sentLen.keep ha (by omega), hm.sentAddr.keep ha (by omega),
      hm.postedLen.cross ha (by omega) ?_ ?_, (hm.postedAddr.keep ha (by omega)).congr ?_⟩
    · refine Mailbox.irecv_posted_self.trans ?_
      rw [hm.postedLen.of_lt (by omega)]
    · intro r' i hne
      exact Mailbox.irecv_posted_of_ne (by simpa [and_comm] using hne)
    · intro r' i
      apply Mailbox.irecv_posted_of_ne
      simp
  case h_7 =>
    cases h
    have hrank : (procs r).pc.rank = 6 := by rw [hpc]; rfl
    refine ⟨hm.sentLen.keep ha (by omega), hm.sentAddr.keep ha (by omega),
      (hm.postedLen.keep ha (by omega)).congr ?_, hm.postedAddr.cross ha (by omega) ?_ ?_⟩
    · intro r' i
      apply Mailbox.irecv_posted_of_ne
      simp
    · refine Mailbox.irecv_posted_self.trans ?_
      rw [hm.postedAddr.of_lt (by omega)]
    · intro r' i hne
      exact Mailbox.irecv_posted_of_ne (by simpa [and_comm] using hne)
  case h_5 | h_8 =>
    obtain ⟨x, -, h⟩ := map_eq_some_iff.mp h
    cases h
    exact hm.quiet ha (by simp [hpc, Pc.rank])
  case h_10 | h_11 =>
    split at h
    · cases h
      exact hm.quiet ha (by simp [hpc, Pc.rank])
    · cases h
  all_goals
    cases h
    exact hm.quiet ha (by simp [hpc, Pc.rank])

end Next

/-! ## Every run -/

section Runs

variable {s s' : Network} {r : Nat}

theorem step_cases {e : Move} (h : step numRanks exported s e = some s') :
    (∃ r m p, e = .next r ∧ r < numRanks ∧ (s.procs r).result = none ∧
      procStep numRanks exported r s.mail (s.procs r) = some (m, p) ∧
      s' = ⟨m, update s.procs r p⟩) ∨
    (∃ r err code, e = .fail r err ∧ r < numRanks ∧ (s.procs r).result = none ∧
      code ≠ DocaError.success ∧ s' = { s with
        procs := update s.procs r { s.procs r with result := some code } }) := by
  cases e with
  | next r =>
    simp only [step] at h
    split at h
    · rename_i hr
      obtain ⟨⟨m, p⟩, hp, h⟩ := map_eq_some_iff.mp h
      exact .inl ⟨r, m, p, rfl, hr.1, hr.2, hp, h.symm⟩
    · cases h
  | fail r err =>
    simp only [step] at h
    split at h
    · rename_i hr
      obtain ⟨code, hcode, h⟩ := map_eq_some_iff.mp h
      refine .inr ⟨r, err, code, rfl, hr.1, hr.2, ?_, h.symm⟩
      rintro rfl
      unfold procFail at hcode
      split at hcode <;> grind
    · cases h

theorem inv_step (e : Move) (hinv : Inv numRanks exported s)
    (h : step numRanks exported s e = some s') : Inv numRanks exported s' := by
  rcases step_cases h with ⟨r, m, p, -, -, -, hp, rfl⟩ | ⟨r, -, code, -, -, -, hcode, rfl⟩
  · refine ⟨fun q => ?_, hinv.mail.next (hinv.procs r) hp⟩
    by_cases hq : q = r
    · subst hq
      simpa using (hinv.procs q).next hinv.mail hp
    · simpa [update_of_ne hq] using hinv.procs q
  · have hm := hinv.mail
    refine ⟨fun q => ?_, hm.sentLen.same fun _ => rfl, hm.sentAddr.same fun _ => rfl,
      hm.postedLen.same fun _ => rfl, hm.postedAddr.same fun _ => rfl⟩
    by_cases hq : q = r
    · subst hq
      simp only [update_self]
      exact { hinv.procs q with success := fun hs => absurd (some.inj hs) hcode }
    · simpa [update_of_ne hq] using hinv.procs q

theorem inv_of_reach {G : Network → Move → Prop}
    (h : Reach (step numRanks exported) G Network.start s) : Inv numRanks exported s :=
  h.invariant inv_start fun _ e _ hi _ hs => inv_step e hi hs

/-- **The endpoints are paired in every run**, whatever fails, as long as no process returns with an
    open send. -/
theorem connected_of_reach (h : Reach (step numRanks exported) ClosesSends Network.start s) {i : Nat} {details : List UInt8}
    {len : Nat} (hc : (s.procs r).connected i = some (details, len)) :
    details = exported i r ∧ len = (exported i r).length := by
  rw [((inv_of_reach h).procs r).connected i] at hc
  split at hc
  · cases hc
    exact ⟨rfl, rfl⟩
  · cases hc

/-! ## Waiting -/

/-- How far the partner must be in its own visit before the process can take its next statement. -/
def Pc.needs : Pc → Nat
  | .waitRecvLen => 2
  | .waitRecvAddr => 3
  | .waitSendLen => 4
  | .waitSendAddr => 7
  | _ => 0

theorem Pc.needs_le_rank (pc : Pc) : pc.needs ≤ pc.rank := by
  cases pc <;> simp [Pc.needs, Pc.rank]

theorem next_of_needs (hinv : Inv numRanks exported s)
    (hneeds : (s.procs r).pc.needs ≤ prog (s.procs (s.procs r).i) r) :
    ∃ m p, procStep numRanks exported r s.mail (s.procs r) = some (m, p) := by
  have hv := (hinv.procs r).vars
  have hm := hinv.mail
  unfold procStep
  split <;> rename_i hpc
  all_goals rw [hpc] at hv hneeds
  case h_1 =>
    split <;> exact ⟨_, _, rfl⟩
  case h_5 =>
    have hrank : (s.procs r).pc.rank = 4 := by rw [hpc]; rfl
    have hposted : s.mail.posted (lenLane (s.procs r).i r) = 1 :=
      (hm.postedLen r (s.procs r).i).trans (if_pos (by rw [prog_self]; omega))
    have hsent : s.mail.sent (lenLane (s.procs r).i r) = _ :=
      (hm.sentLen (s.procs r).i r).trans (if_pos hneeds)
    rw [hv.2.2, Mailbox.received_eq_some (by omega) (by rw [hsent]; rfl)]
    exact ⟨_, _, rfl⟩
  case h_8 =>
    have hrank : (s.procs r).pc.rank = 7 := by rw [hpc]; rfl
    have hposted : s.mail.posted (addrLane (s.procs r).i r) = 1 :=
      (hm.postedAddr r (s.procs r).i).trans (if_pos (by rw [prog_self]; omega))
    have hsent : s.mail.sent (addrLane (s.procs r).i r) = _ :=
      (hm.sentAddr (s.procs r).i r).trans (if_pos hneeds)
    rw [hv.2.2.2, Mailbox.received_eq_some (by omega) (by rw [hsent]; rfl)]
    exact ⟨_, _, rfl⟩
  case h_10 =>
    have hposted : s.mail.posted (lenLane r (s.procs r).i) = 1 :=
      (hm.postedLen (s.procs r).i r).trans (if_pos hneeds)
    rw [hv.1]
    simp [Mailbox.sendDone, hposted]
  case h_11 =>
    have hposted : s.mail.posted (addrLane r (s.procs r).i) = 1 :=
      (hm.postedAddr (s.procs r).i r).trans (if_pos hneeds)
    rw [hv]
    simp [Mailbox.sendDone, hposted]
  all_goals exact ⟨_, _, rfl⟩

theorem success_of_reach (h : Reach (step numRanks exported) Succeeds Network.start s) (r : Nat) :
    (s.procs r).result = none ∨ (s.procs r).result = some .success := by
  refine h.invariant (I := fun s => ∀ r, (s.procs r).result = none ∨
    (s.procs r).result = some .success) (fun _ => .inl rfl) ?_ r
  intro s e s' hi hG hs q
  rcases step_cases hs with ⟨r, m, p, -, -, hnone, hp, rfl⟩ | ⟨r, _, _, rfl, -⟩
  · by_cases hq : q = r
    · subst hq
      simp only [update_self]
      rcases advances_of_procStep hp with ha | ⟨-, rfl, -, -⟩
      · exact .inl (ha.result.trans hnone)
      · exact .inr rfl
    · simpa [update_of_ne hq] using hi q
  · exact hG.elim

theorem blocked_visits (h : Reach (step numRanks exported) Succeeds Network.start s)
    (hr : r < numRanks) (hrun : (s.procs r).result = none) (hb : Blocked numRanks exported s r) :
    (s.procs r).i < numRanks ∧ (s.procs (s.procs r).i).result = none ∧ (s.procs (s.procs r).i).i ≤ r ∧
      prog (s.procs (s.procs r).i) r < (s.procs r).pc.needs := by
  have hinv := inv_of_reach h
  have hshort : prog (s.procs (s.procs r).i) r < (s.procs r).pc.needs := by
    apply Nat.lt_of_not_le
    intro hle
    obtain ⟨m, p, hp⟩ := next_of_needs hinv hle
    rw [Blocked, step, if_pos ⟨hr, hrun⟩, hp] at hb
    cases hb
  have hneeds := (s.procs r).pc.needs_le_rank
  have hrank := (s.procs r).pc.rank_le
  have hback : (s.procs (s.procs r).i).i ≤ r := by
    apply Nat.le_of_not_lt
    intro hlt
    rw [prog_of_lt hlt] at hshort
    omega
  refine ⟨(hinv.procs r).inLoop (by omega), ?_, hback, hshort⟩
  rcases success_of_reach h (s.procs r).i with hnone | hsucc
  · exact hnone
  · have hend := (hinv.procs _).success hsucc
    omega

/-- **The connection phase has no deadlock and pairs the right endpoints** in every run without
    failures. -/
theorem connect_deadlockFree (h : Reach (step numRanks exported) Succeeds Network.start s) :
    ((∃ r < numRanks, ¬ Finished s r) → ∃ r < numRanks, ¬ Finished s r ∧ ¬ Blocked numRanks exported s r) ∧
    ((∀ r < numRanks, Finished s r) → ∀ r < numRanks, ∀ i < numRanks,
      (s.procs r).connected i = some (exported i r, (exported i r).length)) := by
  constructor
  · rintro ⟨r₀, hr₀, hrun₀⟩
    by_contra hall
    have hblocked : ∀ r, r < numRanks ∧ (s.procs r).result = none → Blocked numRanks exported s r := by
      intro r hr
      by_contra hb
      exact hall ⟨r, hr.1, fun hf => hf hr.2, hb⟩
    obtain ⟨r, hr, hq, hmutual⟩ := exists_mutual
      (fun r => r < numRanks ∧ (s.procs r).result = none) (fun r => (s.procs r).i)
      ⟨r₀, hr₀, not_not.mp hrun₀⟩ (by
        intro r hr
        obtain ⟨hi, hnone, hback, -⟩ := blocked_visits h hr.1 hr.2 (hblocked r hr)
        exact ⟨⟨hi, hnone⟩, hback⟩)
    -- `r` and its partner visit each other, and each waits for the other to come further
    obtain ⟨-, -, -, hshort⟩ := blocked_visits h hr.1 hr.2 (hblocked r hr)
    obtain ⟨-, -, -, hshort'⟩ := blocked_visits h hq.1 hq.2 (hblocked _ hq)
    rw [prog_of_eq hmutual] at hshort
    rw [hmutual, prog_self] at hshort'
    have hle := (s.procs r).pc.needs_le_rank
    have hle' := (s.procs (s.procs r).i).pc.needs_le_rank
    omega
  · intro hall r hr i hi
    have hp := (inv_of_reach h).procs r
    have hend : (s.procs r).i = numRanks :=
      hp.success ((success_of_reach h r).resolve_left (hall r hr))
    rw [hp.connected i, if_pos]
    rw [prog_of_lt (by omega)]
    omega

def twoRanks : List Move :=
  List.flatten [ List.replicate 12 (.next 0), (List.replicate 12 [.next 1, .next 0]).flatten,
    List.replicate 12 (.next 1),
    [.next 0, .next 1]]

def namedDetails (r i : Nat) : List UInt8 := [r.toUInt8, i.toUInt8]

theorem connect_deadlockFree_two : ∃ s, Reach (step 2 namedDetails) Succeeds Network.start s ∧
    (∀ r < 2, Finished s r) ∧ (s.procs 0).connected 1 = some ([1, 0], 2) := by
  have hrun : (run (guarded (step 2 namedDetails) Succeeds) Network.start twoRanks).any
      (fun s => (s.procs 0).result.isSome && (s.procs 1).result.isSome) = true := by
    decide +kernel
  obtain ⟨s, hs, hrun⟩ := (any_eq_true _ _).mp hrun
  have hreach : Reach (step 2 namedDetails) Succeeds Network.start s := Reach.init.of_run hs
  have hfin : ∀ r < 2, Finished s r := by
    intro r hr
    simp only [Bool.and_eq_true, isSome_iff_ne_none] at hrun
    rcases (by omega : r = 0 ∨ r = 1) with rfl | rfl
    · exact hrun.1
    · exact hrun.2
  exact ⟨s, hreach, hfin, (connect_deadlockFree hreach).2 hfin 0 (by omega) 1 (by omega)⟩

/-! ## Every run ends -/

def Proc.work (p : Proc) : Nat := 12 * p.i + p.pc.rank + if p.result = none then 0 else 1

theorem work_le (hp : ProcOk numRanks exported r (s.procs r)) : (s.procs r).work ≤ 12 * numRanks + 1 := by
  have hle := (s.procs r).pc.rank_le
  have hbound := hp.bound
  have hin := hp.inLoop
  unfold Proc.work
  split <;> omega

theorem work_step {e : Move} (h : step numRanks exported s e = some s') :
    ∑ r ∈ range numRanks, (s'.procs r).work = ∑ r ∈ range numRanks, (s.procs r).work + 1 := by
  have hmove : ∀ r p, r < numRanks → p.work = (s.procs r).work + 1 →
      ∑ q ∈ range numRanks, (update s.procs r p q).work = ∑ q ∈ range numRanks, (s.procs q).work + 1 := by
    intro r p hr hp
    have hsum := sum_update (f := s.procs) (a := p) Proc.work (mem_range.mpr hr)
    omega
  rcases step_cases h with ⟨r, m, p, -, hr, hnone, hp, rfl⟩ | ⟨r, -, code, -, hr, hnone, -, rfl⟩
  · apply hmove r p hr
    rcases advances_of_procStep hp with ha | ⟨-, rfl, -, -⟩
    · have hwork := ha.work
      simp only [Proc.work, ha.result]
      omega
    · simp [Proc.work, hnone]
  · apply hmove r _ hr
    simp [Proc.work, hnone]

/-- **Every run ends**: `numRanks` processes take at most `12 * numRanks + 1` steps each. -/
theorem run_length_le {es : List Move} (h : run (step numRanks exported) Network.start es = some s) :
    es.length ≤ numRanks * (12 * numRanks + 1) := by
  have hcount : ∀ es s', run (step numRanks exported) s' es = some s →
      ∑ r ∈ range numRanks, (s.procs r).work = ∑ r ∈ range numRanks, (s'.procs r).work + es.length := by
    intro es
    induction es with
    | nil =>
      intro s' h
      cases h
      rfl
    | cons e rest ih =>
      intro s' h
      simp only [run, bind_eq_some_iff] at h
      obtain ⟨t, ht, hrest⟩ := h
      rw [ih t hrest, work_step ht, List.length_cons]
      omega
  have hreach : Reach (step numRanks exported) (fun _ _ => True) Network.start s :=
    Reach.init.run (fun _ _ => trivial) h
  have hle : ∑ r ∈ range numRanks, (s.procs r).work ≤ ∑ _r ∈ range numRanks, (12 * numRanks + 1) :=
    sum_le_sum fun r _ => work_le ((inv_of_reach hreach).procs r)
  rw [sum_const_nat fun _ _ => rfl, card_range] at hle
  have htotal := hcount es _ h
  omega

end Runs

/-- Rank 1 cannot export its second endpoint; rank 0 has been connected with the first one. -/
theorem connected_of_reach_two : [1, 0] = namedDetails 1 0 ∧ 2 = (namedDetails 1 0).length := by
  have hrun : (run (guarded (step 2 namedDetails) ClosesSends) Network.start
      (twoRanks.take 36 ++ [.fail 1 .driver])).any (fun s => (s.procs 1).result = some .driver ∧
        (s.procs 0).connected 1 = some ([1, 0], 2)) = true := by
    decide +kernel
  obtain ⟨s, hs, hc⟩ := (any_eq_true _ _).mp hrun
  exact connected_of_reach (Reach.init.of_run hs) (of_decide_eq_true hc).2

theorem run_length_le_two : twoRanks.length ≤ 50 := by
  have hrun : (run (step 2 namedDetails) Network.start twoRanks).isSome = true := by decide +kernel
  obtain ⟨s, hs⟩ := isSome_iff_exists.mp hrun
  exact run_length_le hs

end Doca.DpaAllToAll
