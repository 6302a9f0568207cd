import Doca.DpaAllToAll.Phases

/-!
# All-to-all: hosts and rounds

The invariant of the exchange and the steps of the hosts. The barrier keeps the ranks within one
round of each other (`HostOk`), so a rank that has waited for the event of another one in its round
knows that both are in the same round (`ExInv.got`).

* `RankOk`, `HostOk` — sequence numbers, barrier and completion events.
* `WritesOk` — the writes posted so far.
* `ExInv` — the invariant; `ExInv.of_rank`, `inv_fill`, `inv_launch`, `inv_complete`, `inv_observe`,
  `inv_enterBarrier`, `inv_leaveBarrier` — it is kept by the hosts.
-/

namespace Doca.DpaAllToAll

open Doca.Lib Function

variable {J : Job}

/-! ## The invariant -/

def Host.InRound (h : Host) : Prop := h = .running ∨ h = .waited

def AllDone (J : Job) (thread : Nat × Nat → Thread) (r : Nat) : Prop :=
  ∀ t < J.threads r, thread (r, t) = .done

structure RankOk (host : Host) (seq : UInt64) (rounds arrived : Nat) (comp : UInt64)
    (allDone : Prop) : Prop where
  seq_eq : seq = UInt64.ofNat rounds
  between : ¬ host.InRound → rounds = arrived
  inRound : host.InRound → rounds = arrived + 1
  idle : host ≠ .running → allDone
  comp_eq : (comp = seq ∧ allDone) ∨ (comp = seq - 1 ∧ host = .running)

structure HostOk (J : Job) (host : Nat → Host) (seqNum : Nat → UInt64) (rounds arrived : Nat → Nat)
    (comp : Nat → UInt64) (thread : Nat × Nat → Thread) : Prop where
  rank : ∀ r, RankOk (host r) (seqNum r) (rounds r) (arrived r) (comp r) (AllDone J thread r)
  ready : ∀ r < J.numRanks, host r = .ready → ∀ q < J.numRanks, arrived r ≤ arrived q
  cross : ∀ r < J.numRanks, ∀ q < J.numRanks, rounds r ≤ arrived q + 1

def ThreadOk (J : Job) (r t : Nat) : Thread → Prop
  | .post i | .wait i => i % J.threads r = t
  | .signal i | .sync i => i % J.threads r = t ∧ i < J.numRanks
  | .done => True

def PastWait (q : Nat) : Thread → Prop
  | .post _ | .signal _ => False
  | .wait i => q < i
  | .sync i => q ≤ i
  | .done => True

def Posted (dst : Nat) : Thread → Prop
  | .post i => dst < i
  | .signal i => dst ≤ i
  | _ => True

structure WritesOk (J : Job) (rounds : Nat → Nat) (thread : Nat × Nat → Thread)
    (writes : List Write) : Prop where
  ranks : ∀ w ∈ writes, w.src < J.numRanks ∧ w.dst < J.numRanks
  place : ∀ w ∈ writes, w.addr = J.recvbuf w.dst + w.src * J.block ∧ w.len = J.block
  past : ∀ w ∈ writes, w.round ≤ rounds w.src
  posted : ∀ w ∈ writes, w.round = rounds w.src → Posted w.dst (thread (w.src, w.dst % J.threads w.src))
  once : writes.Pairwise fun v w => v.round = w.round → v.src = w.src → v.dst ≠ w.dst

structure ExInv (J : Job) (s : State) : Prop where
  hosts : HostOk J s.host s.seqNum s.rounds s.arrived s.comp s.thread
  threads : ∀ r t, t < J.threads r → ThreadOk J r t (s.thread (r, t))
  conn : ∀ src < J.numRanks, ∀ dst < J.numRanks, ∃ ph, ConnOk J src dst (s.rounds src)
    (s.seqNum src) (s.given src (s.rounds src)) (s.thread (src, dst % J.threads src))
    (s.pending (src, dst)) (s.event ⟨dst, src⟩) (s.mem dst) ph
  got : ∀ r < J.numRanks, ∀ q < J.numRanks, (s.host r).InRound →
    PastWait q (s.thread (r, q % J.threads r)) → s.rounds q = s.rounds r ∧ s.event ⟨r, q⟩ = s.seqNum r
  source : ∀ r < J.numRanks, s.host r = .running → ∀ o < J.bufSize,
    s.mem r (J.sendbuf r + o) = s.given r (s.rounds r) o
  writes : WritesOk J s.rounds s.thread s.writes

theorem exInv_start (mem : Nat → Nat → UInt8) : ExInv J (State.start mem) where
  hosts := by
    refine ⟨fun r => ?_, fun _ _ _ _ _ => Nat.le_refl _, fun _ _ _ _ => Nat.zero_le _⟩
    constructor <;> simp [State.start, AllDone, Host.InRound]
  threads := by
    intro r t _
    trivial
  conn := by
    intro src _ dst _
    exact ⟨.finished, ⟨⟨rfl, rfl⟩, fun _ h => absurd rfl h, rfl⟩⟩
  got := by
    rintro r _ q _ (h | h) <;> cases h
  source := by
    rintro r _ h
    cases h
  writes := by
    constructor <;> simp [State.start]

section Events

variable {s s' : State} {r : Nat}

theorem recv_ne_send (dst : Nat) {src b o : Nat} (hsrc : src < J.numRanks) (hb : b < J.block)
    (ho : o < J.bufSize) : J.recvbuf dst + (src * J.block + b) ≠ J.sendbuf dst + o := by
  have hle := Job.block_le hsrc
  have hdisj := J.disjoint dst
  change J.sendbuf dst + J.bufSize ≤ J.recvbuf dst ∨ J.recvbuf dst + J.bufSize ≤ J.sendbuf dst at hdisj
  omega

/-! ### Hosts -/

theorem not_waitGt_self (x : UInt64) : waitGt x x = false := by
  simp [waitGt]

section

variable (hinv : ExInv J s)

include hinv

theorem ExInv.of_rank (r : Nat) (host : Host) (arrived : Nat) (comp : UInt64)
    (hrank : RankOk host (s.seqNum r) (s.rounds r) arrived comp (AllDone J s.thread r))
    (harrived : s.arrived r ≤ arrived)
    (hready : host = .ready → ∀ q < J.numRanks, arrived ≤ s.arrived q)
    (hin : host.InRound → (s.host r).InRound) (hrun : host = .running → s.host r = .running) :
    ExInv J { s with
      host := update s.host r host
      arrived := update s.arrived r arrived
      comp := update s.comp r comp } := by
  have hmono : ∀ q, s.arrived q ≤ update s.arrived r arrived q := by
    intro q
    by_cases hq : q = r
    · subst hq
      simpa using harrived
    · simp [update_of_ne hq]
  refine ⟨⟨?_, ?_, ?_⟩, hinv.threads, hinv.conn, ?_, ?_, hinv.writes⟩
  · intro q
    by_cases hq : q = r
    · subst hq
      simpa only [update_self] using hrank
    · simpa only [update_of_ne hq] using hinv.hosts.rank q
  · intro q hqn hq' p hp
    apply Nat.le_trans _ (hmono p)
    by_cases hq : q = r
    · subst hq
      simp only [update_self] at hq' ⊢
      exact hready hq' p hp
    · simp only [update_of_ne hq] at hq' ⊢
      exact hinv.hosts.ready q hqn hq' p hp
  · intro q hq p hp
    have hcross := hinv.hosts.cross q hq p hp
    have hle := hmono p
    dsimp only
    omega
  · intro q hqn p hp hq' hpast
    refine hinv.got q hqn p hp ?_ hpast
    by_cases hq : q = r
    · subst hq
      exact hin (by simpa using hq')
    · simpa [update_of_ne hq] using hq'
  · intro q hqn hq'
    refine hinv.source q hqn ?_
    by_cases hq : q = r
    · subst hq
      exact hrun (by simpa using hq')
    · simpa [update_of_ne hq] using hq'

theorem inv_fill {contents : List UInt8} (h : fill J s r contents = some s') : ExInv J s' := by
  obtain ⟨⟨hrun, hlen⟩, rfl⟩ := of_guard h
  refine ⟨hinv.hosts, hinv.threads, ?_, hinv.got, ?_, hinv.writes⟩
  · intro src hsrc dst hdst
    obtain ⟨ph, hph⟩ := hinv.conn src hsrc dst hdst
    refine ⟨ph, hph.of_mem ?_⟩
    intro b hb
    by_cases hd : dst = r
    · subst hd
      simp only [update_self]
      apply store_outside
      rw [hlen]
      have hne := fun o ho => recv_ne_send (o := o) dst hsrc hb ho
      by_contra hcon
      exact hne (J.recvbuf dst + (src * J.block + b) - J.sendbuf dst) (by omega) (by omega)
    · simp only [update_of_ne hd]
  · intro q hq hqrun o ho
    have hne : q ≠ r := by
      rintro rfl
      exact hrun hqrun
    simp only [update_of_ne hne]
    exact hinv.source q hq hqrun o ho

theorem inv_complete (h : complete J s r = some s') : ExInv J s' := by
  obtain ⟨⟨hrun, hdone⟩, rfl⟩ := of_guard h
  have hr := hinv.hosts.rank r
  have hnext := hinv.of_rank r (s.host r) (s.arrived r) (s.seqNum r)
    ⟨hr.seq_eq, hr.between, hr.inRound, hr.idle, .inl ⟨rfl, hdone⟩⟩ (Nat.le_refl _)
    (by simp [hrun]) (fun h => h) (fun h => h)
  simpa only [update_eq_self] using hnext

theorem inv_observe (h : observe s r = some s') : ExInv J s' := by
  obtain ⟨⟨hrun, hgt⟩, rfl⟩ := of_guard h
  have hr := hinv.hosts.rank r
  -- the completion event has the number of this round, so the kernel is done
  have hdone : s.comp r = s.seqNum r ∧ AllDone J s.thread r := by
    rcases hr.comp_eq with hset | ⟨hold, -⟩
    · exact hset
    · rw [hold, not_waitGt_self] at hgt
      cases hgt
  have hround := hr.inRound (.inl hrun)
  have hnext := hinv.of_rank r .waited (s.arrived r) (s.comp r)
    ⟨hr.seq_eq, by simp [Host.InRound], fun _ => hround, fun _ => hdone.2, .inl hdone⟩
    (Nat.le_refl _) (by simp) (fun _ => .inl hrun) (by simp)
  simpa only [update_eq_self] using hnext

theorem inv_enterBarrier (h : enterBarrier s r = some s') : ExInv J s' := by
  obtain ⟨hwaited, rfl⟩ := of_guard h
  have hr := hinv.hosts.rank r
  have hround := hr.inRound (.inr hwaited)
  have hnext := hinv.of_rank r .barrier (s.arrived r + 1) (s.comp r)
    ⟨hr.seq_eq, fun _ => hround, by simp [Host.InRound],
      fun _ => hr.idle (by simp [hwaited]), .inl (hr.comp_eq.resolve_right (by simp [hwaited]))⟩
    (by omega) (by simp) (by simp [Host.InRound]) (by simp)
  simpa only [update_eq_self] using hnext

theorem inv_leaveBarrier (h : leaveBarrier J s r = some s') : ExInv J s' := by
  obtain ⟨⟨hbar, hall⟩, rfl⟩ := of_guard h
  have hr := hinv.hosts.rank r
  have hround := hr.between (by simp [hbar, Host.InRound])
  have hnext := hinv.of_rank r .ready (s.arrived r) (s.comp r)
    ⟨hr.seq_eq, fun _ => hround, by simp [Host.InRound], fun _ => hr.idle (by simp [hbar]),
      .inl (hr.comp_eq.resolve_right (by simp [hbar]))⟩
    (Nat.le_refl _) (fun _ => hall) (by simp [Host.InRound]) (by simp)
  simpa only [update_eq_self] using hnext

theorem ExInv.conn_finished {src dst : Nat} (hsrc : src < J.numRanks)
    (hdst : dst < J.numRanks) (hdone : AllDone J s.thread src) :
    ConnOk J src dst (s.rounds src) (s.seqNum src) (s.given src (s.rounds src)) .done
      (s.pending (src, dst)) (s.event ⟨dst, src⟩) (s.mem dst) .finished := by
  obtain ⟨ph, hph⟩ := hinv.conn src hsrc dst hdst
  rw [hdone _ (Nat.mod_lt _ (J.threads_pos src))] at hph
  have hfin : ph = .finished := hph.phase
  rwa [hfin] at hph

end

theorem inv_launch (hr : r < J.numRanks) (hinv : ExInv J s) (h : launch J s r = some s') : ExInv J s' := by
  obtain ⟨hready, rfl⟩ := of_guard h
  have hrank := hinv.hosts.rank r
  have hidle : AllDone J s.thread r := hrank.idle (by simp [hready])
  have hrounds : s.rounds r = s.arrived r := hrank.between (by simp [hready, Host.InRound])
  have hbelow := hinv.hosts.ready r hr hready
  have hother : ∀ q, q ≠ r → ∀ t, (if q = r then Thread.post t else s.thread (q, t)) =
      s.thread (q, t) := fun q hq t => if_neg hq
  refine ⟨⟨?_, ?_, ?_⟩, ?_, ?_, ?_, ?_, ?_⟩
  · intro q
    by_cases hq : q = r
    · subst hq
      simp only [update_self]
      refine ⟨?_, by simp [Host.InRound], fun _ => by omega, by simp, ?_⟩
      · rw [hrank.seq_eq, UInt64.ofNat_add]
        rfl
      · right
        rw [(hrank.comp_eq.resolve_right (by simp [hready])).1]
        exact ⟨by grind, rfl⟩
    · simpa only [update_of_ne hq, AllDone, hother q hq] using hinv.hosts.rank q
  · intro q hqn hq' p hp
    have hq : q ≠ r := by
      rintro rfl
      simp at hq'
    simp only [update_of_ne hq] at hq'
    exact hinv.hosts.ready q hqn hq' p hp
  · intro q hqn p hp
    by_cases hq : q = r
    · subst hq
      have := hbelow p hp
      simp only [update_self]
      omega
    · simp only [update_of_ne hq]
      exact hinv.hosts.cross q hqn p hp
  · intro q t ht
    by_cases hq : q = r
    · subst hq
      simp only [if_true, ThreadOk]
      exact Nat.mod_eq_of_lt ht
    · simp only [hother q hq]
      exact hinv.threads q t ht
  · intro src hsrc dst hdst
    by_cases hs : src = r
    · subst hs
      have hfin := hinv.conn_finished hsrc hdst hidle
      refine ⟨.fresh, ⟨⟨hfin.ops.1, ?_⟩, fun hne => absurd rfl hne, ?_⟩⟩
      · simp only [update_self, hfin.ops.2]
        grind
      · dsimp only
        rw [if_pos rfl]
        refine ⟨?_, fun _ => rfl⟩
        intro hlt
        have := Nat.mod_le dst (J.threads src)
        omega
    · simp only [update_of_ne hs, hother src hs]
      exact hinv.conn src hsrc dst hdst
  · intro q hqn p hp hin hpast
    by_cases hq : q = r
    · subst hq
      simp only [if_true, PastWait] at hpast
    · simp only [update_of_ne hq, hother q hq] at hin hpast ⊢
      obtain ⟨hsame, hev⟩ := hinv.got q hqn p hp hin hpast
      -- a rank that has left the barrier is not yet waited for by a rank that has not entered it
      have hp' : p ≠ r := by
        rintro rfl
        have := (hinv.hosts.rank q).inRound hin
        have := hbelow q hqn
        omega
      simp only [update_of_ne hp']
      exact ⟨hsame, hev⟩
  · intro q hqn hq' o ho
    by_cases hq : q = r
    · subst hq
      simp only [update_self]
    · simp only [update_of_ne hq] at hq' ⊢
      exact hinv.source q hqn hq' o ho
  · have hw := hinv.writes
    refine ⟨hw.ranks, hw.place, ?_, ?_, hw.once⟩
    · intro w hwm
      have hpast := hw.past w hwm
      by_cases hs : w.src = r
      · rw [hs] at hpast ⊢
        simp only [update_self]
        omega
      · simpa only [update_of_ne hs] using hpast
    · intro w hwm hround
      have hpast := hw.past w hwm
      by_cases hs : w.src = r
      · rw [hs] at hpast hround
        simp only [update_self] at hround
        omega
      · simp only [update_of_ne hs, hother _ hs] at hround ⊢
        exact hw.posted w hwm hround

end Events

end Doca.DpaAllToAll
