import Doca.DpaAllToAll.Rounds

/-!
# All-to-all: every schedule delivers every block

For any number of ranks, threads and rounds and any interleaving of hosts, kernel threads and
operations in flight: the steps of the kernel and of the connections keep the invariant, and when a
host is past `dpa_a2a_req_wait` all blocks of the round are in its receive buffer.

* `inv_thread` — the statements of `alltoall_kernel`, from one lemma for each.
* `ExInv.got_of_waitGt` — an event above the previous sequence number is of the same round.
* `inv_deliver` — operations that take effect.
* `exchange_correct` — the main result.
-/

namespace Doca.DpaAllToAll

open Doca.Lib Function Nat

variable {J : Job}

section Events

variable {s s' : State} {r : Nat}

/-! ### Threads of the kernel -/

theorem ExInv.running (hinv : ExInv J s) {t : Nat} (ht : t < J.threads r)
    (hactive : s.thread (r, t) ≠ .done) : s.host r = .running := by
  by_contra hne
  exact hactive ((hinv.hosts.rank r).idle hne t ht)

theorem WritesOk.move {t : Nat} {th : Thread} (hw : WritesOk J s.rounds s.thread s.writes)
    (hpost : ∀ dst, Posted dst (s.thread (r, t)) → Posted dst th) :
    WritesOk J s.rounds (update s.thread (r, t) th) s.writes := by
  refine ⟨hw.ranks, hw.place, hw.past, ?_, hw.once⟩
  intro w hwm hround
  have hold := hw.posted w hwm hround
  by_cases hk : (w.src, w.dst % J.threads w.src) = (r, t)
  · rw [hk] at hold ⊢
    rw [update_self]
    exact hpost _ hold
  · rwa [update_of_ne hk]

theorem WritesOk.append {rounds : Nat → Nat} {thread : Nat × Nat → Thread} {writes : List Write}
    {w : Write} (hw : WritesOk J rounds thread writes)
    (hranks : w.src < J.numRanks ∧ w.dst < J.numRanks)
    (hplace : w.addr = J.recvbuf w.dst + w.src * J.block ∧ w.len = J.block)
    (hpast : w.round ≤ rounds w.src)
    (hposted : Posted w.dst (thread (w.src, w.dst % J.threads w.src)))
    (hnew : ∀ v ∈ writes, v.round = w.round → v.src = w.src → v.dst ≠ w.dst) :
    WritesOk J rounds thread (writes ++ [w]) := by
  have hall : ∀ (P : Write → Prop), (∀ v ∈ writes, P v) → P w → ∀ v ∈ writes ++ [w], P v := by
    intro P hold hlast v hv
    rcases List.mem_append.mp hv with hv | hv
    · exact hold v hv
    · rwa [List.mem_singleton.mp hv]
  refine ⟨hall _ hw.ranks hranks, hall _ hw.place hplace, hall _ hw.past hpast,
    hall _ hw.posted fun _ => hposted, ?_⟩
  refine List.pairwise_append.mpr ⟨hw.once, List.pairwise_singleton _ _, ?_⟩
  intro v hv u hu
  rw [List.mem_singleton.mp hu]
  exact hnew v hv

theorem ExInv.of_thread (hinv : ExInv J s) {t : Nat} (ht : t < J.threads r) (th : Thread)
    (pending : Nat × Nat → List Op) (writes : List Write) (hactive : s.thread (r, t) ≠ .done)
    (hok : ThreadOk J r t th)
    (hpend : ∀ src dst, ¬ (src = r ∧ dst % J.threads r = t) → pending (src, dst) = s.pending (src, dst))
    (hconn : ∀ dst < J.numRanks, dst % J.threads r = t → ∀ ph,
      ConnOk J r dst (s.rounds r) (s.seqNum r) (s.given r (s.rounds r)) (s.thread (r, t))
        (s.pending (r, dst)) (s.event ⟨dst, r⟩) (s.mem dst) ph →
      ∃ ph', ConnOk J r dst (s.rounds r) (s.seqNum r) (s.given r (s.rounds r)) th
        (pending (r, dst)) (s.event ⟨dst, r⟩) (s.mem dst) ph')
    (hgot : ∀ q < J.numRanks, q % J.threads r = t → PastWait q th →
      s.rounds q = s.rounds r ∧ s.event ⟨r, q⟩ = s.seqNum r)
    (hwrites : WritesOk J s.rounds (update s.thread (r, t) th) writes) :
    ExInv J { s with
      thread := update s.thread (r, t) th
      pending := pending
      writes := writes } := by
  have hrun := hinv.running ht hactive
  have hother : ∀ q u, ¬ (q = r ∧ u = t) → update s.thread (r, t) th (q, u) = s.thread (q, u) := by
    intro q u hne
    apply update_of_ne
    rintro ⟨⟩
    exact hne ⟨rfl, rfl⟩
  refine ⟨⟨?_, hinv.hosts.ready, hinv.hosts.cross⟩, ?_, ?_, ?_, hinv.source, hwrites⟩
  · intro q
    have hq := hinv.hosts.rank q
    by_cases hqr : q = r
    · subst hqr
      have hcomp := hq.comp_eq.resolve_left fun hall => hactive (hall.2 t ht)
      exact ⟨hq.seq_eq, hq.between, hq.inRound, fun hne => absurd hrun hne, .inr hcomp⟩
    · have hsame : AllDone J (update s.thread (r, t) th) q = AllDone J s.thread q := by
        simp only [AllDone, hother q _ (fun hc => hqr hc.1)]
      rw [hsame]
      exact hq
  · intro q u hu
    by_cases hk : q = r ∧ u = t
    · obtain ⟨rfl, rfl⟩ := hk
      simpa only [update_self] using hok
    · simpa only [hother q u hk] using hinv.threads q u hu
  · intro src hsrc dst hdst
    obtain ⟨ph, hph⟩ := hinv.conn src hsrc dst hdst
    by_cases hk : src = r ∧ dst % J.threads r = t
    · obtain ⟨rfl, hmod⟩ := hk
      simp only [hmod, update_self] at hph ⊢
      exact hconn dst hdst hmod ph hph
    · refine ⟨ph, ?_⟩
      have hk' : ¬ (src = r ∧ dst % J.threads src = t) := by
        rintro ⟨rfl, hmod⟩
        exact hk ⟨rfl, hmod⟩
      simpa only [hother src _ hk', hpend src dst hk] using hph
  · intro q hqn p hp hin hpast
    by_cases hk : q = r ∧ p % J.threads r = t
    · obtain ⟨rfl, hmod⟩ := hk
      simp only [hmod, update_self] at hpast
      exact hgot p hp hmod hpast
    · have hk' : ¬ (q = r ∧ p % J.threads q = t) := by
        rintro ⟨rfl, hmod⟩
        exact hk ⟨rfl, hmod⟩
      simp only [hother q _ hk'] at hpast
      exact hinv.got q hqn p hp hin hpast

theorem ExInv.got_of_waitGt (hinv : ExInv J s) (hr : r < J.numRanks) {i : Nat}
    (hi : i < J.numRanks) (hrun : s.host r = .running)
    (hgt : waitGt (s.event ⟨r, i⟩) (s.seqNum r - 1) = true) :
    s.rounds i = s.rounds r ∧ s.event ⟨r, i⟩ = s.seqNum r := by
  have hrank := hinv.hosts.rank r
  have hranki := hinv.hosts.rank i
  have hround := hrank.inRound (.inl hrun)
  have hcross := hinv.hosts.cross r hr i hi
  have hcross' := hinv.hosts.cross i hi r hr
  by_cases hsame : s.rounds i = s.rounds r
  · refine ⟨hsame, ?_⟩
    have hseq : s.seqNum i = s.seqNum r := by rw [hranki.seq_eq, hrank.seq_eq, hsame]
    obtain ⟨ph, hph⟩ := hinv.conn i hi r hr
    rcases hph.event_cases with hev | hev
    · rw [hev, hseq, not_waitGt_self] at hgt
      cases hgt
    · rw [hev, hseq]
  · -- the sender has not started this round: its event still has the previous number
    exfalso
    have hbetween : ¬ (s.host i).InRound := by
      intro hin
      have := hranki.inRound hin
      omega
    have harrived := hranki.between hbetween
    have hdone : AllDone J s.thread i := by
      apply hranki.idle
      intro hruni
      exact hbetween (.inl hruni)
    have hev := (hinv.conn_finished hi hr hdone).ops.2
    have hseq : s.seqNum r - 1 = s.seqNum i := by
      rw [hrank.seq_eq, hranki.seq_eq, show s.rounds r = s.rounds i + 1 by omega, UInt64.ofNat_add]
      grind
    rw [hev, hseq, not_waitGt_self] at hgt
    cases hgt

theorem le_of_mod_eq {n i j : Nat} (hmod : i % n = j % n) (hlt : i < j + n) : i ≤ j := by
  have hi := div_add_mod i n
  have hj := div_add_mod j n
  rw [hmod] at hi
  by_contra hgt
  have hdiv : j / n < i / n := by
    apply Nat.lt_of_not_le
    intro hle
    have := Nat.mul_le_mul_left n hle
    omega
  have := mul_le_mul_left n (succ_le_of_lt hdiv)
  rw [mul_succ] at this
  omega

theorem ExInv.of_move (hinv : ExInv J s) {t : Nat} (ht : t < J.threads r) (th : Thread)
    (hactive : s.thread (r, t) ≠ .done) (hok : ThreadOk J r t th)
    (hphase : ∀ dst < J.numRanks, dst % J.threads r = t → ∀ ph,
      ConnOk J r dst (s.rounds r) (s.seqNum r) (s.given r (s.rounds r)) (s.thread (r, t))
        (s.pending (r, dst)) (s.event ⟨dst, r⟩) (s.mem dst) ph → PhaseAt dst ph th)
    (hgot : ∀ q < J.numRanks, q % J.threads r = t → PastWait q th →
      s.rounds q = s.rounds r ∧ s.event ⟨r, q⟩ = s.seqNum r)
    (hpost : ∀ dst, Posted dst (s.thread (r, t)) → Posted dst th) :
    ExInv J (s.setThread r t th) := by
  refine hinv.of_thread ht th s.pending s.writes hactive hok (fun _ _ _ => rfl) ?_ hgot
    (hinv.writes.move hpost)
  intro dst hdst hmod ph hph
  exact ⟨ph, hph.move fun _ => hphase dst hdst hmod ph hph⟩

section ThreadSteps

variable {t i : Nat}

section

variable (hinv : ExInv J s) (ht : t < J.threads r)

include hinv ht

theorem inv_firstLoop (hth : s.thread (r, t) = .post i)
    (hi : ¬ i < J.numRanks) : ExInv J (s.setThread r t (.wait t)) := by
  have hself : ∀ q, q % J.threads r = t → ¬ q < t := by
    intro q hmod hlt
    have := mod_le q (J.threads r)
    omega
  refine hinv.of_move ht (.wait t) (by simp [hth]) (mod_eq_of_lt ht) ?_ ?_ (fun _ _ => trivial)
  · intro dst hdst hmod ph hph
    have hp := hph.phase
    rw [hth] at hp
    exact ⟨fun hlt => absurd hlt (hself dst hmod), hp.1 (by omega)⟩
  · intro q _ hmod hpast
    exact absurd hpast (hself q hmod)

section

variable (hr : r < J.numRanks)

include hr

theorem ExInv.got_thread (hactive : s.thread (r, t) ≠ .done) :
    ∀ q < J.numRanks, q % J.threads r = t → PastWait q (s.thread (r, t)) →
      s.rounds q = s.rounds r ∧ s.event ⟨r, q⟩ = s.seqNum r := by
  intro q hq hmod hpast
  exact hinv.got r hr q hq (.inl (hinv.running ht hactive)) (by rwa [hmod])

theorem inv_postWrite (hth : s.thread (r, t) = .post i) (hi : i < J.numRanks) :
    ExInv J (((s.post r i (writeOps J r i)).record ⟨s.rounds r, r, i,
      J.remoteRecvbufs r i + r * J.count * J.extent, J.extent * J.count⟩).setThread r t (.signal i)) := by
  have hactive : s.thread (r, t) ≠ .done := by simp [hth]
  have hmodi : i % J.threads r = t := by simpa only [hth, ThreadOk] using hinv.threads r t ht
  refine hinv.of_thread ht (.signal i)
    (update s.pending (r, i) (s.pending (r, i) ++ writeOps J r i)) _ hactive ⟨hmodi, hi⟩
    ?_ ?_ ?_ ?_
  · intro src dst hne
    apply update_of_ne
    rintro ⟨⟩
    exact hne ⟨rfl, hmodi⟩
  · intro dst hdst _ ph hph
    rw [hth] at hph
    by_cases hd : dst = i
    · subst hd
      rw [update_self, writeOps_eq hr hdst]
      exact ⟨_, hph.postWrite⟩
    · rw [update_of_ne (by simp [hd])]
      refine ⟨ph, hph.move fun hp => ⟨hp.1, fun heq => absurd heq hd, fun hlt => hp.2 (by omega)⟩⟩
  · rintro q _ _ ⟨⟩
  · have hw : WritesOk J s.rounds (update s.thread (r, t) (.signal i)) s.writes := by
      apply hinv.writes.move
      intro dst hposted
      rw [hth] at hposted
      exact le_of_lt hposted
    refine hw.append ⟨hr, hi⟩ ?_ (le_refl _) ?_ ?_
    · simp only [Job.remoteRecvbufs, Job.block]
      exact ⟨by rw [mul_assoc], mul_comm _ _⟩
    · dsimp only
      rw [hmodi, update_self]
      exact le_refl i
    · -- an earlier write of this round to rank `i` would have moved the thread past it
      intro v hvm hround hsrc hdst
      dsimp only at hround hsrc hdst
      have hposted := hinv.writes.posted v hvm (by rw [hround, hsrc])
      rw [hsrc, hdst, hmodi, hth] at hposted
      exact lt_irrefl i hposted

theorem inv_postSignal (hth : s.thread (r, t) = .signal i) :
    ExInv J ((s.post r i [.signal (J.remoteEvents r i) (s.seqNum r)]).setThread r t
      (.post (i + J.threads r))) := by
  have hactive : s.thread (r, t) ≠ .done := by simp [hth]
  obtain ⟨hmodi, hi⟩ : i % J.threads r = t ∧ i < J.numRanks := by
    simpa only [hth, ThreadOk] using hinv.threads r t ht
  have hpos := J.threads_pos r
  have hevent : J.remoteEvents r i = ⟨i, r⟩ := J.exports.rpKernelEvents_eq hr hi
  refine hinv.of_thread ht (.post (i + J.threads r)) (update s.pending (r, i)
      (s.pending (r, i) ++ [.signal (J.remoteEvents r i) (s.seqNum r)])) s.writes hactive
    ?_ ?_ ?_ ?_ ?_
  · rw [ThreadOk, add_mod_right, hmodi]
  · intro src dst hne
    apply update_of_ne
    rintro ⟨⟩
    exact hne ⟨rfl, hmodi⟩
  · intro dst _ hmod ph hph
    rw [hth] at hph
    by_cases hd : dst = i
    · subst hd
      rw [update_self, hevent]
      exact ⟨_, hph.postSignal hpos⟩
    · rw [update_of_ne (by simp [hd])]
      refine ⟨ph, hph.move fun hp => ⟨?_, fun hle => hp.2.2 (by omega)⟩⟩
      intro hlt
      have hle := le_of_mod_eq (hmod.trans hmodi.symm) hlt
      exact hp.1 (by omega)
  · rintro q _ _ ⟨⟩
  · apply hinv.writes.move
    intro dst hposted
    rw [hth] at hposted
    exact lt_of_le_of_lt hposted (by omega)

theorem inv_wait (hth : s.thread (r, t) = .wait i) (hi : i < J.numRanks)
    (hgt : waitGt (s.event (localEvents r i)) (s.seqNum r - 1) = true) :
    ExInv J (s.setThread r t (.sync i)) := by
  have hactive : s.thread (r, t) ≠ .done := by simp [hth]
  have hgot := hinv.got_thread ht hr hactive
  have hok := hinv.threads r t ht
  rw [hth] at hgot hok
  refine hinv.of_move ht (.sync i) hactive ⟨hok, hi⟩ ?_ ?_ (fun _ _ => trivial)
  · intro dst _ _ ph hph
    have hp := hph.phase
    rw [hth] at hp
    exact hp
  · intro q hq hmod hpast
    rcases lt_or_eq_of_le hpast with hlt | rfl
    · exact hgot q hq hmod hlt
    · exact hinv.got_of_waitGt hr hi (hinv.running ht hactive) hgt

theorem inv_secondLoop (hth : s.thread (r, t) = .wait i) (hi : ¬ i < J.numRanks) :
    ExInv J (s.setThread r t .done) := by
  have hactive : s.thread (r, t) ≠ .done := by simp [hth]
  have hgot := hinv.got_thread ht hr hactive
  rw [hth] at hgot
  refine hinv.of_move ht .done hactive trivial ?_ ?_ (fun _ _ => trivial)
  · intro dst hdst _ ph hph
    have hp := hph.phase
    rw [hth] at hp
    exact hp.1 (by omega)
  · intro q hq hmod _
    exact hgot q hq hmod (show q < i by omega)

theorem inv_sync (hth : s.thread (r, t) = .sync i) (hempty : s.pending (r, i) = []) :
    ExInv J (s.setThread r t (.wait (i + J.threads r))) := by
  have hactive : s.thread (r, t) ≠ .done := by simp [hth]
  have hgot := hinv.got_thread ht hr hactive
  have hok := hinv.threads r t ht
  rw [hth] at hgot hok
  have hle : ∀ q, q % J.threads r = t → q < i + J.threads r → q ≤ i :=
    fun q hmod hlt => le_of_mod_eq (hmod.trans hok.1.symm) hlt
  refine hinv.of_move ht _ hactive ?_ ?_ ?_ (fun _ _ => trivial)
  · rw [ThreadOk, add_mod_right, hok.1]
  · intro dst _ hmod ph hph
    have hp := hph.phase
    rw [hth] at hp
    refine ⟨?_, hp.2⟩
    intro hlt
    rcases lt_or_eq_of_le (hle dst hmod hlt) with hbelow | rfl
    · exact hp.1 hbelow
    · rw [hempty] at hph
      exact hph.finished_of_drained hp.2
  · intro q hq hmod hpast
    exact hgot q hq hmod (hle q hmod hpast)

theorem inv_thread (h : threadStep J s r t = some s') : ExInv J s' := by
  unfold threadStep at h
  split at h <;> rename_i hth
  · split at h
    · rename_i hi
      cases h
      exact inv_postWrite hinv ht hr hth hi
    · rename_i hi
      cases h
      exact inv_firstLoop hinv ht hth hi
  · cases h
    exact inv_postSignal hinv ht hr hth
  · split at h
    · rename_i hi
      split at h
      · rename_i hgt
        cases h
        exact inv_wait hinv ht hr hth hi hgt
      · cases h
    · rename_i hi
      cases h
      exact inv_secondLoop hinv ht hr hth hi
  · split at h
    · rename_i hempty
      cases h
      exact inv_sync hinv ht hr hth hempty
    · cases h
  · cases h

end

end

end ThreadSteps

/-! ### Operations in flight -/

theorem ExInv.byte_in_flight (hinv : ExInv J s) {i n mmap d a : Nat} (hr : r < J.numRanks)
    (hi : i < J.numRanks) (hn : (s.pending (r, i))[n]? = some (.byte mmap d a)) :
    ∃ b < J.block, .byte mmap d a = byteOp J r i b ∧
      s.mem r a = s.given r (s.rounds r) (i * J.block + b) := by
  obtain ⟨ph, hph⟩ := hinv.conn r hr i hi
  obtain ⟨-, hfin, b, hb, hop⟩ := hph.byte_of_getElem? hn
  refine ⟨b, hb, hop, ?_⟩
  have hrun : s.host r = .running := by
    apply hinv.running (mod_lt i (J.threads_pos r))
    intro hdone
    have hp := hph.phase
    rw [hdone] at hp
    exact hfin hp
  have hle := Job.block_le hi
  simp only [byteOp, Op.byte.injEq] at hop
  rw [hop.2.2]
  exact hinv.source r hr hrun _ (by omega)

theorem inv_deliver {i n : Nat} (hinv : ExInv J s) (hr : r < J.numRanks) (hi : i < J.numRanks)
    (h : deliver J s r i n = some s') : ExInv J s' := by
  have hother : ∀ (ops : List Op) (src dst : Nat), ¬ (src = r ∧ dst = i) →
      update s.pending (r, i) ops (src, dst) = s.pending (src, dst) := by
    intro ops src dst hne
    apply update_of_ne
    rintro ⟨⟩
    exact hne ⟨rfl, rfl⟩
  unfold deliver at h
  split at h
  · rename_i mmap d a hn
    obtain ⟨b, hb, hop, hx⟩ := hinv.byte_in_flight hr hi hn
    have hle := Job.block_le hr
    have harrive : arrive J i mmap d (s.mem r a) (s.mem i) =
        update (s.mem i) (J.recvbuf i + (r * J.block + b)) (s.mem r a) := by
      simp only [byteOp, Op.byte.injEq] at hop
      rw [arrive, if_pos (by omega), hop.2.1]
    cases h
    rw [harrive]
    refine ⟨hinv.hosts, hinv.threads, ?_, hinv.got, ?_, hinv.writes⟩
    · intro src hsrc dst hdst
      obtain ⟨ph, hph⟩ := hinv.conn src hsrc dst hdst
      refine ⟨ph, ?_⟩
      by_cases hk : src = r ∧ dst = i
      · obtain ⟨rfl, rfl⟩ := hk
        simp only [update_self]
        exact hph.deliverByte hb (by rw [hn, hop]) hx
      · simp only [hother _ src dst hk]
        by_cases hd : dst = i
        · subst hd
          have hs : src ≠ r := fun hs => hk ⟨hs, rfl⟩
          simp only [update_self]
          refine hph.of_mem ?_
          intro c hc
          have hne := Job.block_ne hs hc hb
          exact update_of_ne (by omega) _ _
        · simp only [update_of_ne hd]
          exact hph
    · intro q hq hrun o ho
      by_cases hqi : q = i
      · subst hqi
        have hne := recv_ne_send q hr hb ho
        simp only [update_self]
        rw [update_of_ne (Ne.symm hne)]
        exact hinv.source q hq hrun o ho
      · simp only [update_of_ne hqi]
        exact hinv.source q hq hrun o ho
  · rename_i handle value hn
    split at h
    · cases h
    rename_i hfirst
    cases h
    obtain ⟨ph, hph⟩ := hinv.conn r hr i hi
    obtain ⟨rfl, rfl, -, hfin⟩ := hph.deliverSignal hn (by simpa using hfirst)
    have hevent : ∀ src dst, ¬ (src = r ∧ dst = i) →
        update s.event ⟨i, r⟩ (s.seqNum r) ⟨dst, src⟩ = s.event ⟨dst, src⟩ := by
      intro src dst hne
      apply update_of_ne
      rintro ⟨⟩
      exact hne ⟨rfl, rfl⟩
    refine ⟨hinv.hosts, hinv.threads, ?_, ?_, hinv.source, hinv.writes⟩
    · intro src hsrc dst hdst
      by_cases hk : src = r ∧ dst = i
      · obtain ⟨rfl, rfl⟩ := hk
        simp only [update_self]
        exact ⟨_, hfin⟩
      · simp only [hother _ src dst hk, hevent src dst hk]
        exact hinv.conn src hsrc dst hdst
    · intro q hqn p hp hin hpast
      obtain ⟨hsame, hev⟩ := hinv.got q hqn p hp hin hpast
      refine ⟨hsame, ?_⟩
      by_cases hk : p = r ∧ q = i
      · obtain ⟨rfl, rfl⟩ := hk
        simp only [update_self]
        rw [(hinv.hosts.rank p).seq_eq, (hinv.hosts.rank q).seq_eq, hsame]
      · simp only [hevent p q hk]
        exact hev
  · cases h

/-! ## Every run -/

theorem inv_exchange (e : Event) (hinv : ExInv J s) (h : exchange J s e = some s') : ExInv J s' := by
  unfold exchange at h
  split at h
  case isFalse => cases h
  rename_i hr
  cases e with
  | fill r contents => exact inv_fill hinv h
  | launch r => exact inv_launch hr hinv h
  | thread r t =>
    dsimp only at h
    split at h
    · rename_i ht
      exact inv_thread hinv ht hr h
    · cases h
  | deliver r i n =>
    dsimp only at h
    split at h
    · rename_i hi
      exact inv_deliver hinv hr hi h
    · cases h
  | complete r => exact inv_complete hinv h
  | observe r => exact inv_observe hinv h
  | enterBarrier r => exact inv_enterBarrier hinv h
  | leaveBarrier r => exact inv_leaveBarrier hinv h

theorem exInv_of_reach {mem : Nat → Nat → UInt8} {G : State → Event → Prop}
    (h : Reach (exchange J) G (State.start mem) s) : ExInv J s :=
  h.invariant (exInv_start mem) fun _ e _ hi _ hs => inv_exchange e hi hs

theorem ExInv.block_received (hinv : ExInv J s) (hr : r < J.numRanks)
    (hwaited : s.host r = .waited) {q b : Nat} (hq : q < J.numRanks) (hb : b < J.block) :
    s.rounds q = s.rounds r ∧
      s.mem r (J.recvbuf r + (q * J.block + b)) = s.given q (s.rounds r) (r * J.block + b) := by
  have hrank := hinv.hosts.rank r
  have hdone : s.thread (r, q % J.threads r) = .done :=
    hrank.idle (by simp [hwaited]) _ (mod_lt q (J.threads_pos r))
  obtain ⟨hsame, hev⟩ := hinv.got r hr q hq (.inr hwaited) (by rw [hdone]; trivial)
  refine ⟨hsame, ?_⟩
  have hseq : s.seqNum q = s.seqNum r := by
    rw [(hinv.hosts.rank q).seq_eq, hrank.seq_eq, hsame]
  have hround := hrank.inRound (.inr hwaited)
  obtain ⟨ph, hph⟩ := hinv.conn q hq r hr
  have hfin := hph.finished_of_event (hev.trans hseq.symm)
  subst hfin
  rcases hph.written (by decide) (by omega) b hb with hin | hval
  · rw [hph.ops.1] at hin
    cases hin
  · rw [hval, hsame]

def Apart (v w : Write) : Prop :=
  v.round = w.round → v.dst = w.dst → v.addr + v.len ≤ w.addr ∨ w.addr + w.len ≤ v.addr

theorem WritesOk.apart {rounds : Nat → Nat} {thread : Nat × Nat → Thread} {writes : List Write}
    (hw : WritesOk J rounds thread writes) : writes.Pairwise Apart := by
  refine hw.once.imp_of_mem ?_
  intro v w hv hwm hne hround hdst
  obtain ⟨hva, hvl⟩ := hw.place v hv
  obtain ⟨hwa, hwl⟩ := hw.place w hwm
  have hsrc : v.src ≠ w.src := fun hsrc => hne hround hsrc hdst
  rw [hva, hwa, hvl, hwl, hdst]
  rcases lt_or_gt_of_ne hsrc with hlt | hlt
  all_goals
    have hle := mul_le_mul_right J.block (succ_le_of_lt hlt)
    rw [succ_mul] at hle
    omega

/-- **The exchange is correct for any schedule**: the blocks are right, and no write of a round leaves
    its buffer or overlaps another. -/
theorem exchange_correct {mem : Nat → Nat → UInt8}
    (h : Reach (exchange J) (fun _ _ => True) (State.start mem) s) :
    (∀ r < J.numRanks, s.host r = .waited → ∀ q < J.numRanks, ∀ b < J.count * J.extent,
      s.mem r (J.recvbuf r + (q * (J.count * J.extent) + b)) =
        s.given q (s.rounds r) (r * (J.count * J.extent) + b)) ∧
    (∀ w ∈ s.writes, w.dst < J.numRanks ∧ J.recvbuf w.dst ≤ w.addr ∧
      w.addr + w.len ≤ J.recvbuf w.dst + J.count * J.extent * J.numRanks) ∧
    s.writes.Pairwise Apart := by
  have hinv := exInv_of_reach h
  refine ⟨?_, ?_, hinv.writes.apart⟩
  · intro r hr hwaited q hq b hb
    exact (hinv.block_received hr hwaited hq hb).2
  · intro w hw
    obtain ⟨hsrc, hdst⟩ := hinv.writes.ranks w hw
    obtain ⟨haddr, hlen⟩ := hinv.writes.place w hw
    have hle := Job.block_le hsrc
    have hsize : J.bufSize = J.count * J.extent * J.numRanks := by
      rw [J.bufSize_eq, mul_comm, Job.block]
    rw [haddr, hlen, ← hsize]
    exact ⟨hdst, by omega, by omega⟩

end Events

def twoExports : Exports 2 where
  event r j := [r.toUInt8, j.toUInt8]
  eventSize := 2
  event_length _ _ _ _ := rfl
  openEvent
    | [r, j] => ⟨r.toNat, j.toNat⟩
    | _ => ⟨0, 0⟩
  openEvent_event := by decide
  mmap r := [r.toUInt8]
  mmapSize := 1
  mmap_length _ _ := rfl
  openMmap
    | [r] => r.toNat
    | _ => 0
  openMmap_mmap := by decide

def twoJob : Job where
  numRanks := 2
  count := 1
  extent := 1
  threads r := if r = 0 then 1 else 2
  threads_pos := by
    intro r
    split <;> decide
  threads_le := by
    intro r
    split <;> decide
  sendbuf _ := 0
  recvbuf _ := 16
  disjoint := by simp
  exports := twoExports

def twoRound : List Event :=
  List.flatten [ [.fill 0 [10, 11], .fill 1 [20, 21], .launch 0, .launch 1],
    List.replicate 5 (.thread 0 0),
    List.replicate 3 (.thread 1 0),
    List.replicate 3 (.thread 1 1),
    [.deliver 0 0 0, .deliver 0 0 0, .deliver 1 0 0, .deliver 1 0 0],
    [.deliver 0 1 0, .deliver 0 1 0],
    List.replicate 5 (.thread 0 0),
    [.complete 0, .observe 0]]

theorem exchange_correct_two : ∃ s, Reach (exchange twoJob) (fun _ _ => True)
    (State.start fun _ _ => 0) s ∧ s.host 0 = .waited ∧ s.mem 0 17 = 20 := by
  have hrun : (run (exchange twoJob) (State.start fun _ _ => 0) twoRound).any (fun s =>
      s.host 0 == .waited && s.given 1 (s.rounds 0) 0 == 20) = true := by
    decide +kernel
  obtain ⟨s, hs, hrun⟩ := (Option.any_eq_true _ _).mp hrun
  rw [Bool.and_eq_true, beq_iff_eq, beq_iff_eq] at hrun
  have hreach : Reach (exchange twoJob) (fun _ _ => True) (State.start fun _ _ => 0) s :=
    Reach.init.run (fun _ _ => trivial) hs
  have hblock := (exchange_correct hreach).1 0 (by decide) hrun.1 1 (by decide) 0 (by decide)
  exact ⟨s, hreach, hrun.1, hblock.trans hrun.2⟩

end Doca.DpaAllToAll
