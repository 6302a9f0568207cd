import Doca.Rdmo.Requests

/-!
# RDMO worker: scatter requests

The stage of a scatter request only advances behind its loop, while every Put that completes enters the
progress function again.

* `Good` — the key of a descriptor is registered and its range passes the bounds check.
* `FinePayload` — the loop runs to its end, or leaves at an unknown key when it has only copied so far.
* `Puts` — what a part of the loop adds: operations in flight, destinations and `ctx[1]`.
* `ScatterOnce` — each descriptor has at most one destination, and the request is released exactly once,
  exactly if none of its Puts is in flight.

Principal result: `scatter_once_iff`.
-/

namespace Doca.Rdmo

open Doca.Lib QState List

def Good (host : Host) (c : Nat) (iov : Iov) : Prop :=
  ∃ m, host.mkeys c iov.rkey = some m ∧ outOfBounds m iov.addr iov.len.toUInt64 = false

def IsMapped (host : Host) (c : Nat) (iov : Iov) : Prop :=
  ∀ m, host.mkeys c iov.rkey = some m → host.mapped c m.ucpRkey iov.addr = true

structure FinePayload (host : Host) (c : Nat) (iovs : List Iov) (rndv : Bool) : Prop where
  eager : rndv = false
  first : ∀ iov rest, iovs = iov :: rest → iov.rkey ≠ 0 - 1
  descriptors : (∀ iov ∈ iovs, Good host c iov) ∨ ∃ pre bad rest, iovs = pre ++ bad :: rest ∧
    (∀ iov ∈ pre, Good host c iov ∧ IsMapped host c iov) ∧ host.mkeys c bad.rkey = none

def ScatterOnce (r : Request) (w : WState) : Prop :=
  (∀ i, ((writesOf r w.inner).map Write.index).count i ≤ 1) ∧
    w.finished.count r = if mine r w.inner = [] then 1 else 0

/-! ## The loop -/

structure Puts (r : Request) (n : Nat) (js : List Nat) (s s' : Worker) : Prop where
  le : n ≤ js.length
  mine : mine r s' = mine r s ++ List.replicate n .scatterPut
  stage : (s'.ctx r).stage = (s.ctx r).stage
  val : (s'.ctx r).val = (s.ctx r).val + UInt64.ofNat n
  writes : (writesOf r s').map Write.index = (writesOf r s).map Write.index ++ js
  faulted : s'.faulted = s.faulted

section Loop

variable {host : Host} {r : Request} {s s' s'' : Worker} {n k : Nat} {js ls : List Nat}

theorem Puts.refl (r : Request) (s : Worker) : Puts r 0 [] s s :=
  ⟨Nat.le_refl _, by simp, rfl, by simp, by simp, rfl⟩

theorem Puts.trans (h : Puts r n js s s') (h' : Puts r k ls s' s'') : Puts r (n + k) (js ++ ls) s s'' := by
  refine ⟨?_, ?_, h'.stage.trans h.stage, ?_, ?_, h'.faulted.trans h.faulted⟩
  · rw [length_append]
    exact Nat.add_le_add h.le h'.le
  · rw [h'.mine, h.mine, append_assoc, replicate_append_replicate]
  · rw [h'.val, h.val, UInt64.ofNat_add, UInt64.add_assoc]
  · rw [h'.writes, h.writes, append_assoc]

theorem mine_await (r : Request) (kind : PendingKind) (s : Worker) :
    mine r (s.await r kind) = mine r s ++ [kind] := by
  simp [mine, Worker.await]

theorem scatterIov_puts (host : Host) (r : Request) (i : Nat) (iov : Iov) (m : Mkey) (s : Worker) :
    ∃ n, Puts r n [i] s (scatterIov host r i iov m s).2 ∧
      (host.mapped r.client m.ucpRkey iov.addr = true → n = 0) ∧
      (host.mapped r.client m.ucpRkey iov.addr = false → host.ucx .put s.calls = .inProgress → n = 1) := by
  have hdone : ∀ via, Puts r 0 [i] s
      (s.write ⟨r, i, iov.rkey, m, iov.addr, iov.len.toUInt64, via⟩) := fun via =>
    ⟨Nat.zero_le _, by simp [mine, Worker.write, Worker.issue], rfl, by simp [Worker.write, Worker.issue],
      by simp [writesOf, Worker.write], rfl⟩
  have htick : Puts r 0 [i] s (s.write ⟨r, i, iov.rkey, m, iov.addr, iov.len.toUInt64, .put⟩).tick :=
    ⟨(hdone .put).le, (hdone .put).mine, (hdone .put).stage, (hdone .put).val, (hdone .put).writes,
      (hdone .put).faulted⟩
  unfold scatterIov
  split
  · rename_i hmapped
    refine ⟨0, hdone .copy, fun _ => rfl, fun hno => ?_⟩
    rw [hmapped] at hno
    cases hno
  · rename_i hmapped
    unfold scatterPut
    dsimp only
    cases host.ucx .put s.calls with
    | inProgress =>
      refine ⟨1, ⟨Nat.le_refl _, ?_, ?_, ?_, ?_, rfl⟩, fun hyes => absurd hyes hmapped, fun _ _ => rfl⟩
      · rw [mine_await]
        rfl
      · simp [Worker.await, Worker.setCtx]
      · simp [Worker.await, Worker.setCtx]
      · simp [writesOf, Worker.await, Worker.setCtx, Worker.write, Worker.tick]
    | ok | noResource | error => exact ⟨0, htick, fun _ => rfl, by simp⟩

theorem scatterLoop_puts (host : Host) (r : Request) : ∀ (iovs : List Iov) (prev : UInt64)
    (cur : Option Mkey) (i : Nat) (s : Worker),
    ∃ n js, js.length ≤ iovs.length ∧ Puts r n js s (scatterLoop host r prev cur i iovs s).2
  | [], _, _, _, s => ⟨0, [], Nat.le_refl _, .refl r s⟩
  | iov :: rest, prev, cur, i, s => by
    unfold scatterLoop
    split
    · exact ⟨0, [], Nat.zero_le _, .refl r s⟩
    rename_i m _
    split
    · exact ⟨0, [], Nat.zero_le _, .refl r s⟩
    obtain ⟨n, hstep, -, -⟩ := scatterIov_puts host r i iov m s
    split
    · obtain ⟨k, js, hle, hrest⟩ := scatterLoop_puts host r rest iov.rkey (some m) (i + 1)
        (scatterIov host r i iov m s).2
      exact ⟨n + k, [i] ++ js, by simpa using hle, hstep.trans hrest⟩
    · exact ⟨n, [i], by simp, hstep⟩

def PutsSucceed (host : Host) : Prop :=
  ∀ n, host.ucx .put n = .ok ∨ host.ucx .put n = .inProgress

theorem scatterIov_continues (hput : PutsSucceed host) (r : Request) (i : Nat) (iov : Iov) (m : Mkey)
    (s : Worker) : (scatterIov host r i iov m s).1 = true := by
  unfold scatterIov
  split
  · rfl
  unfold scatterPut
  dsimp only
  rcases hput s.calls with hok | hwait
  · rw [hok]
  · rw [hwait]

/-- `prev_rkey` and `rdmo_mkey` agree, or the next descriptor has another key. -/
def Aligned (host : Host) (c : Nat) (prev : UInt64) (cur : Option Mkey) (rest : List Iov) : Prop :=
  (∃ m, cur = some m ∧ host.mkeys c prev = some m) ∨ ∀ iov tail, rest = iov :: tail → iov.rkey ≠ prev

theorem Aligned.mkey {c : Nat} {prev : UInt64} {cur : Option Mkey} {iov : Iov} {tail : List Iov}
    (h : Aligned host c prev cur (iov :: tail)) :
    scatterMkey host c prev cur iov = host.mkeys c iov.rkey ∧
      (host.mkeys c iov.rkey = none → iov.rkey ≠ prev) := by
  unfold scatterMkey
  rcases h with ⟨m, hcur, hprev⟩ | hne
  · split
    · rename_i hne
      exact ⟨rfl, fun _ => hne⟩
    · rename_i hsame
      rw [Classical.not_not.mp hsame, hcur, hprev]
      exact ⟨rfl, nofun⟩
  · have hne := hne iov tail rfl
    rw [if_pos hne]
    exact ⟨rfl, fun _ => hne⟩

theorem scatterLoop_pass (hput : PutsSucceed host) (rest : List Iov) : ∀ (pre : List Iov)
    {prev : UInt64} {cur : Option Mkey} {i : Nat} {s : Worker},
    (∀ iov ∈ pre, Good host r.client iov) → Aligned host r.client prev cur (pre ++ rest) →
    ∃ n s' prev' cur', Puts r n (range' i pre.length) s s' ∧ Aligned host r.client prev' cur' rest ∧
      scatterLoop host r prev cur i (pre ++ rest) s =
        scatterLoop host r prev' cur' (i + pre.length) rest s' ∧
      ((∀ iov ∈ pre, IsMapped host r.client iov) → n = 0) ∧
      ((∀ k, host.ucx .put k = .inProgress) → (∃ iov ∈ pre, ¬ IsMapped host r.client iov) → 0 < n) := by
  intro pre
  induction pre with
  | nil =>
    intro prev cur i s _ hal
    exact ⟨0, s, prev, cur, .refl r s, hal, rfl, fun _ => rfl, fun _ ⟨_, hno, _⟩ => (nomatch hno)⟩
  | cons iov pre ih =>
    intro prev cur i s hgood hal
    obtain ⟨m, hm, hbounds⟩ := hgood iov (mem_cons_self ..)
    have hok := scatterIov_continues hput r i iov m s
    obtain ⟨k, hstep, hzero, hone⟩ := scatterIov_puts host r i iov m s
    obtain ⟨n, s', prev', cur', hputs, hal', heq, hnone, hsome⟩ :=
      ih (i := i + 1) (s := (scatterIov host r i iov m s).2)
        (fun x hx => hgood x (mem_cons_of_mem iov hx)) (.inl ⟨m, rfl, hm⟩)
    refine ⟨k + n, s', prev', cur', ?_, hal', ?_, fun hall => ?_, fun hwait ⟨x, hx, hno⟩ => ?_⟩
    · rw [length_cons, range'_succ]
      exact hstep.trans hputs
    · rw [cons_append, scatterLoop, hal.mkey.1, hm]
      simp only [hbounds, Bool.false_eq_true, if_false, hok, if_true]
      rw [heq, length_cons, Nat.add_assoc, Nat.add_comm 1]
    · have hk := hzero (hall iov (mem_cons_self ..) m hm)
      have hn := hnone fun x hx => hall x (mem_cons_of_mem iov hx)
      omega
    · rcases mem_cons.mp hx with rfl | hx
      · have hunmapped : host.mapped r.client m.ucpRkey x.addr = false := by
          by_contra hyes
          refine hno fun m' hm' => ?_
          rw [hm] at hm'
          cases hm'
          simpa using hyes
        have := hone hunmapped (hwait _)
        omega
      · have := hsome hwait ⟨x, hx, hno⟩
        omega

theorem first_bad (host : Host) (c : Nat) : ∀ iovs : List Iov, (∀ iov ∈ iovs, Good host c iov) ∨
    ∃ pre bad rest, iovs = pre ++ bad :: rest ∧ (∀ iov ∈ pre, Good host c iov) ∧ ¬ Good host c bad
  | [] => .inl fun _ hno => (nomatch hno)
  | iov :: iovs => by
    by_cases hiov : Good host c iov
    · rcases first_bad host c iovs with hall | ⟨pre, bad, rest, rfl, hpre, hbad⟩
      · exact .inl (forall_mem_cons.mpr ⟨hiov, hall⟩)
      · exact .inr ⟨iov :: pre, bad, rest, rfl, forall_mem_cons.mpr ⟨hiov, hpre⟩, hbad⟩
    · exact .inr ⟨[], iov, iovs, rfl, fun _ hno => (nomatch hno), hiov⟩

end Loop

/-! ## A fine payload -/

/-- A scatter request in a run: not started, or with `n` Puts in flight and released exactly if there
    are none. -/
def ScatterLife (v : View) : Prop :=
  v = .unstarted ∨ ∃ n, v.mine = List.replicate n .scatterPut ∧ v.ctx.val.toNat = n ∧
    v.finished = (if n = 0 then 1 else 0) ∧ (v.writes.map Write.index).Nodup ∧
    (n = 0 ∨ v.ctx.stage = 1)

section Fine

variable {host : Host} {r : Request} {iovs : Iovs}

theorem scatterWait_life {pause : Bool} {s : Worker} {n : Nat}
    (hmine : mine r s = replicate n .scatterPut) (hval : (s.ctx r).val.toNat = n)
    (hstage : (s.ctx r).stage = 1) (hwrites : ((writesOf r s).map Write.index).Nodup) :
    ScatterLife (View.after r (scatterWait r pause s)) := by
  refine .inr ⟨n, ?_⟩
  unfold scatterWait
  split
  · rename_i hne
    have hn : n ≠ 0 := fun hn => hne (UInt64.toNat_inj.mp (hval.trans hn))
    exact ⟨hmine, hval, by simp [View.after, hn], hwrites, .inr hstage⟩
  rename_i heq
  have hn : n = 0 := by
    rw [← hval, Classical.not_not.mp heq]
    rfl
  exact ⟨hmine, hval, by simp [View.after, hn], hwrites, .inl hn⟩

theorem scatter_launch (hput : PutsSucceed host) (hop : r.body.op = .scatter iovs)
    (hfine : FinePayload host r.client iovs.1 r.body.rndv) (pause : Bool) {s : Worker}
    (hctx : s.ctx r = .zero) (hmine : mine r s = []) (hwrites : writesOf r s = []) :
    ScatterLife (View.after r (opsTable host r pause s)) := by
  have hal : Aligned host r.client (0 - 1) none iovs.1 := .inr fun iov tail h => hfine.first iov tail h
  have hstage0 : (s.ctx r).stage = 0 := by rw [hctx]; rfl
  simp only [opsTable, hop, scatterProgress, hstage0, hfine.eager, Bool.false_eq_true, if_false]
  rcases hfine.descriptors with hall | ⟨pre, bad, rest, hsplit, hpre, hunknown⟩
  · obtain ⟨n, s', prev', cur', hputs, -, heq, -, -⟩ :=
      scatterLoop_pass (r := r) hput [] iovs.1 (i := 0) (s := s) hall (by rwa [append_nil])
    rw [append_nil] at heq
    have hlt : n < 2 ^ 64 := by
      have := hputs.le
      rw [length_range'] at this
      exact Nat.lt_of_le_of_lt this iovs.2
    rw [heq]
    refine scatterWait_life (n := n) ?_ ?_ ?_ ?_
    · have := hputs.mine
      rw [hmine, nil_append] at this
      exact this
    · simp only [scatterLoop, Worker.setCtx, Function.update_self, hputs.val, hctx]
      rw [show Ctx.zero.val = 0 from rfl, UInt64.zero_add]
      exact UInt64.toNat_ofNat_of_lt' hlt
    · simp [Worker.setCtx]
    · have := hputs.writes
      rw [hwrites, map_nil, nil_append] at this
      change ((writesOf r s').map Write.index).Nodup
      rw [this]
      exact nodup_range'
  · rw [hsplit] at hal
    obtain ⟨n, s', prev', cur', hputs, hal', heq, hnone, -⟩ :=
      scatterLoop_pass (r := r) hput (bad :: rest) pre (i := 0) (s := s) (fun x hx => (hpre x hx).1) hal
    have hn := hnone fun x hx => (hpre x hx).2
    subst hn
    have hbad : scatterLoop host r prev' cur' (0 + pre.length) (bad :: rest) s' = (.unknownRkey, s') := by
      simp only [scatterLoop, hal'.mkey.1, hunknown, if_pos (hal'.mkey.2 hunknown)]
    rw [hsplit, heq, hbad]
    refine .inr ⟨0, ?_, ?_, ?_, ?_, .inl rfl⟩
    · have := hputs.mine
      rw [hmine] at this
      exact this
    · simp only [scatterExit, View.after, hputs.val, hctx]
      rfl
    · simp [scatterExit, View.after]
    · have := hputs.writes
      rw [hwrites, map_nil, nil_append] at this
      simp only [scatterExit, View.after]
      rw [this]
      exact nodup_range'

theorem completed_scatterPut {s : Worker} {p : Pending} {n : Nat} (hp : p ∈ s.pending) (v : UInt64)
    (hmine : mine p.req s = replicate n .scatterPut) (hval : (s.ctx p.req).val.toNat = n) :
    mine p.req (s.completed p v) = replicate (n - 1) .scatterPut ∧
      ((s.completed p v).ctx p.req).val.toNat = n - 1 := by
  have hperm := mine_completed hp v
  rw [hmine] at hperm
  have hlen := hperm.length_eq
  rw [length_replicate, length_cons] at hlen
  have hkind : p.kind = .scatterPut :=
    eq_of_mem_replicate (hperm.mem_iff.mpr (mem_cons_self ..))
  refine ⟨eq_replicate_iff.mpr ⟨by omega, fun k hk => ?_⟩, ?_⟩
  · exact eq_of_mem_replicate (hperm.mem_iff.mpr (mem_cons_of_mem _ hk))
  · have hctx : ((s.completed p v).ctx p.req).val = (s.ctx p.req).val - 1 := by
      simp [Worker.completed, hkind, Worker.setCtx]
    rw [hctx, UInt64.toNat_sub_of_le]
    · rw [hval]
      rfl
    · rw [UInt64.le_iff_toNat_le, hval, hlen]
      exact Nat.le_add_left 1 _

theorem scatter_callback (hop : r.body.op = .scatter iovs) (pause : Bool) {s : Worker} {p : Pending}
    (v : UInt64) (hlife : ScatterLife ⟨1, 0, s.ctx r, mine r s, writesOf r s, returnsOf r s⟩)
    (hp : p ∈ s.pending) (hreq : p.req = r) :
    ScatterLife (View.after r (opsTable host r pause (s.completed p v))) := by
  subst hreq
  rcases hlife with hno | ⟨n, hmine, hval, hfin, hwrites, hstage⟩
  · cases hno
  · dsimp only at hmine hval hfin hwrites hstage
    have hn : n ≠ 0 := by
      rintro rfl
      cases hfin
    have hstage := hstage.resolve_left hn
    have hstage' : ((s.completed p v).ctx p.req).stage = 1 := (completed_stage p v s).trans hstage
    obtain ⟨hrest, hleft⟩ := completed_scatterPut hp v hmine hval
    simp only [opsTable, hop, scatterProgress, hstage']
    refine scatterWait_life hrest hleft hstage' ?_
    rw [writesOf, (completed_fields p v s).2.1]
    exact hwrites

theorem FinePayload.once (hput : PutsSucceed host) (hop : r.body.op = .scatter iovs)
    (hfine : FinePayload host r.client iovs.1 r.body.rndv) {w : WState}
    (h : Reach (workerStep host) WEnabled WState.idle w) (hr : r ∈ w.starts.map Start.req) :
    ScatterOnce r w := by
  obtain ⟨hw, -, hlife⟩ := view_rule (r := r) (I := ScatterLife) (fun _ _ he => he) (.inl rfl)
    (fun pause s hctx hmine hwrites _ => scatter_launch hput hop hfine pause hctx hmine hwrites)
    (fun pause s p v hlife hp hreq => scatter_callback hop pause v hlife hp hreq) h
  rcases hlife with hno | ⟨n, hmine, -, hfin, hwrites, -⟩
  · simp only [view, View.unstarted, View.mk.injEq] at hno
    obtain ⟨hrun, hfin, -⟩ := hno
    rw [hw.queues.started.mem_iff, mem_append] at hr
    rcases hr with hr | hr
    · exact absurd hr (count_eq_zero.mp hrun)
    · exact absurd hr (count_eq_zero.mp hfin)
  · simp only [view] at hmine hfin hwrites
    refine ⟨nodup_iff_count_le_one.mp hwrites, ?_⟩
    rw [hfin, hmine]
    simp only [replicate_eq_nil_iff]

end Fine

/-! ## Any other payload -/

section Other

variable {host : Host} {r : Request} {iovs : Iovs}

def launched (host : Host) (r : Request) : WState :=
  settle r (progress (opsProgress host) r (begin r { WState.idle with arrived := [r] }))

theorem view_launched (host : Host) (r : Request) :
    view r (launched host r) = View.after r (opsTable host r false Worker.idle) := by
  have hs : Started ({ WState.idle with arrived := [r] } : WState) := ⟨nodup_nil, .refl _⟩
  have hfresh : Fresh r ({ WState.idle with arrived := [r] } : WState) := nofun
  exact view_progress_self (hs.begin hfresh) (mem_cons_self ..)

theorem reqQueue_first (host : Host) {r : Request} (hr : r.fence = false) :
    reqQueue (opsProgress host) r { WState.idle with arrived := [r] } = launched host r := by
  unfold reqQueue
  rw [if_neg (by simp [WState.idle, QState.idle])]
  unfold reqStart
  rw [if_neg (by simp [WState.idle, QState.idle, hr])]
  rfl

def scatterMsg (id : UInt32) (x : UInt64) (iovs : Iovs) (rndv : Bool) : Msg :=
  ⟨id, 2, 0, 0, x, 0, ⟨0, 0, 0⟩, iovs, rndv, 0⟩

theorem launched_reach (host : Host) {id : UInt32} {x : UInt64} {c e : Nat} (hc : host.clients id = some c)
    (he : host.eps x = some e) (iovs : Iovs) (rndv : Bool) :
    Reach (workerStep host) WEnabled WState.idle
      (launched host ⟨0, c, e, false, ⟨.scatter iovs, rndv, 0⟩⟩) := by
  have hop : (scatterMsg id x iovs rndv).op = .scatter iovs := by simp [Msg.op, scatterMsg]
  have hflags : decide ((scatterMsg id x iovs rndv).flags &&& 1 ≠ 0) = false := by
    simp [scatterMsg]
  have hguard : ¬ ((scatterMsg id x iovs rndv).opId > 2 ∨ true = false ∨
      (scatterMsg id x iovs rndv).headerLength > HDR_LEN_MAX) := by
    simp [scatterMsg]
  refine Reach.tail (e := .message (scatterMsg id x iovs rndv) true) .init rfl ?_
  simp only [workerStep, amCb]
  rw [show host.clients (scatterMsg id x iovs rndv).id = some c from hc,
    show host.eps (scatterMsg id x iovs rndv).replyEp = some e from he]
  dsimp only
  rw [if_neg hguard, hop, hflags]
  exact congrArg some (reqQueue_first host rfl)

theorem mem_pending {k : PendingKind} {s : Worker} (hk : k ∈ mine r s) : ⟨r, k⟩ ∈ s.pending := by
  unfold mine at hk
  obtain ⟨p, hp, rfl⟩ := mem_map.mp hk
  obtain ⟨hmem, hreq⟩ := mem_filter.mp hp
  have hreq : p.req = r := by simpa using hreq
  subst hreq
  exact hmem

theorem scatterLoop_outOfBounds (hput : PutsSucceed host) {pre rest : List Iov} {bad : Iov} {m : Mkey}
    (hpre : ∀ iov ∈ pre, Good host r.client iov) (hm : host.mkeys r.client bad.rkey = some m)
    (hbad : ¬ Good host r.client bad) {prev : UInt64} {cur : Option Mkey}
    (hal : Aligned host r.client prev cur (pre ++ bad :: rest)) (s : Worker) :
    ∃ n s', Puts r n (range' 0 pre.length) s s' ∧
      scatterLoop host r prev cur 0 (pre ++ bad :: rest) s = (.outOfBounds, s') := by
  obtain ⟨n, s', prev', cur', hputs, hal', heq, -, -⟩ :=
    scatterLoop_pass (r := r) hput (bad :: rest) pre (i := 0) (s := s) hpre hal
  refine ⟨n, s', hputs, ?_⟩
  have hout : outOfBounds m bad.addr bad.len.toUInt64 = true := by
    by_contra hno
    exact hbad ⟨m, hm, by simpa using hno⟩
  rw [heq]
  simp only [scatterLoop, hal'.mkey.1, hm, hout, if_true]

theorem launched_inner (host : Host) (r : Request) :
    (launched host r).inner = (opsProgress host r false Worker.idle).inner := settle_inner ..

theorem outOfBounds_again (hput : PutsSucceed host) (hop : r.body.op = .scatter iovs)
    (hrndv : r.body.rndv = false) {pre rest : List Iov} {bad : Iov} {m : Mkey}
    (hsplit : iovs.1 = pre ++ bad :: rest) (hpre : ∀ iov ∈ pre, Good host r.client iov)
    (hm : host.mkeys r.client bad.rkey = some m) (hbad : ¬ Good host r.client bad)
    (hal : Aligned host r.client (0 - 1) none iovs.1) :
    (launched host r).finished.count r = 0 ∧ (mine r (launched host r).inner ≠ [] →
      ∃ w, workerStep host (launched host r) (.callback ⟨r, .scatterPut⟩ 0) = some w ∧
        WEnabled (launched host r) (.callback ⟨r, .scatterPut⟩ 0) ∧
        r ∈ w.starts.map Start.req ∧ 1 < ((writesOf r w.inner).map Write.index).count 0) := by
  rw [hsplit] at hal
  -- every call in the first stage issues the good descriptors and returns the error
  have hcall : ∀ (pause : Bool) (s : Worker), (s.ctx r).stage = 0 →
      ∃ n s', Puts r n (range' 0 pre.length) s s' ∧
        opsTable host r pause s = ⟨.unexpected, pause, s'⟩ := by
    intro pause s hstage
    obtain ⟨n, s', hputs, heq⟩ := scatterLoop_outOfBounds hput hpre hm hbad hal s
    refine ⟨n, s', hputs, ?_⟩
    simp only [opsTable, hop, scatterProgress, hstage, hrndv, Bool.false_eq_true, if_false, hsplit, heq,
      scatterExit]
  obtain ⟨n, s₁, hputs, htable⟩ := hcall false Worker.idle rfl
  have hview := view_launched host r
  rw [htable] at hview
  simp only [view, View.after, reduceCtorEq, if_false, View.mk.injEq] at hview
  obtain ⟨hrun, hfin, hctx, hmine, hwrites, -⟩ := hview
  refine ⟨hfin, fun hne => ?_⟩
  rw [hmine, hputs.mine] at hne
  have hn : n ≠ 0 := by
    rintro rfl
    exact hne rfl
  have hpending : (⟨r, .scatterPut⟩ : Pending) ∈ (launched host r).inner.pending := by
    refine mem_pending ?_
    rw [hmine, hputs.mine]
    exact mem_append_right _ (mem_replicate.mpr ⟨hn, rfl⟩)
  have hrunning : r ∈ (launched host r).running := count_pos_iff.mp (by omega)
  have hfaulted : (launched host r).inner.faulted = false := by
    rw [launched_inner]
    simp only [opsProgress, htable, hputs.faulted]
    rfl
  -- the completion enters the loop again, and the error is returned again
  obtain ⟨k, s₂, hputs', htable'⟩ := hcall ((launched host r).pause r.client)
    ((launched host r).inner.completed ⟨r, .scatterPut⟩ 0) (by
      simp [Worker.completed, Worker.setCtx, hctx, hputs.stage, Worker.idle, Ctx.zero])
  have hstep : opCb (opsProgress host) r { launched host r with
        inner := (launched host r).inner.completed ⟨r, .scatterPut⟩ 0 } =
      settle r (progress (opsProgress host) r { launched host r with
        inner := (launched host r).inner.completed ⟨r, .scatterPut⟩ 0 }) := by
    rw [opCb_eq, if_neg]
    rw [progress_status, htable']
    simp
  have hwrites' : (writesOf r s₂).map Write.index = range' 0 pre.length ++ range' 0 pre.length := by
    have hkept : writesOf r ((launched host r).inner.completed ⟨r, .scatterPut⟩ 0) =
        writesOf r (launched host r).inner := by
      rw [writesOf, (completed_fields _ _ _).2.1, writesOf]
    rw [hputs'.writes, hkept, hwrites, hputs.writes]
    rfl
  refine ⟨_, congrArg some hstep, ⟨hfaulted, hpending, hrunning⟩, ?_, ?_⟩
  · rw [settle_starts]
    simp only [progress, launched, settle_starts]
    exact mem_singleton.mpr rfl
  · rw [settle_inner]
    change 1 < ((writesOf r (opsTable host r _ _).inner).map Write.index).count 0
    rw [htable', hwrites']
    have hpos : 0 < pre.length := by
      have := hputs.le
      rw [length_range'] at this
      omega
    obtain ⟨l, hl⟩ : ∃ l, range' 0 pre.length = 0 :: l := by
      cases hlen : pre.length with
      | zero => omega
      | succ j => exact ⟨_, range'_succ⟩
    rw [hl, count_append, count_cons_self]
    omega

theorem fine_of_once (hwait : ∀ n, host.ucx .put n = .inProgress) (hop : r.body.op = .scatter iovs)
    (hreach : Reach (workerStep host) WEnabled WState.idle (launched host r))
    (honce : ∀ w, Reach (workerStep host) WEnabled WState.idle w → r ∈ w.starts.map Start.req →
      ScatterOnce r w) : FinePayload host r.client iovs.1 r.body.rndv := by
  have hput : PutsSucceed host := fun n => .inr (hwait n)
  have hstart : r ∈ (launched host r).starts.map Start.req := by
    rw [launched, settle_starts]
    exact mem_singleton.mpr rfl
  obtain ⟨-, hrel⟩ := honce _ hreach hstart
  have hview := view_launched host r
  have hstage0 : (Worker.idle.ctx r).stage = 0 := rfl
  simp only [opsTable, hop, scatterProgress, hstage0] at hview
  by_cases hrndv : r.body.rndv = true
  · -- rendezvous: an error, and nothing in flight
    simp only [hrndv, if_true, view, View.after, reduceCtorEq, if_false, View.mk.injEq] at hview
    obtain ⟨-, hfin, -, hmine, -⟩ := hview
    rw [hfin, hmine] at hrel
    cases hrel
  · have hrndv : r.body.rndv = false := by simpa using hrndv
    simp only [hrndv, Bool.false_eq_true, if_false] at hview
    have hfirst : ∀ iov rest, iovs.1 = iov :: rest → iov.rkey ≠ 0 - 1 := by
      rintro iov rest hsplit heq
      simp only [hsplit, scatterLoop, scatterMkey, heq, ne_eq, not_true_eq_false, if_false, scatterExit,
        fault, view, View.after, reduceCtorEq, View.mk.injEq] at hview
      obtain ⟨-, hfin, -, hmine, -⟩ := hview
      rw [hfin, hmine] at hrel
      cases hrel
    have hal : Aligned host r.client (0 - 1) none iovs.1 := .inr hfirst
    refine ⟨hrndv, hfirst, ?_⟩
    rcases first_bad host r.client iovs.1 with hall | ⟨pre, bad, rest, hsplit, hpre, hbad⟩
    · exact .inl hall
    · cases hm : host.mkeys r.client bad.rkey with
      | none =>
        refine .inr ⟨pre, bad, rest, hsplit, ?_, hm⟩
        by_contra hno
        have hsome : ∃ iov ∈ pre, ¬ IsMapped host r.client iov := by
          by_contra hall
          refine hno fun iov hiov => ⟨hpre iov hiov, ?_⟩
          by_contra hmapped
          exact hall ⟨iov, hiov, hmapped⟩
        rw [hsplit] at hal
        obtain ⟨n, s', prev', cur', hputs, hal', heq, -, hpos⟩ :=
          scatterLoop_pass (r := r) hput (bad :: rest) pre (i := 0) (s := Worker.idle) hpre hal
        have hn := hpos hwait hsome
        -- released with a Put in flight
        simp only [hsplit, heq, scatterLoop, hal'.mkey.1, hm, if_pos (hal'.mkey.2 hm), scatterExit, view,
          View.after, if_true, View.mk.injEq] at hview
        obtain ⟨-, hfin, -, hmine, -⟩ := hview
        rw [hfin, hmine, hputs.mine] at hrel
        split at hrel
        · rename_i hnil
          have := congrArg length hnil
          simp at this
          omega
        · cases hrel
      | some m =>
        exfalso
        obtain ⟨hfin, hagain⟩ := outOfBounds_again hput hop hrndv hsplit hpre hm hbad hal
        rw [hfin] at hrel
        split at hrel
        · cases hrel
        · rename_i hne
          obtain ⟨w, hstep, hen, hstarted, htwice⟩ := hagain hne
          have := (honce w (hreach.tail hen hstep) hstarted).1 0
          omega

end Other

/-- **A scatter payload is written once and released once** in every run, however its Puts complete,
    exactly if it is a fine one. -/
theorem scatter_once_iff (host : Host) {id : UInt32} {x : UInt64} {c e : Nat}
    (hc : host.clients id = some c) (he : host.eps x = some e) (iovs : Iovs) (rndv : Bool) :
    (∀ ucx : UcxCall → Nat → UcsStatus, PutsSucceed { host with ucx := ucx } →
      ∀ w, Reach (workerStep { host with ucx := ucx }) WEnabled WState.idle w →
        ∀ r ∈ w.starts.map Start.req, r.client = c → r.body.op = .scatter iovs →
          r.body.rndv = rndv → ScatterOnce r w) ↔ FinePayload host c iovs.1 rndv := by
  constructor
  · intro honce
    -- all Puts are slow
    have hreach := launched_reach { host with ucx := fun _ _ => .inProgress } hc he iovs rndv
    have hfine := fine_of_once (fun _ => rfl) rfl hreach
      (fun w hw hr => honce _ (fun _ => .inr rfl) w hw _ hr rfl rfl rfl)
    exact ⟨hfine.eager, hfine.first, hfine.descriptors⟩
  · rintro hfine ucx hput w hw r hr rfl hop rfl
    exact FinePayload.once hput hop ⟨hfine.eager, hfine.first, hfine.descriptors⟩ hw hr

def twoIovs : Iovs := ⟨[⟨4100, 7, 16⟩, ⟨5000, 7, 8⟩], by decide⟩

theorem scatter_once_iff_within :
    FinePayload (Host.plain lowRegion fun _ _ => .ok) 0 twoIovs.1 false ∧
    ∀ ucx : UcxCall → Nat → UcsStatus,
      PutsSucceed { Host.plain lowRegion (fun _ _ => .ok) with ucx := ucx } →
      ∀ w, Reach (workerStep { Host.plain lowRegion (fun _ _ => .ok) with ucx := ucx }) WEnabled
        WState.idle w → ∀ r ∈ w.starts.map Start.req, r.client = 0 → r.body.op = .scatter twoIovs →
          r.body.rndv = false → ScatterOnce r w := by
  have hclient : (Host.plain lowRegion fun _ _ => .ok).clients 0 = some 0 := rfl
  have hep : (Host.plain lowRegion fun _ _ => .ok).eps 0 = some 0 := rfl
  have hfine : FinePayload (Host.plain lowRegion fun _ _ => .ok) 0 twoIovs.1 false := by
    refine ⟨rfl, fun iov rest h => ?_, .inl fun iov hiov => ⟨⟨7, false, 4096, 4096⟩, ?_⟩⟩
    · cases h
      decide
    · simp only [twoIovs, mem_cons, not_mem_nil, or_false] at hiov
      rcases hiov with rfl | rfl <;> exact ⟨rfl, by decide⟩
  exact ⟨hfine, (scatter_once_iff (Host.plain lowRegion fun _ _ => .ok) hclient hep twoIovs false).mpr
    hfine⟩

/-- **A scatter request with an unknown key behind a Put is released with the Put in flight; one with a
    descriptor out of bounds behind a Put writes again when the Put completes.** -/
theorem scatter_released_early_or_repeated :
    (∃ w r, Reach (workerStep (Host.plain lowRegion fun _ _ => .inProgress)) WEnabled WState.idle w ∧
      w.finished = [r] ∧ w.inner.pending = [⟨r, .scatterPut⟩]) ∧
    ∃ w, Reach (workerStep (Host.plain lowRegion fun _ _ => .inProgress)) WEnabled WState.idle w ∧
      w.inner.writes.map Write.index = [0, 0] ∧ w.finished = [] := by
  refine ⟨⟨_, _, .of_run (l := [.message (scatterMsg 0 0 ⟨[⟨4100, 7, 16⟩, ⟨4100, 9, 16⟩], by decide⟩ false)
    true]) .init rfl, rfl, rfl⟩, ⟨_, .of_run (l := [.message (scatterMsg 0 0 ⟨[⟨4100, 7, 16⟩, ⟨0, 7, 16⟩],
      by decide⟩ false) true, .callback ⟨⟨0, 0, 0, false, ⟨.scatter ⟨[⟨4100, 7, 16⟩, ⟨0, 7, 16⟩], by decide⟩,
        false, 0⟩⟩, .scatterPut⟩ 0]) .init rfl, by decide, by decide⟩⟩

end Doca.Rdmo
