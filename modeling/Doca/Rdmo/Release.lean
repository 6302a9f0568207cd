import Doca.Rdmo.Scatter

/-!
# RDMO worker: what an error leaves behind

A caller of a progress function releases the request only if the function returns `DOCA_SUCCESS`.

* `FineCall` — the call returns success or in-progress, and a scatter does not return success with
  `ctx[1] != 0`; `Wanted` — what that takes in the state before the call (`fineCall_of_wanted`).
* `NotBlocked` — `oreqs` counts the started requests that have an operation in flight, a client is paused
  only while a Get is in flight, and a request waits in a list only while another one of its endpoint or
  client has an operation in flight.

Principal result: `not_blocked` — in every run whose calls are all fine.  A call that is not fine can block
its endpoint for good: `rendezvous_blocks`.
-/

namespace Doca.Rdmo

open Doca.Lib QState Function List

def FineCall (t : Return) : Prop :=
  (t.status = .success ∨ t.status = .inProgress) ∧
    (t.status = .success → ∀ iovs, t.req.body.op = .scatter iovs → t.val = 0)

def CallsFine (s : Worker) : Prop := ∀ t ∈ s.returns, FineCall t

/-! ## When a call is fine -/

section Fine

/-- UCX takes every operation, a Get for later, and the cache every entry. -/
structure Obliging (host : Host) : Prop where
  get : ∀ n, host.ucx .get n = .inProgress
  workerFence : ∀ n, host.ucx .workerFence n = .ok
  sends : ∀ call ∈ [UcxCall.put, .amRecv, .amSend, .epFlush], ∀ n,
    host.ucx call n = .ok ∨ host.ucx call n = .inProgress
  insert : ∀ n, host.insert n = true

def appendPtr (host : Host) (h : AppendHdr) (r : Request) (m : Mkey) (s : Worker) : Option UInt64 :=
  if (s.ctx r).stage = 0 then
    if host.mapped r.client m.ucpRkey h.ptrAddr then some (host.shared s.calls)
    else memCacheGet r.client m h.ptrAddr s
  else some (s.ctx r).val

/-- The data of an append at `v` is within the region, registered for a rendezvous, and not mapped into the
    worker unless its pointer is. -/
structure Placeable (host : Host) (r : Request) (d : Mkey) (sm : Bool) (v : UInt64) : Prop where
  within : outOfBounds d v r.body.length = false
  memh : r.body.rndv = true → d.memh = true
  copied : r.body.rndv = false → host.mapped r.client d.ucpRkey v = true → sm = true

def Wanted (host : Host) (r : Request) (s : Worker) : Prop :=
  match r.body.op with
  | .flush _ => True
  | .append h => (host.mkeys r.client h.ptrRkey = none → (s.ctx r).stage = 0) ∧
      ∀ m, host.mkeys r.client h.ptrRkey = some m → m.ucpRkey = h.ptrRkey ∧
        ((s.ctx r).stage ≠ 0 → (s.ctx r).mkey = some m) ∧
        ∀ v, appendPtr host h r m s = some v → ∀ d, host.mkeys r.client h.dataRkey = some d →
          Placeable host r d ((s.ctx r).stage = 0 ∧ host.mapped r.client m.ucpRkey h.ptrAddr = true) v
  | .scatter iovs => (s.ctx r).stage ≤ 1 ∧ r.body.rndv = false ∧ ∀ iov ∈ iovs.1, iov.rkey ≠ 0 - 1 ∧
      ∃ m, host.mkeys r.client iov.rkey = some m ∧ outOfBounds m iov.addr iov.len.toUInt64 = false

def Goes (o : Outcome Worker) : Prop := o.status = .success ∨ o.status = .inProgress

variable {host : Host} {h : AppendHdr} {r : Request} {m d : Mkey} {sm : Bool} {s : Worker}

theorem appendPut_goes (hhost : Obliging host) (hm : (s.ctx r).mkey = some m)
    (hkey : host.mkeys r.client h.ptrRkey = some m)
    (hd : ∀ d, host.mkeys r.client h.dataRkey = some d → Placeable host r d sm (s.ctx r).val)
    (pause : Bool) : Goes (appendPut host h r sm pause s) := by
  have hto : ∀ d, Placeable host r d sm (s.ctx r).val →
      Goes (appendTo host h r h.dataRkey d sm pause s) := by
    intro d hd
    unfold appendTo
    rw [hd.within, if_neg Bool.false_ne_true]
    cases hrndv : r.body.rndv with
    | true =>
      rw [if_pos rfl, if_pos (hd.memh hrndv), appendSend]
      rcases hhost.sends .amRecv (by simp) s.calls with hu | hu <;> simp [hu, Goes]
    | false =>
      rw [if_neg Bool.false_ne_true]
      split
      · rename_i hmap
        rw [hd.copied hrndv hmap]
        exact .inl rfl
      · rw [appendSend]
        rcases hhost.sends .put (by simp) s.calls with hu | hu <;> simp [hu, Goes]
  unfold appendPut
  split
  · cases hdata : host.mkeys r.client h.dataRkey with
    | none => exact .inl rfl
    | some d => exact hto d (hd d hdata)
  · rename_i hsame
    rw [hm]
    exact hto m (hd m (by rw [← not_not.mp hsame, hkey]))

theorem appendUpdate_goes (hhost : Obliging host) (hm : (s.ctx r).mkey = some m)
    (hkey : host.mkeys r.client h.ptrRkey = some m)
    (hd : ∀ d, host.mkeys r.client h.dataRkey = some d → Placeable host r d false (s.ctx r).val)
    (pause : Bool) : Goes (appendUpdate host h r pause s) := by
  have hput : memCachePut host r.client m h.ptrAddr ((s.ctx r).val + r.body.length) s = (.success, _) :=
    if_pos (.inr (hhost.insert _))
  simp only [appendUpdate, hm, hput, if_true]
  refine appendPut_goes (m := m) hhost ?_ hkey ?_ false
  · simp [Worker.setCtx]
  · simpa [Worker.setCtx] using hd

theorem appendProgress_goes (hhost : Obliging host) (hop : r.body.op = .append h)
    (hwanted : Wanted host r s) (pause : Bool) : Goes (appendProgress host h r pause s) := by
  simp only [Wanted, hop] at hwanted
  obtain ⟨hnone, hsome⟩ := hwanted
  cases hkey : host.mkeys r.client h.ptrRkey with
  | none =>
    rw [appendProgress, hnone hkey]
    simp only [hkey]
    exact .inl rfl
  | some m =>
    obtain ⟨hucp, hstored, hplace⟩ := hsome m hkey
    unfold appendProgress
    split
    · rename_i hstage
      simp only [appendPtr, hstage, if_true, true_and] at hplace
      simp only [hkey, appendPointer, hucp, ne_eq, not_true_eq_false, if_false]
      split
      · rename_i hmap
        rw [hucp, if_pos hmap] at hplace
        refine appendPut_goes (m := m) hhost (by simp [Worker.setCtx]) hkey ?_ pause
        simpa [Worker.setCtx, Worker.tick, hmap] using hplace _ rfl
      · rename_i hmap
        rw [hucp, if_neg hmap] at hplace
        simp only [memCacheGet, Worker.setCtx, hucp] at hplace ⊢
        split
        · rename_i v hcached
          refine appendUpdate_goes (m := m) hhost (by simp) hkey ?_ pause
          simpa [Worker.setCtx, hmap] using hplace v hcached
        · simp [appendGet, hhost.get, Goes]
    · rename_i hstage
      simp only [appendPtr, hstage, Nat.one_ne_zero, if_false, false_and, decide_false] at hplace
      exact appendUpdate_goes hhost (hstored (by simp [hstage])) hkey (hplace _ rfl) pause
    · rename_i hstage
      simp only [appendPtr, hstage, OfNat.ofNat_ne_zero, if_false, false_and, decide_false] at hplace
      exact appendPut_goes hhost (hstored (by simp [hstage])) hkey (hplace _ rfl) pause
    · exact .inl rfl

/-- The loop gets through descriptors with known keys: the key of the descriptor before is the one that
    was looked up for it. -/
theorem scatterLoop_done (hhost : Obliging host) :
    ∀ {iovs : List Iov} {prev : UInt64} {cur : Option Mkey} {i : Nat} {s : Worker},
      (∀ iov ∈ iovs, ∃ m, host.mkeys r.client iov.rkey = some m ∧
        outOfBounds m iov.addr iov.len.toUInt64 = false) →
      (∀ iov ∈ iovs, iov.rkey = prev → cur = host.mkeys r.client prev) →
      (scatterLoop host r prev cur i iovs s).1 = .done
  | [], _, _, _, _, _, _ => rfl
  | iov :: rest, prev, cur, i, s, hiovs, hcur => by
    obtain ⟨m, hm, hbound⟩ := hiovs iov (mem_cons_self ..)
    have hmkey : scatterMkey host r.client prev cur iov = some m := by
      unfold scatterMkey
      split
      · exact hm
      · rename_i hprev
        have hprev := not_not.mp hprev
        rw [hcur iov (mem_cons_self ..) hprev, ← hprev, hm]
    have hput : (scatterIov host r i iov m s).1 = true := by
      unfold scatterIov
      split
      · rfl
      · rcases hhost.sends .put (by simp) s.calls with hu | hu <;> simp [scatterPut, hu]
    simp only [scatterLoop, hmkey, hbound, hput, Bool.false_eq_true, if_false, if_true]
    refine scatterLoop_done hhost (fun iov' hmem => hiovs iov' (mem_cons_of_mem _ hmem)) ?_
    exact fun _ _ _ => hm.symm

/-- **When a call is fine**: UCX and the cache take what they are given, and the request is `Wanted` in the
    state before the call. -/
theorem fineCall_of_wanted (hhost : Obliging host) (hwanted : Wanted host r s) (pause : Bool) :
    FineCall ⟨r, (opsTable host r pause s).status, ((opsTable host r pause s).inner.ctx r).val⟩ := by
  unfold opsTable
  cases hop : r.body.op with
  | flush flushId =>
    refine ⟨?_, fun _ iovs hno => ?_⟩
    swap
    · rw [hop] at hno
      cases hno
    have hsend : ∀ s : Worker, Goes (flushSend host flushId r pause s) := by
      intro s
      rcases hhost.sends .amSend (by simp) s.calls with hu | hu <;> simp [flushSend, hu, Goes]
    dsimp only [flushProgress]
    split
    · unfold flushRma
      rw [if_pos (hhost.workerFence _), flushEp]
      rcases hhost.sends .epFlush (by simp) (memCacheFlush host r.client s.tick).2.calls with hu | hu
      · rw [hu]
        exact hsend _
      · rw [hu]
        exact .inr rfl
    · exact hsend s
    · exact .inl rfl
  | append h =>
    refine ⟨appendProgress_goes hhost hop hwanted pause, fun _ iovs hno => ?_⟩
    rw [hop] at hno
    cases hno
  | scatter iovs =>
    simp only [Wanted, hop] at hwanted
    obtain ⟨hstage, hrndv, hiovs⟩ := hwanted
    have hwait : ∀ s : Worker, FineCall ⟨r, (scatterWait r pause s).status,
        ((scatterWait r pause s).inner.ctx r).val⟩ := by
      intro s
      unfold scatterWait
      split
      · exact ⟨.inr rfl, nofun⟩
      · rename_i hzero
        exact ⟨.inl rfl, fun _ _ _ => not_not.mp hzero⟩
    dsimp only [scatterProgress]
    split
    · rw [hrndv, if_neg Bool.false_ne_true, scatterLoop_done hhost (fun iov hmem => (hiovs iov hmem).2)]
      · exact hwait _
      · exact fun iov hmem hno => absurd hno (hiovs iov hmem).1
    · exact hwait s
    · rename_i hzero hone
      exact (Nat.le_one_iff_eq_zero_or_eq_one.mp hstage).elim (fun h => (hzero h).elim) fun h => (hone h).elim

end Fine

/-! ## A request that is waiting -/

theorem Alive.ne_nil {op : RdmoOp} {ctx : Ctx} {ks : List PendingKind} (h : Alive op ctx ks) :
    ks ≠ [] := by
  cases op with
  | append _ => rcases h with ⟨-, rfl⟩ | ⟨-, rfl | rfl⟩ <;> exact cons_ne_nil _ _
  | flush _ => rcases h with ⟨-, rfl⟩ | ⟨-, rfl⟩ <;> exact cons_ne_nil _ _
  | scatter _ =>
    obtain ⟨-, hval, rfl⟩ := h
    rw [ne_eq, replicate_eq_nil_iff]
    exact fun hz => hval (UInt64.toNat_inj.mp hz)

structure Leaves (r : Request) (o : Outcome Worker) : Prop where
  done : o.status = .success → mine r o.inner = []
  waits : o.status = .inProgress → Alive r.body.op (o.inner.ctx r) (mine r o.inner)

structure Settles (r : Request) (o : Outcome Worker) : Prop where
  done : o.status ≠ .inProgress → mine r o.inner = []
  waits : o.status = .inProgress → Alive r.body.op (o.inner.ctx r) (mine r o.inner)

theorem Settles.leaves {r : Request} {o : Outcome Worker} (h : Settles r o) : Leaves r o :=
  ⟨fun hok => h.done (by rw [hok]; exact nofun), h.waits⟩

section Calls

variable {host : Host} {hdr : AppendHdr} {r : Request} {m : Mkey} {rkey : UInt64} {pause sm : Bool}
  {s : Worker}

theorem Settles.quiet {o : Outcome Worker} (hmine : mine r o.inner = [])
    (hstatus : o.status ≠ .inProgress) : Settles r o :=
  ⟨fun _ => hmine, fun hno => absurd hno hstatus⟩

theorem Leaves.quiet {o : Outcome Worker} (hmine : mine r o.inner = [])
    (hstatus : o.status ≠ .inProgress) : Leaves r o :=
  (Settles.quiet hmine hstatus).leaves

theorem steps_mine : Steps host r fun s => mine r s = [] :=
  ⟨⟨id, fun _ => id, fun _ => id⟩, id, fun h _ => h, fun h _ => h, fun _ => id⟩

theorem Ends.settles {o : Outcome Worker} (h : Ends r pause (fun s => mine r s = []) o) : Settles r o := by
  cases h with
  | returns hstatus _ hs => exact .quiet hs hstatus
  | waits _ halive hs =>
    refine ⟨fun hno => absurd rfl hno, fun _ => ?_⟩
    rw [mine_await, hs]
    exact halive

theorem scatterWait_leaves {iovs : Iovs} (hop : r.body.op = .scatter iovs) (hstage : (s.ctx r).stage = 1)
    (hmine : mine r s = replicate (s.ctx r).val.toNat .scatterPut) :
    Leaves r (scatterWait r pause s) := by
  unfold scatterWait
  split
  · rename_i hne
    refine ⟨nofun, fun _ => ?_⟩
    rw [hop]
    exact ⟨hstage, hne, hmine⟩
  · rename_i hzero
    refine .quiet ?_ nofun
    rw [hmine, Classical.not_not.mp hzero]
    rfl

theorem scatterProgress_leaves {iovs : Iovs} (hop : r.body.op = .scatter iovs)
    (hctx : s.ctx r = .zero) (hmine : mine r s = [])
    (hfine : (scatterProgress host iovs r pause s).status = .success →
      ((scatterProgress host iovs r pause s).inner.ctx r).val = 0) :
    Leaves r (scatterProgress host iovs r pause s) := by
  have hstage0 : (s.ctx r).stage = 0 := by rw [hctx]; rfl
  obtain ⟨n, js, hle, hputs⟩ := scatterLoop_puts host r iovs.1 (0 - 1) none 0 s
  -- so far `ctx[1]` counts the Puts in flight
  have hval : ((scatterLoop host r (0 - 1) none 0 iovs.1 s).2.ctx r).val.toNat = n := by
    have hlt : n < 2 ^ 64 := Nat.lt_of_le_of_lt (hputs.le.trans hle) iovs.2
    rw [hputs.val, hctx, show Ctx.zero.val = 0 from rfl, UInt64.zero_add]
    exact UInt64.toNat_ofNat_of_lt' hlt
  have hmine' : mine r (scatterLoop host r (0 - 1) none 0 iovs.1 s).2 = replicate n .scatterPut := by
    rw [hputs.mine, hmine, nil_append]
  unfold scatterProgress at hfine ⊢
  simp only [hstage0] at hfine ⊢
  split
  · exact .quiet hmine (by simp)
  rename_i hrndv
  rw [if_neg hrndv] at hfine
  cases hexit : (scatterLoop host r (0 - 1) none 0 iovs.1 s).1 with
  | done =>
    refine scatterWait_leaves hop (by simp [Worker.setCtx]) ?_
    simp only [Worker.setCtx, update_self, hval]
    exact hmine'
  | unknownRkey =>
    rw [hexit] at hfine
    have hzero := hfine rfl
    simp only [scatterExit] at hzero
    refine .quiet (hmine'.trans ?_) (by simp [scatterExit])
    rw [← hval, hzero]
    rfl
  | outOfBounds | driver | nullMkey => constructor <;> simp [scatterExit, fault]

end Calls

/-! ## The life of a request -/

/-- While its calls are fine, a request is not started, waits, or is released with nothing in flight. -/
def Life (r : Request) (v : View) : Prop :=
  (∀ t ∈ v.returns, FineCall t) → v = .unstarted ∨ (v.running = 0 ∧ v.finished = 1 ∧ v.mine = []) ∨
    (v.running = 1 ∧ v.finished = 0 ∧ Alive r.body.op v.ctx v.mine)

section Life

variable {host : Host} {r : Request}

theorem Leaves.life {o : Outcome Worker} (h : FineCall ⟨r, o.status, (o.inner.ctx r).val⟩ → Leaves r o) :
    Life r (View.after r o) := by
  intro hfine
  have hcall : FineCall ⟨r, o.status, (o.inner.ctx r).val⟩ :=
    hfine _ (mem_append_right _ (mem_singleton.mpr rfl))
  have hleaves := h hcall
  rcases hcall.1 with hok | hwait
  · exact .inr (.inl ⟨if_pos hok, if_pos hok, hleaves.done hok⟩)
  · have hne : o.status ≠ .success := fun hno => by
      rw [show o.status = .inProgress from hwait] at hno
      cases hno
    exact .inr (.inr ⟨if_neg hne, if_neg hne, hleaves.waits hwait⟩)

theorem life_launch (pause : Bool) {s : Worker} (hctx : s.ctx r = .zero) (hmine : mine r s = []) :
    Life r (View.after r (opsTable host r pause s)) := by
  refine Leaves.life fun hcall => ?_
  unfold opsTable at hcall ⊢
  split
  · rename_i hop
    exact (flushProgress_ends steps_mine hop hmine).settles.leaves
  · rename_i hop
    exact (appendProgress_ends steps_mine hop hmine).settles.leaves
  · rename_i iovs hop
    refine scatterProgress_leaves hop hctx hmine fun hok => ?_
    simp only [hop] at hcall
    exact hcall.2 hok iovs hop

theorem life_callback (pause : Bool) {s : Worker} {p : Pending} (v : UInt64)
    (hlife : Life r ⟨1, 0, s.ctx r, mine r s, writesOf r s, returnsOf r s⟩)
    (hp : p ∈ s.pending) (hreq : p.req = r) :
    Life r (View.after r (opsTable host r pause (s.completed p v))) := by
  subst hreq
  intro hfine
  -- the calls before this one were fine as well
  have hbefore : ∀ t ∈ returnsOf p.req s, FineCall t := by
    intro t ht
    refine hfine t (mem_append_left _ ?_)
    rw [returnsOf, (opsTable_touches host p.req pause (s.completed p v)).returns,
      (completed_fields p v s).2.2.1]
    exact ht
  refine Leaves.life (fun _ => ?_) hfine
  rcases hlife hbefore with hno | ⟨hno, -⟩ | ⟨-, -, halive⟩
  · cases hno
  · cases hno
  · dsimp only at halive
    unfold opsTable
    split
    · rename_i hop
      rw [hop] at halive
      refine (flushProgress_ends steps_mine hop ?_).settles.leaves
      rcases halive with ⟨-, hk⟩ | ⟨-, hk⟩ <;> exact (mine_completed_last hp hk v).2
    · rename_i hop
      rw [hop] at halive
      refine (appendProgress_ends steps_mine hop ?_).settles.leaves
      rcases halive with ⟨-, hk⟩ | ⟨-, hk | hk⟩ <;> exact (mine_completed_last hp hk v).2
    · rename_i iovs hop
      rw [hop] at halive
      obtain ⟨hstage, -, hmine⟩ := halive
      have hstage' : ((s.completed p v).ctx p.req).stage = 1 := (completed_stage p v s).trans hstage
      obtain ⟨hrest, hleft⟩ := completed_scatterPut hp v hmine rfl
      unfold scatterProgress
      rw [hstage']
      exact scatterWait_leaves hop hstage' (hleft ▸ hrest)

end Life

/-! ## The pause flag -/

section Pause

variable {host : Host} {hdr : AppendHdr} {r : Request} {s : Worker}

theorem appendPut_pause (sm pause : Bool) : (appendPut host hdr r sm pause s).pause = pause := by
  unfold appendPut appendTo appendCopy appendSend
  dsimp only
  repeat' split
  all_goals rfl

theorem appendUpdate_pause (host : Host) (hdr : AppendHdr) (r : Request) (s : Worker) (pause : Bool) :
    let o := appendUpdate host hdr r pause s
    o.pause = false ∨ (o.pause = pause ∧ o.status ≠ .success ∧ o.status ≠ .inProgress) := by
  unfold appendUpdate
  split
  · exact .inr ⟨rfl, by simp [fault], by simp [fault]⟩
  dsimp only
  split
  · exact .inl (appendPut_pause ..)
  · rename_i hfail
    refine .inr ⟨rfl, hfail, ?_⟩
    unfold memCachePut
    split <;> simp

theorem flushProgress_pause (flushId : UInt64) (pause : Bool) :
    (flushProgress host flushId r pause s).pause = pause := by
  unfold flushProgress flushRma flushEp flushSend
  dsimp only
  repeat' split
  all_goals rfl

theorem scatterProgress_pause (iovs : Iovs) (pause : Bool) :
    (scatterProgress host iovs r pause s).pause = pause := by
  unfold scatterProgress scatterExit scatterWait
  dsimp only
  repeat' split
  all_goals rfl

theorem opsTable_pause (host : Host) (r : Request) (pause : Bool) (s : Worker)
    (hset : (opsTable host r pause s).pause = true) :
    pause = true ∨ ⟨r, .get⟩ ∈ (opsTable host r pause s).inner.pending := by
  cases hop : r.body.op with
  | flush flushId =>
    simp only [opsTable, hop, flushProgress_pause] at hset
    exact .inl hset
  | append hdr =>
    simp only [opsTable, hop] at hset ⊢
    exact (appendProgress_ends .trivial hop trivial).pause_eq hset
  | scatter iovs =>
    simp only [opsTable, hop, scatterProgress_pause] at hset
    exact .inl hset

end Pause

/-- A client is paused only while a Get of one of its requests is in flight. -/
def PauseHeld (w : WState) : Prop :=
  CallsFine w.inner → ∀ c, w.pause c = true → ∃ p ∈ w.inner.pending, p.kind = .get ∧ p.req.client = c

def Orderly (w : WState) : Prop := (∀ r, Lives r (Life r) w) ∧ PauseHeld w

section Orderly

variable {host : Host} {r : Request} {w : WState}

theorem Life.alive (h : Life r (view r w)) (hfine : CallsFine w.inner) (hs : Started w)
    (hr : r ∈ w.running) : Alive r.body.op (w.inner.ctx r) (mine r w.inner) := by
  obtain ⟨hrun, -⟩ := hs.counts hr
  rcases h fun t ht => hfine t (mem_of_mem_filter ht) with hno | ⟨hno, -⟩ | ⟨-, -, halive⟩
  · simp only [view, View.unstarted, View.mk.injEq] at hno
    omega
  · simp only [view] at hno
    omega
  · exact halive

theorem Life.released (h : Life r (view r w)) (hfine : CallsFine w.inner) (hr : r ∈ w.finished) :
    mine r w.inner = [] := by
  have hpos := count_pos_iff.mpr hr
  rcases h fun t ht => hfine t (mem_of_mem_filter ht) with hno | ⟨-, -, hmine⟩ | ⟨-, hno, -⟩
  · simp only [view, View.unstarted, View.mk.injEq] at hno
    omega
  · exact hmine
  · simp only [view] at hno
    omega

theorem mem_mine {p : Pending} {s : Worker} (hp : p ∈ s.pending) : p.kind ∈ mine p.req s :=
  mem_map.mpr ⟨p, mem_filter.mpr ⟨hp, by simp⟩, rfl⟩

theorem Alive.get {op : RdmoOp} {ctx : Ctx} {ks : List PendingKind} (h : Alive op ctx ks)
    (hk : .get ∈ ks) : ctx.stage = 1 ∧ ∃ hdr, op = .append hdr := by
  cases op with
  | append hdr =>
    rcases h with ⟨hstage, -⟩ | ⟨-, rfl | rfl⟩
    · exact ⟨hstage, hdr, rfl⟩
    all_goals simp at hk
  | flush _ => rcases h with ⟨-, rfl⟩ | ⟨-, rfl⟩ <;> simp at hk
  | scatter _ =>
    obtain ⟨-, -, rfl⟩ := h
    have := eq_of_mem_replicate hk
    cases this

theorem settle_pause (r : Request) (o : DocaError × WState) : (settle r o).pause = o.2.pause := by
  unfold settle
  split <;> rfl

theorem CallsFine.before
    (h : CallsFine (settle r (progress (opsProgress host) r w)).inner) : CallsFine w.inner := by
  rw [settle_inner] at h
  intro t ht
  refine h t (mem_append_left _ ?_)
  rw [(opsTable_touches host r (w.pause r.client) w.inner).returns]
  exact ht

theorem CallsFine.last (h : CallsFine (settle r (progress (opsProgress host) r w)).inner) :
    FineCall ⟨r, (opsTable host r (w.pause r.client) w.inner).status,
      ((opsTable host r (w.pause r.client) w.inner).inner.ctx r).val⟩ := by
  rw [settle_inner] at h
  exact h _ (mem_append_right _ (mem_singleton.mpr rfl))

/-- A call keeps the pause flags of the other clients, and the one of its own client if the Gets in
    flight are those from before. -/
theorem pauseHeld_call {s : Worker} (hsame : s.returns = w.inner.returns)
    (hother : CallsFine w.inner → ∀ c, w.pause c = true → c ≠ r.client →
      ∃ p ∈ s.pending, p.kind = .get ∧ p.req.client = c)
    (hown : FineCall ⟨r, (opsTable host r (w.pause r.client) s).status,
        ((opsTable host r (w.pause r.client) s).inner.ctx r).val⟩ → CallsFine w.inner →
      (opsTable host r (w.pause r.client) s).pause = true →
      ∃ p ∈ (opsTable host r (w.pause r.client) s).inner.pending,
        p.kind = .get ∧ p.req.client = r.client) :
    PauseHeld (settle r (progress (opsProgress host) r { w with inner := s })) := by
  intro hfine c hc
  have hbefore : CallsFine w.inner := by
    have := hfine.before
    rw [CallsFine, hsame] at this
    exact this
  rw [settle_pause] at hc
  rw [settle_inner]
  by_cases heq : c = r.client
  · subst heq
    simp only [progress, update_self] at hc
    exact hown hfine.last hbefore hc
  · simp only [progress, update_of_ne heq] at hc
    obtain ⟨p, hp, hkind, hclient⟩ := hother hbefore c hc heq
    obtain ⟨ks, hks⟩ := (opsTable_touches host r (w.pause r.client) s).pending
    refine ⟨p, ?_, hkind, hclient⟩
    change p ∈ (opsTable host r (w.pause r.client) s).inner.pending
    rw [hks]
    exact mem_append_left _ hp

theorem PauseHeld.launch (h : PauseHeld w) (r : Request) :
    PauseHeld (settle r (progress (opsProgress host) r (begin r w))) := by
  refine pauseHeld_call (w := begin r w) rfl (fun hfine c hc _ => h hfine c hc) fun _ hfine hset => ?_
  rcases opsTable_pause host r _ _ hset with hpause | hget
  · obtain ⟨p, hp, hkind, hclient⟩ := h hfine r.client hpause
    obtain ⟨ks, hks⟩ := (opsTable_touches host r (w.pause r.client) w.inner).pending
    exact ⟨p, hks ▸ mem_append_left _ hp, hkind, hclient⟩
  · exact ⟨_, hget, rfl, rfl⟩

theorem PauseHeld.callback (h : PauseHeld w) {p : Pending} (v : UInt64) (hp : p ∈ w.inner.pending)
    (hr : p.req ∈ w.running) (hs : Started w) (hlife : Life p.req (view p.req w)) :
    PauseHeld (settle p.req (progress (opsProgress host) p.req
      { w with inner := w.inner.completed p v })) := by
  obtain ⟨hpending, -, hreturns, -⟩ := completed_fields p v w.inner
  -- a Get other than the completed operation stays in flight
  have hkeep : ∀ q : Pending, q ∈ w.inner.pending → q ≠ p → q ∈ (w.inner.completed p v).pending := by
    intro q hq hne
    rw [hpending]
    exact (mem_erase_of_ne hne).mpr hq
  refine pauseHeld_call hreturns (fun hfine c hc hne => ?_) fun hcall hfine hset => ?_
  · obtain ⟨q, hq, hkind, hclient⟩ := h hfine c hc
    exact ⟨q, hkeep q hq (fun heq => hne (by rw [← hclient, heq])), hkind, hclient⟩
  · by_cases hget : p.kind = .get
    · -- the request is an append in its second stage
      exfalso
      obtain ⟨hstage, hdr, hop⟩ := (hlife.alive hfine hs hr).get (hget ▸ mem_mine hp)
      have hstage' : ((w.inner.completed p v).ctx p.req).stage = 1 := by
        simp only [Worker.completed, hget, Worker.setCtx, update_self]
        exact hstage
      simp only [opsTable, hop, appendProgress, hstage'] at hset hcall
      obtain hno | ⟨-, hne, hne'⟩ := appendUpdate_pause host hdr p.req (w.inner.completed p v)
        (w.pause p.req.client)
      · rw [hno] at hset
        cases hset
      · exact hcall.1.elim hne hne'
    · rcases opsTable_pause host p.req _ _ hset with hpause | hnew
      · obtain ⟨q, hq, hkind, hclient⟩ := h hfine _ hpause
        obtain ⟨ks, hks⟩ := (opsTable_touches host p.req (w.pause p.req.client)
          (w.inner.completed p v)).pending
        refine ⟨q, hks ▸ mem_append_left _ (hkeep q hq fun heq => hget ?_), hkind, hclient⟩
        rw [← heq, hkind]
      · exact ⟨_, hnew, rfl, rfl⟩

theorem orderly_keeps (host : Host) : Keeps (opsProgress host) Orderly := by
  have hlives : ∀ r, Keeps (opsProgress host) (Lives r (Life r)) := fun r =>
    Lives.keeps fun pause s hctx hmine _ _ => life_launch pause hctx hmine
  refine ⟨fun a p f hw => hw, fun hw hs hfresh => ⟨fun r => ?_, hw.2.launch _⟩⟩
  exact (hlives r).launch (hw.1 r) hs hfresh

theorem Orderly.callback (host : Host) (h : Orderly w) (hs : Started w) {p : Pending} (v : UInt64)
    (hp : p ∈ w.inner.pending) (hr : p.req ∈ w.running) :
    Orderly (settle p.req (progress (opsProgress host) p.req
      { w with inner := w.inner.completed p v })) := by
  refine ⟨fun r => ?_, h.2.callback v hp hr hs (h.1 p.req).2⟩
  exact (h.1 r).callback v hs hp hr fun pause s hlife hps hreq => life_callback pause v hlife hps hreq

theorem Orderly.running (h : Orderly w) (hfine : CallsFine w.inner) {p : Pending}
    (hp : p ∈ w.inner.pending) : p.req ∈ w.running := by
  have hmem := mem_mine hp
  rcases (h.1 p.req).2 fun t ht => hfine t (mem_of_mem_filter ht) with
    hno | ⟨-, -, hno⟩ | ⟨hrun, -, -⟩
  · simp only [view, View.unstarted, View.mk.injEq] at hno
    rw [hno.2.2.2.1] at hmem
    cases hmem
  · simp only [view] at hno
    rw [hno] at hmem
    cases hmem
  · simp only [view] at hrun
    exact count_pos_iff.mp (by omega)

end Orderly

/-! ## The lists -/

section Lists

variable {B S : Type} [DecidableEq B] {pf : Progress B S} {w : QState B S} {r : Req B} {e : Nat}

/-- A request waits for a fence only while another one of its endpoint runs. -/
def FencedHeld (e : Nat) (w : QState B S) : Prop := w.fenced e ≠ [] → w.oreqs e ≠ 0

theorem settle_oreqs_other (hne : e ≠ r.ep) (o : DocaError × QState B S) :
    (settle r o).oreqs e = o.2.oreqs e := by
  unfold settle
  split
  · exact update_of_ne hne _ _
  · rfl

theorem FencedHeld.reqStart (h : FencedHeld e w) : FencedHeld e (settle r (reqStart pf r w)) := by
  intro hne
  rw [settle_fenced] at hne
  by_cases he : e = r.ep
  · subst he
    unfold QState.reqStart at hne ⊢
    split
    · rename_i hwait
      change w.oreqs r.ep ≠ 0
      rcases hwait with hwait | ⟨-, hwait⟩
      · exact h hwait
      · exact hwait
    · rename_i hgo
      rw [if_neg hgo] at hne
      simp only [not_or, Classical.not_not] at hgo
      exact absurd hgo.1 hne
  · rw [settle_oreqs_other he]
    unfold QState.reqStart at hne ⊢
    split
    · rename_i hwait
      rw [if_pos hwait] at hne
      simp only [update_of_ne he] at hne
      exact h hne
    · rename_i hgo
      rw [if_neg hgo] at hne
      simp only [progress, begin, update_of_ne he] at hne ⊢
      exact h hne

theorem FencedHeld.pausedLoop (c : Nat) (h : FencedHeld e w) :
    FencedHeld e (pausedLoop pf c (w.paused c) w) :=
  pausedLoop_rule (fun {_ rest w} h _ => FencedHeld.reqStart
    (w := { w with paused := update w.paused c rest }) h) h rfl

theorem fencedLoop_held : ∀ (rest : List (Req B)) {w : QState B S}, w.fenced e = rest →
    FencedHeld e (fencedLoop pf e rest w)
  | [], _, h => fun hne => absurd h hne
  | r :: rest, w, _ => by
    unfold QState.fencedLoop
    split
    · rename_i hstop
      exact fun _ => hstop.2
    · refine fencedLoop_held rest ?_
      rw [settle_fenced]
      simp [progress, begin]

theorem FencedHeld.fencedLoop {d : Nat} (hd : d ≠ e) (hq : QInv w) (h : FencedHeld d w) :
    FencedHeld d (fencedLoop pf e (w.fenced e) w) := by
  refine (fencedLoop_rule (P := fun w => QInv w ∧ FencedHeld d w) ?_ ⟨hq, h⟩ rfl).2
  rintro r rest w ⟨hq, h⟩ hhead hfence
  have hep : r.ep = e := hq.fenced e r (hhead ▸ mem_cons_self ..)
  have hbegin := hq.beginFenced hhead hfence
  refine ⟨(hbegin.progress pf r).settle fun _ => mem_cons_self .., fun hne => ?_⟩
  rw [settle_fenced] at hne
  rw [settle_oreqs_other (hep ▸ hd)]
  simp only [progress, begin, update_of_ne hd, update_of_ne (hep ▸ hd)] at hne ⊢
  exact h hne

theorem FencedHeld.opCb (h : ∀ d, FencedHeld d w) (hq : QInv w) (hr : r ∈ w.running) :
    ∀ d, FencedHeld d (opCb pf r w) := by
  intro d
  have hsettled : QInv (settle r (progress pf r w)) := (hq.progress pf r).settle fun _ => hr
  have hother : d ≠ r.ep → FencedHeld d (settle r (progress pf r w)) := by
    intro hd hne
    rw [settle_fenced] at hne
    rw [settle_oreqs_other hd]
    exact h d hne
  rw [opCb_eq]
  split
  · have hpaused : QInv (checkPaused pf r.client (settle r (progress pf r w))) :=
      hsettled.pausedLoop rfl
    unfold checkFenced
    split
    · rename_i hbusy
      by_cases hd : d = r.ep
      · subst hd
        exact fun _ => hbusy
      · exact FencedHeld.pausedLoop _ (hother hd)
    · by_cases hd : d = r.ep
      · subst hd
        exact fencedLoop_held _ rfl
      · exact FencedHeld.fencedLoop hd hpaused (FencedHeld.pausedLoop _ (hother hd))
  · rename_i hfail
    unfold settle
    rw [if_neg hfail]
    exact h d

theorem FencedHeld.reqQueue (h : ∀ d, FencedHeld d w) (r : Req B) :
    ∀ d, FencedHeld d (reqQueue pf r w) := by
  intro d
  unfold QState.reqQueue
  split
  · exact h d
  · exact FencedHeld.reqStart (h d)

theorem pausedLoop_stops (pf : Progress B S) (c : Nat) : ∀ (rest : List (Req B)) {w : QState B S}, w.paused c = rest →
    (pausedLoop pf c rest w).paused c = [] ∨ (pausedLoop pf c rest w).pause c = true
  | [], _, h => .inl h
  | r :: rest, w, _ => by
    unfold QState.pausedLoop
    split
    · rename_i hpause
      exact .inr hpause
    · refine pausedLoop_stops pf c rest ?_
      rw [settle_paused, reqStart_paused]
      simp

theorem pausedLoop_other {c d : Nat} (hd : d ≠ c) (w : QState B S) :
    (pausedLoop pf c (w.paused c) w).paused d = w.paused d := by
  refine pausedLoop_rule (P := fun v => v.paused d = w.paused d) (fun h _ => ?_) rfl rfl
  rw [settle_paused, reqStart_paused]
  exact (update_of_ne hd _ _).trans h

theorem fencedLoop_paused (e : Nat) (w : QState B S) :
    (fencedLoop pf e (w.fenced e) w).paused = w.paused :=
  fencedLoop_rule (P := fun v => v.paused = w.paused) (fun h _ _ => (settle_paused _ _).trans h) rfl rfl

theorem running_keeps (pf : Progress B S) (q : Req B) : Keeps pf fun w => q ∈ w.running := by
  refine ⟨fun a p f hw => hw, fun {w r} hw hs hfresh => ?_⟩
  have hne : q ≠ r := fun heq => (hs.fresh hfresh).1 (heq ▸ hw)
  have hmem : q ∈ (progress pf r (begin r w)).2.running := mem_cons_of_mem r hw
  unfold settle
  split
  · exact (mem_erase_of_ne hne).mpr hmem
  · exact hmem

end Lists

theorem returns_keeps (host : Host) (t : Return) :
    Keeps (opsProgress host) fun w => t ∈ w.inner.returns := by
  refine ⟨fun a p f hw => hw, fun {w r} hw _ _ => ?_⟩
  rw [settle_inner]
  refine mem_append_left _ ?_
  rw [(opsTable_touches host r _ _).returns]
  exact hw

def PausedHeld (w : WState) : Prop :=
  CallsFine w.inner → ∀ c, w.paused c ≠ [] → ∃ r ∈ w.running, r.client = c

section Held

variable {host : Host} {w : WState} {r : Request}

theorem PausedHeld.checkFenced (h : PausedHeld w) (hq : QInv w) (e : Nat) :
    PausedHeld (checkFenced (opsProgress host) e w) := by
  intro hfine c hne
  have hsame : (QState.checkFenced (opsProgress host) e w).paused = w.paused := by
    unfold QState.checkFenced
    split
    · rfl
    · exact fencedLoop_paused ..
  rw [hsame] at hne
  obtain ⟨q, hqr, hclient⟩ :=
    h (fun t ht => hfine t ((returns_keeps host t).checkFenced hq ht e)) c hne
  exact ⟨q, (running_keeps _ q).checkFenced hq hqr e, hclient⟩

theorem PausedHeld.checkPaused {d : Nat} (hq : QInv w) (hord : Orderly w)
    (h : CallsFine w.inner → ∀ c ≠ d, w.paused c ≠ [] → ∃ q ∈ w.running, q.client = c) :
    PausedHeld (checkPaused (opsProgress host) d w) := by
  intro hfine c hne
  by_cases hc : c = d
  · subst hc
    rcases pausedLoop_stops (opsProgress host) c _ (w := w) rfl with hempty | hpause
    · exact absurd hempty hne
    · have hmid := (orderly_keeps host).pausedLoop hq hord (c := c) rfl
      obtain ⟨p, hp, -, hclient⟩ := hmid.2 hfine _ hpause
      exact ⟨p.req, hmid.running hfine hp, hclient⟩
  · unfold QState.checkPaused at hne
    rw [pausedLoop_other hc] at hne
    obtain ⟨q, hqr, hclient⟩ :=
      h (fun t ht => hfine t ((returns_keeps host t).pausedLoop hq ht rfl)) c hc hne
    exact ⟨q, (running_keeps _ q).pausedLoop hq hqr rfl, hclient⟩

theorem PausedHeld.opCb (h : PausedHeld w) (hq : QInv w) (hr : r ∈ w.running)
    (hord : Orderly (settle r (progress (opsProgress host) r w))) :
    PausedHeld (opCb (opsProgress host) r w) := by
  have hsettled : QInv (settle r (progress (opsProgress host) r w)) :=
    (hq.progress _ r).settle fun _ => hr
  rw [opCb_eq]
  split
  · rename_i hok
    refine (PausedHeld.checkPaused hsettled hord ?_).checkFenced (hsettled.pausedLoop rfl) r.ep
    intro hfine c hc hne
    rw [settle_paused] at hne
    obtain ⟨q, hqr, hclient⟩ := h hfine.before c hne
    have hqne : q ≠ r := fun heq => hc (by rw [← hclient, heq])
    refine ⟨q, ?_, hclient⟩
    unfold settle
    rw [if_pos hok]
    exact (mem_erase_of_ne hqne).mpr hqr
  · rename_i hfail
    intro hfine c hne
    rw [settle_paused] at hne
    obtain ⟨q, hqr, hclient⟩ := h hfine.before c hne
    refine ⟨q, ?_, hclient⟩
    unfold settle
    rw [if_neg hfail]
    exact hqr

theorem PausedHeld.reqQueue (h : PausedHeld w) (hq : QInv w) (hord : Orderly w) (hnew : r ∉ w.arrived) :
    PausedHeld (reqQueue (opsProgress host) r { w with arrived := w.arrived ++ [r] }) := by
  intro hfine c hne
  have hbefore : CallsFine w.inner := fun t ht =>
    hfine t ((returns_keeps host t).reqQueue hq ht hnew)
  have hrunning : ∀ q ∈ w.running, q ∈
      (QState.reqQueue (opsProgress host) r { w with arrived := w.arrived ++ [r] }).running :=
    fun q hqr => (running_keeps _ q).reqQueue hq hqr hnew
  suffices ∃ q ∈ w.running, q.client = c by
    obtain ⟨q, hqr, hclient⟩ := this
    exact ⟨q, hrunning q hqr, hclient⟩
  unfold QState.reqQueue at hne
  split at hne
  · rename_i hwait
    by_cases hc : c = r.client
    · subst hc
      rcases hwait with hwait | hpause
      · exact h hbefore _ hwait
      · obtain ⟨p, hp, -, hclient⟩ := hord.2 hbefore _ hpause
        exact ⟨p.req, hord.running hbefore hp, hclient⟩
    · simp only [update_of_ne hc] at hne
      exact h hbefore c hne
  · rw [settle_paused, reqStart_paused] at hne
    exact h hbefore c hne

structure Held (w : WState) : Prop where
  queues : WInv w
  orderly : Orderly w
  fenced : ∀ e, FencedHeld e w
  paused : PausedHeld w

theorem held_reach (h : Reach (workerStep host) WEnabled WState.idle w) : Held w := by
  refine h.invariant ⟨.idle, ⟨fun r => ⟨fun _ => rfl, fun _ => .inl rfl⟩,
    fun _ _ hno => (nomatch hno)⟩, fun _ hno => absurd rfl hno, fun _ _ hno => absurd rfl hno⟩
    fun w e w' hw he hstep => ?_
  cases e with
  | message m allocated =>
    cases hstep
    have hinv : WInv (amCb host m allocated w) := hw.queues.message m allocated
    obtain hsame | ⟨r, hnew, -, heq⟩ := amCb_cases host hw.queues m allocated
    · rw [hsame]
      exact hw
    · rw [heq] at hinv ⊢
      have hqueues := hw.queues.queues
      exact ⟨hinv, (orderly_keeps host).reqQueue hqueues hw.orderly hnew,
        FencedHeld.reqQueue (w := { w with arrived := w.arrived ++ [r] }) hw.fenced r,
        hw.paused.reqQueue hqueues hw.orderly hnew⟩
  | callback p v =>
    cases hstep
    obtain ⟨-, hp, hr⟩ := he
    have hord := hw.orderly.callback host hw.queues.queues.toStarted v hp hr
    have hq : QInv { w with inner := w.inner.completed p v } := hw.queues.queues.inner _
    have hpaused : PausedHeld { w with inner := w.inner.completed p v } := by
      intro hfine c hne
      refine hw.paused (fun t ht => hfine t ?_) c hne
      rw [(completed_fields p v w.inner).2.2.1]
      exact ht
    exact ⟨hw.queues.callback hr v, (orderly_keeps host).opCb hq hr hord,
      FencedHeld.opCb (w := { w with inner := w.inner.completed p v }) hw.fenced hq hr,
      hpaused.opCb hq hr hord⟩

end Held

/-! ## What is and what is not held up -/

structure NotBlocked (w : WState) : Prop where
  oreqs : ∀ e, w.oreqs e = ((w.starts.map Start.req).filter fun r => r.ep = e ∧ mine r w.inner ≠ []).length
  pause : ∀ c, w.pause c = true → ∃ p ∈ w.inner.pending, p.kind = .get ∧ p.req.client = c
  /-- A started request is released exactly if nothing of it is in flight. -/
  released : ∀ r ∈ w.starts.map Start.req, r ∈ w.finished ↔ mine r w.inner = []
  /-- A request waits for a fence only while one of its endpoint has an operation in flight. -/
  fenced : ∀ e, w.fenced e ≠ [] → ∃ r ∈ w.starts.map Start.req, r.ep = e ∧ mine r w.inner ≠ []
  /-- A request waits for the end of a pause only while one of its client has an operation in flight. -/
  paused : ∀ c, w.paused c ≠ [] → ∃ r ∈ w.starts.map Start.req, r.client = c ∧ mine r w.inner ≠ []

section NotBlocked

variable {host : Host} {w : WState}

theorem Held.notBlocked (h : Held w) (hfine : CallsFine w.inner) : NotBlocked w := by
  have hq := h.queues.queues
  have hrun : ∀ r ∈ w.running, mine r w.inner ≠ [] := fun r hr =>
    ((h.orderly.1 r).2.alive hfine hq.toStarted hr).ne_nil
  have hfin : ∀ r ∈ w.finished, mine r w.inner = [] := fun r hr => (h.orderly.1 r).2.released hfine hr
  have hmem : ∀ r ∈ w.running, r ∈ w.starts.map Start.req := fun r hr =>
    hq.started.mem_iff.mpr (mem_append_left _ hr)
  refine ⟨fun e => ?_, h.orderly.2 hfine, fun r hr => ⟨hfin r, fun hnone => ?_⟩, fun e hne => ?_,
    fun c hne => ?_⟩
  · have hlive : (w.running.filter fun r => r.ep = e ∧ mine r w.inner ≠ []) =
        w.running.filter fun r => r.ep = e := by
      refine filter_congr fun r hr => ?_
      simp [hrun r hr]
    have hdone : (w.finished.filter fun r => r.ep = e ∧ mine r w.inner ≠ []) = [] := by
      rw [filter_eq_nil_iff]
      intro r hr
      simp [hfin r hr]
    rw [hq.oreqs e, (hq.started.filter _).length_eq, filter_append, hlive, hdone, append_nil]
  · rw [hq.started.mem_iff, mem_append] at hr
    exact hr.resolve_left fun hr => hrun r hr hnone
  · have hbusy := h.fenced e hne
    rw [hq.oreqs e] at hbusy
    obtain ⟨r, hr⟩ := exists_mem_of_ne_nil (w.running.filter fun r => r.ep = e) fun hno => by
      rw [hno] at hbusy
      exact hbusy rfl
    obtain ⟨hr, hep⟩ := mem_filter.mp hr
    exact ⟨r, hmem r hr, by simpa using hep, hrun r hr⟩
  · obtain ⟨r, hr, hclient⟩ := h.paused hfine c hne
    exact ⟨r, hmem r hr, hclient, hrun r hr⟩

/-- **In every run whose calls are all fine, no request blocks its endpoint or its client.** -/
theorem not_blocked (h : Reach (workerStep host) WEnabled WState.idle w) (hfine : CallsFine w.inner) :
    NotBlocked w :=
  (held_reach h).notBlocked hfine

theorem not_blocked_fenced :
    ∃ w, Reach (workerStep (Host.plain lowRegion fun _ _ => .inProgress)) WEnabled WState.idle w ∧
      w.oreqs 0 = 1 ∧ (w.fenced 0).length = 1 ∧ NotBlocked w := by
  have hreach : Reach (workerStep (Host.plain lowRegion fun _ _ => .inProgress)) WEnabled WState.idle _ :=
    .of_run (l := [.message (scatterMsg 0 0 ⟨[⟨4100, 7, 16⟩], by decide⟩ false) true,
      .message ⟨0, 0, 1, 20, 0, 5, ⟨0, 0, 0⟩, ⟨[], by decide⟩, false, 0⟩ true]) .init rfl
  refine ⟨_, hreach, by decide, by decide, not_blocked hreach fun t ht => ?_⟩
  cases mem_singleton.mp ht
  exact ⟨.inr rfl, nofun⟩

theorem never_released {w₀ : WState} {r : Request} (h0 : WInv w₀) (hr : r ∈ w₀.running)
    (hmine : mine r w₀.inner = []) (h : Reach (workerStep host) WEnabled w₀ w) :
    r ∈ w.running ∧ w.oreqs r.ep ≠ 0 := by
  have hcall : ∀ {q : Request} {w : WState}, q ≠ r → r ∈ w.running → mine r w.inner = [] →
      r ∈ (settle q (progress (opsProgress host) q w)).running ∧
        mine r (settle q (progress (opsProgress host) q w)).inner = [] := by
    intro q w hne hr hmine
    refine ⟨?_, ?_⟩
    · unfold settle
      split
      · exact (mem_erase_of_ne (Ne.symm hne)).mpr hr
      · exact hr
    · rw [settle_inner]
      exact ((opsTable_touches host q _ w.inner).mine_other hne).trans hmine
  have hkeeps : Keeps (opsProgress host) fun w => r ∈ w.running ∧ mine r w.inner = [] := by
    refine ⟨fun a p f hw => hw, fun {w q} hw hs hfresh => ?_⟩
    have hne : q ≠ r := fun heq => (hs.fresh hfresh).1 (heq ▸ hw.1)
    exact hcall hne (mem_cons_of_mem q hw.1) hw.2
  obtain ⟨hw, hrun, -⟩ := worker_rule (fun _ _ he => he) hkeeps h0 ⟨hr, hmine⟩ (fun w p v hw hj he => by
      have hne : p.req ≠ r := fun heq => by
        have := mem_mine he.2.1
        rw [heq, hj.2] at this
        cases this
      exact hcall hne hj.1 ((mine_completed_other hne v w.inner).trans hj.2)) h
  refine ⟨hrun, ?_⟩
  rw [hw.queues.oreqs]
  have : r ∈ w.running.filter fun q => q.ep = r.ep := mem_filter.mpr ⟨hrun, by simp⟩
  have := length_pos_of_mem this
  omega

/-- **A rendezvous scatter blocks its endpoint for good**: nothing of it is in flight, and in every
    continuation `oreqs` stays above zero. -/
theorem rendezvous_blocks :
    ∃ w, Reach (workerStep (Host.plain lowRegion fun _ _ => .ok)) WEnabled WState.idle w ∧
      w.inner.pending = [] ∧ w.oreqs 0 = 1 ∧
      ∀ w', Reach (workerStep (Host.plain lowRegion fun _ _ => .ok)) WEnabled w w' → w'.oreqs 0 ≠ 0 := by
  have hreach : Reach (workerStep (Host.plain lowRegion fun _ _ => .ok)) WEnabled WState.idle _ :=
    .of_run (l := [.message (scatterMsg 0 0 ⟨[], by decide⟩ true) true]) .init rfl
  refine ⟨_, hreach, by decide, by decide, fun w' hw' => ?_⟩
  exact (never_released (held_reach hreach).queues (mem_singleton.mpr rfl) rfl hw').2

end NotBlocked

end Doca.Rdmo
