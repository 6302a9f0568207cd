import Doca.Rdmo.Calls

/-!
# RDMO worker: one request among many

What a progress function of one request leaves alone, and the rules that follow for runs of the worker.

* `Touches r` — a call for `r` changes the context of `r`, adds operations and destinations of `r`, and
  otherwise only changes the cache and the RMA operations of the client of `r`.
* `view r` — what a request can see of itself; `view_rule` is the induction rule for its life: it is
  started once, and later only its own completions move it.
-/

namespace Doca.Rdmo

open Doca.Lib QState Function List

/-! ## What a call changes -/

structure Touches (r : Request) (s s' : Worker) : Prop where
  ctx : ∀ q, q ≠ r → s'.ctx q = s.ctx q
  pending : ∃ ks : List PendingKind, s'.pending = s.pending ++ ks.map (Pending.mk r)
  writes : ∃ xs : List Write, s'.writes = s.writes ++ xs ∧ ∀ x ∈ xs, x.req = r
  cache : ∀ c, c ≠ r.client → s'.cache c = s.cache c
  rma : ∀ c, c ≠ r.client → s'.rma c = s.rma c
  returns : s'.returns = s.returns

section Touches

variable {r : Request} {s s' : Worker}

theorem Touches.refl (r : Request) (s : Worker) : Touches r s s :=
  ⟨fun _ _ => rfl, ⟨[], by simp⟩, ⟨[], by simp⟩, fun _ _ => rfl, fun _ _ => rfl, rfl⟩

theorem Touches.await (h : Touches r s s') (k : PendingKind) : Touches r s (s'.await r k) := by
  obtain ⟨ks, hks⟩ := h.pending
  refine ⟨h.ctx, ⟨ks ++ [k], ?_⟩, h.writes, h.cache, h.rma, h.returns⟩
  simp only [Worker.await, hks, map_append, map_cons, map_nil, append_assoc]

theorem Touches.write (h : Touches r s s') {x : Write} (hx : x.req = r) : Touches r s (s'.write x) := by
  obtain ⟨xs, hxs, hr⟩ := h.writes
  refine ⟨h.ctx, h.pending, ⟨xs ++ [x], ?_, ?_⟩, h.cache,
    fun c hc => (update_of_ne (hx ▸ hc) _ _).trans (h.rma c hc), h.returns⟩
  · simp only [Worker.write, hxs, append_assoc]
  · intro y hy
    rcases mem_append.mp hy with hy | hy
    · exact hr y hy
    · rw [mem_singleton.mp hy, hx]

theorem Touches.steps (host : Host) (r : Request) (s : Worker) : Steps host r (Touches r s) where
  tick h := ⟨h.ctx, h.pending, h.writes, h.cache, h.rma, h.returns⟩
  issue _ h := ⟨h.ctx, h.pending, h.writes, h.cache,
    fun c hc => (update_of_ne hc _ _).trans (h.rma c hc), h.returns⟩
  setCache _ h := ⟨h.ctx, h.pending, h.writes,
    fun c hc => (update_of_ne hc _ _).trans (h.cache c hc), h.rma, h.returns⟩
  fault h := ⟨h.ctx, h.pending, h.writes, h.cache, h.rma, h.returns⟩
  setCtx h _ := ⟨fun q hq => (update_of_ne hq _ _).trans (h.ctx q hq), h.pending, h.writes, h.cache,
    h.rma, h.returns⟩
  write h hx := h.write hx.req
  respond _ h := ⟨h.ctx, h.pending, h.writes, h.cache, h.rma, h.returns⟩

theorem opsTable_touches (host : Host) (r : Request) (pause : Bool) (s : Worker) :
    Touches r s (opsTable host r pause s).inner :=
  opsTable_kept (Touches.steps host r s) (fun k h => h.await k) (.refl r s)

end Touches

structure Quiet (s s' : Worker) : Prop where
  pending : s'.pending = s.pending
  writes : s'.writes = s.writes
  ctx : s'.ctx = s.ctx
  faulted : s'.faulted = s.faulted

theorem memCacheFlush_quiet (host : Host) (c : Nat) (s : Worker) : Quiet s (memCacheFlush host c s).2 := by
  have hsteps : Caches c (Quiet s) :=
    ⟨fun h => ⟨h.pending, h.writes, h.ctx, h.faulted⟩, fun _ h => ⟨h.pending, h.writes, h.ctx, h.faulted⟩,
      fun _ h => ⟨h.pending, h.writes, h.ctx, h.faulted⟩⟩
  exact memCacheFlush_kept hsteps host ⟨rfl, rfl, rfl, rfl⟩

/-! ## Runs of the worker -/

section Arrived

variable {B S : Type} [DecidableEq B]

variable (r : Req B)

theorem settle_arrived (o : DocaError × QState B S) : (settle r o).arrived = o.2.arrived := by
  unfold settle
  split <;> rfl

section

variable (pf : Progress B S)

include pf

variable (w : QState B S)

omit [DecidableEq B] in
theorem reqStart_arrived : (reqStart pf r w).2.arrived = w.arrived := by
  unfold reqStart
  split <;> rfl

theorem fencedLoop_arrived (e : Nat) (w : QState B S) :
    (fencedLoop pf e (w.fenced e) w).arrived = w.arrived :=
  fencedLoop_rule (P := fun v => v.arrived = w.arrived) (fun h _ _ => (settle_arrived _ _).trans h) rfl rfl

theorem pausedLoop_arrived (c : Nat) (w : QState B S) :
    (pausedLoop pf c (w.paused c) w).arrived = w.arrived :=
  pausedLoop_rule (P := fun v => v.arrived = w.arrived)
    (fun h _ => ((settle_arrived _ _).trans (reqStart_arrived ..)).trans h) rfl rfl

theorem opCb_arrived : (opCb pf r w).arrived = w.arrived := by
  unfold opCb
  split
  · unfold reqComplete checkFenced checkPaused
    split
    · rw [pausedLoop_arrived]
      rfl
    · rw [fencedLoop_arrived, pausedLoop_arrived]
      rfl
  · rfl

theorem reqQueue_arrived : (reqQueue pf r w).arrived = w.arrived := by
  unfold reqQueue
  split
  · rfl
  · rw [settle_arrived, reqStart_arrived]

end

end Arrived

structure WInv (w : WState) : Prop where
  queues : QInv w
  seq : ∀ r ∈ w.arrived, r.seq < w.arrived.length

variable {host : Host} {G : WState → WEvent → Prop} {w : WState} {r : Request} {q : Request} {p : Pending}

theorem amCb_cases (host : Host) (hw : WInv w) (m : Msg) (allocated : Bool) :
    amCb host m allocated w = w ∨ ∃ r : Request, r ∉ w.arrived ∧ r.seq = w.arrived.length ∧
      amCb host m allocated w = reqQueue (opsProgress host) r { w with arrived := w.arrived ++ [r] } := by
  unfold amCb
  split
  · split
    · exact .inl rfl
    · refine .inr ⟨_, fun hr => ?_, rfl, rfl⟩
      exact Nat.lt_irrefl _ (hw.seq _ hr)
  · exact .inl rfl

theorem WInv.message (hw : WInv w) (m : Msg) (allocated : Bool) : WInv (amCb host m allocated w) := by
  obtain hsame | ⟨r, hnew, hseq, heq⟩ := amCb_cases host hw m allocated
  · rw [hsame]
    exact hw
  · rw [heq]
    refine ⟨hw.queues.reqQueue hnew, ?_⟩
    rw [reqQueue_arrived]
    intro q hq
    rw [length_append, length_singleton]
    rcases mem_append.mp hq with hq | hq
    · exact Nat.lt_succ_of_lt (hw.seq q hq)
    · rw [mem_singleton.mp hq, hseq]
      exact Nat.lt_succ_self _

theorem QInv.inner {B S : Type} [DecidableEq B] {w : QState B S} (h : QInv w) (s : S) :
    QInv { w with inner := s } :=
  ⟨h.order, h.fenced, h.paused, h.distinct, h.started, h.oreqs, h.fences⟩

theorem WInv.callback (hw : WInv w) (hr : p.req ∈ w.running) (v : UInt64) :
    WInv (opCb (opsProgress host) p.req { w with inner := w.inner.completed p v }) := by
  refine ⟨(hw.queues.inner _).opCb hr, ?_⟩
  rw [opCb_arrived]
  exact hw.seq

theorem WInv.idle : WInv WState.idle := ⟨idle_inv _, fun _ hr => (nomatch hr)⟩

/-- **An invariant of the worker** holds in all its runs if every start keeps it and every completion,
    once the request itself is dealt with. -/
theorem worker_rule {J : WState → Prop} {w₀ : WState} (hG : ∀ w e, G w e → WEnabled w e)
    (hJ : Keeps (opsProgress host) J) (h0 : WInv w₀) (hj0 : J w₀)
    (hcb : ∀ w p v, WInv w → J w → G w (.callback p v) → J (settle p.req (progress (opsProgress host) p.req
        { w with inner := w.inner.completed p v })))
    (h : Reach (workerStep host) G w₀ w) : WInv w ∧ J w := by
  refine h.invariant (I := fun w => WInv w ∧ J w) ⟨h0, hj0⟩ fun w e w' hw he hstep => ?_
  obtain ⟨hw, hj⟩ := hw
  cases e with
  | message m allocated =>
    cases hstep
    refine ⟨hw.message m allocated, ?_⟩
    obtain hsame | ⟨r, hnew, -, heq⟩ := amCb_cases host hw m allocated
    · rw [hsame]
      exact hj
    · rw [heq]
      exact hJ.reqQueue hw.queues hj hnew
  | callback p v =>
    cases hstep
    obtain ⟨-, -, hr⟩ := hG w _ he
    exact ⟨hw.callback hr v, hJ.opCb (hw.queues.inner _) hr (hcb w p v hw hj he)⟩

/-! ## The life of a request -/

def mine (r : Request) (s : Worker) : List PendingKind :=
  (s.pending.filter fun p => p.req = r).map Pending.kind

def writesOf (r : Request) (s : Worker) : List Write := s.writes.filter fun x => x.req = r

def returnsOf (r : Request) (s : Worker) : List Return := s.returns.filter fun t => t.req = r

structure View where
  running : Nat
  finished : Nat
  ctx : Ctx
  mine : List PendingKind
  writes : List Write
  returns : List Return

def view (r : Request) (w : WState) : View :=
  ⟨w.running.count r, w.finished.count r, w.inner.ctx r, mine r w.inner, writesOf r w.inner,
    returnsOf r w.inner⟩

def View.unstarted : View := ⟨0, 0, .zero, [], [], []⟩

def View.after (r : Request) (o : Outcome Worker) : View :=
  ⟨if o.status = .success then 0 else 1, if o.status = .success then 1 else 0, o.inner.ctx r,
    Rdmo.mine r o.inner, writesOf r o.inner,
    returnsOf r o.inner ++ [⟨r, o.status, (o.inner.ctx r).val⟩]⟩

theorem filter_map_other (hq : q ≠ r) (ks : List PendingKind) :
    ((ks.map (Pending.mk q)).filter fun p => p.req = r) = [] := by
  rw [filter_eq_nil_iff]
  intro p hp
  obtain ⟨k, -, rfl⟩ := mem_map.mp hp
  simpa using hq

theorem Touches.mine_other {s s' : Worker} (h : Touches q s s') (hq : q ≠ r) : mine r s' = mine r s := by
  obtain ⟨ks, hks⟩ := h.pending
  unfold mine
  rw [hks, filter_append, filter_map_other hq, append_nil]

theorem Touches.writesOf_other {s s' : Worker} (h : Touches q s s') (hq : q ≠ r) :
    writesOf r s' = writesOf r s := by
  obtain ⟨xs, hxs, hreq⟩ := h.writes
  have hnone : (xs.filter fun x => x.req = r) = [] := by
    rw [filter_eq_nil_iff]
    intro x hx
    simpa [hreq x hx] using hq
  unfold writesOf
  rw [hxs, filter_append, hnone, append_nil]

theorem count_settle_other (hq : q ≠ r) (o : DocaError × WState) :
    (settle q o).running.count r = o.2.running.count r ∧
      (settle q o).finished.count r = o.2.finished.count r := by
  unfold settle
  split
  · exact ⟨count_erase_of_ne (Ne.symm hq), count_cons_of_ne hq⟩
  · exact ⟨rfl, rfl⟩

theorem settle_inner (q : Request) (o : DocaError × WState) : (settle q o).inner = o.2.inner := by
  unfold settle
  split <;> rfl

theorem view_progress_other (host : Host) (hq : q ≠ r) (w : WState) :
    view r (settle q (progress (opsProgress host) q w)) = view r w := by
  have ht := opsTable_touches host q (w.pause q.client) w.inner
  obtain ⟨hrun, hfin⟩ := count_settle_other hq (progress (opsProgress host) q w)
  have hreturns : returnsOf r (opsProgress host q (w.pause q.client) w.inner).inner =
      returnsOf r w.inner := by
    simp only [returnsOf, opsProgress, ht.returns, filter_append, filter_cons, hq,
      decide_false, Bool.false_eq_true, if_false, filter_nil, append_nil]
  unfold view
  rw [hrun, hfin, settle_inner]
  simp only [progress, View.mk.injEq, true_and]
  exact ⟨ht.ctx r (Ne.symm hq), ht.mine_other hq, ht.writesOf_other hq, hreturns⟩

theorem view_begin_other (hq : q ≠ r) (w : WState) : view r (begin q w) = view r w := by
  simp [view, begin, count_cons_of_ne hq]

theorem completed_ctx_other (hq : p.req ≠ r) (v : UInt64) (s : Worker) :
    (s.completed p v).ctx r = s.ctx r := by
  unfold Worker.completed
  dsimp only
  split
  · exact update_of_ne (Ne.symm hq) _ _
  · exact update_of_ne (Ne.symm hq) _ _
  · rfl

theorem completed_fields (p : Pending) (v : UInt64) (s : Worker) :
    let s' := s.completed p v
    s'.pending = s.pending.erase p ∧ s'.writes = s.writes ∧ s'.returns = s.returns ∧
      s'.cache = s.cache ∧ s'.rma = s.rma ∧ s'.faulted = s.faulted := by
  unfold Worker.completed
  dsimp only
  split <;> exact ⟨rfl, rfl, rfl, rfl, rfl, rfl⟩

theorem mine_completed {s : Worker} (hp : p ∈ s.pending) (v : UInt64) :
    (mine p.req s).Perm (p.kind :: mine p.req (s.completed p v)) := by
  have hperm := ((perm_cons_erase hp).filter fun q => q.req = p.req).map Pending.kind
  unfold mine
  rw [(completed_fields p v s).1]
  simpa using hperm

theorem mine_completed_last {s : Worker} (hp : p ∈ s.pending) {k : PendingKind}
    (hk : mine p.req s = [k]) (v : UInt64) :
    p.kind = k ∧ mine p.req (s.completed p v) = [] := by
  have hperm := mine_completed hp v
  rw [hk] at hperm
  have hcons := singleton_perm.mp hperm
  rw [cons.injEq] at hcons
  exact ⟨hcons.1.symm, hcons.2.symm⟩

theorem completed_stage (p : Pending) (v : UInt64) (s : Worker) :
    ((s.completed p v).ctx p.req).stage = (s.ctx p.req).stage := by
  unfold Worker.completed
  dsimp only
  split <;> simp [Worker.setCtx]

theorem filter_erase_of_neg {P : Pending → Bool} (hp : P p = false) (l : List Pending) :
    (l.erase p).filter P = l.filter P := by
  induction l with
  | nil => rfl
  | cons q rest ih =>
    by_cases hpq : q = p
    · subst hpq
      simp [hp]
    · rw [erase_cons_tail (by simpa using hpq), filter_cons, filter_cons, ih]

theorem mine_completed_other (hq : p.req ≠ r) (v : UInt64) (s : Worker) :
    mine r (s.completed p v) = mine r s := by
  unfold mine
  rw [(completed_fields p v s).1, filter_erase_of_neg (by simpa using hq)]

theorem view_completed_other (hq : p.req ≠ r) (v : UInt64) (w : WState) :
    view r { w with inner := w.inner.completed p v } = view r w := by
  obtain ⟨-, hwrites, hreturns, -⟩ := completed_fields p v w.inner
  simp only [view, View.mk.injEq, true_and]
  refine ⟨completed_ctx_other hq v _, mine_completed_other hq v _, ?_, ?_⟩
  · rw [writesOf, hwrites, writesOf]
  · rw [returnsOf, hreturns, returnsOf]

theorem Started.counts {B S : Type} [DecidableEq B] {w : QState B S} {r : Req B} (hs : Started w)
    (hr : r ∈ w.running) : w.running.count r = 1 ∧ w.finished.count r = 0 := by
  have hone := nodup_iff_count_le_one.mp hs.distinct r
  have hpos := count_pos_iff.mpr hr
  rw [hs.perm.count_eq, count_append] at hone
  omega

theorem Started.finished {B S : Type} [DecidableEq B] {w : QState B S} {r : Req B} (hs : Started w)
    (hr : r ∈ w.finished) : w.finished.count r = 1 := by
  have hone := nodup_iff_count_le_one.mp hs.distinct r
  have hpos := count_pos_iff.mpr hr
  rw [hs.perm.count_eq, count_append] at hone
  omega

theorem progress_status (host : Host) (r : Request) (w : WState) :
    (progress (opsProgress host) r w).1 = (opsTable host r (w.pause r.client) w.inner).status := rfl

theorem view_progress_self (hs : Started w) (hr : r ∈ w.running) :
    view r (settle r (progress (opsProgress host) r w)) =
      View.after r (opsTable host r (w.pause r.client) w.inner) := by
  obtain ⟨hrun, hfin⟩ := hs.counts hr
  unfold view View.after
  rw [settle_inner]
  unfold settle
  rw [progress_status]
  simp only [progress, opsProgress]
  generalize opsTable host r (w.pause r.client) w.inner = o
  split
  · simp [reqFree, returnsOf, mine, writesOf, hrun, hfin]
  · simp [returnsOf, mine, writesOf, hrun, hfin]

theorem Started.begin {B S : Type} [DecidableEq B] {w : QState B S} {r : Req B} (hs : Started w)
    (hr : Fresh r w) : Started (begin r w) := by
  refine ⟨?_, ?_⟩
  · simp only [QState.begin, map_append, map_cons, map_nil]
    exact List.Nodup.append hs.distinct (nodup_singleton r) fun q hq hqr =>
      hr (mem_singleton.mp hqr ▸ hq)
  · simp only [QState.begin, map_append, map_cons, map_nil]
    exact (perm_append_singleton r _).trans (hs.perm.cons r)

theorem settle_starts (q : Request) (o : DocaError × WState) : (settle q o).starts = o.2.starts := by
  unfold settle
  split <;> rfl

/-- The life of a request: it is started once, and moved by its own completions. -/
def Lives (r : Request) (I : View → Prop) (w : WState) : Prop :=
  (Fresh r w → view r w = .unstarted) ∧ I (view r w)

theorem Lives.keeps {I : View → Prop}
    (hlaunch : ∀ pause s, s.ctx r = .zero → mine r s = [] → writesOf r s = [] → returnsOf r s = [] →
      I (View.after r (opsTable host r pause s))) : Keeps (opsProgress host) (Lives r I) := by
  refine ⟨fun a p f hw => hw, fun {w q} hw hs hq => ?_⟩
  by_cases hqr : q = r
  · subst hqr
    have hview := hw.1 hq
    simp only [view, View.unstarted, View.mk.injEq] at hview
    obtain ⟨-, -, hctx, hmine, hwrites, hreturns⟩ := hview
    refine ⟨fun hfresh => absurd ?_ hfresh, ?_⟩
    · rw [settle_starts]
      simp [progress, QState.begin]
    · rw [view_progress_self (hs.begin hq) (mem_cons_self ..)]
      exact hlaunch _ _ hctx hmine hwrites hreturns
  · have hsame : view r (settle q (progress (opsProgress host) q (begin q w))) = view r w :=
      (view_progress_other host hqr _).trans (view_begin_other hqr w)
    refine ⟨fun hfresh => ?_, hsame ▸ hw.2⟩
    rw [hsame]
    refine hw.1 fun hr => hfresh ?_
    rw [settle_starts]
    simp only [progress, QState.begin, map_append, mem_append]
    exact .inl hr

theorem Lives.callback {I : View → Prop} (v : UInt64) (hlife : Lives r I w)
    (hs : Started w) (hp : p ∈ w.inner.pending) (hr : p.req ∈ w.running)
    (hcb : ∀ pause s, I ⟨1, 0, s.ctx r, mine r s, writesOf r s, returnsOf r s⟩ → p ∈ s.pending →
      p.req = r → I (View.after r (opsTable host r pause (s.completed p v)))) :
    Lives r I (settle p.req (progress (opsProgress host) p.req
      { w with inner := w.inner.completed p v })) := by
  have hstarts : Fresh r (settle p.req (progress (opsProgress host) p.req
      { w with inner := w.inner.completed p v })) → Fresh r w :=
    fun hf hr' => hf (by rw [settle_starts]; exact hr')
  by_cases hq : p.req = r
  · subst hq
    obtain ⟨hrun, hfin⟩ := hs.counts hr
    refine ⟨fun hfresh => absurd ?_ (hstarts hfresh), ?_⟩
    · exact hs.perm.mem_iff.mpr (mem_append_left _ hr)
    · have hs' : Started { w with inner := w.inner.completed p v } := ⟨hs.distinct, hs.perm⟩
      rw [view_progress_self hs' hr]
      refine hcb _ _ ?_ hp rfl
      have := hlife.2
      rwa [view, hrun, hfin] at this
  · have hsame := (view_progress_other host hq
      { w with inner := w.inner.completed p v }).trans (view_completed_other hq v w)
    refine ⟨fun hfresh => ?_, hsame ▸ hlife.2⟩
    rw [hsame]
    exact hlife.1 (hstarts hfresh)

/-- **The induction rule for the life of a request.** -/
theorem view_rule {I : View → Prop} (hG : ∀ w e, G w e → WEnabled w e) (h0 : I .unstarted)
    (hlaunch : ∀ pause s, s.ctx r = .zero → mine r s = [] → writesOf r s = [] → returnsOf r s = [] →
      I (View.after r (opsTable host r pause s)))
    (hcb : ∀ pause s p v, I ⟨1, 0, s.ctx r, mine r s, writesOf r s, returnsOf r s⟩ →
      p ∈ s.pending → p.req = r → I (View.after r (opsTable host r pause (s.completed p v))))
    (h : Reach (workerStep host) G WState.idle w) : WInv w ∧ Lives r I w := by
  refine worker_rule hG (Lives.keeps hlaunch) .idle ⟨fun _ => rfl, h0⟩ (fun w p v hw hlife he => ?_) h
  obtain ⟨-, hp, hr⟩ := hG w _ he
  exact hlife.callback v hw.queues.toStarted hp hr fun pause s hi hps hreq =>
    hcb pause s p v hi hps hreq

end Doca.Rdmo
