import Doca.Rdmo.Ops

/-!
# RDMO worker: the steps of a call

Every progress function is made of the same few steps: it counts a call to UCX, sets its context, changes
the cache of its client, issues an operation, adds a destination that passed the bounds check, or sends the
response.

* `Named` — the destination is the one the request names: the data key of an append, or the key,
  address and length of a descriptor.
* `Alive` — what a request that is waiting has in flight, by operation and stage.
* `Caches`, `Moves`, `Steps` — a property of the worker that the steps keep.
* `Ends` — how a call of an append or a flush ends.

Principal results: `appendProgress_ends`, `flushProgress_ends` and `scatterProgress_kept` — a call keeps what
its steps keep, and has an operation in flight behind it exactly if it returns in-progress.
-/

namespace Doca.Rdmo

open Doca.Lib QState

def Named (x : Write) : Prop :=
  match x.req.body.op with
  | .flush _ => False
  | .append h => x.rkey = h.dataRkey ∧ x.len = x.req.body.length
  | .scatter iovs => ∃ iov, iovs.1[x.index]? = some iov ∧ x.rkey = iov.rkey ∧ x.addr = iov.addr ∧
      x.len = iov.len.toUInt64

def Alive (op : RdmoOp) (ctx : Ctx) (ks : List PendingKind) : Prop :=
  match op with
  | .append _ => (ctx.stage = 1 ∧ ks = [.get]) ∨ (ctx.stage = 3 ∧ (ks = [.put] ∨ ks = [.recv]))
  | .flush _ => (ctx.stage = 1 ∧ ks = [.epFlush]) ∨ (ctx.stage = 2 ∧ ks = [.amSend])
  | .scatter _ => ctx.stage = 1 ∧ ctx.val ≠ 0 ∧ ks = List.replicate ctx.val.toNat .scatterPut

/-! ## The steps -/

/-- The destination passed the bounds check, with a key that was looked up or is the one in the context. -/
structure Checked (host : Host) (r : Request) (s : Worker) (x : Write) : Prop where
  req : x.req = r
  named : Named x
  bounds : outOfBounds x.mkey x.addr x.len = false
  known : host.mkeys r.client x.rkey = some x.mkey ∨
    ∃ h, r.body.op = .append h ∧ h.ptrRkey = x.rkey ∧ (s.ctx r).mkey = some x.mkey

structure Caches (c : Nat) (P : Worker → Prop) : Prop where
  tick : ∀ {s}, P s → P s.tick
  issue : ∀ {s} x, P s → P (s.issue c x)
  setCache : ∀ {s} l, P s → P (s.setCache c l)

structure Moves (host : Host) (r : Request) (P : Worker → Prop) : Prop where
  tick : ∀ {s}, P s → P s.tick
  fault : ∀ {s}, P s → P { s with faulted := true }
  setCtx : ∀ {s x}, P s → (x.mkey = (s.ctx r).mkey ∨
    ∃ h, r.body.op = .append h ∧ host.mkeys r.client h.ptrRkey = x.mkey) → P (s.setCtx r x)
  write : ∀ {s x}, P s → Checked host r s x → P (s.write x)

structure Steps (host : Host) (r : Request) (P : Worker → Prop) : Prop extends
    Caches r.client P, Moves host r P where
  respond : ∀ {s} id, P s → P (s.respond r id)

theorem Steps.trivial {host : Host} {r : Request} : Steps host r fun _ => True :=
  ⟨⟨id, fun _ => id, fun _ => id⟩, id, fun h _ => h, fun h _ => h, fun _ => id⟩

inductive Ends (r : Request) (pause : Bool) (P : Worker → Prop) : Outcome Worker → Prop where
  | returns {status : DocaError} {p : Bool} {s : Worker} (hstatus : status ≠ .inProgress)
      (hp : p = true → pause = true) (hs : P s) : Ends r pause P ⟨status, p, s⟩
  | waits {k : PendingKind} {p : Bool} {s : Worker} (hp : p = true → pause = true ∨ k = .get)
      (halive : Alive r.body.op (s.ctx r) [k]) (hs : P s) :
      Ends r pause P ⟨.inProgress, p, s.await r k⟩

variable {host : Host} {r : Request} {P : Worker → Prop} {o : Outcome Worker} {m : Mkey} {pause : Bool}
  {s : Worker}

theorem Ends.inner (h : Ends r pause P o) (hawait : ∀ {s} k, P s → P (s.await r k)) : P o.inner := by
  cases h with
  | returns _ _ hs => exact hs
  | waits _ _ hs => exact hawait _ hs

theorem Ends.paused (h : Ends r false P o) : Ends r pause P o := by
  cases h with
  | returns hstatus hp hs => exact .returns hstatus (fun h => (nomatch hp h)) hs
  | waits hp halive hs => exact .waits (fun h => .inr ((hp h).resolve_left nofun)) halive hs

theorem Ends.pause_eq (h : Ends r pause P o) (hset : o.pause = true) :
    pause = true ∨ ⟨r, .get⟩ ∈ o.inner.pending := by
  cases h with
  | returns _ hp _ => exact .inl (hp hset)
  | waits hp _ _ =>
    refine (hp hset).imp id fun hk => ?_
    subst hk
    exact List.mem_append_right _ (List.mem_singleton.mpr rfl)

/-! ## Append -/

theorem memCachePut_ctx (host : Host) (c : Nat) (m : Mkey) (addr val : UInt64) (s : Worker) :
    (memCachePut host c m addr val s).2.ctx = s.ctx := by
  unfold memCachePut
  split <;> rfl

section Append

variable (hP : Steps host r P) {hdr : AppendHdr} (hop : r.body.op = .append hdr) (h : P s)

include hP hop h

theorem appendSend_ends {call : UcxCall} {kind : PendingKind} {via : Via}
    (hx : Checked host r s ⟨r, 0, hdr.dataRkey, m, (s.ctx r).val, r.body.length, via⟩)
    (hkind : kind = .put ∨ kind = .recv) :
    Ends r pause P (appendSend call kind via host r hdr.dataRkey m pause s) := by
  have hwrite := hP.tick (hP.write h hx)
  have hstage := hP.setCtx (x := { s.ctx r with stage := 3 }) hwrite (.inl rfl)
  unfold appendSend
  dsimp only
  split
  · refine .waits .inl ?_ hstage
    rw [hop]
    exact .inr ⟨by simp [Worker.setCtx], by simpa using hkind⟩
  · exact .returns nofun id hstage
  all_goals exact .returns nofun id hwrite

theorem appendTo_ends (sm : Bool) (hm : host.mkeys r.client hdr.dataRkey = some m ∨
    ∃ h, r.body.op = .append h ∧ h.ptrRkey = hdr.dataRkey ∧ (s.ctx r).mkey = some m) :
    Ends r pause P (appendTo host hdr r hdr.dataRkey m sm pause s) := by
  unfold appendTo
  split
  · exact .returns nofun id h
  rename_i hbounds
  have hx : ∀ via, Checked host r s ⟨r, 0, hdr.dataRkey, m, (s.ctx r).val, r.body.length, via⟩ :=
    fun via => ⟨rfl, by simp only [Named, hop, and_self], by simpa using hbounds, hm⟩
  split
  · split
    · exact appendSend_ends hP hop h (hx _) (.inr rfl)
    · exact .returns nofun id h
  split
  · unfold appendCopy
    dsimp only
    split
    · exact .returns nofun id (hP.issue _ (hP.write h (hx _)))
    · exact .returns nofun id (hP.fault (hP.write h (hx _)))
  · exact appendSend_ends hP hop h (hx _) (.inl rfl)

theorem appendPut_ends (sm : Bool) : Ends r pause P (appendPut host hdr r sm pause s) := by
  unfold appendPut
  split
  · split
    · exact .returns nofun id h
    · rename_i hm
      exact appendTo_ends hP hop h sm (.inl hm)
  · rename_i hsame
    split
    · exact .returns nofun id (hP.fault h)
    · rename_i hm
      exact appendTo_ends hP hop h sm (.inr ⟨hdr, hop, Classical.not_not.mp hsame, hm⟩)

theorem appendUpdate_ends : Ends r pause P (appendUpdate host hdr r pause s) := by
  unfold appendUpdate
  split
  · exact .returns (by simp) id (hP.fault h)
  rename_i m _
  have hput : (memCachePut host r.client m hdr.ptrAddr ((s.ctx r).val + r.body.length) s).1 ≠ .inProgress ∧
      P (memCachePut host r.client m hdr.ptrAddr ((s.ctx r).val + r.body.length) s).2 := by
    unfold memCachePut
    split
    · exact ⟨by simp, hP.tick (hP.setCache _ h)⟩
    · exact ⟨by simp, hP.tick h⟩
  dsimp only
  split
  · refine (appendPut_ends hP hop (hP.setCtx hput.2 (.inl ?_)) false).paused
    rw [memCachePut_ctx]
  · exact .returns hput.1 id hput.2

theorem appendPointer_ends : Ends r pause P (appendPointer host hdr r m pause s) := by
  unfold appendPointer
  split
  · exact .returns nofun id h
  split
  · exact appendPut_ends hP hop (hP.setCtx (hP.tick h) (.inl (by rfl))) true
  split
  · exact appendUpdate_ends hP hop (hP.setCtx h (.inl rfl))
  unfold appendGet
  split
  · refine .waits (fun _ => .inr rfl) ?_ (hP.setCtx (hP.issue _ (hP.tick h)) (.inl rfl))
    rw [hop]
    exact .inl ⟨by simp [Worker.setCtx], rfl⟩
  · exact .returns nofun id (hP.issue _ (hP.tick h))
  all_goals exact .returns nofun id (hP.tick h)

theorem appendProgress_ends : Ends r pause P (appendProgress host hdr r pause s) := by
  unfold appendProgress
  split
  · split
    · exact .returns nofun id h
    · rename_i hm
      exact appendPointer_ends hP hop (hP.setCtx h (.inr ⟨hdr, hop, hm⟩))
  · exact appendUpdate_ends hP hop h
  · exact appendPut_ends hP hop h false
  · exact .returns nofun id h

end Append

/-! ## Flush -/

section Caches

variable {c : Nat} (hP : Caches c P) (host : Host)

include hP

theorem flushAddr_kept (e : CacheEntry) (h : P s) : P (flushAddr host c e s).2 := by
  have htick := hP.tick h
  unfold flushAddr
  split
  · exact hP.issue _ htick
  · exact hP.issue _ htick
  · unfold addrFlushSlow
    split
    · split
      · exact hP.issue _ (hP.tick htick)
      · exact hP.issue _ (hP.tick htick)
      all_goals exact hP.tick htick
    · exact hP.tick htick
  · exact htick

theorem flushLoop_kept : ∀ (es : List CacheEntry) (getAddr : UInt64) (s : Worker), P s →
    P (flushLoop host c getAddr es s).2
  | [], _, _, h => h
  | e :: rest, getAddr, s, h => by
    have hput := flushAddr_kept hP host e (hP.setCache (others CacheEntry.key e.key (s.cache c)) h)
    unfold flushLoop
    dsimp only
    split
    · exact flushLoop_kept rest _ _ hput
    · exact hput

theorem memCacheFlush_kept (h : P s) : P (memCacheFlush host c s).2 := by
  have hloop := flushLoop_kept hP host (host.order s.calls (s.cache c)) 0 s h
  unfold memCacheFlush
  dsimp only
  split
  · exact hloop
  split
  · unfold flushGet
    split
    · exact hP.issue _ (hP.tick hloop)
    · exact hP.issue _ (hP.tick hloop)
    all_goals exact hP.tick hloop
  · exact hloop

end Caches

section Flush

variable (hP : Steps host r P) {flushId : UInt64} (hop : r.body.op = .flush flushId) (h : P s)

include hP hop h

theorem flushSend_ends : Ends r pause P (flushSend host flushId r pause s) := by
  have hsent := hP.respond flushId
    (hP.setCtx (x := { s.ctx r with stage := 2 }) (hP.tick h) (.inl rfl))
  unfold flushSend
  dsimp only
  split
  · refine .waits .inl ?_ hsent
    rw [hop]
    exact .inr ⟨by simp [Worker.respond, Worker.setCtx], rfl⟩
  · exact .returns nofun id hsent
  all_goals exact .returns nofun id (hP.tick h)

theorem flushProgress_ends : Ends r pause P (flushProgress host flushId r pause s) := by
  unfold flushProgress
  split
  · unfold flushRma
    split
    · have hcache : P (memCacheFlush host r.client s.tick).2 :=
        memCacheFlush_kept hP.toCaches host (hP.tick h)
      have hstage := hP.issue (.epFlush r) (hP.setCtx
        (x := { (memCacheFlush host r.client s.tick).2.ctx r with stage := 1 }) (hP.tick hcache)
        (.inl rfl))
      unfold flushEp
      dsimp only
      split
      · refine .waits .inl ?_ hstage
        rw [hop]
        exact .inl ⟨by simp [Worker.issue, Worker.setCtx], rfl⟩
      · exact flushSend_ends hP hop hstage
      all_goals exact .returns nofun id (hP.tick hcache)
    · exact .returns nofun id (hP.tick h)
  · exact flushSend_ends hP hop h
  · exact .returns nofun id h

end Flush

/-! ## Scatter -/

section Scatter

variable (hP : Moves host r P) (hawait : ∀ {s}, P s → P (s.await r .scatterPut))

include hP hawait

theorem scatterIov_kept {i : Nat} {iov : Iov} (h : P s)
    (hx : ∀ via, Checked host r s ⟨r, i, iov.rkey, m, iov.addr, iov.len.toUInt64, via⟩) :
    P (scatterIov host r i iov m s).2 := by
  have hwrite := hP.tick (hP.write h (hx .put))
  unfold scatterIov
  split
  · exact hP.write h (hx _)
  unfold scatterPut
  dsimp only
  split
  · exact hawait (hP.setCtx hwrite (.inl rfl))
  all_goals exact hwrite

theorem scatterLoop_kept {iovs : Iovs} (hop : r.body.op = .scatter iovs) (rest : List Iov) :
    ∀ {prev : UInt64} {cur : Option Mkey} {i : Nat} {s : Worker}, P s →
      iovs.1.drop i = rest → (∀ m, cur = some m → host.mkeys r.client prev = some m) →
      P (scatterLoop host r prev cur i rest s).2 := by
  induction rest with
  | nil => exact fun h _ _ => h
  | cons iov rest ih =>
    intro prev cur i s h hdrop hcur
    unfold scatterLoop
    split
    · exact h
    rename_i m hm
    -- the key at hand is the one of this descriptor, looked up now or before
    have hknown : host.mkeys r.client iov.rkey = some m := by
      unfold scatterMkey at hm
      split at hm
      · exact hm
      · rename_i hsame
        rw [Classical.not_not.mp hsame]
        exact hcur m hm
    have hiov : iovs.1[i]? = some iov := by
      rw [← List.head?_drop, hdrop]
      rfl
    have hnext : iovs.1.drop (i + 1) = rest := by
      rw [← List.drop_drop, hdrop]
      rfl
    split
    · exact h
    rename_i hbounds
    have hwrite : P (scatterIov host r i iov m s).2 := scatterIov_kept hP hawait h fun via =>
      ⟨rfl, by simp only [Named, hop]; exact ⟨iov, hiov, rfl, rfl, rfl⟩, by simpa using hbounds,
        .inl hknown⟩
    split
    · exact ih hwrite hnext fun m' hm' => by cases hm'; exact hknown
    · exact hwrite

theorem scatterProgress_kept {iovs : Iovs} (hop : r.body.op = .scatter iovs) (h : P s) :
    P (scatterProgress host iovs r pause s).inner := by
  have hwait : ∀ {s}, P s → P (scatterWait r pause s).inner := by
    intro s h
    unfold scatterWait
    split <;> exact h
  unfold scatterProgress
  split
  · split
    · exact h
    have hloop : P (scatterLoop host r (0 - 1) none 0 iovs.1 s).2 :=
      scatterLoop_kept hP hawait hop iovs.1 h rfl fun _ hm => (nomatch hm)
    dsimp only
    cases (scatterLoop host r (0 - 1) none 0 iovs.1 s).1 with
    | done => exact hwait (hP.setCtx hloop (.inl rfl))
    | unknownRkey | outOfBounds | driver => exact hloop
    | nullMkey => exact hP.fault hloop
  · exact hwait h
  · exact h

end Scatter

theorem opsTable_kept (hP : Steps host r P) (hawait : ∀ {s} k, P s → P (s.await r k)) (h : P s) :
    P (opsTable host r pause s).inner := by
  unfold opsTable
  split
  · rename_i hop
    exact (flushProgress_ends hP hop h).inner hawait
  · rename_i hop
    exact (appendProgress_ends hP hop h).inner hawait
  · rename_i hop
    exact scatterProgress_kept hP.toMoves (hawait _) hop h

end Doca.Rdmo
