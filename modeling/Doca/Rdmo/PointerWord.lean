import Doca.Rdmo.Release

/-!
# RDMO worker: the calls as one client sees them

What a call of a progress function does to the pointer cache, the RMA operations, the Gets in flight and
the destinations of one client.

* `Adds` — a part of a call that leaves the caches alone.

Principal results: `launch_effect` and `callback_spec` — the first call for a request and a call from a
completion have one of the effects.
-/

namespace Doca.Rdmo

open Doca.Lib QState Function List

/-- Gets are asynchronous, and operations that move pointer words succeed. A Put from the stack may find
    no resources. -/
structure Reliable (host : Host) : Prop where
  get : ∀ n, host.ucx .get n = .inProgress
  put : ∀ n, host.ucx .put n = .ok ∨ host.ucx .put n = .inProgress
  putImm : ∀ n code, host.ucx .putImm n ≠ .error code
  epFlush : ∀ n, host.ucx .epFlush n = .ok ∨ host.ucx .epFlush n = .inProgress
  workerFence : ∀ n, host.ucx .workerFence n = .ok
  insert : ∀ n, host.insert n = true
  poolGet : ∀ n, host.poolGet n = true

/-- A client: its `pause` flag, started requests, pointer cache, RMA operations, requests with a Get in
    flight and destinations. -/
structure Face where
  pause : Bool
  starts : List (Start Body)
  cache : List CacheEntry
  log : List Rma
  gets : List Request
  writes : List Write

def getsOf (c : Nat) (s : Worker) : List Request :=
  (s.pending.filter fun p => p.req.client = c ∧ p.kind = .get).map Pending.req

def Face.of (c : Nat) (pause : Bool) (starts : List (Start Body)) (s : Worker) : Face :=
  ⟨pause, starts.filter fun t => t.req.client = c, s.cache c, s.rma c, getsOf c s,
    s.writes.filter fun x => x.req.client = c⟩

def face (c : Nat) (w : WState) : Face := Face.of c (w.pause c) w.starts w.inner

def Write.rma (x : Write) : Rma := .data x.addr x.len

def CacheEntry.rma (e : CacheEntry) : Rma := .putWord e.addr e.val

/-- Why a progress function is called: the request starts, its Get returned a value, or another operation
    is complete. -/
inductive Cause where
  | start
  | value (v : UInt64)
  | other

inductive Effect (host : Host) (r : Request) (cause : Cause) (f : Face) : Face → Prop where
  /-- A later call of an append or a flush, or an append that does not know its pointer. -/
  | nothing (hstart : cause = .start → ∃ h, r.body.op = .append h ∧
        ∀ m, host.mkeys r.client h.ptrRkey = some m → m.ucpRkey ≠ h.ptrRkey)
      (hvalue : ∀ v, cause ≠ .value v) : Effect host r cause f f
  | data (xs : List Write) (l : List Rma) (hreq : ∀ x ∈ xs, x.req = r) (hop : ∀ id, r.body.op ≠ .flush id)
      (hmapped : ∀ h, r.body.op = .append h → host.mapped r.client h.ptrRkey h.ptrAddr = true)
      (hl : l = [] ∨ ∃ h, r.body.op = .append h ∧ l = [.add h.ptrAddr r.body.length]) :
      Effect host r cause f
        { f with log := f.log ++ xs.map Write.rma ++ l, writes := f.writes ++ xs }
  | flush (id : UInt64) (es : List CacheEntry) (l : List Rma) (hop : r.body.op = .flush id)
      (hstart : cause = .start) (hes : es.Perm f.cache) (hl : l = [] ∨ ∃ a, l = [.flushGet a]) :
      Effect host r cause f
        { f with cache := [], log := f.log ++ es.map CacheEntry.rma ++ l ++ [.epFlush r] }
  | advance (h : AppendHdr) (v : UInt64) (xs : List Write) (hop : r.body.op = .append h)
      (hv : cause = .value v ∨ cause = .start ∧
        ∃ e, lookup CacheEntry.key (h.ptrRkey, h.ptrAddr) f.cache = some e ∧ e.val = v)
      (hxs : ∀ x ∈ xs, x.req = r ∧ x.addr = v ∧ x.len = r.body.length) :
      Effect host r cause f { f with
          pause := false
          cache := put CacheEntry.key ⟨h.ptrRkey, h.ptrAddr, v + r.body.length⟩ f.cache
          log := f.log ++ xs.map Write.rma
          writes := f.writes ++ xs }
  | read (h : AppendHdr) (hop : r.body.op = .append h) (hstart : cause = .start)
      (hmiss : lookup CacheEntry.key (h.ptrRkey, h.ptrAddr) f.cache = none) :
      Effect host r cause f
        { f with pause := true, log := f.log ++ [.get r h.ptrAddr], gets := f.gets ++ [r] }

def CallEffect (host : Host) (r : Request) (cause : Cause) (pause : Bool) (s : Worker)
    (o : Outcome Worker) : Prop :=
  ∀ starts, Effect host r cause (Face.of r.client pause starts s) (Face.of r.client o.pause starts o.inner)

/-! ## Parts of a call that leave the caches alone -/

structure Adds (r : Request) (l : List Rma) (xs : List Write) (ks : List PendingKind) (s s' : Worker) :
    Prop where
  cache : s'.cache r.client = s.cache r.client
  rma : s'.rma r.client = s.rma r.client ++ l
  writes : s'.writes = s.writes ++ xs
  pending : s'.pending = s.pending ++ ks.map (Pending.mk r)

section Adds

variable {r : Request} {s s' s'' : Worker} {l l' : List Rma} {xs xs' : List Write}
  {ks ks' : List PendingKind}

theorem Adds.refl (r : Request) (s : Worker) : Adds r [] [] [] s s := by
  constructor <;> simp

section

variable (h : Adds r l xs ks s s')

include h

theorem Adds.trans (h' : Adds r l' xs' ks' s' s'') : Adds r (l ++ l') (xs ++ xs') (ks ++ ks') s s'' := by
  refine ⟨h'.cache.trans h.cache, ?_, ?_, ?_⟩
  · rw [h'.rma, h.rma, append_assoc]
  · rw [h'.writes, h.writes, append_assoc]
  · rw [h'.pending, h.pending, map_append, append_assoc]

theorem Adds.tick : Adds r l xs ks s s'.tick :=
  ⟨h.cache, h.rma, h.writes, h.pending⟩

theorem Adds.setCtx (x : Ctx) : Adds r l xs ks s (s'.setCtx r x) :=
  ⟨h.cache, h.rma, h.writes, h.pending⟩

theorem Adds.respond (id : UInt64) : Adds r l xs ks s (s'.respond r id) :=
  ⟨h.cache, h.rma, h.writes, h.pending⟩

theorem Adds.fault (pause : Bool) : Adds r l xs ks s (fault pause s').inner :=
  ⟨h.cache, h.rma, h.writes, h.pending⟩

theorem Adds.issue (x : Rma) : Adds r (l ++ [x]) xs ks s (s'.issue r.client x) := by
  refine ⟨h.cache, ?_, h.writes, h.pending⟩
  simp only [Worker.issue, update_self, h.rma, append_assoc]

theorem Adds.await (k : PendingKind) : Adds r l xs (ks ++ [k]) s (s'.await r k) := by
  refine ⟨h.cache, h.rma, h.writes, ?_⟩
  simp only [Worker.await, h.pending, map_append, map_cons, map_nil, append_assoc]

theorem Adds.write {x : Write} (hx : x.req = r) : Adds r (l ++ [x.rma]) (xs ++ [x]) ks s (s'.write x) := by
  subst hx
  refine ⟨h.cache, ?_, ?_, h.pending⟩
  · simp only [Worker.write, Worker.issue, update_self, h.rma, append_assoc]
    rfl
  · simp only [Worker.write, h.writes, append_assoc]

end

theorem getsOf_append (hpending : s'.pending = s.pending ++ ks.map (Pending.mk r))
    (hks : .get ∉ ks) : getsOf r.client s' = getsOf r.client s := by
  have hnone : ((ks.map (Pending.mk r)).filter fun p => p.req.client = r.client ∧ p.kind = .get) = [] := by
    rw [filter_eq_nil_iff]
    intro p hp
    obtain ⟨k, hk, rfl⟩ := mem_map.mp hp
    have hne : k ≠ .get := fun heq => hks (heq ▸ hk)
    simp [hne]
  unfold getsOf
  rw [hpending, filter_append, hnone, append_nil]

theorem filter_writes (hxs : ∀ x ∈ xs, x.req = r) : (xs.filter fun x => x.req.client = r.client) = xs := by
  rw [filter_eq_self]
  intro x hx
  simp [hxs x hx]

theorem Adds.face (h : Adds r l xs ks s s') (hks : .get ∉ ks) (hxs : ∀ x ∈ xs, x.req = r)
    (pause : Bool) (starts : List (Start Body)) :
    Face.of r.client pause starts s' = { Face.of r.client pause starts s with
        log := (Face.of r.client pause starts s).log ++ l
        writes := (Face.of r.client pause starts s).writes ++ xs } := by
  simp only [Face.of, Face.mk.injEq, true_and]
  refine ⟨h.cache, h.rma, getsOf_append h.pending hks, ?_⟩
  rw [h.writes, filter_append, filter_writes hxs]

end Adds

/-! ## The third stage of an append -/

structure Stores (host : Host) (hdr : AppendHdr) (r : Request) (sm : Bool) (s : Worker)
    (o : Outcome Worker) (xs : List Write) (ks : List PendingKind) (l : List Rma) : Prop where
  adds : Adds r (xs.map Write.rma ++ l) xs ks s o.inner
  dest : ∀ x ∈ xs, x.req = r ∧ x.addr = (s.ctx r).val ∧ x.len = r.body.length
  gets : .get ∉ ks
  tail : l = [] ∨ sm = true ∧ l = [.add hdr.ptrAddr r.body.length]
  one : xs.length ≤ 1
  done : o.status = .success → xs.length = 1 ∨ host.mkeys r.client hdr.dataRkey = none
  waits : o.status = .inProgress → xs.length = 1

section Append

variable {host : Host} {hdr : AppendHdr} {r : Request} {m : Mkey} {rkey : UInt64} {pause sm : Bool}
  {s : Worker}

theorem Stores.none {o : Outcome Worker} (hadds : Adds r [] [] [] s o.inner)
    (hdone : o.status = .success → host.mkeys r.client hdr.dataRkey = none)
    (hwaits : o.status ≠ .inProgress) : Stores host hdr r sm s o [] [] [] :=
  ⟨hadds, (fun _ hx => (nomatch hx)), not_mem_nil, .inl rfl, Nat.zero_le 1,
    fun hok => .inr (hdone hok), fun hno => absurd hno hwaits⟩

theorem Stores.some {o : Outcome Worker} {x : Write} {ks : List PendingKind} {l : List Rma}
    (hadds : Adds r ([x.rma] ++ l) [x] ks s o.inner)
    (hx : x.req = r ∧ x.addr = (s.ctx r).val ∧ x.len = r.body.length) (hgets : .get ∉ ks)
    (htail : l = [] ∨ sm = true ∧ l = [.add hdr.ptrAddr r.body.length]) :
    Stores host hdr r sm s o [x] ks l :=
  ⟨hadds, fun _ hy => mem_singleton.mp hy ▸ hx, hgets, htail, Nat.le_refl 1,
    fun _ => .inl rfl, fun _ => rfl⟩

theorem appendSend_stores {call : UcxCall} {kind : PendingKind} {via : Via} (hkind : kind ≠ .get) :
    ∃ xs ks, Stores host hdr r sm s (appendSend call kind via host r rkey m pause s) xs ks [] := by
  have hwrite : Adds r ([Write.rma ⟨r, 0, rkey, m, (s.ctx r).val, r.body.length, via⟩] ++ [])
      [⟨r, 0, rkey, m, (s.ctx r).val, r.body.length, via⟩] [] s
      (s.write ⟨r, 0, rkey, m, (s.ctx r).val, r.body.length, via⟩).tick :=
    ((Adds.refl r s).write rfl).tick
  unfold appendSend
  dsimp only
  split
  · exact ⟨_, _, .some ((hwrite.setCtx _).await kind) ⟨rfl, rfl, rfl⟩
      (by simpa using hkind.symm) (.inl rfl)⟩
  · exact ⟨_, _, .some (hwrite.setCtx _) ⟨rfl, rfl, rfl⟩ not_mem_nil (.inl rfl)⟩
  all_goals exact ⟨_, _, .some hwrite ⟨rfl, rfl, rfl⟩ not_mem_nil (.inl rfl)⟩

theorem appendCopy_stores :
    ∃ xs ks l, Stores host hdr r sm s (appendCopy hdr r rkey m sm pause s) xs ks l := by
  have hwrite := (Adds.refl r s).write
    (x := ⟨r, 0, rkey, m, (s.ctx r).val, r.body.length, .copy⟩) rfl
  unfold appendCopy
  dsimp only
  split
  · rename_i hsm
    exact ⟨_, _, _, .some (hwrite.issue _) ⟨rfl, rfl, rfl⟩ not_mem_nil (.inr ⟨hsm, rfl⟩)⟩
  · exact ⟨_, _, [], .some (hwrite.fault pause) ⟨rfl, rfl, rfl⟩ not_mem_nil (.inl rfl)⟩

theorem appendTo_stores :
    ∃ xs ks l, Stores host hdr r sm s (appendTo host hdr r rkey m sm pause s) xs ks l := by
  have hsend : ∀ {call kind via}, kind ≠ PendingKind.get → ∃ xs ks l,
      Stores host hdr r sm s (appendSend call kind via host r rkey m pause s) xs ks l := by
    intro call kind via hkind
    obtain ⟨xs, ks, h⟩ := appendSend_stores hkind
    exact ⟨xs, ks, [], h⟩
  unfold appendTo
  split
  · exact ⟨_, _, _, .none (.refl r s) nofun nofun⟩
  split
  · split
    · exact hsend nofun
    · exact ⟨_, _, _, .none (.refl r s) nofun nofun⟩
  · split
    · exact appendCopy_stores
    · exact hsend nofun

theorem appendPut_stores (host : Host) (hdr : AppendHdr) (r : Request) (sm pause : Bool) (s : Worker) :
    ∃ xs ks l, Stores host hdr r sm s (appendPut host hdr r sm pause s) xs ks l := by
  unfold appendPut
  split
  · split
    · rename_i hnone
      exact ⟨_, _, _, .none (.refl r s) (fun _ => hnone) nofun⟩
    · exact appendTo_stores
  · split
    · exact ⟨_, _, _, .none ((Adds.refl r s).fault pause) nofun
        nofun⟩
    · exact appendTo_stores

def Worker.moved (hdr : AppendHdr) (r : Request) (m : Mkey) (s : Worker) : Worker :=
  (s.setCache r.client (put CacheEntry.key
    ⟨m.ucpRkey, hdr.ptrAddr, (s.ctx r).val + r.body.length⟩ (s.cache r.client))).tick.setCtx r
      { s.ctx r with stage := 2 }

theorem appendUpdate_eq (hinsert : ∀ n, host.insert n = true) (hm : (s.ctx r).mkey = some m) :
    appendUpdate host hdr r pause s = appendPut host hdr r false false (s.moved hdr r m) := by
  simp only [appendUpdate, hm, memCachePut, hinsert, or_true, if_true, Worker.moved]

theorem appendUpdate_effect {v : UInt64} {cause : Cause} (hinsert : ∀ n, host.insert n = true)
    (hm : (s.ctx r).mkey = some m) (hkey : m.ucpRkey = hdr.ptrRkey) (hop : r.body.op = .append hdr)
    (hval : (s.ctx r).val = v)
    (hv : cause = .value v ∨ cause = .start ∧ ∃ e,
      lookup CacheEntry.key (hdr.ptrRkey, hdr.ptrAddr) (s.cache r.client) = some e ∧ e.val = v) :
    CallEffect host r cause pause s (appendUpdate host hdr r pause s) := by
  subst hval
  intro starts
  rw [appendUpdate_eq hinsert hm, appendPut_pause]
  obtain ⟨xs, ks, l, hput⟩ := appendPut_stores host hdr r false false (s.moved hdr r m)
  have hl : l = [] := hput.tail.resolve_right fun hno => (nomatch hno.1)
  have hdest := hput.dest
  simp only [Worker.moved, Worker.setCtx, update_self] at hdest
  rw [hput.adds.face hput.gets (fun x hx => (hdest x hx).1), hl, append_nil]
  have heffect : Effect host r cause (Face.of r.client pause starts s) _ :=
    .advance hdr (s.ctx r).val xs hop hv hdest
  simpa only [Face.of, getsOf, Worker.moved, Worker.setCtx, Worker.tick, Worker.setCache, update_self,
    hkey] using heffect

end Append

/-! ## The first call of an append -/

section Pointer

variable {host : Host} {hdr : AppendHdr} {r : Request} {s : Worker}

inductive FirstCall (host : Host) (hdr : AppendHdr) (r : Request) (pause : Bool) (s : Worker) :
    Outcome Worker → Prop where
  | unknown (hkey : host.mkeys r.client hdr.ptrRkey = none) :
      FirstCall host hdr r pause s ⟨.success, pause, s⟩
  | mismatch (m : Mkey) (x : Ctx) (hm : host.mkeys r.client hdr.ptrRkey = some m)
      (hkey : m.ucpRkey ≠ hdr.ptrRkey) :
      FirstCall host hdr r pause s ⟨.invalidValue, pause, s.setCtx r x⟩
  | mapped (x : Ctx) (hmapped : host.mapped r.client hdr.ptrRkey hdr.ptrAddr = true) :
      FirstCall host hdr r pause s (appendPut host hdr r true pause (s.tick.setCtx r x))
  | cached (m : Mkey) (x : Ctx) (e : CacheEntry) (hmkey : x.mkey = some m) (hkey : m.ucpRkey = hdr.ptrRkey)
      (hhit : lookup CacheEntry.key (hdr.ptrRkey, hdr.ptrAddr) (s.cache r.client) = some e)
      (hval : x.val = e.val) :
      FirstCall host hdr r pause s (appendUpdate host hdr r pause (s.setCtx r x))
  | read (m : Mkey) (x : Ctx) (hmkey : x.mkey = some m) (hkey : m.ucpRkey = hdr.ptrRkey)
      (hstage : x.stage = 1)
      (hmiss : lookup CacheEntry.key (hdr.ptrRkey, hdr.ptrAddr) (s.cache r.client) = none) :
      FirstCall host hdr r pause s ⟨.inProgress, true,
        (((s.tick.issue r.client (.get r hdr.ptrAddr)).setCtx r x).await r .get)⟩

theorem setCtx_setCtx (x y : Ctx) : (s.setCtx r x).setCtx r y = s.setCtx r y := by
  simp only [Worker.setCtx, update_idem]

theorem appendProgress_first (hget : ∀ n, host.ucx .get n = .inProgress) (hctx : s.ctx r = .zero)
    (pause : Bool) : FirstCall host hdr r pause s (appendProgress host hdr r pause s) := by
  simp only [appendProgress, hctx, Ctx.zero]
  split
  · rename_i hnone
    exact .unknown hnone
  rename_i m hm
  unfold appendPointer
  split
  · rename_i hkey
    exact .mismatch m _ hm hkey
  rename_i hkey
  have hkey := Classical.not_not.mp hkey
  split
  · rename_i hmapped
    rw [hkey] at hmapped
    have hcall : FirstCall host hdr r pause s _ :=
      .mapped ⟨2, host.shared s.calls, some m⟩ hmapped
    simpa [Worker.setCtx, Worker.tick] using hcall
  · split
    · rename_i v hhit
      simp only [memCacheGet, Option.map_eq_some_iff, hkey] at hhit
      obtain ⟨e, hhit, hval⟩ := hhit
      rw [setCtx_setCtx]
      exact .cached m _ e (by simp [Worker.setCtx]) hkey hhit hval.symm
    · rename_i hmiss
      simp only [memCacheGet, Option.map_eq_none_iff, hkey] at hmiss
      simp only [appendGet, hget]
      have hcall : FirstCall host hdr r pause s _ :=
        .read m ⟨1, 0, some m⟩ rfl hkey rfl hmiss
      simpa [Worker.setCtx, Worker.tick, Worker.issue, Worker.await] using hcall

end Pointer

/-! ## Scatter -/

def Scatters (r : Request) (s s' : Worker) : Prop :=
  ∃ xs ks, Adds r (xs.map Write.rma) xs ks s s' ∧ (∀ x ∈ xs, x.req = r) ∧ .get ∉ ks

section Scatter

variable {host : Host} {r : Request} {s s' s'' : Worker}

theorem Scatters.refl (r : Request) (s : Worker) : Scatters r s s :=
  ⟨[], [], .refl r s, (fun _ hx => (nomatch hx)), not_mem_nil⟩

theorem Scatters.trans (h : Scatters r s s') (h' : Scatters r s' s'') : Scatters r s s'' := by
  obtain ⟨xs, ks, hadds, hreq, hks⟩ := h
  obtain ⟨xs', ks', hadds', hreq', hks'⟩ := h'
  refine ⟨xs ++ xs', ks ++ ks', ?_, fun x hx => ?_, ?_⟩
  · rw [map_append]
    exact hadds.trans hadds'
  · exact (mem_append.mp hx).elim (hreq x) (hreq' x)
  · exact fun hno => (mem_append.mp hno).elim hks hks'

theorem Scatters.add {ks : List PendingKind} (h : Scatters r s s') (hadd : Adds r [] [] ks s' s'')
    (hks : .get ∉ ks) : Scatters r s s'' :=
  h.trans ⟨[], ks, hadd, (fun _ hx => (nomatch hx)), hks⟩

theorem Scatters.moves (host : Host) (r : Request) (s : Worker) : Moves host r (Scatters r s) where
  tick h := h.add (Adds.refl r _).tick not_mem_nil
  fault h := h.add ((Adds.refl r _).fault false) not_mem_nil
  setCtx h _ := h.add ((Adds.refl r _).setCtx _) not_mem_nil
  write h hx := h.trans ⟨[_], [], (Adds.refl r _).write hx.req, fun _ hy => mem_singleton.mp hy ▸ hx.req,
    not_mem_nil⟩

theorem scatterProgress_scatters {iovs : Iovs} (hop : r.body.op = .scatter iovs) (host : Host)
    (pause : Bool) (s : Worker) : Scatters r s (scatterProgress host iovs r pause s).inner :=
  scatterProgress_kept (Scatters.moves host r s)
    (fun h => h.add ((Adds.refl r _).await _) (by simp)) hop (.refl r s)

theorem scatterProgress_effect {iovs : Iovs} (hop : r.body.op = .scatter iovs) (cause : Cause)
    (pause : Bool) : CallEffect host r cause pause s (scatterProgress host iovs r pause s) := by
  intro starts
  obtain ⟨xs, ks, hadds, hreq, hks⟩ := scatterProgress_scatters hop host pause s
  rw [scatterProgress_pause, hadds.face hks hreq]
  have heffect : Effect host r cause (Face.of r.client pause starts s) _ :=
    .data xs [] hreq (fun _ hno => by rw [hop] at hno; cases hno)
      (fun _ hno => by rw [hop] at hno; cases hno) (.inl rfl)
  simpa only [append_nil] using heffect

end Scatter

/-! ## Flush -/

section Flush

variable {host : Host} {r : Request} {s : Worker}

theorem flushAddr_adds (hrel : Reliable host) (r : Request) (e : CacheEntry) (s : Worker) :
    (flushAddr host r.client e s).1 = true ∧ Adds r [e.rma] [] [] s (flushAddr host r.client e s).2 := by
  have hput := (Adds.refl r s).tick.issue e.rma
  unfold flushAddr
  cases himm : host.ucx .putImm s.calls with
  | ok | inProgress => exact ⟨rfl, hput⟩
  | error => exact absurd himm (hrel.putImm _ _)
  | noResource =>
    have hslow := (Adds.refl r s).tick.tick.issue e.rma
    simp only [addrFlushSlow, hrel.poolGet, if_true]
    rcases hrel.put s.tick.calls with hok | hwait
    · rw [hok]
      exact ⟨rfl, hslow⟩
    · rw [hwait]
      exact ⟨rfl, hslow⟩

theorem flushLoop_spec (hrel : Reliable host) (r : Request) : ∀ (es : List CacheEntry)
    (getAddr : UInt64) (s : Worker), ∃ a s', flushLoop host r.client getAddr es s = (some a, s') ∧
      s'.cache r.client = (s.cache r.client).filter (fun y => y.key ∉ es.map CacheEntry.key) ∧
      s'.rma r.client = s.rma r.client ++ es.map CacheEntry.rma ∧
      s'.writes = s.writes ∧ s'.pending = s.pending
  | [], getAddr, s => ⟨getAddr, s, rfl, by simp, by simp, rfl, rfl⟩
  | e :: rest, getAddr, s => by
    obtain ⟨hok, hadds⟩ := flushAddr_adds hrel r e
      (s.setCache r.client (others CacheEntry.key e.key (s.cache r.client)))
    obtain ⟨a, s', heq, hcache, hrma, hwrites, hpending⟩ := flushLoop_spec hrel r rest
      (if getAddr = 0 then e.addr else getAddr) (flushAddr host r.client e
        (s.setCache r.client (others CacheEntry.key e.key (s.cache r.client)))).2
    refine ⟨a, s', ?_, ?_, ?_, ?_, ?_⟩
    · rw [flushLoop]
      simp only [hok, if_true]
      exact heq
    · rw [hcache, hadds.cache]
      simp only [Worker.setCache, update_self, others, filter_filter, map_cons,
        mem_cons, not_or, ne_eq, Bool.decide_and, Bool.and_comm]
    · rw [hrma, hadds.rma, append_assoc]
      rfl
    · rw [hwrites, hadds.writes, append_nil]
      rfl
    · rw [hpending, hadds.pending, map_nil, append_nil]
      rfl

/-- **`urom_worker_rdmo_mem_cache_flush`** puts all cached pointers and leaves an empty cache. -/
theorem memCacheFlush_spec (hrel : Reliable host) (r : Request) (s : Worker) :
    ∃ (es : List CacheEntry) (l : List Rma), es.Perm (s.cache r.client) ∧ (l = [] ∨ ∃ a, l = [.flushGet a]) ∧
      (memCacheFlush host r.client s).2.cache r.client = [] ∧
      (memCacheFlush host r.client s).2.rma r.client = s.rma r.client ++ es.map CacheEntry.rma ++ l := by
  have hperm := host.order_perm s.calls (s.cache r.client)
  obtain ⟨a, s', heq, hcache, hrma, -, -⟩ :=
    flushLoop_spec hrel r (host.order s.calls (s.cache r.client)) 0 s
  have hempty : s'.cache r.client = [] := by
    rw [hcache, filter_eq_nil_iff]
    intro y hy
    simpa using ⟨y, hperm.mem_iff.mpr hy, rfl⟩
  unfold memCacheFlush
  rw [heq]
  dsimp only
  split
  · refine ⟨_, [.flushGet a], hperm, .inr ⟨a, rfl⟩, ?_⟩
    simp only [flushGet, hrel.get]
    refine ⟨hempty, ?_⟩
    simp only [Worker.issue, update_self, Worker.tick, hrma]
  · exact ⟨_, [], hperm, .inl rfl, hempty, by rw [hrma, append_nil]⟩

theorem flushSend_adds (host : Host) (id : UInt64) (r : Request) (pause : Bool) (s : Worker) :
    ∃ ks, Adds r [] [] ks s (flushSend host id r pause s).inner ∧ .get ∉ ks := by
  have hsent := ((Adds.refl r s).tick.setCtx { s.ctx r with stage := 2 }).respond id
  unfold flushSend
  dsimp only
  split
  · exact ⟨_, hsent.await _, by simp⟩
  · exact ⟨_, hsent, not_mem_nil⟩
  all_goals exact ⟨_, (Adds.refl r s).tick, not_mem_nil⟩

theorem flushEp_adds (hrel : Reliable host) (id : UInt64) (r : Request) (pause : Bool) (s : Worker) :
    ∃ ks, Adds r [.epFlush r] [] ks s (flushEp host id r pause s).inner ∧ .get ∉ ks := by
  have hflush := ((Adds.refl r s).tick.setCtx { s.ctx r with stage := 1 }).issue (.epFlush r)
  unfold flushEp
  dsimp only
  rcases hrel.epFlush s.calls with hok | hwait
  · rw [hok]
    obtain ⟨ks, hsend, hks⟩ := flushSend_adds host id r pause
      ((s.tick.setCtx r { s.ctx r with stage := 1 }).issue r.client (.epFlush r))
    exact ⟨_, hflush.trans hsend, hks⟩
  · rw [hwait]
    exact ⟨_, hflush.await _, by simp⟩

theorem flushProgress_first (hrel : Reliable host) {id : UInt64} (hop : r.body.op = .flush id)
    (hctx : s.ctx r = .zero) (pause : Bool) :
    CallEffect host r .start pause s (flushProgress host id r pause s) := by
  intro starts
  rw [flushProgress_pause]
  obtain ⟨es, l, hperm, hl, hcache, hrma⟩ := memCacheFlush_spec hrel r s.tick
  have hquiet := memCacheFlush_quiet host r.client s.tick
  obtain ⟨ks, hadds, hks⟩ :=
    flushEp_adds hrel id r pause (memCacheFlush host r.client s.tick).2
  have hcall : flushProgress host id r pause s =
      flushEp host id r pause (memCacheFlush host r.client s.tick).2 := by
    simp only [flushProgress, hctx, Ctx.zero, flushRma, hrel.workerFence, if_true]
  rw [hcall, hadds.face hks (by simp)]
  have heffect : Effect host r .start (Face.of r.client pause starts s) _ :=
    .flush id es l hop rfl hperm hl
  simp only [Face.of, getsOf, hcache, hrma, hquiet.writes, hquiet.pending, append_nil]
  exact heffect

theorem flushProgress_later {id : UInt64} (hstage : (s.ctx r).stage ≠ 0) (pause : Bool) :
    CallEffect host r .other pause s (flushProgress host id r pause s) := by
  intro starts
  rw [flushProgress_pause]
  have hsame : ∃ ks, Adds r [] [] ks s (flushProgress host id r pause s).inner ∧ .get ∉ ks := by
    unfold flushProgress
    split
    · rename_i hzero
      exact absurd hzero hstage
    · exact flushSend_adds ..
    · exact ⟨_, .refl r s, not_mem_nil⟩
  obtain ⟨ks, hadds, hks⟩ := hsame
  rw [hadds.face hks (fun _ hx => (nomatch hx)), append_nil, append_nil]
  exact .nothing nofun (fun _ hno => (nomatch hno))

end Flush

/-! ## The calls -/

section Calls

variable {host : Host} {r : Request} {s : Worker}

variable {hdr : AppendHdr} {o : Outcome Worker}

theorem FirstCall.effect {pause : Bool} (h : FirstCall host hdr r pause s o)
    (hinsert : ∀ n, host.insert n = true) (hop : r.body.op = .append hdr) :
    CallEffect host r .start pause s o := by
  intro starts
  cases h with
  | unknown hnone =>
    refine .nothing (fun _ => ⟨hdr, hop, fun m hm => ?_⟩) (fun _ hno => (nomatch hno))
    rw [hnone] at hm
    cases hm
  | mismatch m x hm hkey =>
    refine .nothing (fun _ => ⟨hdr, hop, fun m' hm' => ?_⟩) (fun _ hno => (nomatch hno))
    rw [hm] at hm'
    cases hm'
    exact hkey
  | mapped x hmapped =>
    obtain ⟨xs, ks, l, hput⟩ := appendPut_stores host hdr r true pause (s.tick.setCtx r x)
    rw [appendPut_pause, hput.adds.face hput.gets fun x hx => (hput.dest x hx).1]
    have heffect : Effect host r .start (Face.of r.client pause starts s) _ :=
      .data xs l (fun x hx => (hput.dest x hx).1) (fun _ hno => by rw [hop] at hno; cases hno)
        (fun h hh => by rw [hop] at hh; cases hh; exact hmapped)
        (hput.tail.imp id fun htail => ⟨hdr, hop, htail.2⟩)
    rw [append_assoc] at heffect
    exact heffect
  | cached m x e hmkey hkey hhit hval =>
    have hctx : (s.setCtx r x).ctx r = x := by simp [Worker.setCtx]
    exact appendUpdate_effect (s := s.setCtx r x) hinsert (by rw [hctx]; exact hmkey) hkey hop
      (by rw [hctx]) (.inr ⟨rfl, e, hhit, hval.symm⟩) starts
  | read m x _ _ _ hmiss =>
    have heffect : Effect host r .start (Face.of r.client pause starts s) _ :=
      .read hdr hop rfl hmiss
    simpa [Face.of, getsOf, Worker.await, Worker.setCtx, Worker.issue, Worker.tick,
      filter_append] using heffect

theorem launch_effect (hrel : Reliable host) (hctx : s.ctx r = .zero) (pause : Bool) :
    CallEffect host r .start pause s (opsTable host r pause s) := by
  cases hop : r.body.op with
  | flush id =>
    simp only [opsTable, hop]
    exact flushProgress_first hrel hop hctx pause
  | append hdr =>
    simp only [opsTable, hop]
    exact (appendProgress_first hrel.get hctx pause).effect hrel.insert hop
  | scatter iovs =>
    simp only [opsTable, hop]
    exact scatterProgress_effect hop .start pause

/-! ## The life of a request -/

inductive AppendLife (host : Host) (hdr : AppendHdr) (r : Request) (v : View) : Prop where
  | unstarted (h : v = .unstarted)
  | ended (hmine : v.mine = []) (hone : v.writes.length ≤ 1)
      (hdone : v.finished = 1 → v.writes.length = 1 ∨ host.mkeys r.client hdr.ptrRkey = none ∨
        host.mkeys r.client hdr.dataRkey = none)
  | reads (m : Mkey) (hfin : v.finished = 0) (hmine : v.mine = [.get]) (hstage : v.ctx.stage = 1)
      (hwrites : v.writes = []) (hmkey : v.ctx.mkey = some m) (hkey : m.ucpRkey = hdr.ptrRkey)
  | stores (k : PendingKind) (hfin : v.finished = 0) (hmine : v.mine = [k]) (hk : k ≠ .get)
      (hstage : v.ctx.stage = 3) (hwrites : v.writes.length = 1)

theorem AppendLife.one {v : View} (h : AppendLife host hdr r v) : v.writes.length ≤ 1 := by
  cases h with
  | unstarted h =>
    rw [h]
    exact Nat.zero_le 1
  | ended _ hone _ => exact hone
  | reads _ _ _ _ hwrites _ _ =>
    rw [hwrites]
    exact Nat.zero_le 1
  | stores _ _ _ _ _ hwrites => exact Nat.le_of_eq hwrites

theorem AppendLife.done {v : View} (h : AppendLife host hdr r v) (hfin : v.finished = 1) :
    v.writes.length = 1 ∨ host.mkeys r.client hdr.ptrRkey = none ∨
      host.mkeys r.client hdr.dataRkey = none := by
  cases h with
  | unstarted h =>
    rw [h] at hfin
    cases hfin
  | ended _ _ hdone => exact hdone hfin
  | reads _ hno _ _ _ _ _ | stores _ hno _ _ _ _ =>
    rw [hno] at hfin
    cases hfin

def FlushLife (v : View) : Prop :=
  v.mine = [] ∨ ∃ k, v.mine = [k] ∧ k ≠ .get ∧ v.ctx.stage ≠ 0

def CallLife (host : Host) (r : Request) (v : View) : Prop :=
  match r.body.op with
  | .append hdr => AppendLife host hdr r v
  | .flush _ => FlushLife v
  | .scatter _ => .get ∉ v.mine

theorem CallLife.unstarted (host : Host) (r : Request) : CallLife host r .unstarted := by
  unfold CallLife
  split
  · exact .unstarted rfl
  · exact .inl rfl
  · exact not_mem_nil

variable {l : List Rma} {xs : List Write} {ks : List PendingKind}

theorem Adds.writesOf {s' : Worker} (h : Adds r l xs ks s s') (hxs : ∀ x ∈ xs, x.req = r) :
    writesOf r s' = writesOf r s ++ xs := by
  have hall : (xs.filter fun x => x.req = r) = xs := by
    rw [filter_eq_self]
    intro x hx
    simpa using hxs x hx
  unfold Rdmo.writesOf
  rw [h.writes, filter_append, hall]

theorem Adds.mine {s' : Worker} (h : Adds r l xs ks s s') : mine r s' = mine r s ++ ks := by
  have hall : ((ks.map (Pending.mk r)).filter fun p => p.req = r) = ks.map (Pending.mk r) := by
    rw [filter_eq_self]
    intro p hp
    obtain ⟨k, -, rfl⟩ := mem_map.mp hp
    simp
  unfold Rdmo.mine
  rw [h.pending, filter_append, hall, map_append, map_map]
  simp [Function.comp_def]

theorem Stores.life {sm : Bool} (hput : Stores host hdr r sm s o xs ks l) (hset : Settles r o)
    (hop : r.body.op = .append hdr) (hmine : mine r s = []) (hwrites : writesOf r s = []) :
    AppendLife host hdr r (View.after r o) := by
  have hxs : writesOf r o.inner = xs := by
    rw [hput.adds.writesOf fun x hx => (hput.dest x hx).1, hwrites, nil_append]
  have hks : mine r o.inner = ks := by
    rw [hput.adds.mine, hmine, nil_append]
  by_cases hwait : o.status = .inProgress
  · have hne : o.status ≠ .success := by rw [hwait]; exact nofun
    have hone : (writesOf r o.inner).length = 1 := hxs ▸ hput.waits hwait
    have halive := hset.waits hwait
    rw [hop] at halive
    rcases halive with ⟨-, hget⟩ | ⟨hstage, hk | hk⟩
    · have hno : .get ∈ ks := by rw [← hks, hget]; exact mem_singleton.mpr rfl
      exact absurd hno hput.gets
    · exact .stores .put (if_neg hne) hk nofun hstage hone
    · exact .stores .recv (if_neg hne) hk nofun hstage hone
  · have hone : (writesOf r o.inner).length ≤ 1 := hxs ▸ hput.one
    refine .ended (hset.done hwait) hone fun hfin => ?_
    have hok : o.status = .success := by
      by_contra hne
      simp [View.after, hne] at hfin
    rw [View.after, hxs]
    exact (hput.done hok).imp id .inr

theorem appendUpdate_life {m : Mkey} (hinsert : ∀ n, host.insert n = true)
    (hop : r.body.op = .append hdr) (hm : (s.ctx r).mkey = some m) (hmine : mine r s = [])
    (hwrites : writesOf r s = []) (pause : Bool) :
    AppendLife host hdr r (View.after r (appendUpdate host hdr r pause s)) := by
  rw [appendUpdate_eq hinsert hm]
  obtain ⟨xs, ks, l, hput⟩ := appendPut_stores host hdr r false false (s.moved hdr r m)
  exact hput.life (appendPut_ends steps_mine hop (by exact hmine) _).settles hop hmine hwrites

theorem FirstCall.life {pause : Bool} (h : FirstCall host hdr r pause s o)
    (hinsert : ∀ n, host.insert n = true) (hop : r.body.op = .append hdr) (hmine : mine r s = [])
    (hwrites : writesOf r s = []) :
    AppendLife host hdr r (View.after r o) := by
  have hnone : (writesOf r s).length = 0 := by rw [hwrites]; rfl
  cases h with
  | unknown hkey => exact .ended hmine (hnone ▸ Nat.zero_le 1) fun _ => .inr (.inl hkey)
  | mismatch m x _ _ =>
    exact .ended hmine (hnone ▸ Nat.zero_le 1) fun hno => by simp [View.after] at hno
  | mapped x _ =>
    obtain ⟨xs, ks, l, hput⟩ := appendPut_stores host hdr r true pause (s.tick.setCtx r x)
    exact hput.life (appendPut_ends steps_mine hop (by exact hmine) _).settles hop hmine hwrites
  | cached m x e hmkey _ _ _ =>
    have hctx : ((s.setCtx r x).ctx r).mkey = some m := by simpa [Worker.setCtx] using hmkey
    exact appendUpdate_life hinsert hop hctx hmine hwrites pause
  | read m x hmkey hkey hstage _ =>
    have hctx : ((((s.tick.issue r.client (.get r hdr.ptrAddr)).setCtx r x).await r .get).ctx r) = x := by
      simp [Worker.await, Worker.setCtx]
    refine .reads m rfl ?_ ?_ hwrites ?_ hkey
    · rw [View.after, mine_await]
      exact congrArg (· ++ [.get]) hmine
    · rw [View.after, hctx]
      exact hstage
    · rw [View.after, hctx]
      exact hmkey

theorem flushLife_after {id : UInt64} (hop : r.body.op = .flush id) (hmine : mine r s = [])
    (pause : Bool) : FlushLife (View.after r (flushProgress host id r pause s)) := by
  have hset : Settles r (flushProgress host id r pause s) :=
    (flushProgress_ends steps_mine hop hmine).settles
  by_cases hwait : (flushProgress host id r pause s).status = .inProgress
  · have halive := hset.waits hwait
    rw [hop] at halive
    refine .inr ?_
    rcases halive with ⟨hstage, hk⟩ | ⟨hstage, hk⟩
    all_goals exact ⟨_, hk, by simp, by rw [View.after, hstage]; decide⟩
  · exact .inl (hset.done hwait)

theorem callLife_launch (hrel : Reliable host) (hctx : s.ctx r = .zero) (hmine : mine r s = [])
    (hwrites : writesOf r s = []) (pause : Bool) :
    CallLife host r (View.after r (opsTable host r pause s)) := by
  unfold CallLife opsTable
  split
  · rename_i hdr hop
    simp only [hop]
    exact (appendProgress_first hrel.get hctx pause).life hrel.insert hop hmine hwrites
  · rename_i id hop
    simp only [hop]
    exact flushLife_after hop hmine pause
  · rename_i iovs hop
    simp only [hop]
    obtain ⟨xs, ks, hadds, -, hks⟩ := scatterProgress_scatters hop host pause s
    rw [View.after, hadds.mine, hmine]
    exact hks

variable {p : Pending}

theorem completed_ctx_get (hkind : p.kind = .get) (v : UInt64) (s : Worker) :
    (s.completed p v).ctx p.req = { s.ctx p.req with val := v } := by
  simp [Worker.completed, hkind, Worker.setCtx]

def Pending.cause (p : Pending) (v : UInt64) : Cause := if p.kind = .get then .value v else .other

/-- **A call from a completion has one of the effects**, and the request goes on with its life. -/
theorem callback_spec (hrel : Reliable host) {p : Pending} (hp : p ∈ s.pending) (v : UInt64)
    (hlife : CallLife host p.req ⟨1, 0, s.ctx p.req, mine p.req s, writesOf p.req s,
      returnsOf p.req s⟩) (pause : Bool) :
    CallLife host p.req (View.after p.req (opsTable host p.req pause (s.completed p v))) ∧
      CallEffect host p.req (p.cause v) pause (s.completed p v)
        (opsTable host p.req pause (s.completed p v)) := by
  have hmem := mem_mine hp
  have hstage := completed_stage p v s
  have hwritesOf : writesOf p.req (s.completed p v) = writesOf p.req s := by
    rw [writesOf, (completed_fields p v s).2.1, writesOf]
  cases hop : p.req.body.op with
  | append hdr =>
    simp only [CallLife, opsTable, hop] at hlife ⊢
    cases hlife with
    | unstarted h => cases h
    | ended hmine _ _ =>
      dsimp only at hmine
      rw [hmine] at hmem
      cases hmem
    | reads m _ hmine hone hwrites hmkey hkey =>
      dsimp only at hmine hone hwrites hmkey
      obtain ⟨hkind, hnone⟩ := mine_completed_last hp hmine v
      have hctx := completed_ctx_get hkind v s
      rw [← congrArg Ctx.mkey hctx] at hmkey
      simp only [appendProgress, hstage, hone]
      exact ⟨appendUpdate_life hrel.insert hop hmkey hnone (hwritesOf.trans hwrites) pause,
        appendUpdate_effect hrel.insert hmkey hkey hop (by rw [hctx]) (.inl (if_pos hkind))⟩
    | stores k _ hmine hne hthree hwrites =>
      dsimp only at hmine hthree hwrites
      obtain ⟨hkind, hnone⟩ := mine_completed_last hp hmine v
      rw [Pending.cause, if_neg (hkind ▸ hne)]
      simp only [appendProgress, hstage, hthree]
      have hone : (writesOf p.req (s.completed p v)).length = 1 := by rw [hwritesOf, hwrites]
      exact ⟨.ended hnone (Nat.le_of_eq hone) fun _ => .inl hone,
        fun _ => .nothing (by simp) (by simp)⟩
  | flush id =>
    simp only [CallLife, opsTable, hop] at hlife ⊢
    rcases hlife with hmine | ⟨k, hmine, hne, hpos⟩
    · dsimp only at hmine
      rw [hmine] at hmem
      cases hmem
    · obtain ⟨hkind, hnone⟩ := mine_completed_last hp hmine v
      rw [Pending.cause, if_neg (hkind ▸ hne)]
      exact ⟨flushLife_after hop hnone pause, flushProgress_later (by rw [hstage]; exact hpos) pause⟩
  | scatter iovs =>
    simp only [CallLife, opsTable, hop] at hlife ⊢
    obtain ⟨xs, ks, hadds, -, hks⟩ :=
      scatterProgress_scatters hop host pause (s.completed p v)
    refine ⟨?_, scatterProgress_effect hop _ pause⟩
    rw [View.after, hadds.mine]
    intro hno
    rcases mem_append.mp hno with hno | hno
    · exact hlife ((mine_completed hp v).mem_iff.mpr (mem_cons_of_mem _ hno))
    · exact hks hno

theorem face_completed (p : Pending) (v : UInt64) (pause : Bool) (starts : List (Start Body)) :
    Face.of p.req.client pause starts (s.completed p v) =
      { Face.of p.req.client pause starts s with gets := getsOf p.req.client (s.completed p v) } := by
  obtain ⟨-, hwrites, -, hcache, hrma, -⟩ := completed_fields p v s
  simp only [Face.of, hwrites, hcache, hrma]

end Calls

end Doca.Rdmo
