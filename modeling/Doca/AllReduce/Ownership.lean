import Doca.AllReduce.PoolNode
import Mathlib.Order.Interval.Finset.Nat
import Mathlib.Tactic.IntervalCases

/-!
# All-reduce: every pooled element has one owner

* `Ledgers` — what is taken out of the four pools is what the operations in hand and the super
  requests of the hash own, each element once.
* `SrOk`, `Tracks` — the counters of each super request against the operations in hand.

Principal result: `completeOperation_spec` — the callbacks of a completion never fail, and keep the
invariant.
-/

namespace Doca.AllReduce

open Doca.Lib List

/-! ## Pools -/

theorem length_lt_of_placed {l : List Nat} (hnd : l.Nodup) (h : ∀ v ∈ l, Placed v) :
    l.length < 2 ^ 60 := by
  have hnd' : (l.map (· / 16)).Nodup := by
    refine List.Nodup.map_on (fun u hu v hv heq => ?_) hnd
    obtain ⟨-, -, hu⟩ := h u hu
    obtain ⟨-, -, hv⟩ := h v hv
    omega
  have hsub : (l.map (· / 16)).toFinset ⊆ Finset.Ioo 0 (2 ^ 60) := by
    intro q hq
    simp only [mem_toFinset, mem_map] at hq
    obtain ⟨v, hv, rfl⟩ := hq
    obtain ⟨hpos, hlt, hmod⟩ := h v hv
    rw [Finset.mem_Ioo]
    omega
  have hcard := Finset.card_le_card hsub
  rw [toFinset_card_of_nodup hnd', length_map, Nat.card_Ioo] at hcard
  omega

theorem populateLoop_success {answers : Nat → Option Nat} : ∀ {k i : Nat} {mp mp' : MPool Nat}
    {r : DocaError}, (∀ j, i ≤ j → j < i + k → answers j ≠ none) →
    MPool.populateLoop answers k i mp = some (r, mp') → r = .success := by
  intro k
  induction k with
  | zero =>
    intro i mp mp' r _ h
    cases h
    rfl
  | succ k ih =>
    intro i mp mp' r hans h
    simp only [MPool.populateLoop, Option.bind_eq_bind, Option.bind_eq_some_iff] at h
    obtain ⟨mp₁, -, h⟩ := h
    split at h
    · rename_i hnone
      exact absurd hnone (hans i (Nat.le_refl i) (by omega))
    · exact ih (fun j hij hj => hans j (by omega) (by omega)) h

/-- What the node relies on for a pool: `inUse` tells whether it is created and used at all. -/
structure Pool.Good (inUse : Prop) (p : Pool) : Prop where
  head : p.mp.head = p.ledger.outstanding.length
  ok : inUse → ∃ free, PoolInv p.mp p.ledger free
  unused : ¬ inUse → p.ledger.outstanding = []
  placed : ∀ v ∈ p.ledger.ever, Placed v

def Pool.out (p : Pool) (v : Nat) : Nat := p.ledger.outstanding.count v

section Pools

variable {inUse : Prop} {p : Pool}

variable {v : Nat}

theorem Pool.out_pos : 0 < p.out v ↔ v ∈ p.ledger.outstanding := count_pos_iff

theorem Pool.Good.growthFits (h : p.Good inUse) (huse : inUse) : GrowthFits p.mp true := by
  intro _
  obtain ⟨free, hinv⟩ := h.ok huse
  have hlt := length_lt_of_placed hinv.nodup h.placed
  have hlen := hinv.perm.length_eq
  have hsize := hinv.size
  have hhead := hinv.head
  rw [length_append] at hlen
  exact .inl (by omega)

theorem Pool.Good.aloc (h : p.Good inUse) (huse : inUse) {answers : Nat → Option Nat}
    (hans : AllocOk p answers) :
    ∃ v p', p.aloc answers = some (v, p') ∧ p'.Good inUse ∧ p.out v = 0 ∧
      ∀ u, p'.out u = p.out u + [v].count u := by
  obtain ⟨free, hinv⟩ := h.ok huse
  have hfits := h.growthFits huse
  obtain ⟨r, v, mp', hrun, hspec⟩ := hinv.alocVec hfits hans.fresh
  have hr : r = .success := by
    by_cases hfull : p.mp.head = p.mp.size
    · have hlt : p.mp.size < 2 ^ 60 := by simpa [GrowthFits, hfull] using hfits
      have hdouble : 2 * p.mp.size % 2 ^ 64 = 2 * p.mp.size := by omega
      simp only [MPool.alocVec, if_pos hfull, if_true] at hrun
      split at hrun
      · cases hrun
      · simp only [Option.bind_eq_bind, Option.bind_eq_some_iff] at hrun
        obtain ⟨⟨r', mp₁⟩, hpop, hrun⟩ := hrun
        simp only [MPool.populateMemPoolRange, hinv.known, if_true, hdouble] at hpop
        have hok := populateLoop_success (fun j hj hlt => hans.answered hfull j (by omega) (by omega)) hpop
        simp only [hok, if_true, MPool.take] at hrun
        split at hrun
        · cases hrun
          rfl
        · cases hrun
    · simp only [MPool.alocVec, if_neg hfull, MPool.take] at hrun
      split at hrun
      · cases hrun
        rfl
      · cases hrun
  obtain ⟨v, rfl⟩ := Option.isSome_iff_exists.mp (hspec.taken.mp hr)
  obtain ⟨free', hinv'⟩ := hspec.inv
  rw [Option.toList_some] at hinv'
  have hnew : v ∉ p.ledger.outstanding := fun hmem =>
    disjoint_of_nodup_append hinv'.good.nodup hmem (mem_singleton_self v)
  refine ⟨v, _, by rw [Pool.aloc, hrun], ⟨hinv'.head, fun _ => ⟨free', hinv'⟩,
    fun hno => absurd huse hno, fun u hu => ?_⟩, count_eq_zero.mpr hnew, fun u => ?_⟩
  · rcases mem_append.mp hu with hu | hu
    · exact h.placed u hu
    · unfold grownBy at hu
      split at hu
      · obtain ⟨i, -, -, hi⟩ := mem_allocated hu
        exact hans.placed i u hi
      · cases hu
  · exact count_append

theorem Pool.Good.free (h : p.Good inUse) (hv : 0 < p.out v) :
    ∃ p', p.free v = some p' ∧ p'.Good inUse ∧ ∀ u, p'.out u + [v].count u = p.out u := by
  have hmem := Pool.out_pos.mp hv
  have huse : inUse := by
    by_contra hno
    rw [h.unused hno] at hmem
    cases hmem
  obtain ⟨free, hinv⟩ := h.ok huse
  obtain ⟨mp', hrun, hinv'⟩ := hinv.freeVec hmem
  refine ⟨⟨mp', p.ledger.outstanding.erase v, p.ledger.ever⟩, ?_, ⟨hinv'.head, fun _ => ⟨_, hinv'⟩,
    fun hno => absurd huse hno, h.placed⟩, fun u => ?_⟩
  · rw [Pool.free, if_pos hmem, hrun]
    rfl
  · unfold Pool.out
    rw [(perm_cons_erase hmem).count_eq u]
    simp [count_cons]

theorem Pool.Good.freeAll : ∀ {vs : List Nat} {p : Pool}, p.Good inUse → (∀ u, vs.count u ≤ p.out u) →
    ∃ p', p.freeAll vs = some p' ∧ p'.Good inUse ∧ ∀ u, p'.out u + vs.count u = p.out u := by
  intro vs
  induction vs with
  | nil => exact fun h _ => ⟨_, rfl, h, fun u => rfl⟩
  | cons v vs ih =>
    intro p h hle
    have hcons : ∀ u, (v :: vs).count u = [v].count u + vs.count u := fun u => by
      rw [← singleton_append, count_append]
    have hv : 0 < p.out v := by
      have := hle v
      rw [hcons, count_singleton_self] at this
      omega
    obtain ⟨p₁, hrun, h₁, hout⟩ := h.free hv
    obtain ⟨p₂, hrest, h₂, hout₂⟩ := ih h₁ fun u => by
      have := hle u
      have := hout u
      have := hcons u
      omega
    refine ⟨p₂, ?_, h₂, fun u => ?_⟩
    · rw [Pool.freeAll, hrun]
      exact hrest
    · have := hout u
      have := hout₂ u
      have := hcons u
      omega

theorem Pool.use_of_pos (h : 0 < p.out v) : p.use v = some () :=
  if_pos (Pool.out_pos.mp h)

theorem Pool.useAll_of_pos : ∀ {vs : List Nat}, (∀ v ∈ vs, 0 < p.out v) → p.useAll vs = some () := by
  intro vs
  induction vs with
  | nil => exact fun _ => rfl
  | cons v vs ih =>
    intro h
    rw [Pool.useAll, Pool.use_of_pos (h v (mem_cons_self ..)), Option.bind_some]
    exact ih fun u hu => h u (mem_cons_of_mem v hu)

theorem Pool.Good.out_le_one (h : p.Good inUse) (v : Nat) : p.out v ≤ 1 := by
  by_cases huse : inUse
  · obtain ⟨free, hinv⟩ := h.ok huse
    exact nodup_iff_count_le_one.mp hinv.good.nodup v
  · unfold Pool.out
    rw [h.unused huse, count_nil]
    omega

theorem Pool.Good.head_eq_zero (h : p.Good inUse) (hnone : ∀ v, p.out v = 0) : p.mp.head = 0 := by
  rw [h.head, length_eq_zero_iff, eq_nil_iff_forall_not_mem]
  intro v hv
  have := Pool.out_pos.mpr hv
  rw [hnone v] at this
  omega

theorem Pool.create_good {nbElems : Nat} {answers : Nat → Option Nat} (hpos : inUse → 1 ≤ nbElems)
    (hfresh : Fresh [] answers) (hplaced : ∀ i v, answers i = some v → Placed v)
    (hrun : Pool.create nbElems answers = some p) : p.Good inUse ∧ ∀ v, p.out v = 0 := by
  unfold Pool.create at hrun
  split at hrun
  · rename_i mp hmp
    cases hrun
    have hinv : 1 ≤ nbElems → PoolInv mp ⟨[], allocated answers 0 nbElems⟩
        (allocated answers 0 nbElems) := by
      intro hne
      have hfits : CreationFits nbElems .cpu true answers := by
        by_contra hno
        rw [createMpool_none hno] at hmp
        cases hmp
      obtain ⟨r, mp', hmp', hinv⟩ := createMpool_spec hne hfits hfresh
      rw [hmp] at hmp'
      cases hmp'
      exact hinv rfl
    have hhead : mp.head = 0 := by
      rcases Nat.eq_zero_or_pos nbElems with hzero | hne
      · subst hzero
        cases hmp
        rfl
      · exact (hinv hne).head
    refine ⟨⟨hhead, fun huse => ⟨_, hinv (hpos huse)⟩, fun _ => rfl, fun v hv => ?_⟩, fun v => rfl⟩
    obtain ⟨i, -, -, hi⟩ := mem_allocated hv
    exact hplaced i v hi
  · cases hrun

end Pools

/-! ## What is owned -/

def PSuper.ownResult (sr : PSuper) : List Nat :=
  match sr.resultVectorOwner, sr.resultVector with
  | true, some (.pooled v) => [v]
  | _, _ => []

/-- The vectors of `vecs_pool` that a super request owns; those of `recv_vectors` go back with the last
    operation. -/
def PSuper.vectors (sr : PSuper) : List Nat :=
  sr.ownResult ++ (sr.peerResultVector.toList ++ if 0 < sr.numOperations then sr.recvSlots else [])

namespace PState

variable (w : PState)

def total (f : PSuper → Nat) : Nat := (w.hash.map f).sum

def receivingVec (v : Nat) : Nat := w.clientRecvs.countP fun r => r.vector = some v

def requestsAt (rs : List PRequest) (a : Nat) : Nat := rs.countP fun r => r.addr = a

end PState

open PState

variable (cfg : Config)

variable (w : PState)

structure Ledgers : Prop where
  vecsGood : w.vecs.Good (0 < cfg.numClients + cfg.numPeers)
  bufsGood : w.bufs.Good (1 < cfg.numPeers)
  reqsGood : w.reqs.Good (cfg.role = .daemon)
  srsGood : w.srs.Good True
  vecs : ∀ v, w.vecs.out v = w.receivingVec v + w.total fun s => s.vectors.count v
  bufs : ∀ b, w.bufs.out b = w.total fun s => s.recvVectors.toList.count b
  reqs : ∀ a, w.reqs.out a = requestsAt w.clientRecvs a + requestsAt w.replies a +
    w.total fun s => requestsAt s.requests a
  srs : ∀ a, w.srs.out a = (w.hash.map PSuper.addr).count a

section LedgerLemmas

variable {cfg : Config} {w w' : PState} {sr : PSuper}

section

variable (h : Ledgers cfg w)

include h

theorem Ledgers.addrs : (w.hash.map PSuper.addr).Nodup :=
  nodup_iff_count_le_one.mpr fun a => by
    rw [← h.srs a]
    exact h.srsGood.out_le_one a

theorem Ledgers.find (hsr : sr ∈ w.hash) : w.find sr.addr = some sr :=
  lookup_of_mem h.addrs hsr

theorem Ledgers.vectors_le (hsr : sr ∈ w.hash) (v : Nat) : sr.vectors.count v ≤ w.vecs.out v := by
  have hle : sr.vectors.count v ≤ w.total fun s => s.vectors.count v :=
    le_sum_of_mem (fun s => s.vectors.count v) hsr
  have := h.vecs v
  omega

theorem Ledgers.vec_live (hsr : sr ∈ w.hash) {v : Nat} (hv : v ∈ sr.vectors) : 0 < w.vecs.out v :=
  Nat.lt_of_lt_of_le (count_pos_iff.mpr hv) (h.vectors_le hsr v)

theorem Ledgers.buf_live (hsr : sr ∈ w.hash) {b : Nat}
    (hb : sr.recvVectors = some b) : 0 < w.bufs.out b := by
  have hone : sr.recvVectors.toList.count b = 1 := by simp [hb]
  have hle : sr.recvVectors.toList.count b ≤ w.total fun s => s.recvVectors.toList.count b :=
    le_sum_of_mem (fun s => s.recvVectors.toList.count b) hsr
  have := h.bufs b
  omega

end

variable {r : PRequest}

theorem requestsAt_pos {rs : List PRequest} (hr : r ∈ rs) : 0 < requestsAt rs r.addr := by
  refine countP_pos_iff.mpr ⟨r, hr, ?_⟩
  simp

section

variable (h : Ledgers cfg w)

include h

theorem Ledgers.reply_live (hr : r ∈ w.replies) : 0 < w.reqs.out r.addr := by
  have := h.reqs r.addr
  have := requestsAt_pos hr
  omega

theorem Ledgers.request_live (hsr : sr ∈ w.hash) (hr : r ∈ sr.requests) : 0 < w.reqs.out r.addr := by
  have hle : requestsAt sr.requests r.addr ≤ w.total fun s => requestsAt s.requests r.addr :=
    le_sum_of_mem (fun s => requestsAt s.requests r.addr) hsr
  have := h.reqs r.addr
  have := requestsAt_pos hr
  omega

theorem Ledgers.useResult (hsr : sr ∈ w.hash) (hresult : sr.resultVector ≠ none)
    (howner : sr.resultVectorOwner = true ↔ sr.resultVector ≠ some .user) :
    useResult sr w = some () := by
  unfold PState.useResult
  cases hres : sr.resultVector with
  | none => exact absurd hres hresult
  | some ptr =>
    cases ptr with
    | user => rfl
    | pooled v =>
      refine Pool.use_of_pos (h.vec_live hsr ?_)
      have : sr.resultVectorOwner = true := howner.mpr (by simp [hres])
      simp [PSuper.vectors, PSuper.ownResult, this, hres]

theorem Ledgers.useRecvVectors (hsr : sr ∈ w.hash)
    (hbuf : sr.recvVectors = none → sr.recvSlots = []) : useRecvVectors sr w = some () := by
  unfold PState.useRecvVectors
  cases hslots : sr.recvSlots with
  | nil => rfl
  | cons u us =>
    cases hb : sr.recvVectors with
    | none =>
      rw [hbuf hb] at hslots
      cases hslots
    | some b => exact Pool.use_of_pos (h.buf_live hsr hb)

theorem Ledgers.update (hsr : sr ∈ w.hash) (sr' : PSuper) (haddr : sr'.addr = sr.addr)
    (hbuf : sr'.recvVectors = sr.recvVectors) (hhash : w'.hash = Lib.put PSuper.addr sr' w.hash)
    (hsrs : w'.srs = w.srs) (hbufs : w'.bufs = w.bufs)
    (hvecsGood : w'.vecs.Good (0 < cfg.numClients + cfg.numPeers))
    (hreqsGood : w'.reqs.Good (cfg.role = .daemon))
    (hvecs : ∀ v, w'.vecs.out v + w.receivingVec v + sr.vectors.count v =
      w.vecs.out v + w'.receivingVec v + sr'.vectors.count v)
    (hreqs : ∀ a, w'.reqs.out a + requestsAt w.clientRecvs a + requestsAt w.replies a +
        requestsAt sr.requests a =
      w.reqs.out a + requestsAt w'.clientRecvs a + requestsAt w'.replies a +
        requestsAt sr'.requests a) : Ledgers cfg w' := by
  have hsum : ∀ f : PSuper → Nat, f sr + w'.total f = f sr' + w.total f := fun f => by
    unfold total
    rw [hhash]
    exact sum_put f h.addrs hsr haddr
  refine ⟨hvecsGood, by rw [hbufs]; exact h.bufsGood, hreqsGood, by rw [hsrs]; exact h.srsGood,
    fun v => ?_, fun b => ?_, fun a => ?_, fun a => ?_⟩
  · have := hsum fun s => s.vectors.count v
    have := h.vecs v
    have := hvecs v
    omega
  · have := hsum fun s => s.recvVectors.toList.count b
    have := h.bufs b
    rw [hbufs]
    simp only [hbuf] at *
    omega
  · have := hsum fun s => requestsAt s.requests a
    have := h.reqs a
    have := hreqs a
    omega
  · rw [hsrs, h.srs a, hhash, (map_put_perm PSuper.addr h.addrs hsr haddr haddr).count_eq]

end

theorem requestsAt_erase {rs : List PRequest} (hr : r ∈ rs) (a : Nat) :
    requestsAt (rs.erase r) a + [r.addr].count a = requestsAt rs a := by
  unfold requestsAt
  rw [(perm_cons_erase hr).countP_eq]
  simp [countP_cons, count_cons]

def PState.without (w : PState) (id : Nat) (vecs bufs srs : Pool) : PState :=
  { w with
    vecs := vecs
    bufs := bufs
    srs := srs
    hash := others PSuper.id id w.hash
    finished := id :: w.finished }

/-- **`allreduce_super_request_finish`** of a super request that is drained. -/
theorem superRequestFinish_spec (h : Ledgers cfg w) (hids : (w.hash.map PSuper.id).Nodup)
    (hsr : sr ∈ w.hash) (hops : sr.numOperations = 0) (hpeer : sr.peerResultVector = none)
    (hrequests : sr.requests = []) (hresult : sr.resultVector ≠ none)
    (howner : sr.resultVectorOwner = true ↔ sr.resultVector ≠ some .user) :
    ∃ vecs bufs srs, superRequestFinish sr.id w = some (w.without sr.id vecs bufs srs) ∧
      Ledgers cfg (w.without sr.id vecs bufs srs) := by
  -- what is released is what the super request owns
  have hvecs : ∃ vecs, resultDestroy sr w.vecs = some vecs ∧
      vecs.Good (0 < cfg.numClients + cfg.numPeers) ∧
      ∀ v, vecs.out v + sr.vectors.count v = w.vecs.out v := by
    cases hres : sr.resultVector with
    | none => exact absurd hres hresult
    | some ptr =>
      cases ptr with
      | user =>
        have hno : sr.resultVectorOwner = false := by
          cases hown : sr.resultVectorOwner with
          | false => rfl
          | true => exact absurd hres (howner.mp hown)
        refine ⟨w.vecs, by simp [resultDestroy, hno], h.vecsGood, fun v => ?_⟩
        simp [PSuper.vectors, PSuper.ownResult, hno, hpeer, hops]
      | pooled v =>
        have hown : sr.resultVectorOwner = true := howner.mpr (by simp [hres])
        have hvectors : sr.vectors = [v] := by
          simp [PSuper.vectors, PSuper.ownResult, hown, hres, hpeer, hops]
        obtain ⟨vecs, hrun, hgood, hout⟩ :=
          h.vecsGood.free (h.vec_live hsr (by rw [hvectors]; exact mem_singleton_self v))
        refine ⟨vecs, by simp [resultDestroy, hown, hres, hrun], hgood, fun u => ?_⟩
        rw [hvectors]
        exact hout u
  have hbufs : ∃ bufs, w.bufs.freePtr sr.recvVectors = some bufs ∧ bufs.Good (1 < cfg.numPeers) ∧
      ∀ b, bufs.out b + sr.recvVectors.toList.count b = w.bufs.out b := by
    cases hbuf : sr.recvVectors with
    | none => exact ⟨w.bufs, rfl, h.bufsGood, fun b => rfl⟩
    | some b => exact h.bufsGood.free (h.buf_live hsr hbuf)
  have hlive : 0 < w.srs.out sr.addr := by
    rw [h.srs]
    exact count_pos_iff.mpr (mem_map_of_mem hsr)
  obtain ⟨vecs, hvrun, hvgood, hvout⟩ := hvecs
  obtain ⟨bufs, hbrun, hbgood, hbout⟩ := hbufs
  obtain ⟨srs, hsrun, hsgood, hsout⟩ := h.srsGood.free hlive
  have hsum : ∀ f : PSuper → Nat,
      w.total f = f sr + ((others PSuper.id sr.id w.hash).map f).sum := fun f =>
    sum_others f hids hsr
  refine ⟨vecs, bufs, srs, ?_, hvgood, hbgood, h.reqsGood, hsgood, fun v => ?_, fun b => ?_,
    fun a => ?_, fun a => ?_⟩
  · have hnone : ∀ w, freeRequests sr w = some w := by
      intro w
      unfold freeRequests
      split
      · rw [hrequests]
        rfl
      · rfl
    have hptr : vecs.freePtr sr.peerResultVector = some vecs := by
      rw [hpeer]
      rfl
    rw [superRequestFinish, lookup_of_mem hids hsr]
    simp only [superRequestDestroy, hvrun, hptr, hbrun, hnone, hsrun, Option.bind_eq_bind,
      Option.bind_some]
    rfl
  · have := hsum fun s => s.vectors.count v
    have := h.vecs v
    have := hvout v
    simp only [total, receivingVec, without] at *
    omega
  · have := hsum fun s => s.recvVectors.toList.count b
    have := h.bufs b
    have := hbout b
    simp only [total, without] at *
    omega
  · have hempty : requestsAt sr.requests a = 0 := by rw [hrequests]; rfl
    have := hsum fun s => requestsAt s.requests a
    have := h.reqs a
    simp only [total, without] at *
    omega
  · have hperm := ((perm_cons_others hids hsr).map PSuper.addr).count_eq a
    have := h.srs a
    have := hsout a
    have hcons : (sr.addr :: (others PSuper.id sr.id w.hash).map PSuper.addr).count a =
        [sr.addr].count a + ((others PSuper.id sr.id w.hash).map PSuper.addr).count a := by
      rw [← singleton_append, count_append]
    rw [map_cons, hcons] at hperm
    dsimp only [without]
    omega

end LedgerLemmas

/-! ## The counters of the super requests -/

def Config.inputs : Nat :=
  match cfg.role with
  | .client => 1
  | .daemon => cfg.numClients

namespace PState

/-- The incomplete operations of a super request; `tokens` are those the running callback will complete. -/
def inFlight (tokens : List Nat) (a : Nat) : Nat :=
  tokens.count a + w.sends.count a + w.peerRecvs.countP fun p => p.1 = a

def seen (id : Nat) : Nat := w.peerSeen.countP fun p => p.1 = id

def given (id : Nat) : Nat := w.clientSeen.countP fun p => p.1 = id

def pending (id : Nat) : Nat := w.clientRecvs.countP fun r => r.id = id

def repliesOf (a : Nat) : Nat := w.replies.countP fun r => r.superRequest = some a

end PState

/-- The fields of a super request against its operations, messages and replies. With `busy` it is sending
    replies or about to be finished. -/
structure SrOk (inFlight seen given pending replies : Nat) (busy : Prop)
    (sr : PSuper) : Prop where
  ops : sr.numOperations =
    inFlight + (cfg.numPeers - seen) + (if sr.scattered then 0 else cfg.numPeers + 1)
  vectors : 0 < sr.numOperations → sr.peerResultVector.toList.length + sr.recvSlots.length = seen
  first : 0 < sr.numOperations → sr.peerResultVector = none → sr.recvSlots = []
  drained : sr.numOperations = 0 → sr.peerResultVector = none
  buffer : sr.recvVectors = none → cfg.numPeers ≤ 1
  attached : ∀ r ∈ sr.requests, r.vector = none ∧ r.superRequest = some sr.addr
  counted : sr.numRequests = sr.requests.length + replies
  owner : sr.resultVectorOwner = true ↔ sr.resultVector ≠ some .user
  gathering : sr.scattered = false → sr.requests.length + pending = given ∧
    sr.requests.length < cfg.inputs ∧ (sr.resultVector = none ↔ sr.requests = [])
  gathered : sr.scattered = true → given = cfg.inputs ∧ pending = 0 ∧ sr.resultVector ≠ none
  replying : 0 < replies → sr.numOperations = 0
  client : cfg.role = .client → sr.requests = [] ∧ replies = 0
  daemon : cfg.role = .daemon → sr.resultVector ≠ some .user ∧ (sr.scattered = true → 0 < sr.numRequests)
  settled : sr.numOperations = 0 → busy ∨ (cfg.role = .daemon ∧ sr.requests = [])

/-- The messages of an operation that has no super request: none has been handled, or all. -/
def Unbegun (id : Nat) : Prop :=
  (id ∉ w.finished → w.seen id = 0 ∧ w.given id = w.pending id) ∧
    (id ∈ w.finished → w.seen id = cfg.numPeers ∧ w.given id = cfg.inputs ∧ w.pending id = 0)

structure Tracks (tokens : List Nat) (busy : Option Nat) (w : PState) : Prop where
  ids : (w.hash.map PSuper.id).Nodup
  sr : ∀ s ∈ w.hash, SrOk cfg (w.inFlight tokens s.addr) (w.seen s.id) (w.given s.id)
    (w.pending s.id) (w.repliesOf s.addr) (busy = some s.addr) s
  live : ∀ a, 0 < w.inFlight tokens a → ∃ s ∈ w.hash, s.addr = a
  sends : ∀ a ∈ w.sends, ∃ s ∈ w.hash, s.addr = a ∧ s.scattered = true
  recvs : ∀ a v, (a, v) ∈ w.peerRecvs →
    ∃ s ∈ w.hash, s.addr = a ∧ v ∈ s.peerResultVector.toList ++ s.recvSlots
  replies : ∀ r ∈ w.replies, r.vector = none ∧ ∃ s ∈ w.hash, r.superRequest = some s.addr
  receiving : ∀ r ∈ w.clientRecvs, cfg.role = .daemon ∧ r.vector ≠ none
  unbegun : ∀ id, (∀ s ∈ w.hash, s.id ≠ id) → Unbegun cfg w id

structure Messages (peerSeen clientSeen : List (Nat × Nat)) : Prop where
  peers : peerSeen.Nodup
  peers_lt : ∀ p ∈ peerSeen, p.2 < cfg.numPeers
  given : clientSeen.Nodup
  given_lt : ∀ p ∈ clientSeen, p.2 < cfg.inputs

structure NodeInv (tokens : List Nat) (busy : Option Nat) (w : PState) : Prop where
  ledgers : Ledgers cfg w
  tracks : Tracks cfg tokens busy w
  messages : Messages cfg w.peerSeen w.clientSeen

section TrackLemmas

variable {cfg : Config} {tokens tokens' : List Nat} {busy busy' : Option Nat} {w w' : PState} {sr : PSuper}

structure Elsewhere (tokens tokens' : List Nat) (busy busy' : Option Nat) (w w' : PState)
    (addr id : Nat) : Prop where
  inFlight : ∀ a, a ≠ addr → w'.inFlight tokens' a = w.inFlight tokens a
  repliesOf : ∀ a, a ≠ addr → w'.repliesOf a = w.repliesOf a
  busy : ∀ a, a ≠ addr → busy = some a → busy' = some a
  seen : ∀ i, i ≠ id → w'.seen i = w.seen i
  given : ∀ i, i ≠ id → w'.given i = w.given i
  pending : ∀ i, i ≠ id → w'.pending i = w.pending i
  sends : ∀ a ∈ w'.sends, a ∈ w.sends
  recvs : ∀ a v, a ≠ addr → (a, v) ∈ w'.peerRecvs → (a, v) ∈ w.peerRecvs
  receiving : ∀ r ∈ w'.clientRecvs, r ∈ w.clientRecvs

theorem SrOk.busy_mono {f s g p r : Nat} {b b' : Prop} (h : SrOk cfg f s g p r b sr) (hb : b → b') :
    SrOk cfg f s g p r b' sr :=
  { h with settled := fun hops => (h.settled hops).imp_left hb }

theorem Elsewhere.srOk {addr id : Nat} (he : Elsewhere tokens tokens' busy busy' w w' addr id)
    {s : PSuper} (haddr : s.addr ≠ addr) (hid : s.id ≠ id)
    (h : SrOk cfg (w.inFlight tokens s.addr) (w.seen s.id) (w.given s.id) (w.pending s.id)
      (w.repliesOf s.addr) (busy = some s.addr) s) :
    SrOk cfg (w'.inFlight tokens' s.addr) (w'.seen s.id) (w'.given s.id) (w'.pending s.id)
      (w'.repliesOf s.addr) (busy' = some s.addr) s := by
  rw [he.inFlight _ haddr, he.seen _ hid, he.given _ hid, he.pending _ hid, he.repliesOf _ haddr]
  exact h.busy_mono (he.busy _ haddr)

variable (haddrs : (w.hash.map PSuper.addr).Nodup) (hsr : sr ∈ w.hash)

include haddrs hsr

theorem Tracks.recvs_of (h : Tracks cfg tokens busy w) {v : Nat} (hv : (sr.addr, v) ∈ w.peerRecvs) :
    v ∈ sr.peerResultVector.toList ++ sr.recvSlots := by
  obtain ⟨s, hs, haddr, hv⟩ := h.recvs _ v hv
  rwa [eq_of_key_eq haddrs hs hsr haddr] at hv

theorem mem_finish {sr' : PSuper} (haddr : sr'.addr = sr.addr) (hid : sr'.id = sr.id)
    (s : PSuper) : s ∈ others PSuper.id sr.id (Lib.put PSuper.addr sr' w.hash) ↔
      s ∈ w.hash ∧ s.id ≠ sr.id := by
  rw [mem_others, mem_put, haddr]
  constructor
  · rintro ⟨rfl | ⟨hs, -⟩, hne⟩
    · exact absurd hid hne
    · exact ⟨hs, hne⟩
  · rintro ⟨hs, hne⟩
    exact ⟨.inr ⟨hs, fun heq => hne (by rw [eq_of_key_eq haddrs hs hsr heq])⟩, hne⟩

theorem Tracks.ids_put (h : Tracks cfg tokens busy w) (sr' : PSuper) (haddr : sr'.addr = sr.addr) (hid : sr'.id = sr.id) :
    ((Lib.put PSuper.addr sr' w.hash).map PSuper.id).Nodup :=
  (map_put_perm PSuper.id haddrs hsr haddr hid).nodup_iff.mpr h.ids

theorem Tracks.update (h : Tracks cfg tokens busy w) (sr' : PSuper) (haddr : sr'.addr = sr.addr) (hid : sr'.id = sr.id)
    (hhash : w'.hash = Lib.put PSuper.addr sr' w.hash) (hfin : w'.finished = w.finished)
    (he : Elsewhere tokens tokens' busy busy' w w' sr.addr sr.id)
    (hok : SrOk cfg (w'.inFlight tokens' sr.addr) (w'.seen sr.id) (w'.given sr.id)
      (w'.pending sr.id) (w'.repliesOf sr.addr) (busy' = some sr.addr) sr')
    (hscattered : sr.scattered = true → sr'.scattered = true)
    (hrecvs : ∀ v, (sr.addr, v) ∈ w'.peerRecvs → v ∈ sr'.peerResultVector.toList ++ sr'.recvSlots)
    (hreplies : ∀ r ∈ w'.replies, r ∈ w.replies ∨ (r.vector = none ∧ r.superRequest = some sr.addr)) :
    Tracks cfg tokens' busy' w' := by
  have hself : sr' ∈ w'.hash := by
    rw [hhash]
    exact mem_put.mpr (.inl rfl)
  -- every old super request has one in the new hash
  have hkeep : ∀ s ∈ w.hash, ∃ s' ∈ w'.hash, s'.addr = s.addr ∧ s'.id = s.id ∧
      (s.addr ≠ sr.addr → s' = s) := by
    intro s hs
    by_cases hne : s.addr = sr.addr
    · have := eq_of_key_eq haddrs hs hsr hne
      subst this
      exact ⟨sr', hself, haddr, hid, fun hne => absurd rfl hne⟩
    · refine ⟨s, ?_, rfl, rfl, fun _ => rfl⟩
      rw [hhash]
      exact mem_put.mpr (.inr ⟨hs, by rw [haddr]; exact hne⟩)
  have hperm := map_put_perm PSuper.id haddrs hsr haddr hid
  refine ⟨?_, fun s hs => ?_, fun a ha => ?_, fun a ha => ?_, fun a v hav => ?_, fun r hr => ?_,
    fun r hr => ?_, fun id hnot => ?_⟩
  · rw [hhash]
    exact hperm.nodup_iff.mpr h.ids
  · rw [hhash] at hs
    rcases mem_put.mp hs with rfl | ⟨hs, hne⟩
    · rw [haddr, hid]
      exact hok
    · rw [haddr] at hne
      exact he.srOk hne (fun hids => hne (by rw [eq_of_key_eq h.ids hs hsr hids])) (h.sr s hs)
  · by_cases hne : a = sr.addr
    · exact ⟨sr', hself, haddr.trans hne.symm⟩
    · rw [he.inFlight a hne] at ha
      obtain ⟨s, hs, rfl⟩ := h.live a ha
      obtain ⟨s', hs', haddr', -, -⟩ := hkeep s hs
      exact ⟨s', hs', haddr'⟩
  · obtain ⟨s, hs, rfl, hsc⟩ := h.sends a (he.sends a ha)
    by_cases hne : s.addr = sr.addr
    · rw [eq_of_key_eq haddrs hs hsr hne] at hsc
      exact ⟨sr', hself, haddr.trans hne.symm, hscattered hsc⟩
    · obtain ⟨s', hs', -, -, hsame⟩ := hkeep s hs
      rw [hsame hne] at hs'
      exact ⟨s, hs', rfl, hsc⟩
  · by_cases hne : a = sr.addr
    · subst hne
      exact ⟨sr', hself, haddr, hrecvs v hav⟩
    · obtain ⟨s, hs, rfl, hv⟩ := h.recvs a v (he.recvs a v hne hav)
      obtain ⟨s', hs', -, -, hsame⟩ := hkeep s hs
      rw [hsame hne] at hs'
      exact ⟨s, hs', rfl, hv⟩
  · rcases hreplies r hr with hold | ⟨hvec, hsuper⟩
    · obtain ⟨hvec, s, hs, hsuper⟩ := h.replies r hold
      obtain ⟨s', hs', haddr', -, -⟩ := hkeep s hs
      exact ⟨hvec, s', hs', by rw [haddr', hsuper]⟩
    · exact ⟨hvec, sr', hself, by rw [haddr, hsuper]⟩
  · exact h.receiving r (he.receiving r hr)
  · have hne : id ≠ sr.id := fun hid' => hnot sr' hself (by rw [hid, hid'])
    have hold := h.unbegun id fun s hs hid' => by
      obtain ⟨s', hs', -, hid'', -⟩ := hkeep s hs
      exact hnot s' hs' (hid''.trans hid')
    unfold Unbegun
    rw [hfin, he.seen id hne, he.given id hne, he.pending id hne]
    exact hold

theorem Tracks.remove (h : Tracks cfg tokens busy w)
    (hmem : ∀ s, s ∈ w'.hash ↔ s ∈ w.hash ∧ s.id ≠ sr.id)
    (hids : (w'.hash.map PSuper.id).Nodup) (hfin : w'.finished = sr.id :: w.finished)
    (he : Elsewhere tokens tokens' busy busy' w w' sr.addr sr.id)
    (hflight : w'.inFlight tokens' sr.addr = 0) (hseen : w'.seen sr.id = cfg.numPeers)
    (hgiven : w'.given sr.id = cfg.inputs) (hpending : w'.pending sr.id = 0)
    (hreplies : ∀ r ∈ w'.replies, r ∈ w.replies ∧ r.superRequest ≠ some sr.addr) :
    Tracks cfg tokens' busy' w' := by
  have hkeep : ∀ s ∈ w.hash, s.addr ≠ sr.addr → s ∈ w'.hash := fun s hs hne =>
    (hmem s).mpr ⟨hs, fun hid => hne (by rw [eq_of_key_eq h.ids hs hsr hid])⟩
  have hnone : ∀ v, (sr.addr, v) ∉ w'.peerRecvs := by
    intro v hv
    have hpos : 0 < w'.peerRecvs.countP fun p => p.1 = sr.addr :=
      countP_pos_iff.mpr ⟨(sr.addr, v), hv, by simp⟩
    unfold inFlight at hflight
    omega
  have hnosend : sr.addr ∉ w'.sends := by
    intro hmem
    have hpos := count_pos_iff.mpr hmem
    unfold inFlight at hflight
    omega
  refine ⟨hids, fun s hs => ?_, fun a ha => ?_, fun a ha => ?_, fun a v hav => ?_, fun r hr => ?_,
    fun r hr => ?_, fun id hnot => ?_⟩
  · obtain ⟨hs, hne⟩ := (hmem s).mp hs
    exact he.srOk (fun haddr => hne (by rw [eq_of_key_eq haddrs hs hsr haddr])) hne (h.sr s hs)
  · have hne : a ≠ sr.addr := fun heq => by rw [heq, hflight] at ha; omega
    rw [he.inFlight a hne] at ha
    obtain ⟨s, hs, rfl⟩ := h.live a ha
    exact ⟨s, hkeep s hs hne, rfl⟩
  · have hne : a ≠ sr.addr := fun heq => hnosend (heq ▸ ha)
    obtain ⟨s, hs, rfl, hsc⟩ := h.sends a (he.sends a ha)
    exact ⟨s, hkeep s hs hne, rfl, hsc⟩
  · have hne : a ≠ sr.addr := fun heq => hnone v (heq ▸ hav)
    obtain ⟨s, hs, rfl, hv⟩ := h.recvs a v (he.recvs a v hne hav)
    exact ⟨s, hkeep s hs hne, rfl, hv⟩
  · obtain ⟨hold, hother⟩ := hreplies r hr
    obtain ⟨hvec, s, hs, hsuper⟩ := h.replies r hold
    exact ⟨hvec, s, hkeep s hs fun heq => hother (by rw [hsuper, heq]), hsuper⟩
  · exact h.receiving r (he.receiving r hr)
  · unfold Unbegun
    rw [hfin]
    by_cases hne : id = sr.id
    · subst hne
      exact ⟨fun hno => absurd (mem_cons_self ..) hno, fun _ => ⟨hseen, hgiven, hpending⟩⟩
    · have hold := h.unbegun id fun s hs hid => hnot s ((hmem s).mpr ⟨hs, hid ▸ hne⟩) hid
      rw [he.seen id hne, he.given id hne, he.pending id hne]
      simpa [hne, Unbegun] using hold

end TrackLemmas

/-! ## Completing -/

section Completing

variable {cfg : Config} {tokens : List Nat} {busy : Option Nat} {w : PState} {sr : PSuper}

theorem Messages.seen_le (h : Messages cfg w.peerSeen w.clientSeen) (id : Nat) :
    w.seen id ≤ cfg.numPeers :=
  countP_le h.peers h.peers_lt

variable {r : PRequest}

theorem repliesOf_erase {rs : List PRequest} (hr : r ∈ rs) (a : Nat) :
    (rs.erase r).countP (fun q => q.superRequest = some a) +
      (if r.superRequest = some a then 1 else 0) = rs.countP fun q => q.superRequest = some a := by
  rw [(perm_cons_erase hr).countP_eq]
  simp [countP_cons]

theorem SrOk.scattered_of_ops {f s g p r : Nat} {b : Prop} (h : SrOk cfg f s g p r b sr)
    (hops : sr.numOperations ≤ f) : sr.scattered = true := by
  have := h.ops
  cases hsc : sr.scattered with
  | true => rfl
  | false =>
    simp only [hsc, Bool.false_eq_true, if_false] at this
    omega

theorem SrOk.slots_nil {f s g p r : Nat} {b : Prop} (h : SrOk cfg f s g p r b sr)
    (hle : s ≤ cfg.numPeers) (hops : 0 < sr.numOperations) (hbuf : sr.recvVectors = none) :
    sr.recvSlots = [] := by
  have hone := h.buffer hbuf
  have hvectors := h.vectors hops
  cases hp : sr.peerResultVector with
  | none => exact h.first hops hp
  | some v =>
    rw [hp, Option.toList_some, length_singleton] at hvectors
    exact length_eq_zero_iff.mp (by omega)

/-- The hash of one state has the super requests of another, up to what replies change. -/
structure SameRequests (w w' : PState) : Prop where
  old : ∀ s' ∈ w'.hash, ∃ s ∈ w.hash, s.addr = s'.addr ∧ s.requests = s'.requests ∧
    s.numOperations = s'.numOperations
  kept : ∀ s ∈ w.hash, s.requests ≠ [] → ∃ s' ∈ w'.hash, s'.addr = s.addr

/-- **A reply is sent.**  The last one finishes the super request. -/
theorem daemonCompleteClientOperation_spec (h : NodeInv cfg tokens busy w) (hr : r ∈ w.replies) :
    ∃ w', PState.daemonCompleteClientOperation r w = some w' ∧ NodeInv cfg tokens busy w' ∧
      SameRequests w w' := by
  obtain ⟨hl, ht, hm⟩ := h
  obtain ⟨hvec, sr, hsr, hsuper⟩ := ht.replies r hr
  have hok := ht.sr sr hsr
  obtain ⟨reqs, hfree, hgood, hout⟩ := hl.reqsGood.free (hl.reply_live hr)
  have hone : 0 < w.repliesOf sr.addr := countP_pos_iff.mpr ⟨r, hr, by simp [hsuper]⟩
  have hops : sr.numOperations = 0 := hok.replying hone
  have hscattered := hok.scattered_of_ops (by omega)
  have hcounted := hok.counted
  obtain ⟨n, hn⟩ : ∃ n, sr.numRequests = n + 1 := ⟨sr.numRequests - 1, by omega⟩
  -- the request is released, and no longer counted
  have hledgers : Ledgers cfg ({ w with replies := w.replies.erase r, reqs := reqs }.put
      { sr with numRequests := n }) := by
    refine hl.update hsr { sr with numRequests := n } rfl rfl rfl rfl rfl hl.vecsGood hgood
      (fun v => rfl) fun a => ?_
    have := hout a
    have := requestsAt_erase hr a
    dsimp only [PState.put]
    omega
  have hrun : PState.daemonCompleteClientOperation r w =
      if n = 0 then superRequestFinish sr.id ({ w with replies := w.replies.erase r, reqs := reqs }.put
        { sr with numRequests := n })
      else some ({ w with replies := w.replies.erase r, reqs := reqs }.put
        { sr with numRequests := n }) := by
    have hfind : ({ w with replies := w.replies.erase r, reqs := reqs } : PState).find sr.addr =
        some sr := hl.find hsr
    simp only [PState.daemonCompleteClientOperation, requestDestroy, hsuper, hvec, Pool.freePtr, hfree,
      hfind, hn, Option.bind_eq_bind, Option.bind_some]
  have hreplies : ∀ a, (w.replies.erase r).countP (fun q => q.superRequest = some a) +
      (if sr.addr = a then 1 else 0) = w.repliesOf a := fun a => by
    have := repliesOf_erase hr a
    rw [hsuper] at this
    simpa only [Option.some.injEq, repliesOf] using this
  have helse : ∀ vecs bufs srs hash finished, Elsewhere tokens tokens busy busy w
      ⟨vecs, bufs, reqs, srs, hash, w.clientRecvs, w.peerRecvs, w.sends, w.replies.erase r,
        w.clientSeen, w.peerSeen, finished⟩ sr.addr sr.id := by
    intro vecs bufs srs hash finished
    refine ⟨fun a _ => rfl, fun a ha => ?_, fun a _ hb => hb, fun i _ => rfl, fun i _ => rfl,
      fun i _ => rfl, fun a ha => ha, fun a v _ hav => hav, fun q hq => hq⟩
    have := hreplies a
    rw [if_neg (Ne.symm ha)] at this
    exact this
  have hcount := hreplies sr.addr
  rw [if_pos rfl] at hcount
  obtain ⟨hgiven, hpending, hresult⟩ := hok.gathered hscattered
  by_cases hlast : n = 0
  · -- the last reply
    have hnil : sr.requests = [] := length_eq_zero_iff.mp (by omega)
    have hopsEq := hok.ops
    have hflight : w.inFlight tokens sr.addr = 0 := by omega
    have hseen : w.seen sr.id = cfg.numPeers := by
      have := hm.seen_le sr.id
      omega
    have hids := ht.ids_put hl.addrs hsr { sr with numRequests := n } rfl rfl
    obtain ⟨vecs, bufs, srs, hfinish, hledgers'⟩ := superRequestFinish_spec hledgers hids
      (mem_put.mpr (.inl rfl)) hops (hok.drained hops) hnil hresult hok.owner
    have hmem : ∀ s, s ∈ others PSuper.id sr.id
        (Lib.put PSuper.addr { sr with numRequests := n } w.hash) ↔ s ∈ w.hash ∧ s.id ≠ sr.id :=
      mem_finish hl.addrs hsr rfl rfl
    refine ⟨_, by rw [hrun, if_pos hlast]; exact hfinish, ⟨hledgers', ?_, hm⟩, ?_, ?_⟩
    · refine ht.remove hl.addrs hsr hmem (hids.sublist (filter_sublist.map _)) rfl
        (helse _ _ _ _ _) hflight hseen hgiven hpending fun q hq => ?_
      refine ⟨mem_of_mem_erase hq, fun hqs => ?_⟩
      have hpos : 0 < (w.replies.erase r).countP fun q => q.superRequest = some sr.addr :=
        countP_pos_iff.mpr ⟨q, hq, by simp [hqs]⟩
      omega
    · intro s hs
      exact ⟨s, ((hmem s).mp hs).1, rfl, rfl, rfl⟩
    · intro s hs hne
      refine ⟨s, (hmem s).mpr ⟨hs, fun hid => hne ?_⟩, rfl⟩
      rw [eq_of_key_eq ht.ids hs hsr hid]
      exact hnil
  · refine ⟨_, by rw [hrun, if_neg hlast], ⟨hledgers, ?_, hm⟩, ?_, ?_⟩
    · refine ht.update hl.addrs hsr { sr with numRequests := n } rfl rfl rfl rfl
        (helse _ _ _ _ _) ?_ (fun hsc => hsc) (fun v hv => ?_)
        fun q hq => .inl (mem_of_mem_erase hq)
      · refine { hok with
          counted := ?_
          replying := fun _ => hops
          client := fun hc => ?_
          daemon := fun hd => ⟨(hok.daemon hd).1, fun _ => Nat.pos_of_ne_zero hlast⟩ }
        · show n = sr.requests.length + (w.replies.erase r).countP _
          omega
        · have := (hok.client hc).2
          omega
      · exact ht.recvs_of hl.addrs hsr hv
    · intro s hs
      rcases mem_put.mp hs with rfl | ⟨hs, -⟩
      · exact ⟨sr, hsr, rfl, rfl, rfl⟩
      · exact ⟨s, hs, rfl, rfl, rfl⟩
    · intro s hs _
      by_cases haddr : s.addr = sr.addr
      · exact ⟨_, mem_put.mpr (.inl rfl), haddr.symm⟩
      · exact ⟨s, mem_put.mpr (.inr ⟨hs, haddr⟩), rfl⟩

theorem NodeInv.reply (h : NodeInv cfg tokens (some sr.addr) w) (hsr : sr ∈ w.hash)
    {rest : List PRequest} (hrequests : sr.requests = r :: rest) (hops : sr.numOperations = 0)
    (hrole : cfg.role = .daemon) :
    NodeInv cfg tokens (some sr.addr) (awaitReply r (w.put { sr with requests := rest })) := by
  obtain ⟨hl, ht, hm⟩ := h
  have hok := ht.sr sr hsr
  obtain ⟨hvec, hsuper⟩ := hok.attached r (by rw [hrequests]; exact mem_cons_self ..)
  have hcount : ∀ a, (r :: w.replies).countP (fun q => q.superRequest = some a) =
      w.repliesOf a + if sr.addr = a then 1 else 0 := fun a => by
    simp [countP_cons, hsuper, repliesOf]
  have hat : ∀ (rs : List PRequest) (a : Nat),
      requestsAt (r :: rs) a = requestsAt rs a + if r.addr = a then 1 else 0 := fun rs a => by
    simp [requestsAt, countP_cons]
  refine ⟨hl.update hsr { sr with requests := rest } rfl rfl rfl rfl rfl hl.vecsGood hl.reqsGood
    (fun v => rfl) fun a => ?_, ?_, hm⟩
  · dsimp only [PState.put, awaitReply]
    rw [hrequests, hat, hat]
    omega
  · refine ht.update hl.addrs hsr { sr with requests := rest } rfl rfl rfl rfl
      ⟨fun a _ => rfl, fun a ha => ?_, fun a _ hb => hb, fun i _ => rfl, fun i _ => rfl,
        fun i _ => rfl, fun a ha => ha, fun a v _ hav => hav, fun q hq => hq⟩ ?_
      (fun hsc => hsc)
      (fun v hv => ht.recvs_of hl.addrs hsr hv) fun q hq => ?_
    · have := hcount a
      rw [if_neg (Ne.symm ha)] at this
      exact this
    · have hscattered := hok.scattered_of_ops (by omega)
      have hcounted := hok.counted
      refine { hok with
        attached := fun q hq => hok.attached q (by rw [hrequests]; exact mem_cons_of_mem r hq)
        counted := ?_
        gathering := fun hno => absurd (hscattered.symm.trans hno) (by decide)
        replying := fun _ => hops
        client := fun hc => absurd (hrole.symm.trans hc) (by decide)
        settled := fun _ => .inl rfl }
      have := hcount sr.addr
      rw [if_pos rfl] at this
      show sr.numRequests = rest.length + (r :: w.replies).countP _
      rw [this, hcounted, hrequests, length_cons]
      omega
    · rcases mem_cons.mp hq with rfl | hq
      · exact .inr ⟨hvec, hsuper⟩
      · exact .inl hq

/-- **The result goes to the clients.** -/
theorem sendReplies_spec (env : PEnv) {addr : Nat} (hrole : cfg.role = .daemon) :
    ∀ {rest : List PRequest} {w : PState}, NodeInv cfg tokens (some addr) w →
    (∀ s ∈ w.hash, s.addr = addr → s.requests = rest ∧ s.numOperations = 0) →
    (rest ≠ [] → ∃ s ∈ w.hash, s.addr = addr) →
    ∃ w', PState.sendReplies env addr rest w = some w' ∧ NodeInv cfg tokens none w' := by
  intro rest
  induction rest with
  | nil =>
    intro w h hreqs _
    refine ⟨w, rfl, h.ledgers, { h.tracks with sr := fun s hs => ?_ }, h.messages⟩
    have hok := h.tracks.sr s hs
    refine { hok with settled := fun hops => ?_ }
    rcases hok.settled hops with hbusy | hdone
    · exact .inr ⟨hrole, (hreqs s hs (Option.some.inj hbusy).symm).1⟩
    · exact .inr hdone
  | cons r rest ih =>
    intro w h hreqs hlive
    obtain ⟨sr, hsr, rfl⟩ := hlive (cons_ne_nil r rest)
    obtain ⟨hrequests, hops⟩ := hreqs sr hsr rfl
    have hok := h.tracks.sr sr hsr
    have hreply := h.reply hsr hrequests hops hrole
    have huse : w.reqs.use r.addr = some () :=
      Pool.use_of_pos (h.ledgers.request_live hsr (by rw [hrequests]; exact mem_cons_self ..))
    have hresult := h.ledgers.useResult hsr (hok.gathered (hok.scattered_of_ops (by omega))).2.2 hok.owner
    have hrun : PState.sendReplies env sr.addr (r :: rest) w =
        (sendReply env r (w.put { sr with requests := rest })).bind fun w =>
          PState.sendReplies env sr.addr rest w := by
      simp only [PState.sendReplies, h.ledgers.find hsr, huse, hresult, hrequests, erase_cons_head,
        Option.bind_eq_bind, Option.bind_some]
    have hnow : ∀ s ∈ (w.put { sr with requests := rest }).hash, s.addr = sr.addr →
        s.requests = rest ∧ s.numOperations = 0 := by
      intro s hs haddr
      rcases mem_put.mp hs with rfl | ⟨-, hne⟩
      · exact ⟨rfl, hops⟩
      · exact absurd haddr hne
    have hself : { sr with requests := rest } ∈ (w.put { sr with requests := rest }).hash :=
      mem_put.mpr (.inl rfl)
    rw [hrun, sendReply]
    split
    · obtain ⟨w₁, hone, hinv, hsame⟩ :=
        daemonCompleteClientOperation_spec hreply (mem_cons_self ..)
      rw [hone]
      refine ih hinv (fun s hs haddr => ?_) fun hne => ?_
      · obtain ⟨s', hs', haddr', hreq', hops'⟩ := hsame.old s hs
        rw [← hreq', ← hops']
        exact hnow s' hs' (haddr'.trans haddr)
      · exact hsame.kept { sr with requests := rest } hself hne
    · exact ih hreply hnow fun _ => ⟨_, hself, rfl⟩

theorem releasePeerVectors_spec (hl : Ledgers cfg w) (hsr : sr ∈ w.hash)
    (hops : 0 < sr.numOperations) (hresult : useResult sr w = some ())
    (hbuf : sr.recvVectors = none → sr.recvSlots = []) :
    ∃ vecs, releasePeerVectors sr w = some vecs ∧ vecs.Good (0 < cfg.numClients + cfg.numPeers) ∧
      ∀ v, vecs.out v + (sr.peerResultVector.toList ++ sr.recvSlots).count v = w.vecs.out v := by
  have hle : ∀ v, (sr.peerResultVector.toList ++ sr.recvSlots).count v ≤ w.vecs.out v := by
    intro v
    have := hl.vectors_le hsr v
    unfold PSuper.vectors at this
    rw [if_pos hops, count_append] at this
    omega
  have hpeer : ∃ vecs, reducePeerResult sr w = some vecs ∧ vecs.Good (0 < cfg.numClients + cfg.numPeers) ∧
      ∀ v, vecs.out v + sr.peerResultVector.toList.count v = w.vecs.out v := by
    unfold reducePeerResult
    cases hp : sr.peerResultVector with
    | none => exact ⟨w.vecs, rfl, hl.vecsGood, fun v => rfl⟩
    | some v =>
      obtain ⟨vecs, hrun, hgood, hout⟩ := hl.vecsGood.free (v := v) (by
        have := hle v
        rw [hp, Option.toList_some, count_append, count_singleton_self] at this
        omega)
      exact ⟨vecs, by simp only [hresult, hrun, Option.bind_some], hgood, hout⟩
  have hread := hl.useRecvVectors hsr hbuf
  obtain ⟨vecs, hrun, hgood, hout⟩ := hpeer
  have hslots : ∀ v, sr.recvSlots.count v ≤ vecs.out v := by
    intro v
    have hle := hle v
    have := hout v
    rw [count_append] at hle
    omega
  obtain ⟨vecs', hrun', hgood', hout'⟩ := hgood.freeAll hslots
  refine ⟨vecs', by simp only [releasePeerVectors, hrun, hread, hrun', Option.bind_eq_bind,
    Option.bind_some], hgood', fun v => ?_⟩
  have := hout v
  have := hout' v
  rw [count_append]
  omega

theorem inFlight_cons (w : PState) (tokens : List Nat) (addr a : Nat) : w.inFlight (addr :: tokens) a =
    w.inFlight tokens a + if addr = a then 1 else 0 := by
  simp only [inFlight, count_cons, beq_iff_eq]
  omega

theorem Elsewhere.token {hash : List PSuper} {vecs bufs reqs srs : Pool} {finished : List Nat} :
    Elsewhere (sr.addr :: tokens) tokens none busy w
      ⟨vecs, bufs, reqs, srs, hash, w.clientRecvs, w.peerRecvs, w.sends, w.replies,
        w.clientSeen, w.peerSeen, finished⟩ sr.addr sr.id := by
  refine ⟨fun a ha => ?_, fun a _ => rfl, fun a _ hb => (nomatch hb), fun i _ => rfl, fun i _ => rfl,
    fun i _ => rfl, fun a ha => ha, fun a v _ hav => hav, fun q hq => hq⟩
  rw [inFlight_cons, if_neg (Ne.symm ha)]
  rfl

theorem NodeInv.completeOperation_more (env : PEnv) (h : NodeInv cfg (sr.addr :: tokens) none w)
    (hsr : sr ∈ w.hash) (hmore : 1 < sr.numOperations) :
    completeOperation cfg env sr.addr w =
        some (w.put { sr with numOperations := sr.numOperations - 1 }) ∧
      NodeInv cfg tokens none (w.put { sr with numOperations := sr.numOperations - 1 }) := by
  obtain ⟨hl, ht, hm⟩ := h
  have hok := ht.sr sr hsr
  have hflight := inFlight_cons w tokens sr.addr sr.addr
  rw [if_pos rfl] at hflight
  have hops := hok.ops
  refine ⟨?_, ?_, ?_, hm⟩
  · obtain ⟨n, hn⟩ : ∃ n, sr.numOperations = n + 1 := ⟨sr.numOperations - 1, by omega⟩
    simp only [completeOperation, hl.find hsr, hn, if_pos (show 0 < n by omega),
      Option.bind_eq_bind, Option.bind_some, Nat.add_sub_cancel]
  · refine hl.update hsr { sr with numOperations := sr.numOperations - 1 } rfl rfl rfl rfl rfl
      hl.vecsGood hl.reqsGood (fun v => ?_) fun a => rfl
    simp only [PSuper.vectors, if_pos (show 0 < sr.numOperations by omega),
      if_pos (show 0 < sr.numOperations - 1 by omega)]
    rfl
  · refine ht.update hl.addrs hsr { sr with numOperations := sr.numOperations - 1 } rfl rfl rfl rfl
      Elsewhere.token ?_ (fun hsc => hsc)
      (fun v hv => ht.recvs_of hl.addrs hsr hv) fun q hq => .inl hq
    refine { hok with
      ops := ?_
      vectors := fun _ => hok.vectors (by omega)
      first := fun _ => hok.first (by omega)
      drained := fun hzero => absurd hzero (show sr.numOperations - 1 ≠ 0 by omega)
      replying := fun hpos => absurd (hok.replying hpos) (by omega)
      settled := fun hzero => absurd hzero (show sr.numOperations - 1 ≠ 0 by omega) }
    show sr.numOperations - 1 = w.inFlight tokens sr.addr + (cfg.numPeers - w.seen sr.id) +
      (if sr.scattered then 0 else cfg.numPeers + 1)
    omega

def PSuper.drained (sr : PSuper) : PSuper := { sr with numOperations := 0, peerResultVector := none }

/-- **An operation is complete.**  The last one releases the vectors of the peers; then a client
    finishes the super request, and a daemon replies. -/
theorem completeOperation_spec (env : PEnv) {addr : Nat} (h : NodeInv cfg (addr :: tokens) none w) :
    ∃ w', completeOperation cfg env addr w = some w' ∧ NodeInv cfg tokens none w' := by
  have ⟨hl, ht, hm⟩ := h
  obtain ⟨sr, hsr, rfl⟩ := ht.live addr (by rw [inFlight_cons, if_pos rfl]; omega)
  have hok := ht.sr sr hsr
  have hflight := inFlight_cons w tokens sr.addr sr.addr
  rw [if_pos rfl] at hflight
  have hops := hok.ops
  by_cases hmore : 1 < sr.numOperations
  · exact ⟨_, h.completeOperation_more env hsr hmore⟩
  · -- the last operation
    have hn : sr.numOperations = 0 + 1 := by omega
    have hle := hm.seen_le sr.id
    have hnoreply : w.repliesOf sr.addr = 0 := Nat.eq_zero_of_not_pos fun hpos => by
      have := hok.replying hpos
      omega
    have hscattered := hok.scattered_of_ops (by omega)
    rw [hscattered, if_pos rfl] at hops
    have hnone : w.inFlight tokens sr.addr = 0 := by omega
    have hseen : w.seen sr.id = cfg.numPeers := by omega
    obtain ⟨hgiven, hpending, hresult⟩ := hok.gathered hscattered
    obtain ⟨vecs, hrel, hgood, hout⟩ := releasePeerVectors_spec hl hsr (by omega)
      (hl.useResult hsr hresult hok.owner) (hok.slots_nil hle (by omega))
    have hl' : Ledgers cfg ({ w with vecs := vecs }.put sr.drained) := by
      refine hl.update hsr sr.drained rfl rfl rfl rfl rfl hgood hl.reqsGood (fun v => ?_) fun a => rfl
      have := hout v
      simp only [PSuper.drained, PSuper.vectors, hn, Nat.lt_irrefl, Nat.succ_pos, if_true, if_false,
        Option.toList_none, append_nil, count_append] at this ⊢
      dsimp only [PState.put, receivingVec, PSuper.ownResult]
      omega
    have hrun : completeOperation cfg env sr.addr w =
        match cfg.role with
        | .client => if sr.requests = [] then superRequestFinish sr.id ({ w with vecs := vecs }.put sr.drained) else none
        | .daemon => PState.sendReplies env sr.addr sr.requests ({ w with vecs := vecs }.put sr.drained) := by
      simp only [completeOperation, hl.find hsr, hn, hrel, Nat.lt_irrefl, if_false,
        Option.bind_eq_bind, Option.bind_some]
      rfl
    have hself : sr.drained ∈ Lib.put PSuper.addr sr.drained w.hash := mem_put.mpr (.inl rfl)
    rw [hrun]
    cases hrole : cfg.role with
    | client =>
      have hnil := (hok.client hrole).1
      have hids := ht.ids_put hl.addrs hsr sr.drained rfl rfl
      obtain ⟨vecs', bufs, srs, hfinish, hledgers⟩ := superRequestFinish_spec hl' hids hself rfl rfl
        hnil hresult hok.owner
      refine ⟨_, by rw [if_pos hnil]; exact hfinish, hledgers, ?_, hm⟩
      refine ht.remove hl.addrs hsr (mem_finish hl.addrs hsr rfl rfl)
        (hids.sublist (filter_sublist.map _)) rfl Elsewhere.token hnone hseen hgiven hpending
        fun q hq => ⟨hq, fun hqs => ?_⟩
      have hpos : 0 < w.repliesOf sr.addr := countP_pos_iff.mpr ⟨q, hq, by simp [hqs]⟩
      omega
    | daemon =>
      have ht' : Tracks cfg tokens (some sr.addr) ({ w with vecs := vecs }.put sr.drained) := by
        refine ht.update hl.addrs hsr sr.drained rfl rfl rfl rfl Elsewhere.token ?_ (fun hsc => hsc) (fun v hv => ?_) fun q hq => .inl hq
        · refine { hok with
            ops := ?_
            vectors := fun hpos => absurd hpos (Nat.lt_irrefl 0)
            first := fun hpos => absurd hpos (Nat.lt_irrefl 0)
            drained := fun _ => rfl
            replying := fun _ => rfl
            settled := fun _ => .inl rfl }
          show 0 = w.inFlight tokens sr.addr + (cfg.numPeers - w.seen sr.id) +
            (if sr.scattered then 0 else cfg.numPeers + 1)
          rw [hscattered, if_pos rfl]
          omega
        · have hpos : 0 < w.peerRecvs.countP fun p => p.1 = sr.addr :=
            countP_pos_iff.mpr ⟨_, hv, by simp⟩
          unfold inFlight at hnone
          omega
      refine sendReplies_spec env hrole ⟨hl', ht', hm⟩ (fun s hs haddr => ?_) fun _ => ⟨_, hself, rfl⟩
      rcases mem_put.mp hs with rfl | ⟨-, hne⟩
      · exact ⟨rfl, rfl⟩
      · exact absurd haddr hne

end Completing

end Doca.AllReduce
