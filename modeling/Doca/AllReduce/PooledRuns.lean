import Doca.AllReduce.Ownership

/-!
# All-reduce: the pooled memory over whole runs

* `scatter_spec`, `superRequestGet_spec`, `gatherStore_spec`, `gatherComplete_spec`,
  `recvDataComplete_spec` — the callbacks for messages never fail, and keep the invariant of a node.

Principal result: `pooled_elements_returned`.
-/

namespace Doca.AllReduce

open Doca.Lib PState List Option Nat

variable {cfg : Config} {tokens tokens' : List Nat} {busy : Option Nat} {w : PState} {sr : PSuper}

/-! ## Scattering -/

theorem Ledgers.shift (h : Ledgers cfg w) (sends : List Nat) (peerRecvs : List (Nat × Nat)) :
    Ledgers cfg { w with sends := sends, peerRecvs := peerRecvs } :=
  ⟨h.vecsGood, h.bufsGood, h.reqsGood, h.srsGood, h.vecs, h.bufs, h.reqs, h.srs⟩

theorem NodeInv.shift (h : NodeInv cfg tokens busy w) {sends : List Nat} {peerRecvs : List (Nat × Nat)}
    (hflight : ∀ a, inFlight { w with sends := sends, peerRecvs := peerRecvs } tokens' a =
      w.inFlight tokens a)
    (hsends : ∀ a ∈ sends, a ∈ w.sends ∨ ∃ s ∈ w.hash, s.addr = a ∧ s.scattered = true)
    (hrecvs : ∀ p ∈ peerRecvs, p ∈ w.peerRecvs) :
    NodeInv cfg tokens' busy { w with sends := sends, peerRecvs := peerRecvs } := by
  refine ⟨h.ledgers.shift sends peerRecvs, { h.tracks with
    sr := fun s hs => ?_
    live := fun a ha => h.tracks.live a (by rwa [hflight a] at ha)
    sends := fun a ha => (hsends a ha).elim (h.tracks.sends a) id
    recvs := fun a v hav => h.tracks.recvs a v (hrecvs _ hav) }, h.messages⟩
  rw [hflight]
  exact h.tracks.sr s hs

theorem inFlight_replicate (w : PState) (k addr a : Nat) :
    w.inFlight (replicate k addr) a = w.inFlight [] a + if addr = a then k else 0 := by
  simp only [inFlight, count_replicate, beq_iff_eq, count_nil]
  omega

/-- **The loop over the peers.**  The super request stays, since `allreduce_scatter` itself counts as
    one operation. -/
theorem scatterSends_spec (env : PEnv) {addr : Nat} : ∀ (js : List Nat) {w : PState},
    NodeInv cfg (replicate (js.length + 1) addr) none w →
    (∃ sr ∈ w.hash, sr.addr = addr ∧ sr.scattered = true) →
    ∃ w', PState.scatterSends cfg env addr js w = some w' ∧ NodeInv cfg [addr] none w' := by
  intro js
  induction js with
  | nil =>
    intro w h _
    exact ⟨w, rfl, h⟩
  | cons j js ih =>
    rintro w h ⟨sr, hsr, rfl, hscattered⟩
    have hok := h.tracks.sr sr hsr
    have hresult := h.ledgers.useResult hsr (hok.gathered hscattered).2.2 hok.owner
    have hrun : PState.scatterSends cfg env sr.addr (j :: js) w =
        (sendVector cfg env sr.addr j w).bind fun w => PState.scatterSends cfg env sr.addr js w := by
      simp only [PState.scatterSends, h.ledgers.find hsr, hresult, bind_eq_bind, bind_some]
    rw [length_cons, replicate_succ] at h
    rw [hrun, sendVector]
    split
    · have hmore : 1 < sr.numOperations := by
        have hops := hok.ops
        have := inFlight_replicate w ((j :: js).length + 1) sr.addr sr.addr
        rw [if_pos rfl] at this
        have hlen : (j :: js).length = js.length + 1 := rfl
        omega
      obtain ⟨hone, hinv⟩ := h.completeOperation_more env hsr hmore
      rw [hone]
      exact ih hinv ⟨_, mem_put.mpr (.inl rfl), rfl, hscattered⟩
    · refine ih (h.shift (fun a => ?_) (fun a ha => ?_) fun p hp => hp) ⟨sr, hsr, rfl, hscattered⟩
      · simp only [inFlight, count_cons]
        omega
      · rcases mem_cons.mp ha with rfl | ha
        · exact .inr ⟨sr, hsr, rfl, hscattered⟩
        · exact .inl ha

theorem scatter_spec (env : PEnv) (sr : PSuper) (hfind : w.find sr.addr = some sr)
    (h : NodeInv cfg (replicate (cfg.numPeers + 1) sr.addr) none
      (w.put { sr with scattered := true })) :
    ∃ w', scatter cfg env sr.addr w = some w' ∧ NodeInv cfg [] none w' := by
  obtain ⟨w₁, hsends, hinv⟩ := scatterSends_spec env (range cfg.numPeers) (by rw [length_range]; exact h)
    ⟨{ sr with scattered := true }, mem_put.mpr (.inl rfl), rfl, rfl⟩
  obtain ⟨w₂, hlast, hinv'⟩ := completeOperation_spec env hinv
  refine ⟨w₂, ?_, hinv'⟩
  simp only [scatter, hfind, hsends, hlast, bind_eq_bind, bind_some]

/-! ## Super requests -/

variable {env : PEnv} {id : Nat}

theorem superRequestGet_spec (h : NodeInv cfg [] none w) (hinputs : 0 < cfg.inputs)
    (hget : GetOk cfg w env id) (hnew : (∀ s ∈ w.hash, s.id ≠ id) → id ∉ w.finished) :
    ∃ sr srs bufs hash, PState.superRequestGet cfg env id false w =
        some (sr, { w with srs := srs, bufs := bufs, hash := hash }) ∧
      NodeInv cfg [] none { w with srs := srs, bufs := bufs, hash := hash } ∧
      sr ∈ hash ∧ sr.id = id := by
  cases hlook : lookup PSuper.id id w.hash with
  | some sr =>
    obtain ⟨hsr, hid⟩ := mem_of_lookup hlook
    exact ⟨sr, w.srs, w.bufs, w.hash, by rw [PState.superRequestGet, hlook], h, hsr, hid⟩
  | none =>
    have hnone := lookup_eq_none.mp hlook
    obtain ⟨hsrsOk, hbufsOk⟩ := hget hnone
    obtain ⟨hl, ht, hm⟩ := h
    obtain ⟨a, srs, haloc, hsrsGood, hfresh, hsrsOut⟩ := hl.srsGood.aloc trivial hsrsOk
    have haddr : ∀ s ∈ w.hash, s.addr ≠ a := by
      intro s hs heq
      have := hl.srs a
      rw [hfresh, eq_comm, List.count_eq_zero] at this
      exact this (heq ▸ mem_map_of_mem hs)
    have hbuf : ∃ b bufs, alocRecvVectors cfg env w = some (b, bufs) ∧
        bufs.Good (1 < cfg.numPeers) ∧ (b = none → cfg.numPeers ≤ 1) ∧
        ∀ u, bufs.out u = w.bufs.out u + b.toList.count u := by
      unfold alocRecvVectors
      split
      · rename_i hle
        exact ⟨none, w.bufs, rfl, hl.bufsGood, fun _ => hle, fun u => rfl⟩
      · obtain ⟨b, bufs, hrun, hgood, -, hout⟩ :=
          hl.bufsGood.aloc (by omega) (hbufsOk (by omega))
        exact ⟨some b, bufs, by rw [hrun]; rfl, hgood, by simp, hout⟩
    obtain ⟨b, bufs, hbrun, hbufsGood, hbone, hbout⟩ := hbuf
    obtain ⟨hunseen, -⟩ := ht.unbegun id hnone
    obtain ⟨hseen, hgiven⟩ := hunseen (hnew hnone)
    have hflight : w.inFlight [] a = 0 := Nat.eq_zero_of_not_pos fun hpos => by
      obtain ⟨s, hs, heq⟩ := ht.live a hpos
      exact haddr s hs heq
    have hreplies : w.repliesOf a = 0 := Nat.eq_zero_of_not_pos fun hpos => by
      obtain ⟨r, hr, heq⟩ := countP_pos_iff.mp hpos
      obtain ⟨-, s, hs, hsuper⟩ := ht.replies r hr
      rw [hsuper] at heq
      exact haddr s hs (by simpa using heq)
    refine ⟨_, srs, bufs, _, by
      simp only [PState.superRequestGet, hlook, haloc, hbrun, bind_eq_bind, bind_some]
      rfl, ⟨?_, ?_, hm⟩, mem_cons_self .., rfl⟩
    · refine ⟨hl.vecsGood, hbufsGood, hl.reqsGood, hsrsGood, fun v => ?_, fun u => ?_, fun u => ?_,
        fun u => ?_⟩
      · have := hl.vecs v
        simp only [total, map_cons, sum_cons, PSuper.vectors, PSuper.ownResult, receivingVec] at this ⊢
        simpa using this
      · have := hl.bufs u
        have := hbout u
        simp only [total, map_cons, sum_cons] at *
        omega
      · have := hl.reqs u
        simp only [total, map_cons, sum_cons, requestsAt] at *
        simpa using this
      · have := hl.srs u
        have := hsrsOut u
        simp only [map_cons, count_cons, count_nil] at *
        omega
    · refine ⟨nodup_cons.mpr ⟨fun hmem => ?_, ht.ids⟩, fun s hs => ?_, fun u hu => ?_,
        fun u hu => ?_, fun u v huv => ?_, fun r hr => ?_, ht.receiving, fun i hi => ?_⟩
      · obtain ⟨s, hs, heq⟩ := mem_map.mp hmem
        exact hnone s hs heq
      · rcases mem_cons.mp hs with rfl | hs
        · show SrOk cfg (w.inFlight [] a) (w.seen id) (w.given id) (w.pending id) (w.repliesOf a) _ _
          rw [hflight, hseen, hgiven, hreplies]
          exact {
            ops := by simp only [Bool.false_eq_true, if_false]; omega
            vectors := fun _ => rfl
            first := fun _ _ => rfl
            drained := fun _ => rfl
            buffer := hbone
            attached := by simp
            counted := rfl
            owner := ⟨by simp, fun _ => rfl⟩
            gathering := fun _ => ⟨zero_add _, hinputs, ⟨fun _ => rfl, fun _ => rfl⟩⟩
            gathered := by simp
            replying := fun hpos => absurd hpos (lt_irrefl 0)
            client := fun _ => ⟨rfl, rfl⟩
            daemon := fun _ => ⟨by simp, by simp⟩
            settled := fun hzero => absurd hzero (succ_ne_zero _) }
        · exact ht.sr s hs
      · obtain ⟨s, hs, heq⟩ := ht.live u hu
        exact ⟨s, mem_cons_of_mem _ hs, heq⟩
      · obtain ⟨s, hs, heq⟩ := ht.sends u hu
        exact ⟨s, mem_cons_of_mem _ hs, heq⟩
      · obtain ⟨s, hs, heq⟩ := ht.recvs u v huv
        exact ⟨s, mem_cons_of_mem _ hs, heq⟩
      · obtain ⟨hvec, s, hs, heq⟩ := ht.replies r hr
        exact ⟨hvec, s, mem_cons_of_mem _ hs, heq⟩
      · exact ht.unbegun i fun s hs => hi s (mem_cons_of_mem _ hs)

/-! ## Messages of peers -/

theorem not_finished_of_unseen (h : NodeInv cfg [] none w) {j : Nat} (hj : j < cfg.numPeers)
    (hfresh : (id, j) ∉ w.peerSeen) (hnone : ∀ s ∈ w.hash, s.id ≠ id) : id ∉ w.finished := by
  intro hfin
  have hseen := ((h.tracks.unbegun id hnone).2 hfin).1
  have hlt : w.seen id < cfg.numPeers :=
    countP_lt_of_fresh h.messages.peers h.messages.peers_lt hj hfresh
  omega

theorem saveVector_spec (hl : Ledgers cfg w) (hsr : sr ∈ w.hash) {f s g p r : Nat} {b : Prop}
    (hok : SrOk cfg f s g p r b sr) (hops : 0 < sr.numOperations) (hlt : s < cfg.numPeers) (v : Nat) :
    ∃ peer slots, saveVector cfg sr v w =
        some { sr with peerResultVector := peer, recvSlots := slots } ∧
      (peer.toList ++ slots).Perm (v :: (sr.peerResultVector.toList ++ sr.recvSlots)) ∧
      peer ≠ none := by
  have hvectors := hok.vectors hops
  have hroom : sr.recvSlots.length < cfg.numPeers := by omega
  unfold saveVector
  rw [if_pos hroom]
  cases hp : sr.peerResultVector with
  | none =>
    refine ⟨some v, sr.recvSlots, rfl, ?_, nofun⟩
    rfl
  | some u =>
    rw [hp, toList_some, length_singleton] at hvectors
    cases hb : sr.recvVectors with
    | none =>
      have := hok.buffer hb
      omega
    | some buf =>
      refine ⟨some u, sr.recvSlots ++ [v], ?_, ?_, nofun⟩
      · simp only [Pool.use_of_pos (hl.buf_live hsr hb), bind_eq_bind, bind_some]
      · rw [← append_assoc]
        exact perm_append_singleton v _

/-- **A message of a peer arrives**: its vector is taken out and the receive is in hand. -/
theorem gatherStore_spec (h : NodeInv cfg [] none w) (hinputs : 0 < cfg.inputs) {j : Nat}
    (hj : j < cfg.numPeers) (hfresh : (id, j) ∉ w.peerSeen) (hvecs : AllocOk w.vecs env.vecs)
    (hget : GetOk cfg w env id) :
    ∃ addr v w', gatherStore cfg env id j w = some (addr, v, w') ∧ NodeInv cfg [] none w' ∧
      (addr, v) ∈ w'.peerRecvs := by
  obtain ⟨sr, srs, bufs, hash, hrun, hinv, hsr, rfl⟩ := superRequestGet_spec h hinputs hget
    (not_finished_of_unseen h hj hfresh)
  obtain ⟨hl, ht, hm⟩ := hinv
  have hok := ht.sr sr hsr
  have hlt : w.seen sr.id < cfg.numPeers := countP_lt_of_fresh hm.peers hm.peers_lt hj hfresh
  have hops : sr.numOperations = w.inFlight [] sr.addr + (cfg.numPeers - w.seen sr.id) + _ := hok.ops
  have hpos : 0 < sr.numOperations := by omega
  obtain ⟨v, vecs, haloc, hgood, -, hout⟩ := hl.vecsGood.aloc (by omega) hvecs
  obtain ⟨peer, slots, hsave, hperm, hne⟩ := saveVector_spec hl hsr hok hpos hlt v
  refine ⟨sr.addr, v, _, by
    simp only [gatherStore, hrun, haloc, hsave, bind_eq_bind, bind_some]
    rfl, ⟨?_, ?_, ?_⟩, mem_cons_self ..⟩
  · refine hl.update hsr { sr with peerResultVector := peer, recvSlots := slots } rfl rfl rfl rfl rfl
      hgood hl.reqsGood (fun u => ?_) fun a => rfl
    have hcount := hperm.count_eq u
    have := hout u
    rw [← singleton_append, count_append] at hcount
    simp only [PSuper.vectors, PSuper.ownResult, if_pos hpos, count_append] at *
    dsimp only [PState.put, receivingVec] at *
    omega
  · refine ht.update hl.addrs hsr { sr with peerResultVector := peer, recvSlots := slots } rfl rfl
      rfl rfl ⟨fun a ha => ?_, fun a _ => rfl, fun a _ hb => hb, fun i hi => ?_, fun i _ => rfl,
        fun i _ => rfl, fun a ha => ha, fun a u ha hav => ?_, fun q hq => hq⟩ ?_ (fun hsc => hsc)
      (fun u hu => ?_) fun q hq => .inl hq
    · simp only [inFlight, PState.put, countP_cons, Ne.symm ha, decide_false]
      rfl
    · simp only [seen, countP_cons, Ne.symm hi, decide_false]
      rfl
    · rcases mem_cons.mp hav with heq | hav
      · exact absurd (Prod.mk.inj heq).1 ha
      · exact hav
    · have hlen := hperm.length_eq
      have hvectors := hok.vectors hpos
      refine { hok with
        ops := ?_
        vectors := fun _ => ?_
        first := fun _ hno => absurd hno hne
        drained := fun hzero => absurd hzero (ne_of_gt hpos) }
      · simp only [inFlight, seen, PState.put, countP_cons, decide_true, if_true] at hops ⊢
        simp only [seen] at hlt
        omega
      · simp only [seen, countP_cons, decide_true, if_true, length_append, length_cons] at hlen hvectors ⊢
        omega
    · rcases mem_cons.mp hu with heq | hu
      · rw [(Prod.mk.inj heq).2]
        exact hperm.mem_iff.mpr (mem_cons_self ..)
      · exact hperm.mem_iff.mpr (mem_cons_of_mem _ (ht.recvs_of hl.addrs hsr hu))
  · refine ⟨nodup_cons.mpr ⟨hfresh, hm.peers⟩, fun p hp => ?_, hm.given, hm.given_lt⟩
    rcases mem_cons.mp hp with rfl | hp
    · exact hj
    · exact hm.peers_lt p hp

variable {v : Nat}

/-- **The data of a message of a peer has arrived.** -/
theorem gatherComplete_spec (h : NodeInv cfg [] none w) (env : PEnv) {addr : Nat}
    (hmem : (addr, v) ∈ w.peerRecvs) :
    ∃ w', gatherComplete cfg env addr v w = some w' ∧ NodeInv cfg [] none w' := by
  have ⟨hl, ht, hm⟩ := h
  obtain ⟨sr, hsr, rfl, hv⟩ := ht.recvs addr v hmem
  have hok := ht.sr sr hsr
  have hpos : 0 < sr.numOperations := by
    have hone : 0 < w.peerRecvs.countP fun p => p.1 = sr.addr :=
      countP_pos_iff.mpr ⟨_, hmem, by simp⟩
    have hops := hok.ops
    simp only [inFlight] at hops
    omega
  have hlive : ∀ u ∈ sr.peerResultVector.toList ++ sr.recvSlots, 0 < w.vecs.out u := by
    intro u hu
    refine hl.vec_live hsr ?_
    rw [PSuper.vectors, if_pos hpos]
    exact mem_append_right _ hu
  have hreduce : reduceLast cfg sr w = some () := by
    unfold reduceLast
    split
    · rename_i hlast
      cases hp : sr.peerResultVector with
      | none =>
        have hnil := hok.first hpos hp
        rw [hnil] at hlast
        exact absurd hlast.2 (lt_irrefl 0)
      | some u =>
        rw [hp] at hlive
        have hread := hl.useRecvVectors hsr (hok.slots_nil (hm.seen_le sr.id) hpos)
        simp only [reduceAll, hp, hread, bind_eq_bind, bind_some, Pool.use_of_pos (hlive u (by simp)),
          Pool.useAll_of_pos fun x hx => hlive x (mem_append_right _ hx)]
    · rfl
  have hrun : gatherComplete cfg env sr.addr v w =
      completeOperation cfg env sr.addr { w with peerRecvs := w.peerRecvs.erase (sr.addr, v) } := by
    simp only [gatherComplete, Pool.use_of_pos (hlive v hv), hl.find hsr, hreduce, bind_eq_bind, bind_some]
  rw [hrun]
  refine completeOperation_spec env (h.shift (fun a => ?_) (fun a ha => .inl ha)
    fun p hp => mem_of_mem_erase hp)
  have hcount := (perm_cons_erase hmem).countP_eq fun p => decide (p.1 = a)
  simp only [inFlight, count_cons, count_nil, beq_iff_eq]
  rw [hcount, countP_cons]
  simp only [decide_eq_true_eq]
  omega

/-! ## Requests of clients and of the user -/

theorem attachVector_spec (hl : Ledgers cfg w) (hsr : sr ∈ w.hash) (hv : 0 < w.receivingVec v)
    (howner : sr.resultVectorOwner = true ↔ sr.resultVector ≠ some .user)
    (hdaemon : sr.resultVector ≠ some .user) :
    ∃ u vecs, attachVector sr v w = some (.pooled u, vecs) ∧
      vecs.Good (0 < cfg.numClients + cfg.numPeers) ∧
      ∀ x, vecs.out x + [v].count x + sr.ownResult.count x = w.vecs.out x + [u].count x := by
  have hown := howner.mpr hdaemon
  unfold attachVector
  cases hres : sr.resultVector with
  | none =>
    refine ⟨v, w.vecs, rfl, hl.vecsGood, fun x => ?_⟩
    simp [PSuper.ownResult, hown, hres]
  | some ptr =>
    cases ptr with
    | user => exact absurd hres hdaemon
    | pooled u =>
      have huse := hl.useResult hsr (by rw [hres]; simp) howner
      obtain ⟨vecs, hrun, hgood, hout⟩ := hl.vecsGood.free (v := v) (by
        have := hl.vecs v
        omega)
      refine ⟨u, vecs, by simp only [huse, hrun, bind_eq_bind, bind_some], hgood, fun x => ?_⟩
      have := hout x
      simp only [PSuper.ownResult, hown, hres]
      omega

def PSuper.attach (sr : PSuper) (r : PRequest) (u : Nat) (scattered : Bool) : PSuper :=
  { sr with
    numRequests := sr.numRequests + 1
    requests := sr.requests ++ [PRequest.attached r sr.addr]
    resultVector := some (.pooled u)
    scattered := scattered }

variable {r : PRequest}

theorem receivingVec_erase (hr : r ∈ w.clientRecvs) (v x : Nat) (hv : r.vector = some v) :
    (w.clientRecvs.erase r).countP (fun q => q.vector = some x) + [v].count x = w.receivingVec x := by
  unfold receivingVec
  rw [(perm_cons_erase hr).countP_eq]
  simp [countP_cons, count_cons, hv]

theorem pending_erase (hr : r ∈ w.clientRecvs) (i : Nat) :
    (w.clientRecvs.erase r).countP (fun q => q.id = i) + (if r.id = i then 1 else 0) = w.pending i := by
  unfold pending
  rw [(perm_cons_erase hr).countP_eq]
  simp [countP_cons]

theorem NodeInv.attach (h : NodeInv cfg [] none w) (hsr : sr ∈ w.hash) (hr : r ∈ w.clientRecvs)
    (hid : sr.id = r.id) {u : Nat} (hv : r.vector = some v) {vecs : Pool}
    (hgood : vecs.Good (0 < cfg.numClients + cfg.numPeers))
    (hout : ∀ x, vecs.out x + [v].count x + sr.ownResult.count x = w.vecs.out x + [u].count x)
    (scattered : Bool) (hlast : scattered = true ↔ sr.numRequests + 1 = cfg.numClients) :
    NodeInv cfg (replicate (if scattered then cfg.numPeers + 1 else 0) sr.addr) none
      { w.put (sr.attach r u scattered) with
        vecs := vecs
        clientRecvs := w.clientRecvs.erase r } := by
  obtain ⟨hl, ht, hm⟩ := h
  have hok := ht.sr sr hsr
  obtain ⟨hrole, -⟩ := ht.receiving r hr
  have hinputs : cfg.inputs = cfg.numClients := by simp only [Config.inputs, hrole]
  have hpend := pending_erase hr sr.id
  rw [if_pos hid.symm] at hpend
  have hunscattered : sr.scattered = false := Bool.eq_false_iff.mpr fun hsc => by
    have := (hok.gathered hsc).2.1
    omega
  obtain ⟨hgiven, hlt, -⟩ := hok.gathering hunscattered
  have hops := hok.ops
  simp only [hunscattered, Bool.false_eq_true, if_false] at hops
  have hpos : 0 < sr.numOperations := by omega
  have hnoreply : w.repliesOf sr.addr = 0 := Nat.eq_zero_of_not_pos fun hpos' => by
    have := hok.replying hpos'
    omega
  have hcounted := hok.counted
  have hle : w.given sr.id ≤ cfg.inputs := countP_le hm.given hm.given_lt
  have hown : sr.resultVectorOwner = true := hok.owner.mpr (hok.daemon hrole).1
  refine ⟨?_, ?_, hm⟩
  · refine hl.update hsr (sr.attach r u scattered) rfl rfl rfl rfl rfl hgood hl.reqsGood
      (fun x => ?_) fun a => ?_
    · have := hout x
      have := receivingVec_erase hr v x hv
      have hresult : (sr.attach r u scattered).ownResult = [u] := by
        simp [PSuper.ownResult, PSuper.attach, hown]
      have hrest : (sr.attach r u scattered).vectors = [u] ++ (sr.peerResultVector.toList ++
          if 0 < sr.numOperations then sr.recvSlots else []) := by
        rw [PSuper.vectors, hresult]
        rfl
      rw [hrest]
      simp only [PSuper.vectors, count_append]
      show vecs.out x + w.receivingVec x + _ =
        w.vecs.out x + (w.clientRecvs.erase r).countP (fun q => q.vector = some x) + _
      omega
    · have := requestsAt_erase hr a
      have happ : requestsAt (sr.attach r u scattered).requests a =
          requestsAt sr.requests a + [r.addr].count a := by
        simp [requestsAt, PSuper.attach, PRequest.attached, countP_append, count_cons]
      rw [happ]
      dsimp only [PState.put]
      omega
  · refine ht.update hl.addrs hsr (sr.attach r u scattered) rfl rfl rfl rfl
      ⟨fun a ha => ?_, fun a _ => rfl, fun a _ hb => hb, fun i _ => rfl, fun i _ => rfl,
        fun i hi => ?_, fun a ha => ha, fun a x _ hav => hav,
        fun q hq => mem_of_mem_erase hq⟩ ?_
      (fun hsc => absurd (hunscattered.symm.trans hsc) (by decide))
      (fun x hx => ht.recvs_of hl.addrs hsr hx) fun q hq => .inl hq
    · rw [inFlight_replicate, if_neg (Ne.symm ha)]
      rfl
    · have := pending_erase hr i
      rw [if_neg (by rw [← hid]; exact Ne.symm hi)] at this
      exact this
    · rw [inFlight_replicate, if_pos rfl]
      have hlen : (sr.attach r u scattered).requests.length = sr.requests.length + 1 := by
        simp [PSuper.attach]
      refine {
        ops := ?_
        vectors := fun _ => hok.vectors hpos
        first := fun _ => hok.first hpos
        drained := fun hzero => absurd hzero (ne_of_gt hpos)
        buffer := hok.buffer
        attached := fun q hq => ?_
        counted := ?_
        owner := ⟨by simp [PSuper.attach], fun _ => hown⟩
        gathering := fun hno => ⟨?_, ?_, by simp [PSuper.attach], fun hnil => ?_⟩
        gathered := fun hsc => ⟨?_, ?_, by simp [PSuper.attach]⟩
        replying := fun hpos' => absurd hnoreply (ne_of_gt hpos')
        client := fun hc => absurd (hrole.symm.trans hc) (by decide)
        daemon := fun _ => ⟨by simp [PSuper.attach], fun _ => succ_pos _⟩
        settled := fun hzero => absurd hzero (ne_of_gt hpos) }
      · show sr.numOperations = w.inFlight [] sr.addr + (if scattered then cfg.numPeers + 1 else 0) +
          (cfg.numPeers - w.seen sr.id) + (if scattered then 0 else cfg.numPeers + 1)
        cases scattered with
        | true =>
          simp only [if_true]
          omega
        | false =>
          simp only [Bool.false_eq_true, if_false]
          omega
      · rcases mem_append.mp hq with hq | hq
        · exact hok.attached q hq
        · rw [mem_singleton.mp hq]
          exact ⟨rfl, rfl⟩
      · show sr.numRequests + 1 = (sr.attach r u scattered).requests.length + w.repliesOf sr.addr
        omega
      · show (sr.attach r u scattered).requests.length +
          (w.clientRecvs.erase r).countP (fun q => q.id = sr.id) = w.given sr.id
        omega
      · have hne : sr.numRequests + 1 ≠ cfg.numClients := fun heq => by
          rw [hlast.mpr heq] at hno
          cases hno
        omega
      · rw [hnil] at hlen
        cases hlen
      · have := hlast.mp hsc
        show w.given sr.id = cfg.inputs
        omega
      · have := hlast.mp hsc
        show (w.clientRecvs.erase r).countP (fun q => q.id = sr.id) = 0
        omega

/-- **The data of a client's message has arrived.** -/
theorem recvDataComplete_spec (h : NodeInv cfg [] none w) (hinputs : 0 < cfg.inputs)
    (hr : r ∈ w.clientRecvs) (hget : GetOk cfg w env r.id) :
    ∃ w', recvDataComplete cfg env r w = some w' ∧ NodeInv cfg [] none w' := by
  obtain ⟨hrole, hvec⟩ := h.tracks.receiving r hr
  obtain ⟨v, hv⟩ := ne_none_iff_exists'.mp hvec
  have hreceiving : 0 < w.receivingVec v := countP_pos_iff.mpr ⟨r, hr, by simp [hv]⟩
  have huse : w.vecs.use v = some () := Pool.use_of_pos (by
    have := h.ledgers.vecs v
    omega)
  have huseReq : w.reqs.use r.addr = some () := Pool.use_of_pos (by
    have := h.ledgers.reqs r.addr
    have := requestsAt_pos hr
    omega)
  obtain ⟨sr, srs, bufs, hash, hrun, hinv, hsr, hid⟩ := superRequestGet_spec h hinputs hget
    fun hnone hfin => by
      have hpending := ((h.tracks.unbegun r.id hnone).2 hfin).2.2
      have := pending_erase hr r.id
      rw [if_pos rfl] at this
      omega
  have hok := hinv.tracks.sr sr hsr
  obtain ⟨u, vecs, hattach, hgood, hout⟩ := attachVector_spec hinv.ledgers hsr hreceiving hok.owner
    (hok.daemon hrole).1
  have hafter := fun sc => hinv.attach hsr hr hid hv hgood hout sc
  -- the state after the request is attached, before it is known whether it was the last one
  have hstep : recvDataComplete cfg env r w =
      if sr.numRequests + 1 = cfg.numClients then scatter cfg env sr.addr
        { ({ w with srs := srs, bufs := bufs, hash := hash } : PState).put
            (sr.attach r u sr.scattered) with
          vecs := vecs
          clientRecvs := w.clientRecvs.erase r }
      else some { ({ w with srs := srs, bufs := bufs, hash := hash } : PState).put
            (sr.attach r u sr.scattered) with
          vecs := vecs
          clientRecvs := w.clientRecvs.erase r } := by
    simp only [recvDataComplete, hv, huse, huseReq, hrun, hattach, bind_eq_bind, bind_some]
    rfl
  have hunscattered : sr.scattered = false := Bool.eq_false_iff.mpr fun hsc => by
    have hpending : w.pending sr.id = 0 := (hok.gathered hsc).2.1
    have := pending_erase hr sr.id
    rw [if_pos hid.symm] at this
    omega
  rw [hstep]
  split
  · rename_i hlast
    have hfin := hafter true ⟨fun _ => hlast, fun _ => rfl⟩
    refine scatter_spec env (sr.attach r u sr.scattered) lookup_put ?_
    simp only [PState.put]
    rw [put_put]
    · exact hfin
    · rfl
  · rename_i hlast
    refine ⟨_, rfl, ?_⟩
    rw [hunscattered]
    exact hafter false ⟨by simp, fun heq => absurd heq hlast⟩

theorem submitStore_eq (env : PEnv) (id : Nat) : submitStore cfg env id w =
    (PState.superRequestGet cfg env id false w).map fun g =>
      (g.1.addr, { g.2.put (userVector g.1) with clientSeen := (id, 0) :: g.2.clientSeen }) := by
  unfold submitStore PState.superRequestGet
  cases hlook : lookup PSuper.id id w.hash with
  | some sr => rfl
  | none =>
    cases ha : w.srs.aloc env.srs with
    | none => rfl
    | some a =>
      cases hb : alocRecvVectors cfg env w with
      | none => simp only [bind_eq_bind, bind_some, bind_none, map_none]
      | some b =>
        simp only [bind_eq_bind, bind_some, map_some, userVector, PState.put,
          Lib.put, others, filter_cons, ne_eq, not_true_eq_false, decide_false,
          Bool.false_eq_true, if_false, if_true]
        rfl

/-- **The user of a client submits its vector.** -/
theorem submit_spec (h : NodeInv cfg [] none w) (hrole : cfg.role = .client)
    (hfresh : (id, 0) ∉ w.clientSeen) (hget : GetOk cfg w env id) :
    ∃ w', poolNodeStep cfg w (.submit id env) = some w' ∧ NodeInv cfg [] none w' := by
  have hinputs : cfg.inputs = 1 := by simp only [Config.inputs, hrole]
  have hgiven : w.given id = 0 := by
    have := countP_lt_of_fresh h.messages.given h.messages.given_lt (by rw [hinputs]; omega) hfresh
    simp only [PState.given]
    omega
  obtain ⟨sr, srs, bufs, hash, hrun, ⟨hl, ht, hm⟩, hsr, rfl⟩ := superRequestGet_spec h
    (by rw [hinputs]; omega) hget fun hnone hfin => by
      have := ((h.tracks.unbegun id hnone).2 hfin).2.1
      omega
  have hok := ht.sr sr hsr
  have hunscattered : sr.scattered = false := Bool.eq_false_iff.mpr fun hsc => by
    have : w.given sr.id = cfg.inputs := (hok.gathered hsc).1
    omega
  obtain ⟨hcount, -, hresult⟩ : _ + w.pending sr.id = w.given sr.id ∧ _ := hok.gathering hunscattered
  have hnil := (hok.client hrole).1
  have hnone := hresult.mpr hnil
  have huser : userVector sr = { sr with resultVector := some .user, resultVectorOwner := false } := by
    simp only [userVector, hnone]
  have hops : sr.numOperations = w.inFlight [] sr.addr + (cfg.numPeers - w.seen sr.id) + _ := hok.ops
  simp only [hunscattered, Bool.false_eq_true, if_false] at hops
  have hpos : 0 < sr.numOperations := by omega
  simp only [poolNodeStep, submitStore_eq, hrun, huser, map_some, bind_eq_bind, bind_some]
  refine scatter_spec env { sr with resultVector := some .user, resultVectorOwner := false } lookup_put ?_
  refine ⟨?_, ?_, ?_⟩
  · refine hl.update hsr
      { sr with resultVector := some .user, resultVectorOwner := false, scattered := true } rfl rfl
      (put_put rfl) rfl rfl hl.vecsGood hl.reqsGood (fun v => ?_) fun a => rfl
    have hown : sr.ownResult = [] := by simp [PSuper.ownResult, hnone]
    simp only [PSuper.vectors, hown]
    rfl
  · refine ht.update hl.addrs hsr
      { sr with resultVector := some .user, resultVectorOwner := false, scattered := true } rfl rfl
      (put_put rfl) rfl ⟨fun a ha => ?_, fun a _ => rfl, fun a _ hb => hb, fun i _ => rfl, fun i hi => ?_,
        fun i _ => rfl, fun a ha => ha, fun a x _ hav => hav, fun q hq => hq⟩ ?_ (fun _ => rfl)
      (fun x hx => ht.recvs_of hl.addrs hsr hx) fun q hq => .inl hq
    · rw [inFlight_replicate, if_neg (Ne.symm ha)]
      rfl
    · simp only [PState.given, PState.put, countP_cons, Ne.symm hi, decide_false]
      rfl
    · rw [inFlight_replicate, if_pos rfl]
      refine { hok with
        ops := ?_
        owner := ⟨by simp, fun hno => absurd rfl hno⟩
        gathering := by simp
        gathered := fun _ => ⟨?_, ?_, by simp⟩
        daemon := fun hd => absurd (hrole.symm.trans hd) (by decide)
        settled := fun hzero => absurd hzero (ne_of_gt hpos) }
      · show sr.numOperations = w.inFlight [] sr.addr + (cfg.numPeers + 1) +
          (cfg.numPeers - w.seen sr.id) + 0
        omega
      · show ((sr.id, 0) :: w.clientSeen).countP (fun p => p.1 = sr.id) = cfg.inputs
        rw [countP_cons_of_pos (by simp), hinputs]
        simp only [PState.given] at hgiven
        omega
      · show w.pending sr.id = 0
        omega
  · refine ⟨hm.peers, hm.peers_lt, nodup_cons.mpr ⟨hfresh, hm.given⟩, fun p hp => ?_⟩
    rcases mem_cons.mp hp with rfl | hp
    · show 0 < cfg.inputs
      omega
    · exact hm.given_lt p hp

theorem NodeInv.arrive (h : NodeInv cfg [] none w) (hrole : cfg.role = .daemon) {c : Nat}
    (hc : c < cfg.numClients) (hfresh : (id, c) ∉ w.clientSeen) {a : Nat} {reqs vecs : Pool}
    (hreqs : reqs.Good (cfg.role = .daemon))
    (hreqsOut : ∀ x, reqs.out x = w.reqs.out x + [a].count x)
    (hvecs : vecs.Good (0 < cfg.numClients + cfg.numPeers))
    (hvecsOut : ∀ x, vecs.out x = w.vecs.out x + [v].count x) :
    NodeInv cfg [] none { w with
      reqs := reqs
      vecs := vecs
      clientRecvs := ⟨a, id, some v, none⟩ :: w.clientRecvs
      clientSeen := (id, c) :: w.clientSeen } := by
  obtain ⟨hl, ht, hm⟩ := h
  have hinputs : cfg.inputs = cfg.numClients := by simp only [Config.inputs, hrole]
  have hlt : w.given id < cfg.inputs :=
    countP_lt_of_fresh hm.given hm.given_lt (by omega) hfresh
  have hpending : ∀ i, ((⟨a, id, some v, none⟩ : PRequest) :: w.clientRecvs).countP
      (fun q => q.id = i) = w.pending i + if id = i then 1 else 0 := fun i => by
    simp [countP_cons, pending]
  have hgiven : ∀ i, ((id, c) :: w.clientSeen).countP (fun p => p.1 = i) =
      w.given i + if id = i then 1 else 0 := fun i => by
    simp [countP_cons, PState.given]
  refine ⟨⟨hvecs, hl.bufsGood, hreqs, hl.srsGood, fun x => ?_, hl.bufs, fun x => ?_, hl.srs⟩,
    { ht with sr := fun s hs => ?_, receiving := fun r hr => ?_, unbegun := fun i hi => ?_ },
    hm.peers, hm.peers_lt, nodup_cons.mpr ⟨hfresh, hm.given⟩, fun p hp => ?_⟩
  · have := hl.vecs x
    have := hvecsOut x
    have hcount : ((⟨a, id, some v, none⟩ : PRequest) :: w.clientRecvs).countP
        (fun q => q.vector = some x) = w.receivingVec x + [v].count x := by
      simp [countP_cons, receivingVec, count_cons]
    simp only [receivingVec, total] at *
    omega
  · have := hl.reqs x
    have := hreqsOut x
    have hcount : requestsAt ((⟨a, id, some v, none⟩ : PRequest) :: w.clientRecvs) x =
        requestsAt w.clientRecvs x + [a].count x := by
      simp [requestsAt, countP_cons, count_cons]
    simp only [total] at *
    omega
  · have hok := ht.sr s hs
    have hp := hpending s.id
    have hg := hgiven s.id
    refine { hok with
      gathering := fun hno => ⟨?_, (hok.gathering hno).2⟩
      gathered := fun hsc => ?_ }
    · have := (hok.gathering hno).1
      simp only [pending, PState.given] at *
      omega
    · have hne : id ≠ s.id := fun heq => by
        have := (hok.gathered hsc).1
        rw [← heq] at this
        omega
      obtain ⟨hall, hnone, hresult⟩ := hok.gathered hsc
      rw [if_neg hne] at hp hg
      simp only [pending, PState.given] at *
      exact ⟨by omega, by omega, hresult⟩
  · rcases mem_cons.mp hr with rfl | hr
    · exact ⟨hrole, by simp⟩
    · exact ht.receiving r hr
  · have hp := hpending i
    have hg := hgiven i
    obtain ⟨hopen, hdone⟩ := ht.unbegun i hi
    refine ⟨fun hno => ?_, fun hfin => ?_⟩
    · obtain ⟨hseen, heq⟩ := hopen hno
      simp only [seen, pending, PState.given] at *
      exact ⟨hseen, by omega⟩
    · obtain ⟨hseen, hall, hnone⟩ := hdone hfin
      have hne : id ≠ i := fun heq => by
        rw [← heq] at hall
        omega
      rw [if_neg hne] at hp hg
      simp only [seen, pending, PState.given] at *
      exact ⟨hseen, by omega, by omega⟩
  · rcases mem_cons.mp hp with rfl | hp
    · show c < cfg.inputs
      omega
    · exact hm.given_lt p hp

/-! ## Runs -/

/-- **Every event that may happen succeeds.** -/
theorem poolNodeStep_spec (h : NodeInv cfg [] none w) (hinputs : 0 < cfg.inputs) {e : PEvent}
    (he : PEnabled cfg w e) : ∃ w', poolNodeStep cfg w e = some w' ∧ NodeInv cfg [] none w' := by
  cases e with
  | clientArrive id c atOnce env =>
    obtain ⟨hrole, hc, hfresh, hreqs, hvecs, hget⟩ := he
    obtain ⟨a, reqs, hrun, hgood, -, hout⟩ := h.ledgers.reqsGood.aloc hrole hreqs
    obtain ⟨v, vecs, hrun', hgood', -, hout'⟩ := h.ledgers.vecsGood.aloc (by omega) hvecs
    have harrive := h.arrive hrole hc hfresh hgood hout hgood' hout'
    simp only [poolNodeStep, hrun, hrun', bind_eq_bind, bind_some]
    split
    · rename_i honce
      exact recvDataComplete_spec harrive hinputs (mem_cons_self ..) (hget honce)
    · exact ⟨_, rfl, harrive⟩
  | clientData r env => exact recvDataComplete_spec h hinputs he.1 he.2
  | peerArrive id j atOnce env =>
    obtain ⟨hj, hfresh, hvecs, hget⟩ := he
    obtain ⟨addr, v, w₁, hrun, hinv, hmem⟩ := gatherStore_spec h hinputs hj hfresh hvecs hget
    simp only [poolNodeStep, hrun, bind_eq_bind, bind_some]
    split
    · exact gatherComplete_spec hinv env hmem
    · exact ⟨_, rfl, hinv⟩
  | peerData addr v env => exact gatherComplete_spec h env he
  | sent addr env =>
    refine completeOperation_spec env (h.shift (fun a => ?_)
      (fun a ha => .inl (mem_of_mem_erase ha)) fun p hp => hp)
    have hcount := (perm_cons_erase he).count_eq a
    simp only [inFlight, hcount, count_cons, count_nil]
    omega
  | replySent r =>
    obtain ⟨w', hrun, hinv, -⟩ := daemonCompleteClientOperation_spec h he
    exact ⟨w', hrun, hinv⟩
  | submit id env => exact submit_spec h he.1 he.2.1 he.2.2

structure SizesOk (cfg : Config) (batchSize : Nat) : Prop where
  batch : 1 ≤ batchSize
  srs : 2 * batchSize < 2 ^ 64
  vecs : 2 * (cfg.numClients + cfg.numPeers) * batchSize < 2 ^ 64
  reqs : 2 * batchSize * cfg.numClients < 2 ^ 64

def MallocOk (answers : Nat → Option Nat) : Prop :=
  Fresh [] answers ∧ ∀ i v, answers i = some v → Placed v

theorem createIf_good {inUse : Prop} {cond : Bool} {n : Nat} {answers : Nat → Option Nat} {p : Pool}
    (hcond : cond = true ↔ inUse) (hpos : inUse → 1 ≤ n) (hans : MallocOk answers)
    (hrun : Pool.createIf cond n answers = some p) : p.Good inUse ∧ ∀ v, p.out v = 0 := by
  unfold Pool.createIf at hrun
  split at hrun
  · exact Pool.create_good hpos hans.1 hans.2 hrun
  · rename_i hno
    cases hrun
    exact ⟨⟨rfl, fun huse => absurd (hcond.mpr huse) hno, fun _ => rfl, fun v hv => (nomatch hv)⟩,
      fun v => rfl⟩

theorem initMempools_inv {batchSize : Nat} (hinputs : 0 < cfg.inputs) (hsizes : SizesOk cfg batchSize)
    (henv : MallocOk env.vecs ∧ MallocOk env.bufs ∧ MallocOk env.reqs ∧ MallocOk env.srs)
    (hinit : initMempools cfg batchSize env = some w) : NodeInv cfg [] none w := by
  obtain ⟨hv, hb, hr, hs⟩ := henv
  simp only [initMempools, bind_eq_bind, bind_eq_some_iff] at hinit
  obtain ⟨srs, hsrs, vecs, hvecs, bufs, hbufs, reqs, hreqs, hw⟩ := hinit
  cases hw
  have hbatch := hsizes.batch
  rw [mod_eq_of_lt hsizes.srs] at hsrs hbufs
  rw [mod_eq_of_lt hsizes.vecs] at hvecs
  rw [mod_eq_of_lt hsizes.reqs] at hreqs
  obtain ⟨hsGood, hsOut⟩ : srs.Good True ∧ ∀ v, srs.out v = 0 :=
    Pool.create_good (fun _ => by omega) hs.1 hs.2 hsrs
  obtain ⟨hvGood, hvOut⟩ : vecs.Good (0 < cfg.numClients + cfg.numPeers) ∧ ∀ v, vecs.out v = 0 :=
    Pool.create_good (fun hpos => mul_pos (mul_pos two_pos hpos) hbatch) hv.1 hv.2 hvecs
  obtain ⟨hbGood, hbOut⟩ : bufs.Good (1 < cfg.numPeers) ∧ ∀ v, bufs.out v = 0 :=
    createIf_good (by simp) (fun _ => by omega) hb hbufs
  obtain ⟨hrGood, hrOut⟩ : reqs.Good (cfg.role = .daemon) ∧ ∀ v, reqs.out v = 0 :=
    createIf_good (by simp) (fun hrole => by
      simp only [Config.inputs, hrole] at hinputs
      exact mul_pos (mul_pos two_pos hbatch) hinputs) hr hreqs
  refine ⟨⟨hvGood, hbGood, hrGood, hsGood, hvOut, hbOut, hrOut, hsOut⟩, ?_,
    ⟨nodup_nil, fun p hp => (nomatch hp), nodup_nil, fun p hp => (nomatch hp)⟩⟩
  exact ⟨nodup_nil, fun s hs => (nomatch hs), fun a ha => absurd ha (lt_irrefl 0),
    fun a ha => (nomatch ha), fun a v ha => (nomatch ha), fun r hr => (nomatch hr),
    fun r hr => (nomatch hr), fun i _ => ⟨fun _ => ⟨rfl, rfl⟩, fun hfin => (nomatch hfin)⟩⟩

structure InHandLive (w : PState) : Prop where
  clientRecvs : ∀ r ∈ w.clientRecvs, 0 < w.reqs.out r.addr ∧ ∃ v, r.vector = some v ∧ 0 < w.vecs.out v
  peerRecvs : ∀ p ∈ w.peerRecvs, 0 < w.srs.out p.1 ∧ 0 < w.vecs.out p.2
  sends : ∀ a ∈ w.sends, 0 < w.srs.out a ∧
    ∃ s ∈ w.hash, s.addr = a ∧ s.resultVector ≠ none ∧ useResult s w = some ()
  replies : ∀ r ∈ w.replies, 0 < w.reqs.out r.addr ∧
    ∃ s ∈ w.hash, r.superRequest = some s.addr ∧ 0 < w.srs.out s.addr ∧ useResult s w = some ()

/-- Nothing is in hand, and all messages for the operations of the hash have come. -/
structure Completed (cfg : Config) (w : PState) : Prop where
  clientRecvs : w.clientRecvs = []
  peerRecvs : w.peerRecvs = []
  sends : w.sends = []
  replies : w.replies = []
  peers : ∀ s ∈ w.hash, ∀ j < cfg.numPeers, (s.id, j) ∈ w.peerSeen
  inputs : ∀ s ∈ w.hash, ∀ c < cfg.inputs, (s.id, c) ∈ w.clientSeen

def HeadsZero (w : PState) : Prop :=
  w.vecs.mp.head = 0 ∧ w.bufs.mp.head = 0 ∧ w.reqs.mp.head = 0 ∧ w.srs.mp.head = 0

theorem Ledgers.sr_live (h : Ledgers cfg w) (hsr : sr ∈ w.hash) : 0 < w.srs.out sr.addr := by
  rw [h.srs]
  exact count_pos_iff.mpr (mem_map_of_mem hsr)

theorem NodeInv.inHandLive (h : NodeInv cfg [] none w) : InHandLive w := by
  obtain ⟨hl, ht, -⟩ := h
  refine ⟨fun r hr => ⟨?_, ?_⟩, fun p hp => ?_, fun a ha => ?_, fun r hr => ⟨hl.reply_live hr, ?_⟩⟩
  · have := hl.reqs r.addr
    have := requestsAt_pos hr
    omega
  · obtain ⟨v, hv⟩ := ne_none_iff_exists'.mp (ht.receiving r hr).2
    have hpos : 0 < w.receivingVec v := countP_pos_iff.mpr ⟨r, hr, by simp [hv]⟩
    have := hl.vecs v
    exact ⟨v, hv, by omega⟩
  · obtain ⟨s, hs, haddr, hv⟩ := ht.recvs p.1 p.2 hp
    have hpos : 0 < s.numOperations := by
      have hone : 0 < w.peerRecvs.countP fun q => q.1 = s.addr :=
        countP_pos_iff.mpr ⟨p, hp, by simp [haddr]⟩
      have hops := (ht.sr s hs).ops
      simp only [inFlight] at hops
      omega
    rw [← haddr]
    refine ⟨hl.sr_live hs, hl.vec_live hs ?_⟩
    rw [PSuper.vectors, if_pos hpos]
    exact mem_append_right _ hv
  · obtain ⟨s, hs, rfl, hsc⟩ := ht.sends a ha
    have hok := ht.sr s hs
    have hresult := (hok.gathered hsc).2.2
    exact ⟨hl.sr_live hs, s, hs, rfl, hresult, hl.useResult hs hresult hok.owner⟩
  · obtain ⟨-, s, hs, hsuper⟩ := ht.replies r hr
    have hok := ht.sr s hs
    have hone : 0 < w.repliesOf s.addr := countP_pos_iff.mpr ⟨r, hr, by simp [hsuper]⟩
    have hresult := (hok.gathered (hok.scattered_of_ops (by have := hok.replying hone; omega))).2.2
    exact ⟨s, hs, hsuper, hl.sr_live hs, hl.useResult hs hresult hok.owner⟩

theorem NodeInv.headsZero (h : NodeInv cfg [] none w) (hhash : w.hash = [])
    (hrecvs : w.clientRecvs = []) : HeadsZero w := by
  obtain ⟨hl, ht, -⟩ := h
  have htotal : ∀ f : PSuper → Nat, w.total f = 0 := fun f => by
    simp [total, hhash]
  have hreplies : w.replies = [] := by
    refine eq_nil_iff_forall_not_mem.mpr fun r hr => ?_
    obtain ⟨-, s, hs, -⟩ := ht.replies r hr
    rw [hhash] at hs
    cases hs
  refine ⟨hl.vecsGood.head_eq_zero fun v => ?_, hl.bufsGood.head_eq_zero fun b => ?_,
    hl.reqsGood.head_eq_zero fun a => ?_, hl.srsGood.head_eq_zero fun a => ?_⟩
  · rw [hl.vecs, htotal, receivingVec, hrecvs]
    rfl
  · rw [hl.bufs, htotal]
  · rw [hl.reqs, htotal, hrecvs, hreplies]
    rfl
  · rw [hl.srs, hhash]
    rfl

theorem NodeInv.hash_empty (h : NodeInv cfg [] none w) (hdone : Completed cfg w) : w.hash = [] := by
  obtain ⟨hl, ht, hm⟩ := h
  refine eq_nil_iff_forall_not_mem.mpr fun s hs => ?_
  have hok := ht.sr s hs
  have hflight : w.inFlight [] s.addr = 0 := by
    simp [inFlight, hdone.sends, hdone.peerRecvs]
  have hpending : w.pending s.id = 0 := by simp [pending, hdone.clientRecvs]
  have hreplies : w.repliesOf s.addr = 0 := by simp [repliesOf, hdone.replies]
  have hseen : cfg.numPeers ≤ w.seen s.id := le_countP_of_all (hdone.peers s hs)
  have hgiven : cfg.inputs ≤ w.given s.id := le_countP_of_all (hdone.inputs s hs)
  have hops := hok.ops
  cases hsc : s.scattered with
  | false =>
    have := hok.gathering hsc
    omega
  | true =>
    rw [hsc, if_pos rfl] at hops
    rcases hok.settled (by omega) with hbusy | ⟨hrole, hnil⟩
    · cases hbusy
    · have := (hok.daemon hrole).2 hsc
      have hcounted := hok.counted
      rw [hnil, length_nil] at hcounted
      omega

/-- **Every pooled element is returned exactly once**, no released one is used, and every pool is full
    again when all messages have come. -/
theorem pooled_elements_returned {batchSize : Nat} {env : PEnv} {w₀ : PState}
    (hinputs : 0 < cfg.inputs) (hsizes : SizesOk cfg batchSize)
    (henv : MallocOk env.vecs ∧ MallocOk env.bufs ∧ MallocOk env.reqs ∧ MallocOk env.srs)
    (hinit : initMempools cfg batchSize env = some w₀)
    (h : Reach (poolNodeStep cfg) (PEnabled cfg) w₀ w) :
    (∀ e, PEnabled cfg w e → ∃ w', poolNodeStep cfg w e = some w') ∧ InHandLive w ∧
      (w.hash = [] → w.clientRecvs = [] → HeadsZero w) ∧
      (Completed cfg w → w.hash = [] ∧ HeadsZero w) := by
  have hinv : NodeInv cfg [] none w := by
    refine h.invariant (initMempools_inv hinputs hsizes henv hinit) fun s e s' hs he hstep => ?_
    obtain ⟨s'', hstep', hs''⟩ := poolNodeStep_spec hs hinputs he
    rw [hstep] at hstep'
    cases hstep'
    exact hs''
  refine ⟨fun e he => ?_, hinv.inHandLive, hinv.headsZero, fun hdone => ?_⟩
  · obtain ⟨w', hstep, -⟩ := poolNodeStep_spec hinv hinputs he
    exact ⟨w', hstep⟩
  · have hempty := hinv.hash_empty hdone
    exact ⟨hempty, hinv.headsZero hempty hdone.clientRecvs⟩

/-! ## A run -/

def pairConfig : Config := ⟨.daemon, .sum, 1, 1⟩

def blocks (base n i : Nat) : Option Nat := if i < n then some (16 * (base + i)) else none

theorem blocks_ok (base n : Nat) (hbase : 0 < base) (hlast : base + n ≤ 2 ^ 60) :
    MallocOk (blocks base n) := by
  refine ⟨⟨fun i v _ hmem => (nomatch hmem), fun i j v hi hj => ?_⟩, fun i v hi => ?_⟩
  · unfold blocks at hi hj
    split at hi
    · split at hj
      · cases hi
        have := some.inj hj
        omega
      · cases hj
    · cases hi
  · unfold blocks at hi
    split at hi
    · cases hi
      unfold Placed
      omega
    · cases hi

def pairEnv : PEnv :=
  ⟨blocks 100 4, blocks 200 2, blocks 300 2, blocks 400 2, fun _ => false, fun _ => true⟩

def quietEnv : PEnv :=
  ⟨fun _ => none, fun _ => none, fun _ => none, fun _ => none, fun _ => false, fun _ => true⟩

theorem AllocOk.quiet {p : Pool} (h : p.mp.head ≠ p.mp.size) : AllocOk p fun _ => none :=
  ⟨⟨fun _ _ hno => (nomatch hno), fun _ _ _ hno => (nomatch hno)⟩, fun _ _ hno => (nomatch hno),
    fun hfull => absurd hfull h⟩

/-- The vector of the peer comes before that of the client, whose arrival scatters it; the send is the
    last operation, and with it the reply. -/
theorem pooled_elements_returned_pair : ∃ w₀ w, initMempools pairConfig 1 pairEnv = some w₀ ∧
    Reach (poolNodeStep pairConfig) (PEnabled pairConfig) w₀ w ∧ w.finished = [7] ∧
      w.vecs.ledger.ever.length = 4 ∧ HeadsZero w := by
  have hsizes : SizesOk pairConfig 1 := ⟨by decide, by decide, by decide, by decide⟩
  have henv : MallocOk pairEnv.vecs ∧ MallocOk pairEnv.bufs ∧ MallocOk pairEnv.reqs ∧
      MallocOk pairEnv.srs :=
    ⟨blocks_ok 100 4 (by decide) (by decide), blocks_ok 200 2 (by decide) (by decide),
      blocks_ok 300 2 (by decide) (by decide), blocks_ok 400 2 (by decide) (by decide)⟩
  have hget : ∀ (w : PState) (id : Nat), w.srs.mp.head ≠ w.srs.mp.size →
      GetOk pairConfig w quietEnv id := fun w id hsrs _ =>
    ⟨AllocOk.quiet hsrs, fun hno => absurd hno (by decide)⟩
  have h₁ : Reach (poolNodeStep pairConfig) (PEnabled pairConfig)
      ((initMempools pairConfig 1 pairEnv).get rfl) _ :=
    .tail (e := PEvent.peerArrive 7 0 false quietEnv) .init
      ⟨by decide, by decide, AllocOk.quiet (by decide), hget _ _ (by decide)⟩ rfl
  have h₂ := h₁.tail (e := PEvent.clientArrive 7 0 true quietEnv) ⟨rfl, by decide, by decide,
    AllocOk.quiet (by decide), AllocOk.quiet (by decide), fun _ => hget _ _ (by decide)⟩ rfl
  have h₃ := h₂.tail (e := PEvent.peerData 6400 1600 quietEnv) (mem_singleton.mpr rfl) rfl
  have h₄ := h₃.tail (e := PEvent.sent 6400 quietEnv) (mem_singleton.mpr rfl) rfl
  exact ⟨_, _, rfl, h₄, rfl, rfl, (pooled_elements_returned (by decide) hsizes henv rfl h₄).2.2.1 rfl rfl⟩

end Doca.AllReduce
