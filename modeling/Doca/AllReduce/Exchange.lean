import Doca.AllReduce.System

/-!
# All-reduce: the exchange between peers

What one node knows while it exchanges vectors with its peers, independent of its role.

`Open.complete` says what `allreduceCompleteOperation` does in an `Open` state: count down, or, when
it is the last operation, hand a super request whose result vector holds the total to
`finishOperation`.  `Open.gather`, `Open.receive`, `Open.sent` and `Open.scatter` say how each
callback gets there.

`Recvs.prompt` is the one fact that the callbacks do not guarantee by themselves: when the last
descriptor arrives, the receives before it are complete.  It is an assumption of `Open.gather`.
-/

namespace Doca.AllReduce

open Doca.Lib Function List

variable {N w : Nat} {S : Setup N w} {i j : Fin N}

/-! ## Receives -/

def SuperRequest.slots (sr : SuperRequest w) : List (Buf w) :=
  sr.peerResultVector.toList ++ sr.recvVectors

def Slot.index : Slot → Nat
  | peerResult => 0
  | recv m => m + 1

/-- The receives of node `i`: `arr` are the peers whose descriptor has arrived, in order. -/
structure Recvs (S : Setup N w) (i : Fin N) (arr : List (Fin N)) (slots : List (Buf w))
    (recvs : Fin N → RecvState Slot) : Prop where
  self : recvs i = .idle
  nodup : arr.Nodup
  mem : ∀ j, j ∈ arr ↔ recvs j ≠ .idle
  length : slots.length = arr.length
  slot : ∀ j sl, recvs j = .receiving sl → arr[sl.index]? = some j
  raw : (∃ j, j ≠ i ∧ recvs j ≠ .received) → ∀ (m : Nat) j b, arr[m]? = some j → slots[m]? = some b →
    recvs j = .received → AgreeOn S.length b (S.contribution j)
  gathered : (∀ j, j ≠ i → recvs j = .received) → ∀ p, slots.head? = some p →
    AgreeOn S.length p (reduction S.operation (Finset.univ.erase i) S.contribution)
  prompt : (∀ j, j ≠ i → recvs j ≠ .idle) → ∃ j, ∀ l, l ≠ i → l ≠ j → recvs l = .received

namespace Recvs

variable {arr : List (Fin N)} {slots : List (Buf w)} {recvs : Fin N → RecvState Slot}

theorem init (S : Setup N w) (i : Fin N) : Recvs S i [] [] (fun _ => .idle) where
  self := rfl
  nodup := nodup_nil
  mem := by simp
  length := rfl
  slot := by intro j sl h; cases h
  raw := by intro _ m j b h; simp at h
  gathered := by intro _ p h; simp at h
  prompt := by
    intro h
    refine ⟨i, fun l hl _ => absurd rfl (h l hl)⟩

theorem card_erase (i : Fin N) : (Finset.univ.erase i).card = N - 1 := by
  rw [Finset.card_erase_of_mem (Finset.mem_univ i), Finset.card_univ, Fintype.card_fin]

variable (h : Recvs S i arr slots recvs)

include h

theorem toFinset_subset : arr.toFinset ⊆ Finset.univ.erase i := by
  intro l hl
  rw [mem_toFinset, h.mem] at hl
  refine Finset.mem_erase.2 ⟨?_, Finset.mem_univ l⟩
  rintro rfl
  exact hl h.self

theorem length_eq_card : arr.length = arr.toFinset.card :=
  (toFinset_card_of_nodup h.nodup).symm

theorem length_eq_iff : arr.length = N - 1 ↔ ∀ j, j ≠ i → recvs j ≠ .idle := by
  rw [h.length_eq_card, ← card_erase i]
  constructor
  · intro hc j hj
    have heq := Finset.eq_of_subset_of_card_le h.toFinset_subset hc.ge
    rw [← h.mem, ← mem_toFinset, heq]
    exact Finset.mem_erase.2 ⟨hj, Finset.mem_univ j⟩
  · intro hall
    refine le_antisymm (Finset.card_le_card h.toFinset_subset) (Finset.card_le_card ?_)
    intro l hl
    rw [mem_toFinset, h.mem]
    exact hall l (Finset.ne_of_mem_erase hl)

theorem length_lt (hj : j ≠ i) (hidle : recvs j = .idle) : arr.length + 1 ≤ N - 1 := by
  have hsub : insert j arr.toFinset ⊆ Finset.univ.erase i := by
    refine Finset.insert_subset (Finset.mem_erase.2 ⟨hj, Finset.mem_univ j⟩) h.toFinset_subset
  have hnot : j ∉ arr.toFinset := by
    rw [mem_toFinset, h.mem]; exact fun hne => hne hidle
  have hcard := Finset.card_le_card hsub
  rwa [Finset.card_insert_of_notMem hnot, ← h.length_eq_card, card_erase] at hcard

theorem arrive (hj : j ≠ i) (hidle : recvs j = .idle) (hprompt : (∀ l, l ≠ i → l ≠ j → recvs l ≠ .idle) →
      ∀ l, l ≠ i → l ≠ j → recvs l = .received)
    {sl : Slot} (hsl : sl.index = arr.length) (vector : Buf w) :
    Recvs S i (arr ++ [j]) (slots ++ [vector]) (update recvs j (.receiving sl)) := by
  have hjarr : j ∉ arr := by rw [h.mem]; exact fun hne => hne hidle
  refine ⟨?_, ?_, ?_, ?_, ?_, ?_, ?_, ?_⟩
  · rw [update_of_ne hj.symm]; exact h.self
  · exact List.Nodup.append h.nodup (nodup_singleton j) (by simpa using hjarr)
  · intro l
    by_cases hl : l = j
    · subst hl; simp
    · simp [hl, h.mem]
  · simp [h.length]
  · intro l sl' hl
    by_cases hlj : l = j
    · subst hlj
      rw [update_self] at hl
      cases hl
      simp [hsl]
    · rw [update_of_ne hlj] at hl
      have hs := h.slot l sl' hl
      have hlt := (List.getElem?_eq_some_iff.1 hs).1
      rwa [getElem?_append_left hlt]
  · intro _ m l b hm hb hl
    have hlj : l ≠ j := by
      rintro rfl
      rw [update_self] at hl
      cases hl
    rw [update_of_ne hlj] at hl
    have hlt : m < arr.length := by
      by_contra hge
      rw [getElem?_append_right (by omega)] at hm
      have := mem_of_getElem? hm
      simp only [mem_singleton] at this
      exact hlj this
    rw [getElem?_append_left hlt] at hm
    rw [getElem?_append_left (by rw [h.length]; exact hlt)] at hb
    exact h.raw ⟨j, hj, by rw [hidle]; nofun⟩ m l b hm hb hl
  · intro hall
    have := hall j hj
    rw [update_self] at this
    cases this
  · intro hall
    refine ⟨j, fun l hl hlj => ?_⟩
    rw [update_of_ne hlj]
    refine hprompt (fun l' hl' hlj' => ?_) l hl hlj
    have := hall l' hl'
    rwa [update_of_ne hlj'] at this

section Receive

variable {sl : Slot} {b : Buf w}

theorem slot_received (l : Fin N) (sl' : Slot)
    (hl : update recvs j .received l = .receiving sl') : arr[sl'.index]? = some l := by
  rw [update_apply] at hl
  split at hl
  · cases hl
  · exact h.slot l sl' hl

variable (hr : recvs j = .receiving sl)

include hr

theorem ne_self_of_receiving : j ≠ i := by
  rintro rfl
  rw [h.self] at hr
  cases hr

theorem index_lt : sl.index < slots.length := by
  rw [h.length]
  exact (List.getElem?_eq_some_iff.1 (h.slot j sl hr)).1

theorem deliver (hb : AgreeOn S.length b (S.contribution j)) (m : Nat) (l : Fin N) (c : Buf w)
    (hm : arr[m]? = some l) (hc : (slots.set sl.index b)[m]? = some c)
    (hl : update recvs j .received l = .received) :
    AgreeOn S.length c (S.contribution l) := by
  have hs := h.slot j sl hr
  have hlt := h.index_lt hr
  by_cases hms : m = sl.index
  · subst hms
    rw [hs, Option.some.injEq] at hm
    rw [getElem?_set_self hlt, Option.some.injEq] at hc
    rw [← hm, ← hc]
    exact hb
  · have hlj : l ≠ j := by
      rintro rfl
      exact hms ((List.getElem?_inj (List.getElem?_eq_some_iff.1 hm).1 h.nodup).1 (hm.trans hs.symm))
    rw [getElem?_set_ne (Ne.symm hms)] at hc
    rw [update_of_ne hlj] at hl
    exact h.raw ⟨j, h.ne_self_of_receiving hr, by rw [hr]; nofun⟩ m l c hm hc hl

theorem mem_received (l : Fin N) : l ∈ arr ↔ update recvs j .received l ≠ .idle := by
  by_cases hl : l = j
  · subst hl; simp [h.mem, hr]
  · rw [update_of_ne hl, h.mem]

theorem prompt_received (hall : ∀ l, l ≠ i → update recvs j .received l ≠ .idle) :
    ∀ l, l ≠ i → update recvs j .received l = .received := by
  have hne := h.ne_self_of_receiving hr
  obtain ⟨j₀, hj₀⟩ := h.prompt fun l hl => (h.mem l).1 ((h.mem_received hr l).2 (hall l hl))
  -- the receive that may be incomplete is the one that completes now
  have hj : j₀ = j := by
    by_contra hne'
    have := hj₀ j hne (Ne.symm hne')
    rw [hr] at this
    cases this
  intro l hl
  by_cases hlj : l = j
  · subst hlj; exact update_self ..
  · rw [update_of_ne hlj]
    exact hj₀ l hl (hj ▸ hlj)

theorem receive_some (hb : AgreeOn S.length b (S.contribution j))
    (hnot : ¬ ∀ l, l ≠ i → update recvs j .received l ≠ .idle) :
    Recvs S i arr (slots.set sl.index b) (update recvs j .received) where
  self := by
    rw [update_of_ne (h.ne_self_of_receiving hr).symm]; exact h.self
  nodup := h.nodup
  mem := h.mem_received hr
  length := by rw [length_set, h.length]
  slot := h.slot_received
  raw := fun _ => h.deliver hr hb
  gathered := fun hall => absurd (fun l hl => by rw [hall l hl]; nofun) hnot
  prompt := fun hall => absurd hall hnot

theorem receive_all (hall : ∀ l, l ≠ i → update recvs j .received l = .received)
    {slots' : List (Buf w)} (hlen : slots'.length = arr.length)
    (hg : ∀ p, slots'.head? = some p →
      AgreeOn S.length p (reduction S.operation (Finset.univ.erase i) S.contribution)) :
    Recvs S i arr slots' (update recvs j .received) where
  self := by
    rw [update_of_ne (h.ne_self_of_receiving hr).symm]; exact h.self
  nodup := h.nodup
  mem := h.mem_received hr
  length := hlen
  slot := h.slot_received
  raw := fun ⟨l, hl, hne⟩ => absurd (hall l hl) hne
  gathered := fun _ => hg
  prompt := fun _ => ⟨i, fun l hl _ => hall l hl⟩

/-- Once all receives are complete, folding the later buffers into the first one gives the
    reduction of the peers' contributions. -/
theorem fold_slots (hb : AgreeOn S.length b (S.contribution j))
    (hall : ∀ l, l ≠ i → update recvs j .received l = .received)
    {p : Buf w} {rest : List (Buf w)} (hs : slots.set sl.index b = p :: rest) :
    AgreeOn S.length (fun k => rest.foldl (fun acc vec => S.operation.apply acc (vec k)) (p k))
      (reduction S.operation (Finset.univ.erase i) S.contribution) := by
  intro k hk
  have hlen : (slots.set sl.index b).length = arr.length := by rw [length_set, h.length]
  have hset : arr.toFinset = Finset.univ.erase i := by
    refine Finset.Subset.antisymm h.toFinset_subset fun l hl => ?_
    rw [mem_toFinset, h.mem_received hr, hall l (Finset.ne_of_mem_erase hl)]
    nofun
  have hmap : (slots.set sl.index b).map (fun vec => vec k) = arr.map (fun l => S.contribution l k) := by
    refine ext_getElem (by simp [h.length]) fun m h₁ h₂ => ?_
    simp only [length_map] at h₁ h₂
    simp only [getElem_map]
    refine h.deliver hr hb m arr[m] _ (getElem?_eq_getElem h₂) (getElem?_eq_getElem h₁) ?_ k hk
    refine hall _ (Finset.ne_of_mem_erase (s := Finset.univ) ?_)
    rw [← hset, mem_toFinset]
    exact getElem_mem h₂
  obtain ⟨j₀, arr', rfl⟩ : ∃ j₀ arr', arr = j₀ :: arr' := by
    cases arr with
    | nil => rw [hs] at hlen; cases hlen
    | cons j₀ arr' => exact ⟨j₀, arr', rfl⟩
  rw [hs, map_cons, map_cons, cons.injEq] at hmap
  obtain ⟨hp, hrest⟩ := hmap
  obtain ⟨hj₀, hnd⟩ := nodup_cons.1 h.nodup
  have hfold : rest.foldl (fun acc vec => S.operation.apply acc (vec k)) (p k) =
      arr'.foldl (fun acc l => S.operation.apply acc (S.contribution l k)) (p k) := by
    calc rest.foldl (fun acc vec => S.operation.apply acc (vec k)) (p k)
        = (rest.map (fun vec => vec k)).foldl S.operation.apply (p k) := by rw [foldl_map]
      _ = arr'.foldl (fun acc l => S.operation.apply acc (S.contribution l k)) (p k) := by
          rw [hrest, foldl_map]
  show rest.foldl _ _ = _
  rw [hfold, hp, foldl_eq_fold (e := S.operation.unit) (fun l => S.contribution l k) hnd,
    reduction, ← hset, toFinset_cons, Finset.fold_insert (by simpa using hj₀)]

end Receive

end Recvs

/-! ## Sends -/

structure Sends (S : Setup N w) (i : Fin N) (todo : List (Fin N)) (scattered : Bool)
    (sends : Fin N → SendState w) : Prop where
  self : sends i = .idle
  posted : ∀ j, j ≠ i → ((sends j).posted = true ↔ scattered = true ∧ j ∉ todo)
  snapshot : ∀ j data c, sends j = .eager data c → AgreeOn S.length data (S.contribution i)

@[simp] theorem SendMode.completed_post (mode : SendMode) (b : Buf w) :
    (mode.post b).completed = decide (mode = .immediate) := by
  cases mode <;> rfl

@[simp] theorem SendMode.posted_post (mode : SendMode) (b : Buf w) : (mode.post b).posted = true := by
  cases mode <;> rfl

theorem SendMode.post_eager {mode : SendMode} {b data : Buf w} {c : Bool}
    (h : mode.post b = .eager data c) : data = b := by
  cases mode <;> cases h <;> rfl

namespace SendState

variable {x : SendState w}

theorem posted_of_mayComplete {fetched : Bool} (h : x.mayComplete fetched = true) : x.posted = true := by
  cases x with
  | idle => cases h
  | eager data c => rfl
  | rndv c => rfl

theorem not_completed_of_mayComplete {fetched : Bool} (h : x.mayComplete fetched = true) :
    x.completed = false := by
  cases x with
  | idle => cases h
  | eager data c => simpa [mayComplete, completed] using h
  | rndv c =>
    simp only [mayComplete, Bool.and_eq_true, Bool.not_eq_true'] at h
    exact h.1

theorem completed_complete (h : x.posted = true) : x.complete.completed = true := by
  cases x <;> first | rfl | cases h

@[simp] theorem posted_complete : x.complete.posted = x.posted := by
  cases x <;> rfl

theorem complete_eager {data : Buf w} {c : Bool} (h : x.complete = .eager data c) :
    ∃ c', x = .eager data c' := by
  cases x with
  | idle => cases h
  | eager data' c' => cases h; exact ⟨c', rfl⟩
  | rndv c' => cases h

theorem posted_of_completed (h : x.completed = true) : x.posted = true := by
  cases x <;> first | rfl | cases h

end SendState

namespace Sends

variable {todo : List (Fin N)} {scattered : Bool} {sends : Fin N → SendState w}

theorem init (S : Setup N w) (i : Fin N) : Sends S i [] false (fun _ => .idle) where
  self := rfl
  posted := by intro j _; simp [SendState.posted]
  snapshot := by intro j data c h; cases h

theorem start (h : Sends S i [] false sends) : Sends S i (peers i) true sends where
  self := h.self
  posted := by
    intro j hj
    have hm : j ∈ peers i := by simp [peers, hj]
    have hno : ¬ (sends j).posted = true := fun hp => by simpa using (h.posted j hj).1 hp
    simp [hm, hno]
  snapshot := h.snapshot

theorem post (h : Sends S i (j :: todo) true sends) (hj : j ≠ i) (hnd : j ∉ todo) {b : Buf w}
    (hb : AgreeOn S.length b (S.contribution i)) (mode : SendMode) :
    Sends S i todo true (update sends j (mode.post b)) where
  self := by rw [update_of_ne hj.symm]; exact h.self
  posted := by
    intro l hl
    by_cases hlj : l = j
    · subst hlj; simp [hnd]
    · rw [update_of_ne hlj, h.posted l hl]
      simp [hlj]
  snapshot := by
    intro l data c hl
    rw [update_apply] at hl
    split at hl
    · rw [SendMode.post_eager hl]
      exact hb
    · exact h.snapshot l data c hl

theorem complete (h : Sends S i todo scattered sends) (hj : j ≠ i) :
    Sends S i todo scattered (update sends j (sends j).complete) where
  self := by rw [update_of_ne hj.symm]; exact h.self
  posted := by
    intro l hl
    by_cases hlj : l = j
    · subst hlj; simp [h.posted l hl]
    · rw [update_of_ne hlj, h.posted l hl]
  snapshot := by
    intro l data c hl
    rw [update_apply] at hl
    split at hl
    · obtain ⟨c', hc'⟩ := SendState.complete_eager hl
      exact h.snapshot j data c' hc'
    · exact h.snapshot l data c hl

end Sends

/-! ## Open operations -/

/-- Node `i` has a super request and is not through with its peers.  `pending` completions are
    about to be counted. -/
structure Open (S : Setup N w) (i : Fin N) (pending : Nat) (todo arr : List (Fin N))
    (sr : SuperRequest w) (nd : Node (Fin N) w) : Prop where
  entry : nd.entry = some sr
  size : sr.resultVectorSize = S.length
  ops : sr.numAllreduceOperations + count Finset.univ RecvState.isReceived nd.recvs +
    count Finset.univ SendState.completed nd.sends + nd.scattered.toNat = 2 * (N - 1) + 1 + pending
  live : 0 < sr.numAllreduceOperations
  peer : sr.peerResultVector = none → sr.recvVectors = []
  vector : nd.scattered = true → ∃ b, sr.resultVector = some b ∧ AgreeOn S.length b (S.contribution i)
  sends : Sends S i todo nd.scattered nd.sends
  recvs : Recvs S i arr sr.slots nd.recvs

structure Untouched (nd : Node (Fin N) w) : Prop where
  entry : nd.entry = none
  scattered : nd.scattered = false
  sends : nd.sends = fun _ => .idle
  recvs : nd.recvs = fun _ => .idle

structure Exchanged (S : Setup N w) (i : Fin N) (nd : Node (Fin N) w) : Prop where
  scattered : nd.scattered = true
  sends : Sends S i [] true nd.sends
  completed : ∀ j, j ≠ i → (nd.sends j).completed = true
  self : nd.recvs i = .idle
  received : ∀ j, j ≠ i → nd.recvs j = .received

structure LocalView (w : Nat) where
  scattered : Bool
  resultVector : Option (Buf w)
  allreduceRequestsList : List Nat
  numAllreduceRequests : Nat
  result : Option (Buf w)
  clientRecvs : Nat → RecvState Unit
  replies : Nat → SendState w
  replyPosts : Nat → Nat
  replyRecvs : Nat → List (Buf w)
  removals : Nat

def view (sr : SuperRequest w) (nd : Node (Fin N) w) : LocalView w where
  scattered := nd.scattered
  resultVector := sr.resultVector
  allreduceRequestsList := sr.allreduceRequestsList
  numAllreduceRequests := sr.numAllreduceRequests
  result := nd.result
  clientRecvs := nd.clientRecvs
  replies := nd.replies
  replyPosts := nd.replyPosts
  replyRecvs := nd.replyRecvs
  removals := nd.removals

theorem isReceived_iff {σ : Type} {r : RecvState σ} : r.isReceived = true ↔ r = .received := by
  cases r <;> simp [RecvState.isReceived]

namespace Open

variable {pending : Nat} {todo arr : List (Fin N)} {sr : SuperRequest w} {nd : Node (Fin N) w}

theorem received_le (h : Open S i pending todo arr sr nd) :
    count Finset.univ RecvState.isReceived nd.recvs ≤ N - 1 := by
  have := count_le (p := RecvState.isReceived) (f := nd.recvs) (i := i) (by rw [h.recvs.self]; rfl)
  rwa [Fintype.card_fin] at this

theorem completed_le (h : Open S i pending todo arr sr nd) :
    count Finset.univ SendState.completed nd.sends ≤ N - 1 := by
  have := count_le (p := SendState.completed) (f := nd.sends) (i := i) (by rw [h.sends.self]; rfl)
  rwa [Fintype.card_fin] at this

theorem tick (h : Open S i (pending + 1) todo arr sr nd) (hops : 2 ≤ sr.numAllreduceOperations)
    (cfg : Config) (replyMode : Nat → SendMode) :
    ∃ sr', allreduceCompleteOperation cfg replyMode nd = some { nd with entry := some sr' } ∧
      Open S i pending todo arr sr' { nd with entry := some sr' } ∧
      view sr' { nd with entry := some sr' } = view sr nd := by
  obtain ⟨n, hn⟩ := Nat.exists_eq_add_of_le' hops
  refine ⟨{ sr with numAllreduceOperations := n + 1 }, ?_, ?_, rfl⟩
  · simp only [allreduceCompleteOperation, h.entry, hn]
    rw [if_pos (Nat.succ_pos n)]
  · have hops' := h.ops
    exact ⟨rfl, h.size, by simp only; omega, Nat.succ_pos n, h.peer, h.vector, h.sends, h.recvs⟩

theorem exchanged (h : Open S i 1 [] arr sr nd) (hops : sr.numAllreduceOperations = 1) :
    Exchanged S i nd := by
  have hr := h.received_le
  have hs := h.completed_le
  have hsum := h.ops
  have hb : nd.scattered.toNat ≤ 1 := Bool.toNat_le _
  have hscat : nd.scattered = true := by
    rw [← Bool.toNat_eq_one]; omega
  refine ⟨hscat, hscat ▸ h.sends, ?_, h.recvs.self, ?_⟩
  · refine (count_eq_iff (by rw [h.sends.self]; rfl)).1 ?_
    rw [Fintype.card_fin]; omega
  · intro j hj
    refine isReceived_iff.1 ((count_eq_iff (f := nd.recvs) (i := i) (by rw [h.recvs.self]; rfl)).1 ?_ j hj)
    rw [Fintype.card_fin]; omega

theorem total_eq (S : Setup N w) (i : Fin N) (k : Nat) : S.operation.apply (S.contribution i k)
      (reduction S.operation (Finset.univ.erase i) S.contribution k) = S.total k :=
  fold_erase (fun j => S.contribution j k) (Finset.mem_univ i)

theorem total_of_no_peers (hno : ∀ j : Fin N, j = i) (k : Nat) : S.contribution i k = S.total k := by
  have hempty : Finset.univ.erase i = ∅ := by
    refine Finset.eq_empty_of_forall_notMem fun j hj => Finset.ne_of_mem_erase hj (hno j)
  rw [← total_eq S i k, hempty]
  exact (Std.LawfulRightIdentity.right_id _).symm

/-- **The last completion.**  The super request handed to `finishOperation` holds the total. -/
theorem last (h : Open S i 1 [] arr sr nd) (hops : sr.numAllreduceOperations = 1)
    (replyMode : Nat → SendMode) :
    ∃ sr' b, allreduceCompleteOperation (S.config i) replyMode nd =
        finishOperation (S.config i) replyMode sr' nd ∧
      view sr' nd = { view sr nd with resultVector := some b } ∧
      sr'.numAllreduceOperations = 0 ∧ AgreeOn S.length b S.total := by
  have hex := h.exchanged hops
  obtain ⟨b, hb, hbc⟩ := h.vector hex.scattered
  cases hp : sr.peerResultVector with
  | none =>
    refine ⟨{ sr with numAllreduceOperations := 0 }, b, ?_, ?_, rfl, ?_⟩
    · simp [allreduceCompleteOperation, h.entry, hops, hp]
    · rw [← hb]; rfl
    · -- no vector was received, so there is no peer
      have hslots : sr.slots = [] := by simp [SuperRequest.slots, hp, h.peer hp]
      have harr : arr = [] := length_eq_zero_iff.1 (by rw [← h.recvs.length, hslots]; rfl)
      have hno : ∀ j, j = i := by
        intro j
        by_contra hj
        have hm := (h.recvs.mem j).2 (by rw [hex.received j hj]; nofun)
        rw [harr] at hm
        cases hm
      exact hbc.trans fun k _ => total_of_no_peers hno k
  | some p =>
    obtain ⟨b', hred, hb'⟩ := @allreduceReduce_result w (S.config i)
      { sr with numAllreduceOperations := 0 } b hb p
    refine ⟨{ sr with
      numAllreduceOperations := 0
      resultVector := some b'
      peerResultVector := none }, b', ?_, rfl, rfl, ?_⟩
    · simp only [hp] at hred
      simp only [allreduceCompleteOperation, h.entry, hops, lt_irrefl, if_false, hp, hred,
        Option.bind_some]
    · have hpg := h.recvs.gathered hex.received p (by simp [SuperRequest.slots, hp])
      intro k hk
      have hk' : b' k = S.operation.apply (b k) (p k) := hb' k (by rw [h.size]; exact hk)
      rw [hk', hbc k hk, hpg k hk, total_eq]

theorem complete (h : Open S i 1 [] arr sr nd) (replyMode : Nat → SendMode) :
    (∃ sr', allreduceCompleteOperation (S.config i) replyMode nd =
        some { nd with entry := some sr' } ∧
      Open S i 0 [] arr sr' { nd with entry := some sr' } ∧
      view sr' { nd with entry := some sr' } = view sr nd) ∨
    (Exchanged S i nd ∧ ∃ sr' b, allreduceCompleteOperation (S.config i) replyMode nd =
        finishOperation (S.config i) replyMode sr' nd ∧
      view sr' nd = { view sr nd with resultVector := some b } ∧
      sr'.numAllreduceOperations = 0 ∧ AgreeOn S.length b S.total) := by
  have hr := h.received_le
  have hs := h.completed_le
  have hb : nd.scattered.toNat ≤ 1 := Bool.toNat_le _
  have hops := h.ops
  by_cases hone : sr.numAllreduceOperations = 1
  · exact Or.inr ⟨h.exchanged hone, h.last hone replyMode⟩
  · exact Or.inl (h.tick (by omega) _ replyMode)

theorem allocate (h : Untouched nd) (resultVector : Option (Buf w)) :
    Open S i 0 [] [] (superRequestAllocate (S.config i) S.length resultVector)
      { nd with entry := some (superRequestAllocate (S.config i) S.length resultVector) } where
  entry := rfl
  size := rfl
  ops := by
    have hr : count Finset.univ RecvState.isReceived nd.recvs = 0 :=
      count_eq_zero fun j _ => by rw [h.recvs]; rfl
    have hs : count Finset.univ SendState.completed nd.sends = 0 :=
      count_eq_zero fun j _ => by rw [h.sends]; rfl
    simp [hr, hs, h.scattered, superRequestAllocate, Setup.config]
  live := Nat.succ_pos _
  peer := fun _ => rfl
  vector := fun hs => by rw [h.scattered] at hs; cases hs
  sends := by
    show Sends S i [] nd.scattered nd.sends
    rw [h.scattered, h.sends]
    exact Sends.init S i
  recvs := by
    show Recvs S i [] [] nd.recvs
    rw [h.recvs]
    exact Recvs.init S i

theorem gather (h : Open S i 0 [] arr sr nd) (hj : j ≠ i) (hidle : nd.recvs j = .idle)
    (hprompt : (∀ l, l ≠ i → l ≠ j → nd.recvs l ≠ .idle) →
      ∀ l, l ≠ i → l ≠ j → nd.recvs l = .received) (vector : Buf w) :
    ∃ sr' sl, allreduceGather (S.config i) S.length vector j nd =
        some { nd with entry := some sr', recvs := update nd.recvs j (.receiving sl) } ∧
      Open S i 0 [] (arr ++ [j]) sr'
        { nd with entry := some sr', recvs := update nd.recvs j (.receiving sl) } ∧
      view sr' { nd with
        entry := some sr'
        recvs := update nd.recvs j (.receiving sl) } = view sr nd := by
  have hroom := h.recvs.length_lt hj hidle
  have hlen := h.recvs.length
  have hcount : ∀ sl, count Finset.univ RecvState.isReceived
      (update nd.recvs j (.receiving sl)) = count Finset.univ RecvState.isReceived nd.recvs :=
    fun sl => count_update_same (by rw [hidle]; rfl)
  have hget : superRequestGet (S.config i) nd.entry S.length none = sr := by rw [h.entry]; rfl
  cases hp : sr.peerResultVector with
  | none =>
    have hslots : sr.slots = [] := by simp [SuperRequest.slots, hp, h.peer hp]
    rw [hslots] at hlen
    refine ⟨{ sr with peerResultVector := some vector }, .peerResult, ?_, ?_, rfl⟩
    · have hlt : sr.recvVectorIter < (S.config i).numPeers := by
        rw [SuperRequest.recvVectorIter, h.peer hp]
        exact Nat.lt_of_lt_of_le (Nat.succ_pos _) hroom
      simp only [allreduceGather, hget, if_pos hlt, hp]
    · refine ⟨rfl, h.size, ?_, h.live, by simp, h.vector, h.sends, ?_⟩
      · simp only [hcount]; exact h.ops
      · have hsl' : SuperRequest.slots { sr with peerResultVector := some vector } =
            sr.slots ++ [vector] := by simp [SuperRequest.slots, hp, h.peer hp]
        rw [hsl']
        exact h.recvs.arrive hj hidle hprompt (show Slot.index .peerResult = _ from hlen) vector
  | some p =>
    have hiter : sr.recvVectorIter + 1 = arr.length := by
      rw [← hlen]; simp [SuperRequest.slots, hp, SuperRequest.recvVectorIter]
    refine ⟨{ sr with recvVectors := sr.recvVectors ++ [vector] }, .recv sr.recvVectorIter, ?_, ?_, rfl⟩
    · have hlt : sr.recvVectorIter < (S.config i).numPeers := by
        show _ < N - 1
        omega
      have hmany : ¬ (S.config i).numPeers ≤ 1 := by
        show ¬ N - 1 ≤ 1
        omega
      simp only [allreduceGather, hget, if_pos hlt, hp, if_neg hmany]
    · refine ⟨rfl, h.size, ?_, h.live, ?_, h.vector, h.sends, ?_⟩
      · simp only [hcount]; exact h.ops
      · intro hnone
        rw [hp] at hnone
        cases hnone
      · have hsl' : SuperRequest.slots { sr with recvVectors := sr.recvVectors ++ [vector] } =
            sr.slots ++ [vector] := by simp [SuperRequest.slots]
        rw [hsl']
        exact h.recvs.arrive hj hidle hprompt (show Slot.index (.recv _) = _ from hiter) vector

theorem sent (h : Open S i 0 [] arr sr nd) (hj : j ≠ i) (hp : (nd.sends j).posted = true)
    (hc : (nd.sends j).completed = false) :
    Open S i 1 [] arr sr
      { nd with sends := update nd.sends j (nd.sends j).complete } where
  entry := h.entry
  size := h.size
  ops := by
    have hcount : count Finset.univ SendState.completed (update nd.sends j (nd.sends j).complete) =
        count Finset.univ SendState.completed nd.sends + 1 :=
      count_update_succ (Finset.mem_univ j) hc (SendState.completed_complete hp)
    have hops := h.ops
    simp only [hcount]
    omega
  live := h.live
  peer := h.peer
  vector := h.vector
  sends := h.sends.complete hj
  recvs := h.recvs

theorem write (h : Open S i pending todo arr sr nd) {sl : Slot} (hlt : sl.index < sr.slots.length)
    (data : Buf w) :
    ∃ b peer recv, sr.write S.length data sl =
        some { sr with peerResultVector := some peer, recvVectors := recv } ∧
      peer :: recv = sr.slots.set sl.index b ∧ AgreeOn S.length b data := by
  cases hp : sr.peerResultVector with
  | none =>
    rw [SuperRequest.slots, hp, h.peer hp] at hlt
    cases hlt
  | some p =>
    have hslots : sr.slots = p :: sr.recvVectors := by simp [SuperRequest.slots, hp]
    cases sl with
    | peerResult =>
      refine ⟨copyFirst S.length data p, copyFirst S.length data p, sr.recvVectors, ?_, ?_,
        copyFirst_agree _ _ _⟩
      · simp [SuperRequest.write, hp]
      · rw [hslots]; rfl
    | recv m =>
      have hm : m < sr.recvVectors.length := by
        rw [hslots] at hlt
        exact Nat.lt_of_succ_lt_succ hlt
      refine ⟨copyFirst S.length data sr.recvVectors[m], p,
        sr.recvVectors.set m (copyFirst S.length data sr.recvVectors[m]), ?_, ?_,
        copyFirst_agree _ _ _⟩
      · simp only [SuperRequest.write, getElem?_eq_getElem hm, ← hp]
      · rw [hslots]; rfl

/-- **The data of peer `j` is there.**  Either another descriptor or other data is still to come,
    or this is the last receive and the received vectors are reduced. -/
theorem receive (h : Open S i 0 [] arr sr nd) {sl : Slot} (hr : nd.recvs j = .receiving sl)
    {data : Buf w} (hd : AgreeOn S.length data (S.contribution j)) (replyMode : Nat → SendMode) :
    ∃ sr', receiveData (S.config i) replyMode S.length data j nd =
        allreduceCompleteOperation (S.config i) replyMode
          { nd with entry := some sr', recvs := update nd.recvs j .received } ∧
      Open S i 1 [] arr sr'
        { nd with entry := some sr', recvs := update nd.recvs j .received } ∧
      view sr' { nd with
        entry := some sr'
        recvs := update nd.recvs j .received } = view sr nd := by
  obtain ⟨b, peer, recv, hw, hslots, hbd⟩ := h.write (h.recvs.index_lt hr) data
  have hb : AgreeOn S.length b (S.contribution j) := hbd.trans hd
  have hlen : recv.length + 1 = arr.length := by
    have := congrArg length hslots
    rwa [length_cons, length_set, h.recvs.length] at this
  have hops := h.ops
  have hcount : count Finset.univ RecvState.isReceived (update nd.recvs j .received) =
      count Finset.univ RecvState.isReceived nd.recvs + 1 :=
    count_update_succ (Finset.mem_univ j) (by rw [hr]; rfl) rfl
  have hiff : recv.length + 1 = N - 1 ↔ ∀ l, l ≠ i → update nd.recvs j .received l ≠ .idle := by
    rw [hlen, h.recvs.length_eq_iff]
    exact forall₂_congr fun l _ => by rw [← h.recvs.mem, h.recvs.mem_received hr]
  have hdata : receiveData (S.config i) replyMode S.length data j nd =
      allreduceGatherComplete (S.config i) replyMode { nd with
          entry := some { sr with peerResultVector := some peer, recvVectors := recv }
          recvs := update nd.recvs j .received } := by
    simp only [receiveData, hr, h.entry, hw, Option.bind_some]
  rw [hdata]
  by_cases hred : recv.length + 1 = N - 1 ∧ 0 < recv.length
  · -- the last receive, with at least two peers: the vectors are reduced into the first one
    have hall := h.recvs.prompt_received hr (hiff.1 hred.1)
    obtain ⟨p', hp', hfold⟩ := @allreduceReduceAll_peers w (S.config i)
      { sr with peerResultVector := some peer, recvVectors := recv } peer rfl
    refine ⟨{ sr with peerResultVector := some p', recvVectors := recv }, ?_, ?_, rfl⟩
    · simp only [allreduceGatherComplete]
      refine (if_pos hred).trans ?_
      rw [hp', Option.bind_some]
    · refine ⟨rfl, h.size, by dsimp only; omega, h.live, nofun, h.vector, h.sends, ?_⟩
      refine h.recvs.receive_all hr hall (by rw [← hlen]; rfl) fun q hq => ?_
      obtain rfl : p' = q := by simpa [SuperRequest.slots] using hq
      have hagree : AgreeOn S.length p' _ := fun k hk => hfold k (by rw [h.size]; exact hk)
      exact hagree.trans (h.recvs.fold_slots hr hb hall hslots.symm)
  · refine ⟨{ sr with peerResultVector := some peer, recvVectors := recv }, ?_, ?_, rfl⟩
    · simp only [allreduceGatherComplete]
      exact if_neg hred
    · refine ⟨rfl, h.size, by dsimp only; omega, h.live, nofun, h.vector, h.sends, ?_⟩
      show Recvs S i arr (peer :: recv) _
      by_cases hlast : recv.length + 1 = N - 1
      · -- the last receive with a single peer: its vector is the reduction
        have hall := h.recvs.prompt_received hr (hiff.1 hlast)
        have hnil : recv = [] := length_eq_zero_iff.1 (by omega)
        subst hnil
        refine h.recvs.receive_all hr hall (by rw [← hlen]; rfl) fun q hq => ?_
        obtain rfl : peer = q := by simpa using hq
        exact h.recvs.fold_slots hr hb hall hslots.symm
      · rw [hslots]
        exact h.recvs.receive_some hr hb (fun hall => hlast (hiff.2 hall))

/-! ### Scatter -/

theorem scatterSends (peerMode : Fin N → SendMode) (replyMode : Nat → SendMode) :
    ∀ {todo : List (Fin N)} {sr : SuperRequest w} {nd : Node (Fin N) w},
      Open S i 1 todo arr sr nd → nd.scattered = true → todo.Nodup → i ∉ todo →
      (∀ l, nd.sends l ≠ .rndv true) →
      ∃ sr' nd', AllReduce.scatterSends (S.config i) peerMode replyMode todo nd = some nd' ∧
        Open S i 1 [] arr sr' nd' ∧ view sr' nd' = view sr nd ∧ nd'.recvs = nd.recvs ∧
        ∀ l, nd'.sends l ≠ .rndv true
  | [], sr, nd, h, _, _, _, hf => ⟨sr, nd, rfl, h, rfl, rfl, hf⟩
  | j :: rest, sr, nd, h, hs, hnd, hi, hf => by
    obtain ⟨hjrest, hnd'⟩ := nodup_cons.1 hnd
    obtain ⟨hji, hirest⟩ := not_or.1 (mt mem_cons.2 hi)
    obtain ⟨b, hb, hbc⟩ := h.vector hs
    have hidle : (nd.sends j).completed = false := by
      by_contra hc
      have hp := SendState.posted_of_completed (Bool.not_eq_false _ ▸ hc)
      exact ((h.sends.posted j (Ne.symm hji)).1 hp).2 mem_cons_self
    have hsends : Sends S i rest nd.scattered (update nd.sends j ((peerMode j).post b)) := by
      have := h.sends
      rw [hs] at this ⊢
      exact this.post (Ne.symm hji) hjrest hbc (peerMode j)
    have hf' : ∀ l, update nd.sends j ((peerMode j).post b) l ≠ .rndv true := by
      intro l
      by_cases hl : l = j
      · subst hl; rw [update_self]; cases peerMode l <;> nofun
      · rw [update_of_ne hl]; exact hf l
    have hopen : ∀ {k}, count Finset.univ SendState.completed
        (update nd.sends j ((peerMode j).post b)) + 1 =
          count Finset.univ SendState.completed nd.sends + k →
        Open S i k rest arr sr { nd with sends := update nd.sends j ((peerMode j).post b) } := by
      intro k hcount
      have hops := h.ops
      exact ⟨h.entry, h.size, by dsimp only; omega, h.live, h.peer, h.vector, hsends, h.recvs⟩
    by_cases himm : peerMode j = .immediate
    · -- the send completes at once: two completions are now to be counted, one of them here
      have hopen := hopen (k := 2) (congrArg (· + 1)
        (count_update_succ (Finset.mem_univ j) hidle (by simp [himm])))
      have hr := hopen.received_le
      have hc := hopen.completed_le
      have hops' := hopen.ops
      have hone : nd.scattered.toNat ≤ 1 := Bool.toNat_le _
      obtain ⟨sr₁, hstep, hopen₁, hview₁⟩ :=
        hopen.tick (by simp only at hops' hr hc; omega) (S.config i) replyMode
      obtain ⟨sr', nd', hrest, hopen', hview', hkeep⟩ :=
        scatterSends peerMode replyMode hopen₁ hs hnd' hirest hf'
      refine ⟨sr', nd', ?_, hopen', hview'.trans hview₁, hkeep⟩
      rw [scatterSends_cons h.entry hb, if_pos himm, hstep, Option.bind_some]
      exact hrest
    · have hopen := hopen (congrArg (· + 1) (count_update_same (by simp [himm, hidle])))
      obtain ⟨sr', nd', hrest, hopen', hview', hkeep⟩ :=
        scatterSends peerMode replyMode hopen hs hnd' hirest hf'
      refine ⟨sr', nd', ?_, hopen', hview', hkeep⟩
      rw [scatterSends_cons h.entry hb, if_neg himm]
      exact hrest

theorem scatter (h : Open S i 0 [] arr sr nd) (hs : nd.scattered = false) {b : Buf w}
    (hb : sr.resultVector = some b) (hbc : AgreeOn S.length b (S.contribution i))
    (peerMode : Fin N → SendMode) (replyMode : Nat → SendMode) :
    ∃ sr' nd', allreduceScatter (S.config i) peerMode replyMode (peers i) nd =
        allreduceCompleteOperation (S.config i) replyMode nd' ∧
      Open S i 1 [] arr sr' nd' ∧ view sr' nd' = { view sr nd with scattered := true } ∧
      nd'.recvs = nd.recvs ∧ ∀ l, nd'.sends l ≠ .rndv true := by
  have hf : ∀ l, nd.sends l ≠ .rndv true := by
    intro l hl
    by_cases hli : l = i
    · subst hli; rw [h.sends.self] at hl; cases hl
    · have := ((h.sends.posted l hli).1 (by rw [hl]; rfl)).1
      rw [hs] at this
      cases this
  have hopen : Open S i 1 (peers i) arr sr { nd with scattered := true } := by
    refine ⟨h.entry, h.size, ?_, h.live, h.peer, fun _ => ⟨b, hb, hbc⟩, ?_, h.recvs⟩
    · have hops := h.ops
      rw [hs] at hops
      simp only [Bool.toNat_true, Bool.toNat_false] at hops ⊢
      omega
    · have hsends := h.sends
      rw [hs] at hsends
      exact hsends.start
  obtain ⟨sr', nd', hrun, hopen', hview, hkeep⟩ := hopen.scatterSends peerMode replyMode rfl
    ((nodup_finRange N).filter _) (by simp [peers]) hf
  refine ⟨sr', nd', ?_, hopen', hview, hkeep⟩
  rw [allreduceScatter, hrun, Option.bind_some]

end Open

end Doca.AllReduce
