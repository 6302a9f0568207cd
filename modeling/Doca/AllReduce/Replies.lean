import Doca.AllReduce.Invariant

/-!
# All-reduce: the replies of a daemon

A daemon that is through with its peers sends the result to each of its clients and releases the
super request when the last of these sends has completed.

`Replying S i due rest nd` describes the daemon while the clients of `rest` are still to be
served and `due` completions are about to be counted: the super request exists as long as a reply
is missing or on its way, and was removed exactly once when none is.

* `Replying.complete` — one completion of `daemonCompleteClientOperation`;
* `Replying.sendReplies` — the loop over the requests;
* `Replying.arrive`, `Replying.sent` — a client receives its reply, a reply has been sent.
-/

namespace Doca.AllReduce

open Doca.Lib Function

variable {N w : Nat} {S : Setup N w} {i : Fin N}

def SendState.outstanding (x : SendState w) : Bool := x.posted && !x.completed

structure SameExchange (nd nd' : Node (Fin N) w) : Prop where
  scattered : nd'.scattered = nd.scattered
  sends : nd'.sends = nd.sends
  recvs : nd'.recvs = nd.recvs
  clientRecvs : nd'.clientRecvs = nd.clientRecvs

theorem SameExchange.trans {nd nd' nd'' : Node (Fin N) w} (h : SameExchange nd nd')
    (h' : SameExchange nd' nd'') : SameExchange nd nd'' :=
  ⟨h'.scattered.trans h.scattered, h'.sends.trans h.sends, h'.recvs.trans h.recvs,
    h'.clientRecvs.trans h.clientRecvs⟩

def unsent (S : Setup N w) (i : Fin N) (rest : List Nat) (replies : Nat → SendState w) : Nat :=
  rest.length + count (Finset.range (S.numClients i)) SendState.outstanding replies

/-- The replies of daemon `i`: those to `rest` are still to be sent. -/
structure Replying (S : Setup N w) (i : Fin N) (due : Nat) (rest : List Nat)
    (nd : Node (Fin N) w) : Prop where
  nodup : rest.Nodup
  lt : ∀ c ∈ rest, c < S.numClients i
  posted : ∀ c, (nd.replies c).posted = true ↔ c < S.numClients i ∧ c ∉ rest
  posts : ∀ c, nd.replyPosts c = (nd.replies c).posted.toNat
  snapshot : ∀ c data d, nd.replies c = .eager data d → AgreeOn S.length data S.total
  recvs : ∀ c, nd.replyRecvs c = [] ∨ (nd.replies c).posted = true ∧
    ∃ b, nd.replyRecvs c = [b] ∧ AgreeOn S.length b S.total
  fetched : ∀ c, nd.replies c = .rndv true → nd.replyRecvs c ≠ []
  gone : unsent S i rest nd.replies + due = 0 → nd.entry = none ∧ nd.removals = 1
  alive : ∀ n, unsent S i rest nd.replies + due = n + 1 →
    nd.removals = 0 ∧ ∃ sr b, nd.entry = some sr ∧ sr.numAllreduceRequests = n + 1 ∧
      sr.allreduceRequestsList = rest ∧ sr.resultVector = some b ∧ AgreeOn S.length b S.total

namespace Replying

variable {rest : List Nat} {nd : Node (Fin N) w} {c : Nat}

theorem complete (h : Replying S i 1 rest nd) :
    ∃ nd', daemonCompleteClientOperation nd = some nd' ∧ Replying S i 0 rest nd' ∧
      SameExchange nd nd' := by
  obtain ⟨hrem, sr, b, he, hn, hlist, hb, hbt⟩ := h.alive _ rfl
  cases hm : unsent S i rest nd.replies with
  | zero =>
    rw [hm] at hn
    refine ⟨{ nd with entry := none, removals := nd.removals + 1 }, ?_, ?_, ⟨rfl, rfl, rfl, rfl⟩⟩
    · simp only [daemonCompleteClientOperation, he, hn]
    · refine ⟨h.nodup, h.lt, h.posted, h.posts, h.snapshot, h.recvs, h.fetched,
        fun _ => ⟨rfl, by rw [hrem]⟩, fun n hn' => ?_⟩
      rw [show unsent S i rest nd.replies = 0 from hm] at hn'
      cases hn'
  | succ n =>
    rw [hm] at hn
    refine ⟨{ nd with entry := some { sr with numAllreduceRequests := n + 1 } }, ?_, ?_,
      ⟨rfl, rfl, rfl, rfl⟩⟩
    · simp only [daemonCompleteClientOperation, he, hn]
    · refine ⟨h.nodup, h.lt, h.posted, h.posts, h.snapshot, h.recvs, h.fetched, fun h0 => ?_,
        fun n' hn' => ⟨hrem, _, b, rfl, ?_, hlist, hb, hbt⟩⟩
      · rw [show unsent S i rest nd.replies = n + 1 from hm] at h0
        cases h0
      · rwa [show unsent S i rest nd.replies = n + 1 from hm] at hn'

theorem unsent_post (rest : List Nat) (hidle : (nd.replies c).posted = false) (hc : c < S.numClients i)
    (mode : SendMode) (b : Buf w) :
    unsent S i rest (update nd.replies c (mode.post b)) +
      (decide (mode = .immediate)).toNat = unsent S i (c :: rest) nd.replies := by
  have hout : (nd.replies c).outstanding = false := by simp [SendState.outstanding, hidle]
  by_cases himm : mode = .immediate
  · subst himm
    have hsame := count_update_same (t := Finset.range (S.numClients i)) (f := nd.replies) (j := c)
      (p := SendState.outstanding) (a := SendMode.immediate.post b)
      (by rw [hout]; simp [SendState.outstanding])
    simp only [unsent, hsame, List.length_cons, decide_true, Bool.toNat_true]
    omega
  · have hsucc := count_update_succ (f := nd.replies) (p := SendState.outstanding)
      (a := mode.post b) (Finset.mem_range.2 hc) hout (by simp [SendState.outstanding, himm])
    simp only [unsent, hsucc, himm, List.length_cons, decide_false, Bool.toNat_false]
    omega

theorem post (h : Replying S i 0 (c :: rest) nd) (mode : SendMode) :
    ∃ sr b, nd.entry = some sr ∧ sr.resultVector = some b ∧
      Replying S i (decide (mode = .immediate)).toNat rest { nd with
          entry := some { sr with allreduceRequestsList := sr.allreduceRequestsList.erase c }
          replies := update nd.replies c (mode.post b)
          replyPosts := update nd.replyPosts c (nd.replyPosts c + 1) } := by
  obtain ⟨hc, hnd⟩ := List.nodup_cons.1 h.nodup
  have hclt := h.lt c List.mem_cons_self
  have hnot : (nd.replies c).posted = false := by
    rw [← Bool.not_eq_true, h.posted]
    exact fun hn => hn.2 List.mem_cons_self
  have hidle : nd.replyRecvs c = [] := by
    rcases h.recvs c with h0 | ⟨hp, -⟩
    · exact h0
    · rw [hnot] at hp; cases hp
  obtain ⟨hrem, sr, b, he, hn, hlist, hb, hbt⟩ :=
    h.alive (rest.length + count (Finset.range (S.numClients i)) SendState.outstanding nd.replies)
      (by simp only [unsent, List.length_cons]; omega)
  have hcount := unsent_post rest hnot hclt mode b
  refine ⟨sr, b, he, hb, hnd, fun c' hc' => h.lt c' (List.mem_cons_of_mem c hc'), ?_, ?_, ?_, ?_,
    ?_, ?_, ?_⟩
  · intro c'
    by_cases hcc : c' = c
    · subst hcc; simp [hclt, hc]
    · simp only [update_of_ne hcc, h.posted, List.mem_cons, hcc, false_or]
  · intro c'
    by_cases hcc : c' = c
    · subst hcc; simp [h.posts, hnot]
    · simp only [update_of_ne hcc, h.posts]
  · intro c' data d hd
    simp only [update_apply] at hd
    split at hd
    · rw [SendMode.post_eager hd]
      exact hbt
    · exact h.snapshot c' data d hd
  · intro c'
    by_cases hcc : c' = c
    · subst hcc; exact Or.inl hidle
    · simp only [update_of_ne hcc]
      exact h.recvs c'
  · intro c' hd
    simp only [update_apply] at hd
    split at hd
    · cases mode <;> cases hd
    · exact h.fetched c' hd
  · intro h0
    simp only [hcount] at h0
    simp only [unsent, List.length_cons] at h0
    omega
  · intro n hn'
    simp only [hcount] at hn'
    simp only [unsent, List.length_cons] at hn'
    refine ⟨hrem, _, b, rfl, by show sr.numAllreduceRequests = n + 1; omega, ?_, hb, hbt⟩
    show sr.allreduceRequestsList.erase c = rest
    rw [hlist, List.erase_cons_head]

theorem sendReplies (replyMode : Nat → SendMode) :
    ∀ {rest : List Nat} {nd : Node (Fin N) w}, Replying S i 0 rest nd →
      ∃ nd', AllReduce.sendReplies replyMode rest nd = some nd' ∧ Replying S i 0 [] nd' ∧
        SameExchange nd nd'
  | [], nd, h => ⟨nd, rfl, h, rfl, rfl, rfl, rfl⟩
  | c :: rest, nd, h => by
    obtain ⟨sr, b, he, hb, hpost⟩ := h.post (replyMode c)
    rw [sendReplies_cons he hb]
    by_cases himm : replyMode c = .immediate
    · simp only [himm, decide_true, Bool.toNat_true] at hpost
      obtain ⟨nd₁, hstep, h₁, hsame₁⟩ := hpost.complete
      obtain ⟨nd', hrest, h', hsame'⟩ := sendReplies replyMode h₁
      refine ⟨nd', ?_, h', SameExchange.trans ⟨hsame₁.scattered, hsame₁.sends, hsame₁.recvs,
        hsame₁.clientRecvs⟩ hsame'⟩
      simp only [himm, if_true]
      rw [hstep, Option.bind_some]
      exact hrest
    · simp only [himm, decide_false, Bool.toNat_false] at hpost
      obtain ⟨nd', hrest, h', hsame'⟩ := sendReplies replyMode hpost
      refine ⟨nd', ?_, h', ⟨hsame'.scattered, hsame'.sends, hsame'.recvs, hsame'.clientRecvs⟩⟩
      simp only [himm, if_false]
      exact hrest

theorem payload (h : Replying S i 0 [] nd) (hc : (nd.replyRecvs c).length < nd.replyPosts c) :
    (nd.replies c).posted = true ∧ nd.replyRecvs c = [] ∧
      ∃ data, (nd.replies c).payload nd.entry = some data ∧ AgreeOn S.length data S.total := by
  have hpos := h.posts c
  have hposted : (nd.replies c).posted = true := by
    by_contra hne
    rw [Bool.not_eq_true] at hne
    rw [hne] at hpos
    simp only [Bool.toNat_false] at hpos
    omega
  rw [hposted, Bool.toNat_true] at hpos
  have hempty : nd.replyRecvs c = [] := List.length_eq_zero_iff.1 (by omega)
  refine ⟨hposted, hempty, ?_⟩
  cases hr : nd.replies c with
  | idle => rw [hr] at hposted; cases hposted
  | eager data d => exact ⟨data, rfl, h.snapshot c data d hr⟩
  | rndv d =>
    cases d with
    | true => exact absurd hempty (h.fetched c hr)
    | false =>
      -- the reply is on its way, so the super request has not been released
      have hlt := ((h.posted c).1 hposted).1
      have hpos : 0 < unsent S i [] nd.replies := by
        have hmem : c ∈ (Finset.range (S.numClients i)).filter
            (fun c => (nd.replies c).outstanding = true) := by
          simp [hlt, hr, SendState.outstanding, SendState.posted, SendState.completed]
        have := Finset.card_pos.2 ⟨c, hmem⟩
        simp only [unsent, count, List.length_nil]
        omega
      obtain ⟨n, hn⟩ := Nat.exists_eq_add_of_le' hpos
      obtain ⟨-, sr, b, he, -, -, hb, hbt⟩ := h.alive n hn
      exact ⟨b, by simp only [SendState.payload, he, Option.bind_some, hb], hbt⟩

theorem arrive (h : Replying S i 0 [] nd) (hposted : (nd.replies c).posted = true)
    (hempty : nd.replyRecvs c = []) {data : Buf w} (hd : AgreeOn S.length data S.total) :
    Replying S i 0 [] { nd with
      replyRecvs := update nd.replyRecvs c (nd.replyRecvs c ++ [data]) } := by
  refine ⟨h.nodup, h.lt, h.posted, h.posts, h.snapshot, fun c' => ?_, fun c' hd' => ?_, h.gone, h.alive⟩
  · by_cases hcc : c' = c
    · subst hcc
      refine Or.inr ⟨hposted, data, ?_, hd⟩
      simp [hempty]
    · simp only [update_of_ne hcc]
      exact h.recvs c'
  · by_cases hcc : c' = c
    · subst hcc; simp
    · simp only [update_of_ne hcc]
      exact h.fetched c' hd'

theorem sent (h : Replying S i 0 [] nd)
    (hm : (nd.replies c).mayComplete (!(nd.replyRecvs c).isEmpty) = true) :
    Replying S i 1 [] { nd with
      replies := update nd.replies c (nd.replies c).complete } := by
  have hp := SendState.posted_of_mayComplete hm
  have hc := SendState.not_completed_of_mayComplete hm
  have hlt := ((h.posted c).1 hp).1
  have hcount : unsent S i [] (update nd.replies c (nd.replies c).complete) + 1 =
      unsent S i [] nd.replies := by
    have := count_update_pred (f := nd.replies) (p := SendState.outstanding)
      (a := (nd.replies c).complete) (Finset.mem_range.2 hlt)
      (by simp [SendState.outstanding, hp, hc])
      (by simp [SendState.outstanding, SendState.completed_complete hp])
    simp only [unsent, List.length_nil]
    omega
  refine ⟨h.nodup, h.lt, fun c' => ?_, fun c' => ?_, fun c' data d hd => ?_, fun c' => ?_,
    fun c' hd => ?_, fun h0 => ?_, fun n hn => ?_⟩
  · by_cases hcc : c' = c
    · subst hcc; simp [h.posted]
    · simp only [update_of_ne hcc, h.posted]
  · by_cases hcc : c' = c
    · subst hcc; simp [h.posts]
    · simp only [update_of_ne hcc, h.posts]
  · simp only [update_apply] at hd
    split at hd
    · obtain ⟨d', hd'⟩ := SendState.complete_eager hd
      exact h.snapshot c data d' hd'
    · exact h.snapshot c' data d hd
  · by_cases hcc : c' = c
    · subst hcc
      simp only [update_self, SendState.posted_complete]
      exact h.recvs c'
    · simp only [update_of_ne hcc]
      exact h.recvs c'
  · by_cases hcc : c' = c
    · subst hcc
      intro hempty
      cases hr : nd.replies c' with
      | idle => rw [hr] at hp; cases hp
      | eager data d => simp only [update_self, hr] at hd; cases hd
      | rndv d => rw [hr, hempty] at hm; simp [SendState.mayComplete] at hm
    · simp only [update_of_ne hcc] at hd
      exact h.fetched c' hd
  · simp only at h0
    omega
  · simp only [hcount] at hn
    exact h.alive n hn

end Replying

end Doca.AllReduce
