import Doca.AllReduce.Daemon
import Mathlib.Algebra.Group.Action.Defs
import Mathlib.Algebra.Order.BigOperators.Group.Finset

/-!
# All-reduce through daemons: whole runs

* `Kept` — the callbacks of a completion leave alone what has been received: frame lemmas for the
  functions of `Core`, without any assumption on the state.
* `progress` — how far a node has come; every event moves its node forward (`step_progress`), so
  the events of one id come to an end (`totalProgress_le`).
* `daemon_replies_total` — the main result, for one or two daemons.
-/

namespace Doca.AllReduce

open Doca.Lib Function Option Finset

/-! ## What the callbacks leave alone -/

section Frame

variable {ι : Type} {w : Nat} {cfg : Config} {replyMode : Nat → SendMode} {nd nd' : Node ι w}

structure Kept (nd nd' : Node ι w) : Prop where
  recvs : nd'.recvs = nd.recvs
  clientRecvs : nd'.clientRecvs = nd.clientRecvs
  replyRecvs : nd'.replyRecvs = nd.replyRecvs

theorem Kept.trans {nd nd' nd'' : Node ι w} (h : Kept nd nd') (h' : Kept nd' nd'') : Kept nd nd'' :=
  ⟨h'.recvs.trans h.recvs, h'.clientRecvs.trans h.clientRecvs, h'.replyRecvs.trans h.replyRecvs⟩

theorem daemonCompleteClientOperation_kept (h : daemonCompleteClientOperation nd = some nd') :
    Kept nd nd' ∧ nd'.sends = nd.sends ∧ nd'.replies = nd.replies := by
  unfold daemonCompleteClientOperation at h
  split at h
  · cases h
  · split at h
    · cases h
    all_goals cases h; exact ⟨⟨rfl, rfl, rfl⟩, rfl, rfl⟩

theorem sendReplies_kept {rest : List Nat} :
    ∀ {nd nd' : Node ι w}, sendReplies replyMode rest nd = some nd' →
      Kept nd nd' ∧ nd'.sends = nd.sends := by
  induction rest with
  | nil =>
    intro nd nd' h
    cases h
    exact ⟨⟨rfl, rfl, rfl⟩, rfl⟩
  | cons c rest ih =>
    intro nd nd' h
    unfold sendReplies at h
    split at h
    · cases h
    split at h
    · cases h
    simp only at h
    split at h
    · obtain ⟨nd₁, h₁, h₂⟩ := bind_eq_some_iff.1 h
      obtain ⟨hk₁, hs₁, -⟩ := daemonCompleteClientOperation_kept h₁
      obtain ⟨hk₂, hs₂⟩ := ih h₂
      exact ⟨Kept.trans ⟨hk₁.recvs, hk₁.clientRecvs, hk₁.replyRecvs⟩ hk₂, hs₂.trans hs₁⟩
    · obtain ⟨hk, hs⟩ := ih h
      exact ⟨⟨hk.recvs, hk.clientRecvs, hk.replyRecvs⟩, hs⟩

theorem finishOperation_kept {sr : SuperRequest w} (h : finishOperation cfg replyMode sr nd = some nd') :
    Kept nd nd' ∧ nd'.sends = nd.sends := by
  unfold finishOperation at h
  split at h
  · split at h
    · cases h; exact ⟨⟨rfl, rfl, rfl⟩, rfl⟩
    · cases h
  · obtain ⟨hk, hs⟩ := sendReplies_kept h
    exact ⟨⟨hk.recvs, hk.clientRecvs, hk.replyRecvs⟩, hs⟩

theorem allreduceCompleteOperation_kept (h : allreduceCompleteOperation cfg replyMode nd = some nd') :
    Kept nd nd' ∧ nd'.sends = nd.sends := by
  unfold allreduceCompleteOperation at h
  split at h
  · cases h
  split at h
  · cases h
  simp only at h
  split at h
  · cases h; exact ⟨⟨rfl, rfl, rfl⟩, rfl⟩
  · split at h
    · exact finishOperation_kept h
    · obtain ⟨sr', -, h⟩ := bind_eq_some_iff.1 h
      exact finishOperation_kept h

variable [DecidableEq ι]

theorem scatterSends_kept {peerMode : ι → SendMode} {todo : List ι} :
    ∀ {nd nd' : Node ι w}, scatterSends cfg peerMode replyMode todo nd = some nd' → Kept nd nd' := by
  induction todo with
  | nil =>
    intro nd nd' h
    cases h
    exact ⟨rfl, rfl, rfl⟩
  | cons j rest ih =>
    intro nd nd' h
    unfold scatterSends at h
    split at h
    · cases h
    split at h
    · cases h
    simp only at h
    split at h
    · obtain ⟨nd₁, h₁, h₂⟩ := bind_eq_some_iff.1 h
      have hk₁ := (allreduceCompleteOperation_kept h₁).1
      exact Kept.trans ⟨hk₁.recvs, hk₁.clientRecvs, hk₁.replyRecvs⟩ (ih h₂)
    · have hk := ih h
      exact ⟨hk.recvs, hk.clientRecvs, hk.replyRecvs⟩

theorem allreduceScatter_kept {peerMode : ι → SendMode} {peers : List ι}
    (h : allreduceScatter cfg peerMode replyMode peers nd = some nd') : Kept nd nd' := by
  obtain ⟨nd₁, h₁, h₂⟩ := bind_eq_some_iff.1 h
  have hk₁ := scatterSends_kept h₁
  exact Kept.trans ⟨hk₁.recvs, hk₁.clientRecvs, hk₁.replyRecvs⟩ (allreduceCompleteOperation_kept h₂).1

theorem daemonRecvDataComplete_kept {peerMode : ι → SendMode} {peers : List ι} {size c : Nat}
    {vector : Buf w}
    (h : daemonRecvDataComplete cfg peerMode replyMode peers size vector c nd = some nd') :
    Kept nd nd' := by
  obtain ⟨sr, -, h⟩ := bind_eq_some_iff.1 h
  split at h
  · have hk := allreduceScatter_kept h
    exact ⟨hk.recvs, hk.clientRecvs, hk.replyRecvs⟩
  · cases h
    exact ⟨rfl, rfl, rfl⟩

theorem receiveData_kept {length : Nat} {data : Buf w} {j : ι}
    (h : receiveData cfg replyMode length data j nd = some nd') :
    nd'.recvs = update nd.recvs j .received ∧ nd'.clientRecvs = nd.clientRecvs ∧
      nd'.replyRecvs = nd.replyRecvs ∧ nd'.sends = nd.sends := by
  unfold receiveData at h
  split at h
  · obtain ⟨sr, -, h⟩ := bind_eq_some_iff.1 h
    unfold allreduceGatherComplete at h
    simp only at h
    split at h
    · obtain ⟨sr', -, h⟩ := bind_eq_some_iff.1 h
      obtain ⟨hk, hs⟩ := allreduceCompleteOperation_kept h
      exact ⟨hk.recvs, hk.clientRecvs, hk.replyRecvs, hs⟩
    · obtain ⟨hk, hs⟩ := allreduceCompleteOperation_kept h
      exact ⟨hk.recvs, hk.clientRecvs, hk.replyRecvs, hs⟩
  · cases h

theorem allreduceGather_kept {length : Nat} {vector : Buf w} {j : ι}
    (h : allreduceGather cfg length vector j nd = some nd') :
    (∃ sl, nd'.recvs = update nd.recvs j (.receiving sl)) ∧
      nd'.clientRecvs = nd.clientRecvs ∧ nd'.replyRecvs = nd.replyRecvs ∧
      nd'.sends = nd.sends ∧ nd'.replies = nd.replies := by
  unfold allreduceGather at h
  simp only at h
  split at h
  · split at h
    · cases h; exact ⟨⟨_, rfl⟩, rfl, rfl, rfl, rfl⟩
    · split at h
      · cases h
      · cases h; exact ⟨⟨_, rfl⟩, rfl, rfl, rfl, rfl⟩
  · cases h

end Frame

/-! ## Every event moves its node forward -/

variable {N w : Nat} {S : Setup N w} {s s' : State N w} {i j : Fin N} {c : Nat}

def RecvState.rank {σ : Type} : RecvState σ → Nat
  | idle => 0
  | receiving _ => 1
  | received => 2

theorem RecvState.rank_le {σ : Type} (r : RecvState σ) : r.rank ≤ 2 := by
  cases r <;> simp [rank]

def progress (S : Setup N w) (i : Fin N) (nd : Node (Fin N) w) : Nat :=
  ∑ j, (nd.recvs j).rank + ∑ c ∈ Finset.range (S.numClients i), (nd.clientRecvs c).rank +
    ∑ c ∈ Finset.range (S.numClients i), (nd.replyRecvs c).length +
    count Finset.univ SendState.completed nd.sends +
    count (Finset.range (S.numClients i)) SendState.completed nd.replies

variable {hrole : S.role = .daemon} {hC : ∀ i, 0 < S.numClients i}

theorem NodeOk.exchanged_or_no_reply {nd : Node (Fin N) w} (h : NodeOk (daemonInv S hrole hC) i nd) :
    Exchanged S i nd ∧ (daemonInv S hrole hC).closed i nd ∨
      count (range (S.numClients i)) SendState.completed nd.replies = 0 := by
  have hno : NoReplies nd.replies nd.replyPosts nd.replyRecvs nd.removals →
      count (range (S.numClients i)) SendState.completed nd.replies = 0 :=
    fun hr => count_eq_zero fun c _ => by rw [hr.replies]; rfl
  cases h with
  | untouched _ hr => exact .inr (hno hr.2)
  | opened _ hv =>
    obtain ⟨cl, hd⟩ := hv
    exact .inr (hno hd.noReplies)
  | closed hex hc => exact .inl ⟨hex, hc⟩

theorem progress_recvs (h : NodeOk (daemonInv S hrole hC) i (s i)) (hj : j ≠ i)
    (hne : (s i).recvs j ≠ .received) {nd : Node (Fin N) w} {r : RecvState Slot}
    (hr : nd.recvs = update (s i).recvs j r) (hrank : ((s i).recvs j).rank < r.rank)
    (hcl : nd.clientRecvs = (s i).clientRecvs) (hrep : nd.replyRecvs = (s i).replyRecvs)
    (hs : nd.sends = (s i).sends) : progress S i (s i) < progress S i nd := by
  have h0 : count (range (S.numClients i)) SendState.completed (s i).replies = 0 := by
    rcases h.exchanged_or_no_reply with ⟨hex, -⟩ | h0
    · exact absurd (hex.received j hj) hne
    · exact h0
  have hsum := sum_update (f := (s i).recvs) (a := r) RecvState.rank (mem_univ j)
  simp only [progress, hr, hcl, hrep, hs, h0]
  omega

theorem progress_clientRecvs (h : NodeOk (daemonInv S hrole hC) i (s i))
    (hlt : c < S.numClients i) (hne : (s i).clientRecvs c ≠ .received) {nd : Node (Fin N) w}
    {r : RecvState Unit} (hk : Kept { s i with
      clientRecvs := update (s i).clientRecvs c r } nd)
    (hrank : ((s i).clientRecvs c).rank < r.rank) : progress S i (s i) < progress S i nd := by
  have h0 : count (range (S.numClients i)) SendState.completed (s i).replies = 0 := by
    rcases h.exchanged_or_no_reply with ⟨-, hc⟩ | h0
    · exact absurd ((hc.1 c).1 hlt) hne
    · exact h0
  have hs0 : count univ SendState.completed (s i).sends = 0 := by
    obtain ⟨hsc, arr, sr, cl, -, ho, -⟩ := h.open_of_missing hlt hne
    refine count_eq_zero fun l _ => ?_
    by_cases hl : l = i
    · rw [hl, show (s i).sends i = .idle from ho.sends.self]; rfl
    · rw [← Bool.not_eq_true]
      intro hcl
      have hp := ((ho.sends.posted l hl).1 (SendState.posted_of_completed hcl)).1
      exact Bool.false_ne_true (hsc.symm.trans hp)
  have hsum := sum_update (f := (s i).clientRecvs) (a := r) RecvState.rank (mem_range.2 hlt)
  simp only [progress, hk.recvs, hk.clientRecvs, hk.replyRecvs, h0, hs0]
  omega

theorem handle_progress (h : Inv (daemonInv S hrole hC) s) {ev : Event N w}
    (hen : enabled S s ev = true) {nd : Node (Fin N) w} (hh : handle S s ev = some nd) :
    progress S ev.node (s ev.node) < progress S ev.node nd := by
  cases ev with
  | submit i env => simp [enabled, hrole] at hen
  | arrive i j vector env =>
    simp only [enabled, Bool.and_eq_true, decide_eq_true_eq] at hen
    obtain ⟨⟨hj, -⟩, hidle⟩ := hen
    have hne : (s i).recvs j ≠ .received := by rw [hidle]; simp
    obtain ⟨nd₁, hg, hh⟩ := bind_eq_some_iff.1 hh
    obtain ⟨⟨sl, hr₁⟩, hcl₁, hrep₁, hs₁, -⟩ := allreduceGather_kept hg
    split at hh
    · cases hh
    · obtain ⟨hr, hcl, hrep, hs⟩ := receiveData_kept hh
      rw [hr₁, update_idem] at hr
      exact progress_recvs (h.node i) hj hne hr (by rw [hidle]; decide) (hcl.trans hcl₁)
        (hrep.trans hrep₁) (hs.trans hs₁)
    · cases hh
      refine progress_recvs (h.node i) hj hne hr₁ ?_ hcl₁ hrep₁ hs₁
      rw [hidle]
      exact Nat.zero_lt_one
  | data i j env =>
    obtain ⟨data, -, hh⟩ := bind_eq_some_iff.1 hh
    obtain ⟨hr, hcl, hrep, hs⟩ := receiveData_kept hh
    cases hrv : (s i).recvs j with
    | idle | received => simp [enabled, hrv] at hen
    | receiving sl =>
      have hj : j ≠ i := by
        obtain ⟨arr, sr, ho, -⟩ := (h.node i).open_of_receiving hrv
        exact ho.recvs.ne_self_of_receiving hrv
      exact progress_recvs (h.node i) hj (by rw [hrv]; simp) hr (by rw [hrv]; exact Nat.one_lt_two)
        hcl hrep hs
  | sent i j env =>
    simp only [enabled] at hen
    have hp := SendState.posted_of_mayComplete hen
    have hc := SendState.not_completed_of_mayComplete hen
    obtain ⟨hj, -, -⟩ := (h.node i).open_of_sending hp hc
    obtain ⟨hk, hs⟩ := allreduceCompleteOperation_kept hh
    have h0 : count (range (S.numClients i)) SendState.completed (s i).replies = 0 := by
      rcases (h.node i).exchanged_or_no_reply with ⟨hex, -⟩ | h0
      · rw [hex.completed j hj] at hc; cases hc
      · exact h0
    have hcount := count_update_succ (f := (s i).sends) (mem_univ j) hc (SendState.completed_complete hp)
    simp only [progress, Event.node, hk.recvs, hk.clientRecvs, hk.replyRecvs, hs, h0, hcount]
    omega
  | clientArrive i c eager env =>
    simp only [enabled, Bool.and_eq_true, decide_eq_true_eq] at hen
    obtain ⟨⟨-, hlt⟩, hidle⟩ := hen
    have hne : (s i).clientRecvs c ≠ .received := by rw [hidle]; simp
    cases eager with
    | true =>
      exact progress_clientRecvs (h.node i) hlt hne (daemonRecvDataComplete_kept hh)
        (by rw [hidle]; decide)
    | false =>
      cases hh
      exact progress_clientRecvs (r := .receiving ()) (h.node i) hlt hne ⟨rfl, rfl, rfl⟩
        (by rw [hidle]; decide)
  | clientData i c env =>
    simp only [enabled, decide_eq_true_eq] at hen
    exact progress_clientRecvs (h.node i) ((h.node i).client_lt (by rw [hen]; simp))
      (by rw [hen]; simp) (daemonRecvDataComplete_kept hh) (by rw [hen]; decide)
  | replyArrive i c =>
    simp only [enabled, decide_eq_true_eq] at hen
    obtain ⟨-, -, -, hrep⟩ := (h.node i).replying (c := c) (.inr (by omega))
    have hlt := ((hrep.posted c).1 (hrep.payload hen).1).1
    obtain ⟨data, -, rfl⟩ := map_eq_some_iff.1 hh
    have hsum := sum_update (f := (s i).replyRecvs) (a := (s i).replyRecvs c ++ [data]) List.length
      (mem_range.2 hlt)
    rw [List.length_append, List.length_singleton] at hsum
    simp only [progress, Event.node]
    omega
  | replySent i c =>
    simp only [enabled] at hen
    have hp := SendState.posted_of_mayComplete hen
    have hc := SendState.not_completed_of_mayComplete hen
    obtain ⟨-, -, -, hrep⟩ := (h.node i).replying (.inl hp)
    have hlt := ((hrep.posted c).1 hp).1
    obtain ⟨hk, hs, hr⟩ := daemonCompleteClientOperation_kept hh
    have hcount := count_update_succ (f := (s i).replies) (mem_range.2 hlt) hc
      (SendState.completed_complete hp)
    simp only [progress, Event.node, hk.recvs, hk.clientRecvs, hk.replyRecvs, hs, hr, hcount]
    omega

/-! ## Runs of one operation -/

theorem step_cases {ev : Event N w} (h : step S s ev = some s') :
    enabled S s ev = true ∧ ∃ nd, handle S s ev = some nd ∧ s' = update s ev.node nd := by
  unfold step at h
  split at h
  · rename_i hen
    obtain ⟨nd, hh, rfl⟩ := map_eq_some_iff.1 h
    exact ⟨hen, nd, hh, rfl⟩
  · cases h

def totalProgress (S : Setup N w) (s : State N w) : Nat := ∑ i, progress S i (s i)

theorem step_progress (h : Inv (daemonInv S hrole hC) s) {ev : Event N w}
    (hs : step S s ev = some s') : totalProgress S s < totalProgress S s' := by
  obtain ⟨hen, nd, hh, rfl⟩ := step_cases hs
  have hmove := handle_progress h hen hh
  refine sum_lt_sum (fun l _ => ?_) ⟨ev.node, mem_univ _, ?_⟩
  · by_cases hl : l = ev.node
    · rw [hl, update_self]; exact hmove.le
    · rw [update_of_ne hl]
  · rw [update_self]; exact hmove

theorem daemonRun_ok (hN : N ≤ 2) {evs : List (Event N w)} :
    ∀ {s s' : State N w}, Inv (daemonInv S hrole hC) s → run (step S) s evs = some s' →
      Inv (daemonInv S hrole hC) s' ∧ totalProgress S s + evs.length ≤ totalProgress S s' := by
  induction evs with
  | nil =>
    intro s s' h hr
    cases hr
    exact ⟨h, le_refl _⟩
  | cons ev rest ih =>
    intro s s' h hr
    obtain ⟨t, ht, hr⟩ := bind_eq_some_iff.1 hr
    obtain ⟨t', ht', hinv⟩ := daemonStep_ok h (step_cases ht).1 (prompt_of_le_two hN s ev)
    rw [ht] at ht'
    cases ht'
    obtain ⟨hinv', hprog⟩ := ih hinv hr
    have := step_progress h ht
    refine ⟨hinv', ?_⟩
    rw [List.length_cons]
    omega

theorem NodeOk.replyRecvs_le {nd : Node (Fin N) w} (h : NodeOk (daemonInv S hrole hC) i nd)
    (c : Nat) : (nd.replyRecvs c).length ≤ nd.replyPosts c ∧ nd.replyPosts c ≤ 1 ∧
      ∀ b ∈ nd.replyRecvs c, AgreeOn S.length b S.total := by
  have hno : NoReplies nd.replies nd.replyPosts nd.replyRecvs nd.removals → _ := fun hr =>
    show (nd.replyRecvs c).length ≤ nd.replyPosts c ∧ nd.replyPosts c ≤ 1 ∧
      ∀ b ∈ nd.replyRecvs c, AgreeOn S.length b S.total by simp [hr.recvs, hr.posts]
  cases h with
  | untouched _ hr => exact hno hr.2
  | opened _ hv =>
    obtain ⟨cl, hd⟩ := hv
    exact hno hd.noReplies
  | closed _ hc =>
    have hrep := hc.2.2
    have hle : nd.replyPosts c ≤ 1 := by rw [hrep.posts]; exact Bool.toNat_le _
    rcases hrep.recvs c with h0 | ⟨hp, b, hb, hbt⟩
    · simp [h0, hle]
    · simp [hb, hrep.posts, hp, hbt]

theorem totalProgress_le (h : Inv (daemonInv S hrole hC) s) :
    totalProgress S s ≤ ∑ i, (3 * N + 4 * S.numClients i) := by
  refine sum_le_sum fun i _ => ?_
  have h₁ : ∑ j, ((s i).recvs j).rank ≤ ∑ _j : Fin N, 2 :=
    sum_le_sum fun j _ => RecvState.rank_le _
  have h₂ : ∑ c ∈ range (S.numClients i), ((s i).clientRecvs c).rank ≤
      ∑ _c ∈ range (S.numClients i), 2 := sum_le_sum fun c _ => RecvState.rank_le _
  have h₃ : ∑ c ∈ range (S.numClients i), ((s i).replyRecvs c).length ≤
      ∑ _c ∈ range (S.numClients i), 1 := sum_le_sum fun c _ => by
    obtain ⟨hle, hle', -⟩ := (h.node i).replyRecvs_le c
    exact hle.trans hle'
  have h₄ : count univ SendState.completed (s i).sends ≤ N := by
    have := card_le_univ (univ.filter fun j => ((s i).sends j).completed = true)
    rwa [Fintype.card_fin] at this
  have h₅ : count (range (S.numClients i)) SendState.completed (s i).replies ≤ S.numClients i := by
    have := card_filter_le (range (S.numClients i)) (fun c => ((s i).replies c).completed = true)
    rwa [card_range] at this
  simp only [sum_const, card_univ, Fintype.card_fin, card_range, smul_eq_mul] at h₁ h₂ h₃
  simp only [progress]
  omega

theorem NodeOk.removed {nd : Node (Fin N) w} (h : NodeOk (daemonInv S hrole hC) i nd) :
    nd.removals ≤ 1 ∧ (nd.removals = 1 → nd.entry = none ∧
      ∀ c, c < S.numClients i → (nd.replies c).completed = true) := by
  have hno : NoReplies nd.replies nd.replyPosts nd.replyRecvs nd.removals → _ := fun hr =>
    show nd.removals ≤ 1 ∧ (nd.removals = 1 → nd.entry = none ∧
      ∀ c, c < S.numClients i → (nd.replies c).completed = true) by simp [hr.removals]
  cases h with
  | untouched _ hr => exact hno hr.2
  | opened _ hv =>
    obtain ⟨cl, hd⟩ := hv
    exact hno hd.noReplies
  | closed _ hc =>
    have hrep := hc.2.2
    cases hu : unsent S i [] nd.replies with
    | zero =>
      obtain ⟨he, hr⟩ := hrep.gone hu
      refine ⟨hr.le, fun _ => ⟨he, fun c hlt => ?_⟩⟩
      have hp := (hrep.posted c).2 ⟨hlt, List.not_mem_nil⟩
      by_contra hnc
      rw [Bool.not_eq_true] at hnc
      have hmem : c ∈ (range (S.numClients i)).filter (fun c => (nd.replies c).outstanding = true) := by
        simp [hlt, SendState.outstanding, hp, hnc]
      have := card_pos.2 ⟨c, hmem⟩
      simp only [unsent, count, List.length_nil] at hu
      omega
    | succ n =>
      obtain ⟨hr, -⟩ := hrep.alive n hu
      rw [hr]
      exact ⟨Nat.zero_le 1, by simp⟩

/-- **All-reduce through one or two daemons is correct in every run**: replies hold the total, no
    callback fails, and when no event is left every client has one reply and every super request was
    removed once. -/
theorem daemon_replies_total (hN : N ≤ 2) {setup : Nat → Setup N w}
    (hrole : ∀ id, (setup id).role = .daemon) (hC : ∀ id i, 0 < (setup id).numClients i)
    {evs : List (Nat × Event N w)} {s : Nat → State N w}
    (hrun : run (wholeStep setup) (fun _ => State.init N w) evs = some s) (id : Nat) :
    (∀ i c, ((s id i).replyRecvs c).length ≤ (s id i).replyPosts c ∧ (s id i).replyPosts c ≤ 1 ∧
      ∀ b ∈ (s id i).replyRecvs c, AgreeOn (setup id).length b
        (reduction (setup id).operation Finset.univ fun d =>
          reduction (setup id).operation (Finset.range ((setup id).numClients d))
            ((setup id).clientVector d))) ∧
    (∀ i, (s id i).removals ≤ 1 ∧ ((s id i).removals = 1 → (s id i).entry = none ∧
      ∀ c, c < (setup id).numClients i → ((s id i).replies c).completed = true)) ∧
    (∀ ev, enabled (setup id) (s id) ev = true → ∃ s', step (setup id) (s id) ev = some s') ∧
    ((∀ ev, enabled (setup id) (s id) ev = false) → ∀ i, (s id i).removals = 1 ∧
      ∀ c, c < (setup id).numClients i → ∃ b, (s id i).replyRecvs c = [b]) ∧
    (eventsOf id evs).length ≤ ∑ i, (3 * N + 4 * (setup id).numClients i) := by
  obtain ⟨hinv, hprog⟩ := daemonRun_ok hN (daemon_init (hrole id) (hC id)) (run_component id hrun)
  have htotal : (setup id).total = reduction (setup id).operation univ fun d =>
      reduction (setup id).operation (range ((setup id).numClients d)) ((setup id).clientVector d) := by
    have : (setup id).contribution = fun d =>
        reduction (setup id).operation (range ((setup id).numClients d)) ((setup id).clientVector d) := by
      funext d
      simp only [Setup.contribution, hrole id]
    rw [Setup.total, this]
  refine ⟨fun i c => htotal ▸ (hinv.node i).replyRecvs_le c, fun i => (hinv.node i).removed,
    fun ev hen => ?_, fun hstuck i => ?_, ?_⟩
  · obtain ⟨s', hs', -⟩ := daemonStep_ok hinv hen (prompt_of_le_two hN _ _)
    exact ⟨s', hs'⟩
  · obtain ⟨-, hrem, hrecv⟩ := stuck_replied hinv hstuck i
    exact ⟨hrem, hrecv⟩
  · have := totalProgress_le hinv
    omega

def byteDaemons : Setup 2 8 where
  role := .daemon
  operation := .sum
  length := 1
  vector := fun _ _ => 0
  numClients := fun i => if i.val = 0 then 2 else 1
  clientVector := fun i c _ => if i.val = 0 then (if c = 0 then 1 else 2) else 4

def daemonEnv : Env 2 := ⟨fun _ => .rndv, fun _ => .eager⟩

def byteDaemonsRun : List (Nat × Event 2 8) :=
  let d₀ : Fin 2 := ⟨0, Nat.two_pos⟩
  let d₁ : Fin 2 := ⟨1, Nat.one_lt_two⟩
  [(0, .clientArrive d₁ 0 true daemonEnv), (0, .arrive d₀ d₁ (fun _ => 9) daemonEnv),
    (0, .clientArrive d₀ 1 false daemonEnv), (0, .data d₀ d₁ daemonEnv),
    (0, .clientArrive d₀ 0 true daemonEnv), (0, .clientData d₀ 1 daemonEnv),
    (0, .arrive d₁ d₀ (fun _ => 9) daemonEnv), (0, .data d₁ d₀ daemonEnv),
    (0, .sent d₀ d₁ daemonEnv), (0, .replyArrive d₀ 1)]

theorem daemon_replies_total_pair :
    ∃ s b, run (wholeStep fun _ => byteDaemons) (fun _ => State.init 2 8) byteDaemonsRun = some s ∧
      b ∈ (s 0 0).replyRecvs 1 ∧
      AgreeOn 1 b (reduction .sum Finset.univ fun d =>
        reduction .sum (Finset.range (byteDaemons.numClients d)) (byteDaemons.clientVector d)) := by
  have hlen : (run (wholeStep fun _ => byteDaemons) (fun _ => State.init 2 8) byteDaemonsRun).map
      (fun s => ((s 0 0).replyRecvs 1).length) = some 1 := by decide
  obtain ⟨s, hs, hone⟩ := map_eq_some_iff.1 hlen
  obtain ⟨b, hb⟩ := List.length_eq_one_iff.1 hone
  have hmem : b ∈ (s 0 0).replyRecvs 1 := by rw [hb]; exact List.mem_singleton_self b
  have hC : ∀ i, 0 < byteDaemons.numClients i := by decide
  exact ⟨s, b, hs, hmem, ((daemon_replies_total (Nat.le_refl 2) (fun _ => rfl) (fun _ => hC) hs
    0).1 0 1).2.2 b hmem⟩

end Doca.AllReduce
