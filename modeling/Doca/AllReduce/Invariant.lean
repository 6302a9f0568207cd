import Doca.AllReduce.Exchange

/-!
# All-reduce: invariant of the whole system

Every node is untouched, open or through with its peers, and the two ends of every message agree
(`Inv`).  What a node keeps besides the exchange differs between clients and daemons; it enters as
a `RoleInv`, whose field `finish` says that `finishOperation` closes the node.

`Inv.arrive`, `Inv.data` and `Inv.sent` — the events of the exchange do not fail and keep the
invariant, whatever the role.  The arrival of a descriptor needs `Prompt`.
-/

namespace Doca.AllReduce

open Doca.Lib Function

variable {N w : Nat} {S : Setup N w} {s : State N w} {i j : Fin N}

/-- When the last peer's descriptor arrives, the data of all others has been received. -/
def Prompt (s : State N w) : Event N w → Prop
  | .arrive i j _ _ =>
    j ≠ i → (∀ l, l ≠ i → l ≠ j → (s i).recvs l ≠ .idle) → ∀ l, l ≠ i → l ≠ j → (s i).recvs l = .received
  | _ => True

theorem prompt_of_le_two (hN : N ≤ 2) (s : State N w) (ev : Event N w) : Prompt s ev := by
  cases ev with
  | arrive i j vector env =>
    intro hj _ l hli hlj
    rw [← Fin.val_ne_iff] at hj hli hlj
    omega
  | _ => trivial

structure Link (snd : SendState w) (rcv : RecvState Slot) : Prop where
  posted : rcv ≠ .idle → snd.posted = true
  receiving : ∀ sl, rcv = .receiving sl → snd = .rndv false
  received : snd = .rndv true → rcv = .received

variable {snd : SendState w}

theorem Link.idle (h : snd ≠ .rndv true) : Link snd .idle :=
  ⟨fun hne => absurd rfl hne, nofun, fun h' => absurd h' h⟩

theorem Link.of_received (h : snd.posted = true) : Link snd .received :=
  ⟨fun _ => h, nofun, fun _ => rfl⟩

theorem Link.complete {rcv : RecvState Slot} (h : Link snd rcv)
    (hm : snd.mayComplete rcv.isReceived = true) : Link snd.complete rcv := by
  refine ⟨fun hne => by rw [SendState.posted_complete]; exact h.posted hne, ?_, ?_⟩
  · intro sl hsl
    have hsnd := h.receiving sl hsl
    rw [hsnd, hsl] at hm
    cases hm
  · intro hc
    cases snd with
    | idle => cases hc
    | eager data c => cases hc
    | rndv c =>
      simp only [SendState.mayComplete, Bool.and_eq_true] at hm
      exact isReceived_iff.1 hm.2

structure RoleInv (S : Setup N w) where
  untouched : Fin N → Node (Fin N) w → Prop
  opened : Fin N → LocalView w → Prop
  closed : Fin N → Node (Fin N) w → Prop
  allocate : ∀ i nd, Untouched nd → untouched i nd →
    opened i (view (superRequestAllocate (S.config i) S.length none) nd)
  finish : ∀ i nd sr v b replyMode, Exchanged S i nd → opened i v → v.scattered = true →
    view sr nd = { v with resultVector := some b } → sr.numAllreduceOperations = 0 →
    AgreeOn S.length b S.total →
    ∃ nd', finishOperation (S.config i) replyMode sr nd = some nd' ∧ closed i nd' ∧
      nd'.scattered = nd.scattered ∧ nd'.sends = nd.sends ∧ nd'.recvs = nd.recvs

variable {R : RoleInv S}

inductive NodeOk (R : RoleInv S) (i : Fin N) (nd : Node (Fin N) w) : Prop
  | untouched : Untouched nd → R.untouched i nd → NodeOk R i nd
  | opened {arr : List (Fin N)} {sr : SuperRequest w} :
      Open S i 0 [] arr sr nd → R.opened i (view sr nd) → NodeOk R i nd
  | closed : Exchanged S i nd → R.closed i nd → NodeOk R i nd

structure Inv (R : RoleInv S) (s : State N w) : Prop where
  node : ∀ i, NodeOk R i (s i)
  link : ∀ i j, Link ((s j).sends i) ((s i).recvs j)

variable {nd : Node (Fin N) w} {arr : List (Fin N)} {sr : SuperRequest w}

theorem NodeOk.settle (h : Open S i 1 [] arr sr nd) (hv : R.opened i (view sr nd))
    (replyMode : Nat → SendMode) :
    ∃ nd', allreduceCompleteOperation (S.config i) replyMode nd = some nd' ∧ NodeOk R i nd' ∧
      nd'.sends = nd.sends ∧ nd'.recvs = nd.recvs := by
  rcases h.complete replyMode with ⟨sr', hstep, hopen, hview⟩ | ⟨hex, sr', b, hstep, hview, h0, hb⟩
  · exact ⟨_, hstep, .opened hopen (hview ▸ hv), rfl, rfl⟩
  · obtain ⟨nd', hfin, hclosed, hsc, hsends, hrecvs⟩ :=
      R.finish i nd sr' (view sr nd) b replyMode hex hv hex.scattered hview h0 hb
    refine ⟨nd', hstep.trans hfin, .closed ?_ hclosed, hsends, hrecvs⟩
    exact ⟨hsc.trans hex.scattered, hsends ▸ hex.sends, hsends ▸ hex.completed,
      hrecvs ▸ hex.self, hrecvs ▸ hex.received⟩

theorem NodeOk.open_of_receiving (h : NodeOk R i nd) {sl : Slot} (hr : nd.recvs j = .receiving sl) :
    ∃ arr sr, Open S i 0 [] arr sr nd ∧ R.opened i (view sr nd) := by
  cases h with
  | untouched hu _ => rw [hu.recvs] at hr; cases hr
  | opened ho hv => exact ⟨_, _, ho, hv⟩
  | closed hc _ =>
    by_cases hj : j = i
    · subst hj; rw [hc.self] at hr; cases hr
    · rw [hc.received j hj] at hr; cases hr

theorem NodeOk.open_of_sending (h : NodeOk R i nd) (hp : (nd.sends j).posted = true)
    (hc : (nd.sends j).completed = false) :
    j ≠ i ∧ nd.scattered = true ∧ ∃ arr sr, Open S i 0 [] arr sr nd ∧ R.opened i (view sr nd) := by
  cases h with
  | untouched hu _ => rw [hu.sends] at hp; cases hp
  | opened ho hv =>
    have hj : j ≠ i := by
      rintro rfl
      rw [ho.sends.self] at hp
      cases hp
    exact ⟨hj, ((ho.sends.posted j hj).1 hp).1, _, _, ho, hv⟩
  | closed he _ =>
    by_cases hj : j = i
    · subst hj; rw [he.sends.self] at hp; cases hp
    · rw [he.completed j hj] at hc; cases hc

theorem Inv.payload (h : Inv R s) (hp : ((s j).sends i).posted = true) (hr : (s j).sends i ≠ .rndv true) :
    ∃ data, ((s j).sends i).payload (s j).entry = some data ∧
      AgreeOn S.length data (S.contribution j) := by
  cases hsnd : (s j).sends i with
  | idle => rw [hsnd] at hp; cases hp
  | eager data c =>
    refine ⟨data, rfl, ?_⟩
    cases h.node j with
    | untouched hu _ => rw [hu.sends] at hsnd; cases hsnd
    | opened ho _ => exact ho.sends.snapshot i data c hsnd
    | closed hc _ => exact hc.sends.snapshot i data c hsnd
  | rndv c =>
    cases c with
    | true => exact absurd hsnd hr
    | false =>
      obtain ⟨-, hsc, arr, sr, ho, -⟩ := (h.node j).open_of_sending (j := i)
        (by rw [hsnd]; rfl) (by rw [hsnd]; rfl)
      obtain ⟨b, hb, hbc⟩ := ho.vector hsc
      refine ⟨b, ?_, hbc⟩
      simp only [SendState.payload, ho.entry, Option.bind_some, hb]

theorem Inv.update (h : Inv R s) (hnode : NodeOk R i nd)
    (hout : ∀ l, l ≠ i → Link (nd.sends l) ((s l).recvs i))
    (hin : ∀ l, l ≠ i → Link ((s l).sends i) (nd.recvs l)) :
    Inv R (Function.update s i nd) := by
  have hself : Link (nd.sends i) (nd.recvs i) := by
    have hs : nd.sends i = .idle := by
      cases hnode with
      | untouched hu _ => rw [hu.sends]
      | opened ho _ => exact ho.sends.self
      | closed hc _ => exact hc.sends.self
    have hr : nd.recvs i = .idle := by
      cases hnode with
      | untouched hu _ => rw [hu.recvs]
      | opened ho _ => exact ho.recvs.self
      | closed hc _ => exact hc.self
    rw [hs, hr]
    exact Link.idle nofun
  refine ⟨fun l => ?_, fun l m => ?_⟩
  · by_cases hl : l = i
    · subst hl; rwa [update_self]
    · rw [update_of_ne hl]; exact h.node l
  · by_cases hl : l = i
    · subst hl
      by_cases hm : m = l
      · subst hm; rwa [update_self]
      · rw [update_self, update_of_ne hm]; exact hin m hm
    · by_cases hm : m = i
      · subst hm; rw [update_self, update_of_ne hl]; exact hout l hl
      · rw [update_of_ne hm, update_of_ne hl]; exact h.link l m

/-! ## The events of the exchange -/

theorem allreduceGather_allocate {cfg : Config} {length : Nat} {vector : Buf w} (h : nd.entry = none) :
    allreduceGather cfg length vector j nd = allreduceGather cfg length vector j
      { nd with entry := some (superRequestAllocate cfg length none) } := by
  unfold allreduceGather
  rw [h]
  rfl

theorem NodeOk.open_of_idle (h : NodeOk R i nd) (hj : j ≠ i) (hidle : nd.recvs j = .idle)
    (vector : Buf w) :
    ∃ arr sr nd₀, Open S i 0 [] arr sr nd₀ ∧ R.opened i (view sr nd₀) ∧
      allreduceGather (S.config i) S.length vector j nd =
        allreduceGather (S.config i) S.length vector j nd₀ ∧
      nd₀.sends = nd.sends ∧ nd₀.recvs = nd.recvs := by
  cases h with
  | untouched hu hr =>
    exact ⟨_, _, _, Open.allocate hu none, R.allocate i nd hu hr,
      allreduceGather_allocate hu.entry, rfl, rfl⟩
  | opened ho hv => exact ⟨_, _, nd, ho, hv, rfl, rfl, rfl⟩
  | closed hc _ => rw [hc.received j hj] at hidle; cases hidle

theorem NodeOk.receive (ho : Open S i 0 [] arr sr nd) (hv : R.opened i (view sr nd)) {sl : Slot}
    (hr : nd.recvs j = .receiving sl) {data : Buf w} (hd : AgreeOn S.length data (S.contribution j))
    (replyMode : Nat → SendMode) :
    ∃ nd', receiveData (S.config i) replyMode S.length data j nd = some nd' ∧ NodeOk R i nd' ∧
      nd'.sends = nd.sends ∧ nd'.recvs = update nd.recvs j .received := by
  obtain ⟨sr', heq, hopen, hview⟩ := ho.receive hr hd replyMode
  obtain ⟨nd', hstep, hok, hsends, hrecvs⟩ := NodeOk.settle (R := R) hopen (hview ▸ hv) replyMode
  exact ⟨nd', heq.trans hstep, hok, hsends, hrecvs⟩

variable {env : Env N}

theorem Inv.arrive (h : Inv R s) {vector : Buf w} (hen : enabled S s (.arrive i j vector env) = true)
    (hprompt : Prompt s (.arrive i j vector env)) :
    ∃ nd, handle S s (.arrive i j vector env) = some nd ∧ Inv R (Function.update s i nd) := by
  simp only [enabled, Bool.and_eq_true, decide_eq_true_eq] at hen
  obtain ⟨⟨hj, hposted⟩, hidle⟩ := hen
  have hlink := h.link i j
  have hnt : (s j).sends i ≠ .rndv true := by
    intro ht
    rw [hlink.received ht] at hidle
    cases hidle
  obtain ⟨arr, sr, nd₀, ho, hv, heq, hs₀, hr₀⟩ := (h.node i).open_of_idle hj hidle vector
  obtain ⟨sr', sl, hgather, hopen, hview⟩ :=
    ho.gather hj (hr₀ ▸ hidle) (hr₀ ▸ hprompt hj) vector
  have hin : ∀ l, l ≠ i → ∀ rcv, Link ((s j).sends i) rcv →
      Link ((s l).sends i) (Function.update (s i).recvs j rcv l) := by
    intro l _ rcv hrcv
    by_cases hl : l = j
    · subst hl; rwa [update_self]
    · rw [update_of_ne hl]; exact h.link i l
  simp only [handle, heq, hgather, Option.bind_some]
  cases hsnd : (s j).sends i with
  | idle => rw [hsnd] at hposted; cases hposted
  | eager data c =>
    obtain ⟨data', hpay, hdata⟩ := h.payload hposted hnt
    rw [hsnd] at hpay
    cases hpay
    obtain ⟨nd', hrun, hok, hsends, hrecvs⟩ := NodeOk.receive hopen (hview ▸ hv)
      (update_self ..) hdata env.replyMode
    refine ⟨nd', hrun, h.update hok (fun l _ => ?_) fun l hl => ?_⟩
    · rw [hsends, hs₀]; exact h.link l i
    · rw [hrecvs, hr₀, update_idem]
      exact hin l hl _ (Link.of_received hposted)
  | rndv c =>
    cases c with
    | true => exact absurd hsnd hnt
    | false =>
      refine ⟨_, rfl, h.update (.opened hopen (hview ▸ hv)) (fun l _ => ?_) fun l hl => ?_⟩
      · rw [hs₀]; exact h.link l i
      · rw [hr₀]
        refine hin l hl _ ?_
        rw [hsnd]
        exact ⟨fun _ => rfl, fun _ _ => rfl, nofun⟩

theorem Inv.data (h : Inv R s) (hen : enabled S s (.data i j env) = true) :
    ∃ nd, handle S s (.data i j env) = some nd ∧ Inv R (Function.update s i nd) := by
  have hlink := h.link i j
  cases hr : (s i).recvs j with
  | idle | received => simp [enabled, hr] at hen
  | receiving sl =>
    have hsnd := hlink.receiving sl hr
    have hposted : ((s j).sends i).posted = true := by rw [hsnd]; rfl
    obtain ⟨arr, sr, ho, hv⟩ := (h.node i).open_of_receiving hr
    obtain ⟨data, hpay, hdata⟩ := h.payload hposted (by rw [hsnd]; nofun)
    obtain ⟨nd', hrun, hok, hsends, hrecvs⟩ := NodeOk.receive ho hv hr hdata env.replyMode
    refine ⟨nd', ?_, h.update hok (fun l _ => ?_) fun l _ => ?_⟩
    · simp only [handle, hpay, Option.bind_some, hrun]
    · rw [hsends]; exact h.link l i
    · rw [hrecvs]
      by_cases hl : l = j
      · subst hl; rw [update_self]; exact Link.of_received hposted
      · rw [update_of_ne hl]; exact h.link i l

theorem Inv.sent (h : Inv R s) (hen : enabled S s (.sent i j env) = true) :
    ∃ nd, handle S s (.sent i j env) = some nd ∧ Inv R (Function.update s i nd) := by
  simp only [enabled] at hen
  have hp := SendState.posted_of_mayComplete hen
  have hc := SendState.not_completed_of_mayComplete hen
  obtain ⟨hj, -, arr, sr, ho, hv⟩ := (h.node i).open_of_sending hp hc
  obtain ⟨nd', hrun, hok, hsends, hrecvs⟩ :=
    NodeOk.settle (R := R) (ho.sent hj hp hc) hv env.replyMode
  refine ⟨nd', hrun, h.update hok (fun l _ => ?_) fun l _ => ?_⟩
  · rw [hsends]
    show Link (Function.update (s i).sends j ((s i).sends j).complete l) _
    by_cases hl : l = j
    · subst hl
      rw [update_self]
      exact (h.link l i).complete hen
    · rw [update_of_ne hl]; exact h.link l i
  · rw [hrecvs]; exact h.link i l

theorem Inv.recvs_idle (h : Inv R s) (hsc : (s i).scattered = false) (l : Fin N) :
    (s l).recvs i = .idle := by
  by_contra hne
  have hp := (h.link l i).posted hne
  cases h.node i with
  | untouched hu _ => rw [hu.sends] at hp; cases hp
  | opened ho _ =>
    by_cases hl : l = i
    · subst hl; rw [ho.sends.self] at hp; cases hp
    · rw [((ho.sends.posted l hl).1 hp).1] at hsc; cases hsc
  | closed hc _ => rw [hc.scattered] at hsc; cases hsc

theorem Inv.scatter (h : Inv R s) (hsc : (s i).scattered = false) (ho : Open S i 0 [] arr sr nd)
    (hnd : nd.scattered = false) (hrecvs : nd.recvs = (s i).recvs) {b : Buf w}
    (hb : sr.resultVector = some b) (hbc : AgreeOn S.length b (S.contribution i))
    (hv : R.opened i { view sr nd with scattered := true }) (env : Env N) :
    ∃ nd', allreduceScatter (S.config i) env.peerMode env.replyMode (peers i) nd = some nd' ∧
      Inv R (Function.update s i nd') := by
  obtain ⟨sr₁, nd₁, heq, hopen, hview, hr₁, hf⟩ :=
    ho.scatter hnd hb hbc env.peerMode env.replyMode
  obtain ⟨nd', hrun, hok, hs', hr'⟩ := NodeOk.settle (R := R) hopen (hview ▸ hv) env.replyMode
  refine ⟨nd', heq.trans hrun, h.update hok (fun l _ => ?_) fun l _ => ?_⟩
  · rw [h.recvs_idle hsc l, hs']
    exact Link.idle (hf l)
  · rw [hr', hr₁, hrecvs]; exact h.link i l

end Doca.AllReduce
