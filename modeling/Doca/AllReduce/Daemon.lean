import Doca.AllReduce.Replies

/-!
# All-reduce through daemons

Daemons that are peers of each other, each with clients of its own, for any number of operation
ids in any interleaving.

* `Attached` — the clients whose vector has been reduced into the result vector, in order.
* `daemonInv` — what a daemon keeps besides the exchange with its peers: the attached clients, and
  after the exchange the replies (`Replying`).
-/

namespace Doca.AllReduce

open Doca.Lib Finset Function

variable {N w : Nat} {S : Setup N w} {s : State N w} {i j : Fin N}

/-! ## Clients of a daemon -/

structure Attached (S : Setup N w) (i : Fin N) (cl : List Nat)
    (clientRecvs : Nat → RecvState Unit) : Prop where
  nodup : cl.Nodup
  mem : ∀ c, c ∈ cl ↔ clientRecvs c = .received
  bound : ∀ c, clientRecvs c ≠ .idle → c < S.numClients i

def Partial (S : Setup N w) (i : Fin N) (cl : List Nat) : Option (Buf w) → Prop
  | none => cl = []
  | some b => cl ≠ [] ∧ AgreeOn S.length b (reduction S.operation cl.toFinset (S.clientVector i))

namespace Attached

variable {cl : List Nat} {clientRecvs : Nat → RecvState Unit} {c : Nat}

section

variable (h : Attached S i cl clientRecvs)

include h

theorem subset : cl.toFinset ⊆ range (S.numClients i) := by
  intro c hc
  rw [List.mem_toFinset, h.mem] at hc
  exact mem_range.2 (h.bound c (by rw [hc]; nofun))

theorem card : cl.toFinset.card = cl.length :=
  List.toFinset_card_of_nodup h.nodup

theorem eq_range (hlen : cl.length = S.numClients i) : cl.toFinset = range (S.numClients i) :=
  eq_of_subset_of_card_le h.subset (by rw [card_range, h.card, hlen])

theorem length_lt (hlt : c < S.numClients i)
    (hne : clientRecvs c ≠ .received) : cl.length < S.numClients i := by
  have hss : cl.toFinset ⊂ range (S.numClients i) := by
    refine (ssubset_iff_of_subset h.subset).2 ⟨c, mem_range.2 hlt, ?_⟩
    rw [List.mem_toFinset, h.mem]
    exact hne
  have := card_lt_card hss
  rwa [card_range, h.card] at this

theorem arrive (hlt : c < S.numClients i) (hne : clientRecvs c ≠ .received) :
    Attached S i cl (update clientRecvs c (.receiving ())) := by
  refine ⟨h.nodup, fun c' => ?_, fun c' hc' => ?_⟩
  · by_cases hcc : c' = c
    · subst hcc; simp [h.mem, hne]
    · rw [update_of_ne hcc, h.mem]
  · by_cases hcc : c' = c
    · exact hcc ▸ hlt
    · rw [update_of_ne hcc] at hc'
      exact h.bound c' hc'

theorem attach (hlt : c < S.numClients i) (hne : clientRecvs c ≠ .received) :
    Attached S i (cl ++ [c]) (update clientRecvs c .received) := by
  have hc : c ∉ cl := by rw [h.mem]; exact hne
  refine ⟨List.Nodup.append h.nodup (List.nodup_singleton c) (by simpa using hc), fun c' => ?_,
    fun c' hc' => ?_⟩
  · by_cases hcc : c' = c
    · subst hcc; simp
    · simp [hcc, h.mem]
  · by_cases hcc : c' = c
    · exact hcc ▸ hlt
    · rw [update_of_ne hcc] at hc'
      exact h.bound c' hc'

end

theorem reduction_append (hc : c ∉ cl) (k : Nat) :
    reduction S.operation (cl ++ [c]).toFinset (S.clientVector i) k =
      S.operation.apply (reduction S.operation cl.toFinset (S.clientVector i) k)
        (S.clientVector i c k) := by
  have hset : (cl ++ [c]).toFinset = insert c cl.toFinset := by
    ext x; simp
  rw [reduction, hset, fold_insert (by simpa using hc)]
  exact Std.Commutative.comm _ _

end Attached

structure NoReplies (replies : Nat → SendState w) (replyPosts : Nat → Nat)
    (replyRecvs : Nat → List (Buf w)) (removals : Nat) : Prop where
  replies : ∀ c, replies c = .idle
  posts : ∀ c, replyPosts c = 0
  recvs : ∀ c, replyRecvs c = []
  removals : removals = 0

structure DaemonOpen (S : Setup N w) (i : Fin N) (cl : List Nat) (v : LocalView w) : Prop where
  attached : Attached S i cl v.clientRecvs
  noReplies : NoReplies v.replies v.replyPosts v.replyRecvs v.removals
  list : v.allreduceRequestsList = cl
  requests : v.numAllreduceRequests = cl.length
  gathering : v.scattered = false → cl.length < S.numClients i ∧ Partial S i cl v.resultVector
  complete : v.scattered = true → cl.length = S.numClients i

theorem DaemonOpen.replying {v : LocalView w} {cl : List Nat} (h : DaemonOpen S i cl v)
    (hC : 0 < S.numClients i) (hs : v.scattered = true) {nd : Node (Fin N) w}
    {sr : SuperRequest w} {b : Buf w} (hview : view sr nd = { v with resultVector := some b })
    (hb : AgreeOn S.length b S.total) :
    sr.allreduceRequestsList = cl ∧ Replying S i 0 cl { nd with entry := some sr } := by
  simp only [view, LocalView.mk.injEq] at hview
  obtain ⟨-, hvec, hlist, hreq, -, hcr, hrep, hposts, hrecvs, hrem⟩ := hview
  have hlen := h.complete hs
  have hidle : ∀ c, nd.replies c = .idle := fun c => by rw [hrep]; exact h.noReplies.replies c
  have hcount : unsent S i cl nd.replies = S.numClients i := by
    have h0 : count (range (S.numClients i)) SendState.outstanding nd.replies = 0 :=
      count_eq_zero fun c _ => by rw [hidle c]; rfl
    rw [unsent, h0, hlen, Nat.add_zero]
  have hmem : ∀ c, c < S.numClients i → c ∈ cl := by
    intro c hc
    rw [← List.mem_toFinset, h.attached.eq_range hlen]
    exact mem_range.2 hc
  refine ⟨by rw [hlist, h.list], h.attached.nodup, fun c hc => ?_, fun c => ?_, fun c => ?_,
    fun c data d hd => ?_, fun c => .inl ?_, fun c hd => ?_, fun h0 => ?_, fun n hn => ?_⟩
  · exact h.attached.bound c (by rw [(h.attached.mem c).1 hc]; nofun)
  · simp only [hidle c]
    refine ⟨nofun, fun hc => absurd (hmem c hc.1) hc.2⟩
  · simp only [hidle c, hposts, h.noReplies.posts c]
    rfl
  · simp only [hidle c] at hd
    cases hd
  · simp only [hrecvs, h.noReplies.recvs c]
  · simp only [hidle c] at hd
    cases hd
  · simp only [hcount] at h0
    omega
  · simp only [hcount] at hn
    refine ⟨by simp only [hrem, h.noReplies.removals], sr, b, rfl, ?_, by rw [hlist, h.list], hvec, hb⟩
    rw [hreq, h.requests, hlen]
    omega

def daemonInv (S : Setup N w) (hrole : S.role = .daemon) (hC : ∀ i, 0 < S.numClients i) : RoleInv S where
  untouched i nd := Attached S i [] nd.clientRecvs ∧
    NoReplies nd.replies nd.replyPosts nd.replyRecvs nd.removals
  opened i v := ∃ cl, DaemonOpen S i cl v
  closed i nd := (∀ c, c < S.numClients i ↔ nd.clientRecvs c = .received) ∧
    (∀ c, nd.clientRecvs c ≠ .idle → c < S.numClients i) ∧ Replying S i 0 [] nd
  allocate := by
    rintro i nd hu ⟨hatt, hno⟩
    exact ⟨[], hatt, hno, rfl, rfl, fun _ => ⟨hC i, rfl⟩,
      fun hs => absurd (hu.scattered.symm.trans hs) Bool.false_ne_true⟩
  finish := by
    rintro i nd sr v b replyMode - ⟨cl, hopen⟩ hs hview - hb
    obtain ⟨hlist, hrep⟩ := hopen.replying (hC i) hs hview hb
    obtain ⟨nd', hrun, hrep', hsame⟩ := hrep.sendReplies replyMode
    have hcr : nd'.clientRecvs = v.clientRecvs := by
      rw [hsame.clientRecvs]
      exact congrArg LocalView.clientRecvs hview
    refine ⟨nd', ?_, ⟨fun c => ?_, fun c => ?_, hrep'⟩, hsame.scattered, hsame.sends, hsame.recvs⟩
    · simp only [finishOperation, Setup.config, hrole, hlist]
      exact hrun
    · rw [hcr, ← hopen.attached.mem, ← List.mem_toFinset,
        hopen.attached.eq_range (hopen.complete hs), Finset.mem_range]
    · rw [hcr]
      exact hopen.attached.bound c

variable {hrole : S.role = .daemon} {hC : ∀ i, 0 < S.numClients i} {c : Nat}

theorem daemon_init (hrole : S.role = .daemon) (hC : ∀ i, 0 < S.numClients i) :
    Inv (daemonInv S hrole hC) (State.init N w) where
  node := fun _ => .untouched ⟨rfl, rfl, rfl, rfl⟩
    ⟨⟨List.nodup_nil, fun _ => ⟨nofun, nofun⟩, fun _ h => absurd rfl h⟩,
      fun _ => rfl, fun _ => rfl, fun _ => rfl, rfl⟩
  link := fun _ _ => Link.idle nofun

/-! ## The events between a daemon and its clients -/

theorem NodeOk.open_of_missing {nd : Node (Fin N) w} (h : NodeOk (daemonInv S hrole hC) i nd)
    (hlt : c < S.numClients i) (hne : nd.clientRecvs c ≠ .received) :
    nd.scattered = false ∧ ∃ arr sr cl, superRequestGet (S.config i) nd.entry S.length none = sr ∧
      Open S i 0 [] arr sr { nd with entry := some sr } ∧ DaemonOpen S i cl (view sr nd) := by
  cases h with
  | untouched hu hr =>
    obtain ⟨cl, hd⟩ := (daemonInv S hrole hC).allocate i nd hu hr
    refine ⟨hu.scattered, _, _, cl, ?_, Open.allocate hu none, hd⟩
    rw [hu.entry]
    rfl
  | @opened arr sr ho hv =>
    obtain ⟨cl, hd⟩ := hv
    have hsc : nd.scattered = false := by
      rw [← Bool.not_eq_true]
      intro hs
      have h₁ := hd.complete hs
      have h₂ := hd.attached.length_lt hlt hne
      omega
    refine ⟨hsc, arr, sr, cl, by rw [ho.entry]; rfl, ?_, hd⟩
    exact ⟨rfl, ho.size, ho.ops, ho.live, ho.peer, ho.vector, ho.sends, ho.recvs⟩
  | closed _ hc => exact absurd ((hc.1 c).1 hlt) hne

theorem attachRequest_spec {cl : List Nat} {sr : SuperRequest w}
    (hp : Partial S i cl sr.resultVector) (hsize : sr.resultVectorSize = S.length) (hc : c ∉ cl) :
    ∃ b, attachRequest (S.config i) (S.clientVector i c) c sr = some { sr with
        numAllreduceRequests := sr.numAllreduceRequests + 1
        allreduceRequestsList := sr.allreduceRequestsList ++ [c]
        resultVector := some b } ∧
      AgreeOn S.length b (reduction S.operation (cl ++ [c]).toFinset (S.clientVector i)) := by
  cases hrv : sr.resultVector with
  | none =>
    rw [hrv] at hp
    obtain rfl : cl = [] := hp
    refine ⟨S.clientVector i c, by simp only [attachRequest, hrv], fun k _ => ?_⟩
    show _ = fold _ _ _ {c}
    rw [fold_singleton]
    exact (Std.LawfulRightIdentity.right_id _).symm
  | some b =>
    rw [hrv] at hp
    obtain ⟨b', hred, hb'⟩ := @allreduceReduce_result w (S.config i) { sr with
      numAllreduceRequests := sr.numAllreduceRequests + 1
      allreduceRequestsList := sr.allreduceRequestsList ++ [c] } b hrv (S.clientVector i c)
    simp only [hrv] at hred
    refine ⟨b', by simp only [attachRequest, hrv, hred], fun k hk => ?_⟩
    have hk' : b' k = S.operation.apply (b k) (S.clientVector i c k) := hb' k (hsize ▸ hk)
    rw [hk', hp.2 k hk, Attached.reduction_append hc]

theorem NodeOk.client_lt {nd : Node (Fin N) w} (h : NodeOk (daemonInv S hrole hC) i nd)
    (hne : nd.clientRecvs c ≠ .idle) : c < S.numClients i := by
  cases h with
  | untouched _ hr => exact hr.1.bound c hne
  | opened _ hv =>
    obtain ⟨cl, hd⟩ := hv
    exact hd.attached.bound c hne
  | closed _ hc => exact hc.2.1 c hne

theorem NodeOk.replying {nd : Node (Fin N) w} (h : NodeOk (daemonInv S hrole hC) i nd)
    (hp : (nd.replies c).posted = true ∨ 0 < nd.replyPosts c) :
    Exchanged S i nd ∧ (daemonInv S hrole hC).closed i nd := by
  have hno : NoReplies nd.replies nd.replyPosts nd.replyRecvs nd.removals → False := by
    intro hr
    rw [hr.replies, hr.posts] at hp
    rcases hp with hp | hp <;> cases hp
  cases h with
  | untouched _ hr => exact absurd hr.2 hno
  | opened _ hv =>
    obtain ⟨cl, hd⟩ := hv
    exact absurd hd.noReplies hno
  | closed hex hc => exact ⟨hex, hc⟩

section

variable (h : Inv (daemonInv S hrole hC) s)

include h

/-- **The vector of client `c` is complete.**  The last one makes the daemon scatter. -/
theorem Inv.attach (hlt : c < S.numClients i) (hne : (s i).clientRecvs c ≠ .received) (env : Env N) :
    ∃ nd, daemonRecvDataComplete (S.config i) env.peerMode env.replyMode (peers i) S.length
        (S.clientVector i c) c
        { s i with clientRecvs := Function.update (s i).clientRecvs c .received } = some nd ∧
      Inv (daemonInv S hrole hC) (Function.update s i nd) := by
  obtain ⟨hsc, arr, sr, cl, hget, ho, hd⟩ := (h.node i).open_of_missing hlt hne
  have hc : c ∉ cl := by rw [hd.attached.mem]; exact hne
  obtain ⟨hlen, hpart⟩ := hd.gathering hsc
  have hatt := hd.attached.attach hlt hne
  obtain ⟨b, hattach, hb⟩ := attachRequest_spec hpart ho.size hc
  have hlist : sr.allreduceRequestsList ++ [c] = cl ++ [c] := by
    rw [show sr.allreduceRequestsList = cl from hd.list]
  have hreq : sr.numAllreduceRequests + 1 = (cl ++ [c]).length := by
    rw [show sr.numAllreduceRequests = cl.length from hd.requests, List.length_append]
    rfl
  have ho₂ : Open S i 0 [] arr { sr with
        numAllreduceRequests := sr.numAllreduceRequests + 1
        allreduceRequestsList := sr.allreduceRequestsList ++ [c]
        resultVector := some b }
      { s i with
        clientRecvs := Function.update (s i).clientRecvs c .received
        entry := some { sr with
          numAllreduceRequests := sr.numAllreduceRequests + 1
          allreduceRequestsList := sr.allreduceRequestsList ++ [c]
          resultVector := some b } } :=
    ⟨rfl, ho.size, ho.ops, ho.live, ho.peer,
      fun hs => absurd (hsc.symm.trans hs) Bool.false_ne_true, ho.sends, ho.recvs⟩
  simp only [daemonRecvDataComplete, hget, hattach, Option.bind_some]
  by_cases hall : sr.numAllreduceRequests + 1 = (S.config i).numClients
  · rw [if_pos hall]
    have hfull : (cl ++ [c]).length = S.numClients i := hreq.symm.trans hall
    have hcontr : AgreeOn S.length b (S.contribution i) := by
      rw [hatt.eq_range hfull] at hb
      simp only [Setup.contribution, hrole]
      exact hb
    refine h.scatter hsc ho₂ hsc rfl rfl hcontr ⟨cl ++ [c], ?_⟩ env
    exact ⟨hatt, hd.noReplies, hlist, hreq, nofun, fun _ => hfull⟩
  · rw [if_neg hall]
    have hmore : (cl ++ [c]).length ≠ S.numClients i := fun hfull => hall (hreq.trans hfull)
    refine ⟨_, rfl, h.update (.opened ho₂ ⟨cl ++ [c], ?_⟩) (fun l _ => h.link l i) fun l _ => h.link i l⟩
    refine ⟨hatt, hd.noReplies, hlist, hreq, fun _ => ⟨?_, ?_, hb⟩,
      fun hs => absurd (hsc.symm.trans hs) Bool.false_ne_true⟩
    · rw [List.length_append, List.length_singleton] at hmore ⊢
      omega
    · simp

theorem Inv.clientDescriptor (hlt : c < S.numClients i) (hne : (s i).clientRecvs c ≠ .received) :
    Inv (daemonInv S hrole hC) (Function.update s i
      { s i with clientRecvs := Function.update (s i).clientRecvs c (.receiving ()) }) := by
  refine h.update ?_ (fun l _ => h.link l i) fun l _ => h.link i l
  cases h.node i with
  | untouched hu hr =>
    exact .untouched ⟨hu.entry, hu.scattered, hu.sends, hu.recvs⟩ ⟨hr.1.arrive hlt hne, hr.2⟩
  | opened ho hv =>
    obtain ⟨cl, hd⟩ := hv
    refine .opened ⟨ho.entry, ho.size, ho.ops, ho.live, ho.peer, ho.vector, ho.sends, ho.recvs⟩ ⟨cl, ?_⟩
    exact ⟨hd.attached.arrive hlt hne, hd.noReplies, hd.list, hd.requests, hd.gathering, hd.complete⟩
  | closed _ hc => exact absurd ((hc.1 c).1 hlt) hne

theorem Inv.replyArrive (hen : enabled S s (.replyArrive i c) = true) :
    ∃ nd, handle S s (.replyArrive i c) = some nd ∧
      Inv (daemonInv S hrole hC) (Function.update s i nd) := by
  simp only [enabled, decide_eq_true_eq] at hen
  obtain ⟨hex, hall, hbound, hrep⟩ := (h.node i).replying (c := c) (.inr (by omega))
  obtain ⟨hposted, hempty, data, hpay, hdata⟩ := hrep.payload hen
  refine ⟨_, by simp only [handle, hpay, Option.map_some]; rfl, ?_⟩
  refine h.update (.closed ?_ ⟨hall, hbound, hrep.arrive hposted hempty hdata⟩)
    (fun l _ => h.link l i) fun l _ => h.link i l
  exact ⟨hex.scattered, hex.sends, hex.completed, hex.self, hex.received⟩

theorem Inv.replySent (hen : enabled S s (.replySent i c) = true) :
    ∃ nd, handle S s (.replySent i c) = some nd ∧ Inv (daemonInv S hrole hC) (Function.update s i nd) := by
  simp only [enabled] at hen
  obtain ⟨hex, hall, hbound, hrep⟩ :=
    (h.node i).replying (.inl (SendState.posted_of_mayComplete hen))
  obtain ⟨nd, hrun, hrep', hsame⟩ := (hrep.sent hen).complete
  refine ⟨nd, hrun, h.update (.closed ?_ ⟨?_, ?_, hrep'⟩) (fun l _ => ?_) fun l _ => ?_⟩
  · exact ⟨hsame.scattered.trans hex.scattered, hsame.sends ▸ hex.sends,
      hsame.sends ▸ hex.completed, hsame.recvs ▸ hex.self, hsame.recvs ▸ hex.received⟩
  · rw [hsame.clientRecvs]; exact hall
  · rw [hsame.clientRecvs]; exact hbound
  · rw [hsame.sends]; exact h.link l i
  · rw [hsame.recvs]; exact h.link i l

/-- **No callback fails**, and every one keeps the invariant. -/
theorem daemonStep_ok {ev : Event N w} (hen : enabled S s ev = true) (hprompt : Prompt s ev) :
    ∃ s', step S s ev = some s' ∧ Inv (daemonInv S hrole hC) s' := by
  have hok : ∃ nd, handle S s ev = some nd ∧ Inv (daemonInv S hrole hC) (update s ev.node nd) := by
    cases ev with
    | submit i env => simp [enabled, hrole] at hen
    | arrive i j vector env => exact h.arrive hen hprompt
    | data i j env => exact h.data hen
    | sent i j env => exact h.sent hen
    | clientArrive i c eager env =>
      simp only [enabled, Bool.and_eq_true, decide_eq_true_eq] at hen
      obtain ⟨⟨-, hlt⟩, hidle⟩ := hen
      have hne : (s i).clientRecvs c ≠ .received := by rw [hidle]; simp
      cases eager with
      | true => exact h.attach hlt hne env
      | false => exact ⟨_, rfl, h.clientDescriptor hlt hne⟩
    | clientData i c env =>
      simp only [enabled, decide_eq_true_eq] at hen
      exact h.attach ((h.node i).client_lt (by rw [hen]; simp)) (by rw [hen]; simp) env
    | replyArrive i c => exact h.replyArrive hen
    | replySent i c => exact h.replySent hen
  obtain ⟨nd, hhandle, hinv⟩ := hok
  exact ⟨_, by simp only [step, hen, if_true, hhandle, Option.map_some], hinv⟩

end

/-! ## States in which nothing is left to happen -/

theorem SendState.completed_of_not_mayComplete {x : SendState w} (hp : x.posted = true)
    (hm : x.mayComplete true = false) : x.completed = true := by
  cases x with
  | idle => cases hp
  | eager data d | rndv d => simpa [SendState.mayComplete, SendState.completed] using hm

theorem stuck_clientRecvs (hrole : S.role = .daemon) (hstuck : ∀ ev, enabled S s ev = false)
    (hlt : c < S.numClients i) : (s i).clientRecvs c = .received := by
  let env : Env N := ⟨fun _ => .eager, fun _ => .eager⟩
  cases hr : (s i).clientRecvs c with
  | idle => simpa [enabled, hrole, hlt, hr] using hstuck (.clientArrive i c true env)
  | receiving u => simpa [enabled, hr] using hstuck (.clientData i c env)
  | received => rfl

section Stuck

variable (h : Inv (daemonInv S hrole hC) s) (hstuck : ∀ ev, enabled S s ev = false)

include h hstuck

theorem stuck_scattered (i : Fin N) : (s i).scattered = true := by
  have hall : ∀ c, c < S.numClients i → (s i).clientRecvs c = .received :=
    fun c hlt => stuck_clientRecvs hrole hstuck hlt
  cases h.node i with
  | untouched _ hr => exact absurd ((hr.1.mem 0).2 (hall 0 (hC i))) List.not_mem_nil
  | opened _ hv =>
    obtain ⟨cl, hd⟩ := hv
    by_contra hsc
    have hlen := (hd.gathering (Bool.not_eq_true _ ▸ hsc)).1
    have hsub : range (S.numClients i) ⊆ cl.toFinset := by
      intro c hc
      rw [List.mem_toFinset, hd.attached.mem]
      exact hall c (mem_range.1 hc)
    have := card_le_card hsub
    rw [card_range, hd.attached.card] at this
    omega
  | closed hex _ => exact hex.scattered

theorem stuck_posted (hj : j ≠ i) : ((s j).sends i).posted = true := by
  have hsc := stuck_scattered h hstuck j
  cases h.node j with
  | untouched hu _ => rw [hu.scattered] at hsc; cases hsc
  | opened ho _ => exact (ho.sends.posted i hj.symm).2 ⟨hsc, List.not_mem_nil⟩
  | closed hex _ => exact SendState.posted_of_completed (hex.completed i hj.symm)

theorem stuck_received (hj : j ≠ i) : (s i).recvs j = .received := by
  let env : Env N := ⟨fun _ => .eager, fun _ => .eager⟩
  cases hr : (s i).recvs j with
  | idle =>
    simpa [enabled, hj, stuck_posted h hstuck hj, hr] using hstuck (.arrive i j (fun _ => 0) env)
  | receiving sl => simpa [enabled, hr] using hstuck (.data i j env)
  | received => rfl

theorem stuck_completed (hj : j ≠ i) : ((s i).sends j).completed = true := by
  let env : Env N := ⟨fun _ => .eager, fun _ => .eager⟩
  refine SendState.completed_of_not_mayComplete (stuck_posted h hstuck hj.symm) ?_
  have := hstuck (.sent i j env)
  rwa [enabled, stuck_received h hstuck hj.symm] at this

theorem stuck_closed (i : Fin N) : Replying S i 0 [] (s i) := by
  cases h.node i with
  | untouched hu _ =>
    have := stuck_scattered h hstuck i
    rw [hu.scattered] at this
    cases this
  | opened ho _ =>
    have hops := ho.ops
    have hr : count univ RecvState.isReceived (s i).recvs = N - 1 := by
      have := (count_eq_iff (p := RecvState.isReceived) (f := (s i).recvs) (i := i)
        (by rw [ho.recvs.self]; rfl)).2 fun j hj => by rw [stuck_received h hstuck hj]; rfl
      rwa [Fintype.card_fin] at this
    have hs : count univ SendState.completed (s i).sends = N - 1 := by
      have := (count_eq_iff (p := SendState.completed) (f := (s i).sends) (i := i)
        (by rw [ho.sends.self]; rfl)).2 fun j hj => stuck_completed h hstuck hj
      rwa [Fintype.card_fin] at this
    have hsc := stuck_scattered h hstuck i
    rw [hr, hs, hsc, Bool.toNat_true] at hops
    have := ho.live
    omega
  | closed _ hc => exact hc.2.2

/-- **When nothing is left to happen, every client has its reply** and the super request is gone
    for good. -/
theorem stuck_replied (i : Fin N) : (s i).entry = none ∧ (s i).removals = 1 ∧
      ∀ c, c < S.numClients i → ∃ b, (s i).replyRecvs c = [b] := by
  have hrep := stuck_closed h hstuck i
  have hposted : ∀ c, c < S.numClients i → ((s i).replies c).posted = true :=
    fun c hlt => (hrep.posted c).2 ⟨hlt, List.not_mem_nil⟩
  have hrecv : ∀ c, c < S.numClients i → ∃ b, (s i).replyRecvs c = [b] := by
    intro c hlt
    rcases hrep.recvs c with h0 | ⟨-, b, hb, -⟩
    · simpa [enabled, h0, hrep.posts c, hposted c hlt] using hstuck (.replyArrive i c)
    · exact ⟨b, hb⟩
  have hdone : ∀ c ∈ range (S.numClients i), ((s i).replies c).outstanding = false := by
    intro c hc
    have hlt := mem_range.1 hc
    obtain ⟨b, hb⟩ := hrecv c hlt
    have := hstuck (.replySent i c)
    rw [enabled, hb] at this
    simp [SendState.outstanding, SendState.completed_of_not_mayComplete (hposted c hlt) this]
  obtain ⟨hentry, hrem⟩ := hrep.gone (by simp [unsent, count_eq_zero hdone])
  exact ⟨hentry, hrem, hrecv⟩

end Stuck

end Doca.AllReduce
