import Doca.Lib.Interleaving
import Doca.Psp.Tunnels

/-!
# PSP gateways: what one sends, the other can decrypt and admits

Two gateways with one virtual address each and the ingress ACL enabled.  Tunnel requests run in both
directions, any number at a time and each in its own threads: a gateway serves requests of its peer
while requests of its own are under way.  The threads of a gateway share its sessions without a lock;
a thread first assigns to the session of the peer and then inserts the flow that the session describes.

* `Phase` — how far a request has come, at the gateway that made it or at its peer.
* `duoStep` — one request moves on.  Requests and responses may get lost, and every insertion may fail.
* `callMoves` — the moves of one request in a row, which are the calls of the service
  (`requestTunnelToHost_moves`, `requestTunnelParams_moves`).
* `exclusive` — a thread assigns to a session only while no other thread of its gateway is between its
  assignments and the insertion.

Principal results: `entries_agreed` for runs whose steps are all `exclusive`, `entries_disagree` without
that condition.
-/

namespace Doca.Psp

open Doca.Lib Function List

variable {K : Type} [DecidableEq K]

/-! ## Two gateways -/

inductive Side where
  | a
  | b
  deriving DecidableEq

def Side.other : Side → Side
  | .a => .b
  | .b => .a

structure DuoConfig where
  cfg : Side → PspConfig
  vip : Side → UInt32
  acl : ∀ i, (cfg i).disableIngressAcl = false

inductive Phase (K : Type) where
  /-- `request_tunnel_to_host` has generated the reverse parameters -/
  | generated (request : TunnelRequest K) (reverse : TunnelParams)
  /-- Then it has assigned to the session of the peer -/
  | assigned (request : TunnelRequest K) (reverse : TunnelParams)
  | sent (request : TunnelRequest K)
  /-- `RequestTunnelParams` of the peer has generated the parameters of the response -/
  | served (request : TunnelRequest K) (params : TunnelParams)
  /-- Then it has assigned to the session of the requesting gateway -/
  | servedAssigned (request : TunnelRequest K) (params : TunnelParams)
  /-- Then it has opened the ACL -/
  | opened (request : TunnelRequest K) (params : TunnelParams)
  /-- Then it is in front of `add_encrypt_entry` for the return flow -/
  | returning (params reverse : TunnelParams)
  | answered (params : TunnelParams)
  /-- `request_tunnel_to_host` is in front of `add_encrypt_entry` -/
  | finishing (params : TunnelParams)
  | ended

structure Call (K : Type) where
  caller : Side
  phase : Phase K

structure Made where
  spi : UInt32
  key : List UInt8
  ver : UInt32
  deriving DecidableEq

def TunnelParams.made (p : TunnelParams) : Made := ⟨p.spi, p.encryptionKey, p.pspVersion⟩

structure Duo (K : Type) where
  node : Side → Gateway K
  generated : Side → List Made
  calls : List (Call K)

def Duo.init : Duo K := ⟨fun _ => Gateway.fresh, fun _ => [], []⟩

inductive Move where
  | assign
  | insert (result : DocaError)
  | serve (gen : GenEnv)
  | serveAssign
  | serveInsert (result : DocaError)
  | serveBegin
  | serveEnd (env : CreateEnv)
  | finishBegin
  | finishEnd (env : CreateEnv)
  | lose

inductive DuoEvent where
  | start (caller : Side) (supplyReverseParams : Bool) (gen : GenEnv)
  | move (n : Nat) (m : Move)

/-- A move: the gateway it runs on, that gateway afterwards, the pairs generated on it, and the next
    phase. -/
structure Outcome (K : Type) where
  side : Side
  gateway : Gateway K
  made : List Made
  phase : Phase K

section Step

variable (c : DuoConfig) (inet : Inet K)

def startCall (i : Side) (supplyReverseParams : Bool) (gen : GenEnv) (node : Side → Gateway K) :
    Outcome K :=
  let s := { node i with nextRequestId := (node i).nextRequestId + 1 }
  let request : TunnelRequest K := ⟨s.nextRequestId, [(c.cfg i).defaultPspProtoVer],
    inet.ntop (c.vip i), inet.ntop (c.vip i.other), none⟩
  if supplyReverseParams then
    if c.vip i = 0 then ⟨i, s, [], .ended⟩
    else
      match generateTunnelParams (c.cfg i) gen (c.cfg i).defaultPspProtoVer with
      | .error _ => ⟨i, s, [], .ended⟩
      | .ok reverse =>
        ⟨i, s, [reverse.made], .generated { request with reverseParams := some reverse } reverse⟩
  else ⟨i, s, [], .sent request⟩

/-- A move of a request of gateway `i`; `none` if it is not that far, or if its session has been erased
    by another thread. -/
def callMove (i : Side) (node : Side → Gateway K) : Phase K → Move → Option (Outcome K)
  | .generated request reverse, .assign =>
    some ⟨i, assignIngress (inet.ntop (c.vip i.other)) reverse.spi (c.vip i.other) (node i), [],
      .assigned request reverse⟩
  | .assigned request _, .insert result =>
    let k := inet.ntop (c.vip i.other)
    if (node i).session? k = none then none
    else
      let (result, s) := addIngressAclEntry (c.cfg i) result k (node i)
      some ⟨i, s, [], if result ≠ .success then .ended else .sent request⟩
  | .sent request, .serve gen =>
    match selectPspVersion request.pspVersionsAccepted with
    | none => some ⟨i.other, node i.other, [], .ended⟩
    | some ver =>
      match generateTunnelParams (c.cfg i.other) gen ver with
      | .error _ => some ⟨i.other, node i.other, [], .ended⟩
      | .ok params => some ⟨i.other, node i.other, [params.made], .served request params⟩
  | .served request params, .serveAssign =>
    let k := request.virtSrcIp
    match inet.pton k with
    | none =>
      some ⟨i.other, (node i.other).setSession k
        { (node i.other).session k with spiIngress := params.spi }, [], .ended⟩
    | some srcVip =>
      some ⟨i.other, assignIngress k params.spi srcVip (node i.other), [], .servedAssigned request params⟩
  | .servedAssigned request params, .serveInsert result =>
    let k := request.virtSrcIp
    if (node i.other).session? k = none then none
    else
      let (result, s) := addIngressAclEntry (c.cfg i.other) result k (node i.other)
      some ⟨i.other, s, [], if result ≠ .success then .ended else .opened request params⟩
  | .opened request params, .serveBegin =>
    match request.reverseParams with
    | none => some ⟨i.other, node i.other, [], .answered params⟩
    | some reverse =>
      match inet.pton request.virtSrcIp with
      | none => some ⟨i.other, node i.other, [], .ended⟩
      | some vip =>
        match beginFlow (c.cfg i.other) inet vip reverse (node i.other) with
        | (.error _, s) => some ⟨i.other, s, [], .ended⟩
        | (.ok _, s) => some ⟨i.other, s, [], .returning params reverse⟩
  | .returning params reverse, .serveEnd env =>
    let k := inet.ntop (c.vip i)
    if (node i.other).session? k = none then none
    else
      let (result, s) := endFlow env k reverse.encryptionKey (node i.other)
      some ⟨i.other, s, [], if result ≠ .success then .ended else .answered params⟩
  | .answered params, .finishBegin =>
    match beginFlow (c.cfg i) inet (c.vip i.other) params (node i) with
    | (.error _, s) => some ⟨i, s, [], .ended⟩
    | (.ok _, s) => some ⟨i, s, [], .finishing params⟩
  | .finishing params, .finishEnd env =>
    let k := inet.ntop (c.vip i.other)
    if (node i).session? k = none then none
    else
      let (_, s) := endFlow env k params.encryptionKey (node i)
      some ⟨i, s, [], .ended⟩
  | .sent _, .lose => some ⟨i, node i, [], .ended⟩
  | .answered _, .lose => some ⟨i, node i, [], .ended⟩
  | _, _ => none

def Duo.after (d : Duo K) (o : Outcome K) (calls : List (Call K)) : Duo K :=
  ⟨Function.update d.node o.side o.gateway,
    Function.update d.generated o.side (d.generated o.side ++ o.made), calls⟩

def duoStep (d : Duo K) : DuoEvent → Option (Duo K)
  | .start i supplyReverseParams gen =>
    let o := startCall c inet i supplyReverseParams gen d.node
    some (d.after o (d.calls ++ [⟨i, o.phase⟩]))
  | .move n m =>
    match d.calls[n]? with
    | none => none
    | some call =>
      match callMove c inet call.caller d.node call.phase m with
      | none => none
      | some o => some (d.after o (d.calls.set n ⟨call.caller, o.phase⟩))

end Step

/-! ## Exclusive access to a session -/

/-- The gateway on which the request is between its assignments to a session and the insertion. -/
def Call.holds (call : Call K) : Option Side :=
  match call.phase with
  | .assigned _ _ | .finishing _ => some call.caller
  | .servedAssigned _ _ | .returning _ _ => some call.caller.other
  | _ => none

def Call.assigns (call : Call K) : Move → Option Side
  | .assign | .finishBegin => some call.caller
  | .serveAssign | .serveBegin => some call.caller.other
  | _ => none

def exclusive (d : Duo K) : DuoEvent → Bool
  | .start _ _ _ => true
  | .move n m =>
    match d.calls[n]? with
    | none => true
    | some call =>
      match call.assigns m with
      | none => true
      | some i => d.calls.all fun other => other.holds ≠ some i

/-! ## Agreement -/

/-- Every encrypt entry uses one resource; its SPI and key were generated by the peer for the version of
    the entry, the key has its length, and the ACL of the peer has an entry for the SPI and the address
    of this gateway. -/
def Agreed (c : DuoConfig) (d : Duo K) : Prop :=
  ∀ i, ∀ e ∈ (d.node i).egress, (∃ r ∈ (d.node i).resources, r.id = e.cryptoId) ∧
    ∀ r ∈ (d.node i).resources, r.id = e.cryptoId →
      ⟨e.spi, r.key, e.ver⟩ ∈ d.generated i.other ∧ 8 * r.key.length = keyLengthBits e.ver ∧
        r.keyBits = keyLengthBits e.ver ∧ ⟨e.spi, c.vip i⟩ ∈ (d.node i.other).acl

/-! ## What the functions do -/

section Functions

variable {s s' : Gateway K} {cfg : PspConfig} {inet : Inet K} {vip : UInt32} {params : TunnelParams}

def IdsDrawn (s : Gateway K) : Prop := ∀ r ∈ s.resources, r.id.toNat < s.nextCryptoId.toNat

variable (k : K)

/-- A session that describes a flow with the parameters, with an id that has not been used yet. -/
def FlowReady (params : TunnelParams) (s : Gateway K) : Prop :=
  ∃ x, s.session? k = some x ∧ x.spiEgress = params.spi ∧ x.pspProtoVer = params.pspVersion ∧
    x.cryptoId.toNat < s.nextCryptoId.toNat ∧ ∀ r ∈ s.resources, r.id ≠ x.cryptoId

variable (spi srcVip : UInt32)

def AclReady (s : Gateway K) : Prop :=
  ∃ x, s.session? k = some x ∧ x.spiIngress = spi ∧ x.srcVip = srcVip

structure FlowsKept (s s' : Gateway K) : Prop where
  acl : s'.acl = s.acl
  egress : s'.egress = s.egress
  resources : s'.resources = s.resources
  next : s.nextCryptoId.toNat ≤ s'.nextCryptoId.toNat

theorem Gateway.session?_setSession (x : PspSession) (s : Gateway K) :
    (s.setSession k x).session? k = some x := by
  rw [Gateway.session?_put rfl, if_pos rfl]

theorem assignIngress_aclReady (s : Gateway K) :
    AclReady k spi srcVip (assignIngress k spi srcVip s) :=
  ⟨_, Gateway.session?_setSession .., rfl, rfl⟩

theorem assignIngress_kept (s : Gateway K) :
    FlowsKept s (assignIngress k spi srcVip s) := ⟨rfl, rfl, rfl, Nat.le_refl _⟩

theorem beginFlow_spec (cfg : PspConfig) (inet : Inet K) (vip : UInt32) (params : TunnelParams)
    (s : Gateway K) :
    FlowsKept s (beginFlow cfg inet vip params s).2 ∧
      (IdsDrawn s → (beginFlow cfg inet vip params s).1 = .ok () →
        FlowReady (inet.ntop vip) params (beginFlow cfg inet vip params s).2) := by
  have stays : ∀ e : DocaError, FlowsKept s s ∧ (IdsDrawn s →
      (Except.error e : Except DocaError Unit) = .ok () → FlowReady (inet.ntop vip) params s) := by
    intro e
    refine ⟨⟨rfl, rfl, rfl, Nat.le_refl _⟩, fun _ h => ?_⟩
    cases h
  unfold beginFlow
  dsimp only
  split
  · exact stays _
  split
  · exact stays _
  rcases nextCryptoId_cases cfg s with ⟨-, hnone⟩ | ⟨hroom, hid, hdraw⟩
  · rw [hnone]
    dsimp only
    rw [if_pos rfl]
    exact stays _
  · have hnext : (s.nextCryptoId + 1).toNat = s.nextCryptoId.toNat + 1 := by
      have hle := UInt32.le_iff_toNat_le.mp hroom
      have hmax := cfg.max_lt
      rw [UInt32.toNat_add, UInt32.toNat_one]
      omega
    have hgrow : s.nextCryptoId.toNat ≤ (s.nextCryptoId + 1).toNat := by omega
    rw [hdraw]
    dsimp only
    rw [if_neg hid]
    cases params.macAddr with
    | none => exact ⟨⟨rfl, rfl, rfl, hgrow⟩, fun _ h => by cases h⟩
    | some mac =>
      cases params.ipAddr with
      | none => exact ⟨⟨rfl, rfl, rfl, hgrow⟩, fun _ h => by cases h⟩
      | some pip =>
        refine ⟨⟨rfl, rfl, rfl, hgrow⟩, fun hdrawn _ => ?_⟩
        dsimp only [assignEgress]
        simp only [Gateway.session_setSession, Gateway.setSession_setSession]
        refine ⟨_, Gateway.session?_setSession .., rfl, rfl, ?_, ?_⟩
        · show s.nextCryptoId.toNat < (s.nextCryptoId + 1).toNat
          omega
        · intro r hr heq
          have hlt := hdrawn r hr
          have heq : r.id = s.nextCryptoId := heq
          rw [heq] at hlt
          exact Nat.lt_irrefl _ hlt

/-- The end of a flow adds at most one resource, with the id of the session, and if it succeeds one
    entry with that resource. -/
theorem endFlow_spec {k : K} {x : PspSession} (env : CreateEnv) (key : List UInt8)
    (hx : s.session? k = some x) :
    let o := endFlow env k key s
    o.2.acl = s.acl ∧ o.2.nextCryptoId = s.nextCryptoId ∧
      ((o.2.egress = s.egress ∧ (o.2.resources = s.resources ∨ o.2.resources = s.resources ++
          [⟨x.cryptoId, if x.pspProtoVer = 0 then 128 else 256, key⟩])) ∨
        ∃ e : EncryptEntry, o.2.egress = s.egress ++ [e] ∧ e.cryptoId = x.cryptoId ∧
          e.spi = x.spiEgress ∧ e.ver = x.pspProtoVer ∧ o.2.resources = s.resources ++
            [⟨x.cryptoId, if x.pspProtoVer = 0 then 128 else 256, key⟩]) := by
  have hsession : s.session k = x := by
    rw [Gateway.session, hx]
    rfl
  unfold endFlow addEncryptEntry
  rw [hsession]
  dsimp only
  split
  · exact ⟨rfl, rfl, .inl ⟨rfl, .inl rfl⟩⟩
  · split
    · exact ⟨rfl, rfl, .inl ⟨rfl, .inr rfl⟩⟩
    · exact ⟨rfl, rfl, .inr ⟨_, rfl, rfl, rfl, rfl, rfl⟩⟩

theorem addIngressAclEntry_spec {k : K} {spi srcVip : UInt32} (result : DocaError)
    (hacl : cfg.disableIngressAcl = false) (hready : AclReady k spi srcVip s) :
    let o := addIngressAclEntry cfg result k s
    s.acl ⊆ o.2.acl ∧ o.2.egress = s.egress ∧ o.2.resources = s.resources ∧
      o.2.nextCryptoId = s.nextCryptoId ∧ (o.1 = .success → ⟨spi, srcVip⟩ ∈ o.2.acl) := by
  obtain ⟨x, hx, rfl, rfl⟩ := hready
  have hsession : s.session k = x := by
    rw [Gateway.session, hx]
    rfl
  unfold addIngressAclEntry
  rw [hacl, hsession, if_neg Bool.false_ne_true]
  split
  · rename_i hr
    exact ⟨List.Subset.refl _, rfl, rfl, rfl, fun h => absurd h hr⟩
  · refine ⟨subset_append_left _ _, rfl, rfl, rfl, fun _ => ?_⟩
    exact mem_append_right _ (mem_singleton_self _)

theorem generateTunnelParams_ok {gen : GenEnv} {ver : UInt32}
    (h : generateTunnelParams cfg gen ver = .ok params) :
    params.pspVersion = ver ∧ params.encryptionKey.length = keyLengthBits ver / 8 := by
  unfold generateTunnelParams at h
  split at h
  · cases h
  split at h
  · cases h
  split at h
  · cases h
  · cases h
    exact ⟨rfl, load_length _ _ _⟩

theorem keyLengthBits_of_supported {ver : UInt32} (h : isPspVerSupported ver = true) :
    8 * (keyLengthBits ver / 8) = keyLengthBits ver ∧
      (if ver = 0 then 128 else 256) = keyLengthBits ver := by
  have hver : ver = 0 ∨ ver = 1 := by simpa [isPspVerSupported] using h
  rcases hver with rfl | rfl <;> exact ⟨rfl, rfl⟩

end Functions

/-! ## The moves of one request in a row -/

section Alone

variable (c : DuoConfig) (inet : Inet K) (i : Side)

/-- Moves of a request of gateway `i` with no other move in between: the gateways and the phase. -/
def callMoves : (Side → Gateway K) → Phase K → List Move → Option ((Side → Gateway K) × Phase K)
  | node, phase, [] => some (node, phase)
  | node, phase, m :: ms =>
    match callMove c inet i node phase m with
    | none => none
    | some o => callMoves (update node o.side o.gateway) o.phase ms

/-- The phase behind `prepareRequest`, behind the remote call, and behind `requestTunnelParams`. -/
def Phase.prepared : Except DocaError (TunnelRequest K) → Phase K
  | .ok request => .sent request
  | .error _ => .ended

def Phase.replied : Phase K → Option TunnelParams → Phase K
  | .sent _, some params => .answered params
  | phase, _ => phase

def Phase.responded : GrpcStatus → Option TunnelParams → Phase K
  | .ok, some params => .answered params
  | _, _ => .ended


variable {inet} in
theorem beginFlow_error {cfg : PspConfig} {vip : UInt32} {params : TunnelParams} {s s' : Gateway K}
    {e : DocaError} (h : beginFlow cfg inet vip params s = (.error e, s')) : e ≠ .success := by
  unfold beginFlow at h
  dsimp only at h
  repeat' split at h
  all_goals cases h
  all_goals decide

variable {inet} in
theorem beginFlow_session {cfg : PspConfig} {vip : UInt32} {params : TunnelParams} {s s' : Gateway K}
    (h : beginFlow cfg inet vip params s = (.ok (), s')) : s'.session? (inet.ntop vip) ≠ none := by
  unfold beginFlow at h
  dsimp only at h
  repeat' split at h
  all_goals cases h
  rw [Gateway.session?_setSession]
  exact Option.some_ne_none _

theorem assignIngress_session (k : K) (spi srcVip : UInt32) (s : Gateway K) :
    (assignIngress k spi srcVip s).session? k ≠ none := by
  rw [assignIngress, Gateway.session?_setSession]
  exact Option.some_ne_none _

variable (node : Side → Gateway K)

theorem prepareRequest_moves (gen : GenEnv) (acl : DocaError) {host : PspHost}
    (hhost : host.vip = c.vip i.other) (rev : Bool) :
    ∃ ms, callMoves c inet i (update node i (startCall c inet i rev gen node).gateway)
        (startCall c inet i rev gen node).phase ms =
      some (update node i (prepareRequest (c.cfg i) inet gen acl host (c.vip i) rev (node i)).2,
        .prepared (prepareRequest (c.cfg i) inet gen acl host (c.vip i) rev (node i)).1) := by
  unfold startCall prepareRequest
  cases rev with
  | false =>
    refine ⟨[], ?_⟩
    rw [hhost]
    rfl
  | true =>
    dsimp only
    rw [if_pos rfl, if_pos rfl, hhost]
    by_cases hzero : c.vip i = 0
    · rw [if_pos hzero, if_pos hzero]
      exact ⟨[], rfl⟩
    rw [if_neg hzero, if_neg hzero]
    cases generateTunnelParams (c.cfg i) gen (c.cfg i).defaultPspProtoVer with
    | error e => exact ⟨[], rfl⟩
    | ok params =>
      refine ⟨[.assign, .insert acl], ?_⟩
      simp only [callMoves, callMove, update_self, update_idem, c.acl i, Bool.false_eq_true, if_false,
        assignIngress_session]
      split <;> rfl

theorem createTunnelFlow_moves (env : CreateEnv) (params : TunnelParams) :
    ∃ ms, callMoves c inet i node (.answered params) ms =
      some (update node i (createTunnelFlow (c.cfg i) inet env (c.vip i.other) params (node i)).2,
        .ended) := by
  unfold createTunnelFlow
  rcases hbegin : beginFlow (c.cfg i) inet (c.vip i.other) params (node i) with ⟨r, s⟩
  cases r with
  | error e => exact ⟨[.finishBegin], by simp [callMoves, callMove, hbegin]⟩
  | ok u =>
    refine ⟨[.finishBegin, .finishEnd env], ?_⟩
    simp [callMoves, callMove, hbegin, beginFlow_session hbegin]

/-- **The moves of a request that has its gateway for itself are a call of `request_tunnel_to_host`**:
    those up to the remote call, and those behind it. -/
theorem requestTunnelToHost_moves (env : RequestEnv) {host : PspHost}
    (hhost : host.vip = c.vip i.other) (rev : Bool) :
    ∃ ms between phase ms', callMoves c inet i (update node i (startCall c inet i rev env.gen node).gateway)
        (startCall c inet i rev env.gen node).phase ms = some (between, phase) ∧
      callMoves c inet i between (phase.replied env.reply) ms' =
        some (update node i (requestTunnelToHost (c.cfg i) inet env host (c.vip i) rev (node i)).2,
          .ended) := by
  obtain ⟨ms, hms⟩ := prepareRequest_moves c inet i node env.gen env.acl hhost rev
  unfold requestTunnelToHost
  rcases hprep : prepareRequest (c.cfg i) inet env.gen env.acl host (c.vip i) rev (node i) with ⟨r, s⟩
  rw [hprep] at hms
  cases r with
  | error e => exact ⟨ms, _, _, [], hms, rfl⟩
  | ok request =>
    cases env.reply with
    | none =>
      refine ⟨ms, _, _, [.lose], hms, ?_⟩
      simp [Phase.prepared, Phase.replied, callMoves, callMove]
    | some params =>
      obtain ⟨ms', hms'⟩ := createTunnelFlow_moves c inet i (update node i s) env.create params
      refine ⟨ms, _, _, ms', hms, ?_⟩
      rw [update_idem, update_self] at hms'
      rw [hhost]
      exact hms'

/-- **The moves of a request at the peer are a call of `RequestTunnelParams`** if nothing else moves
    there. -/
theorem requestTunnelParams_moves (env : ServeEnv) {request : TunnelRequest K}
    (hsrc : request.virtSrcIp = inet.ntop (c.vip i)) :
    ∃ ms, callMoves c inet i node (.sent request) ms =
      some (update node i.other (requestTunnelParams (c.cfg i.other) inet env request (node i.other)).2.2,
        .responded (requestTunnelParams (c.cfg i.other) inet env request (node i.other)).1
          (requestTunnelParams (c.cfg i.other) inet env request (node i.other)).2.1) := by
  have hpton : inet.pton request.virtSrcIp = some (c.vip i) := (inet.pton_eq_some _ _).mpr hsrc
  unfold requestTunnelParams
  cases hver : selectPspVersion request.pspVersionsAccepted with
  | none => exact ⟨[.serve env.gen], by simp [callMoves, callMove, hver, Phase.responded]⟩
  | some ver =>
    dsimp only
    cases hgen : generateTunnelParams (c.cfg i.other) env.gen ver with
    | error e => exact ⟨[.serve env.gen], by simp [callMoves, callMove, hver, hgen, Phase.responded]⟩
    | ok params =>
      dsimp only
      rcases hadd : addIngressAclEntry (c.cfg i.other) env.acl request.virtSrcIp
        (assignIngress request.virtSrcIp params.spi (c.vip i) (node i.other)) with ⟨r, s⟩
      have hopen : openForPeer (c.cfg i.other) inet env.acl request.virtSrcIp params.spi (node i.other) =
          if r ≠ .success then (.internal, s) else (.ok, s) := by
        simp [openForPeer, c.acl i.other, hpton, hadd]
      rw [hopen]
      by_cases hr : r = .success
      · subst hr
        cases hrev : request.reverseParams with
        | none =>
          refine ⟨[.serve env.gen, .serveAssign, .serveInsert env.acl, .serveBegin], ?_⟩
          simp [callMoves, callMove, hver, hgen, hpton, hadd, hrev, assignIngress_session, Phase.responded]
        | some reverse =>
          unfold createTunnelFlow
          rcases hbegin : beginFlow (c.cfg i.other) inet (c.vip i) reverse s with ⟨r, s'⟩
          cases r with
          | error e =>
            refine ⟨[.serve env.gen, .serveAssign, .serveInsert env.acl, .serveBegin], ?_⟩
            simp [callMoves, callMove, hver, hgen, hpton, hadd, hrev, hbegin, beginFlow_error hbegin,
              assignIngress_session, Phase.responded]
          | ok u =>
            refine ⟨[.serve env.gen, .serveAssign, .serveInsert env.acl, .serveBegin,
              .serveEnd env.create], ?_⟩
            rcases hend : endFlow env.create (inet.ntop (c.vip i)) reverse.encryptionKey s' with ⟨r, s''⟩
            by_cases hr : r = .success <;>
              simp [callMoves, callMove, hver, hgen, hpton, hadd, hrev, hbegin, assignIngress_session,
                beginFlow_session hbegin, hend, hr, Phase.responded]
      · refine ⟨[.serve env.gen, .serveAssign, .serveInsert env.acl], ?_⟩
        simp [callMoves, callMove, hver, hgen, hpton, hadd, hr, assignIngress_session, Phase.responded]

end Alone

/-! ## The invariant -/

section Invariant

variable {c : DuoConfig} {inet : Inet K} {d d' : Duo K} {i j : Side} {p : TunnelParams}
variable {k : K} {spi srcVip : UInt32} {phase : Phase K} {m : Move} {o : Outcome K}

@[simp] theorem Side.other_other (i : Side) : i.other.other = i := by
  cases i <;> rfl

structure Owned (d : Duo K) (i : Side) (p : TunnelParams) : Prop where
  made : p.made ∈ d.generated i
  supported : isPspVerSupported p.pspVersion = true
  length : p.encryptionKey.length = keyLengthBits p.pspVersion / 8

def Admitted (c : DuoConfig) (d : Duo K) (i : Side) (p : TunnelParams) : Prop :=
  Owned d i p ∧ ⟨p.spi, c.vip i.other⟩ ∈ (d.node i).acl

def RequestOk (c : DuoConfig) (inet : Inet K) (d : Duo K) (i : Side) (request : TunnelRequest K) : Prop :=
  request.virtSrcIp = inet.ntop (c.vip i) ∧
    ∀ reverse, request.reverseParams = some reverse → Admitted c d i reverse

def PhaseOk (c : DuoConfig) (inet : Inet K) (d : Duo K) (i : Side) : Phase K → Prop
  | .generated request reverse =>
    request.virtSrcIp = inet.ntop (c.vip i) ∧ request.reverseParams = some reverse ∧ Owned d i reverse
  | .assigned request reverse =>
    (request.virtSrcIp = inet.ntop (c.vip i) ∧ request.reverseParams = some reverse ∧ Owned d i reverse) ∧
      AclReady (inet.ntop (c.vip i.other)) reverse.spi (c.vip i.other) (d.node i)
  | .sent request => RequestOk c inet d i request
  | .served request params => RequestOk c inet d i request ∧ Owned d i.other params
  | .servedAssigned request params =>
    (RequestOk c inet d i request ∧ Owned d i.other params) ∧
      AclReady (inet.ntop (c.vip i)) params.spi (c.vip i) (d.node i.other)
  | .opened request params => RequestOk c inet d i request ∧ Admitted c d i.other params
  | .returning params reverse =>
    (Admitted c d i.other params ∧ Admitted c d i reverse) ∧
      FlowReady (inet.ntop (c.vip i)) reverse (d.node i.other)
  | .answered params => Admitted c d i.other params
  | .finishing params =>
    Admitted c d i.other params ∧ FlowReady (inet.ntop (c.vip i.other)) params (d.node i)
  | .ended => True

structure Grows (d d' : Duo K) : Prop where
  generated : ∀ i, d.generated i ⊆ d'.generated i
  acl : ∀ i, (d.node i).acl ⊆ (d'.node i).acl

section

omit [DecidableEq K]

theorem Owned.mono (h : Owned d i p) (hg : Grows d d') : Owned d' i p :=
  ⟨hg.generated i h.made, h.supported, h.length⟩

theorem Admitted.mono (h : Admitted c d i p) (hg : Grows d d') : Admitted c d' i p :=
  ⟨h.1.mono hg, hg.acl i h.2⟩

theorem RequestOk.mono {request : TunnelRequest K} (h : RequestOk c inet d i request)
    (hg : Grows d d') : RequestOk c inet d' i request :=
  ⟨h.1, fun reverse hr => (h.2 reverse hr).mono hg⟩

end

structure SessionsKept (s s' : Gateway K) : Prop where
  sessions : s'.sessions = s.sessions
  resources : s'.resources = s.resources
  next : s'.nextCryptoId = s.nextCryptoId

theorem FlowReady.kept {s s' : Gateway K} (h : FlowReady k p s) (hk : SessionsKept s s') :
    FlowReady k p s' := by
  obtain ⟨x, hx, hspi, hver, hlt, hfresh⟩ := h
  refine ⟨x, ?_, hspi, hver, ?_, ?_⟩
  · rw [Gateway.session?_eq hk.sessions, hx]
  · rw [hk.next]
    exact hlt
  · rw [hk.resources]
    exact hfresh

theorem AclReady.kept {s s' : Gateway K} (h : AclReady k spi srcVip s)
    (hk : SessionsKept s s') : AclReady k spi srcVip s' := by
  obtain ⟨x, hx, hfields⟩ := h
  exact ⟨x, by rw [Gateway.session?_eq hk.sessions, hx], hfields⟩

/-- A request is not disturbed by what happens elsewhere, as long as nothing happens to the session
    that it holds. -/
theorem PhaseOk.mono (h : PhaseOk c inet d i phase) (hg : Grows d d')
    (hkept : ∀ j, (Call.mk i phase).holds = some j → SessionsKept (d.node j) (d'.node j)) :
    PhaseOk c inet d' i phase := by
  cases phase with
  | generated request reverse => exact ⟨h.1, h.2.1, h.2.2.mono hg⟩
  | assigned request reverse => exact ⟨⟨h.1.1, h.1.2.1, h.1.2.2.mono hg⟩, h.2.kept (hkept i rfl)⟩
  | sent request => exact RequestOk.mono h hg
  | served request params => exact ⟨h.1.mono hg, h.2.mono hg⟩
  | servedAssigned request params =>
    exact ⟨⟨h.1.1.mono hg, h.1.2.mono hg⟩, h.2.kept (hkept i.other rfl)⟩
  | opened request params => exact ⟨h.1.mono hg, h.2.mono hg⟩
  | returning params reverse =>
    exact ⟨⟨h.1.1.mono hg, h.1.2.mono hg⟩, h.2.kept (hkept i.other rfl)⟩
  | answered params => exact Admitted.mono h hg
  | finishing params => exact ⟨h.1.mono hg, h.2.kept (hkept i rfl)⟩
  | ended => trivial

/-! ## One move -/

structure EntryOk (c : DuoConfig) (d : Duo K) (i : Side) (e : EncryptEntry) (r : PspResource) : Prop where
  made : ⟨e.spi, r.key, e.ver⟩ ∈ d.generated i.other
  length : 8 * r.key.length = keyLengthBits e.ver
  keyBits : r.keyBits = keyLengthBits e.ver
  acl : ⟨e.spi, c.vip i⟩ ∈ (d.node i.other).acl

/-- What happens to the entries of gateway `i`: nothing, or there is a new resource, with or without an
    entry that uses it. -/
def EntriesMove (c : DuoConfig) (d : Duo K) (i : Side) (s' : Gateway K) : Prop :=
  (s'.egress = (d.node i).egress ∧ s'.resources = (d.node i).resources) ∨
    ∃ r, s'.resources = (d.node i).resources ++ [r] ∧ (∀ q ∈ (d.node i).resources, q.id ≠ r.id) ∧
      (s'.egress = (d.node i).egress ∨
        ∃ e, s'.egress = (d.node i).egress ++ [e] ∧ e.cryptoId = r.id ∧ EntryOk c d i e r)

structure NodeMove (c : DuoConfig) (d : Duo K) (i : Side) (s' : Gateway K) : Prop where
  acl : (d.node i).acl ⊆ s'.acl
  drawn : IdsDrawn s'
  entries : EntriesMove c d i s'

section

variable (hdrawn : IdsDrawn (d.node i))

include hdrawn

omit [DecidableEq K] in
theorem NodeMove.kept {s' : Gateway K} (h : FlowsKept (d.node i) s') : NodeMove c d i s' := by
  refine ⟨h.acl ▸ List.Subset.refl _, fun r hr => ?_, .inl ⟨h.egress, h.resources⟩⟩
  rw [h.resources] at hr
  exact Nat.lt_of_lt_of_le (hdrawn r hr) h.next

omit [DecidableEq K] in
theorem NodeMove.same : NodeMove c d i (d.node i) :=
  NodeMove.kept hdrawn ⟨rfl, rfl, rfl, Nat.le_refl _⟩

theorem NodeMove.insert (result : DocaError) (hready : AclReady k spi srcVip (d.node i)) :
    NodeMove c d i (addIngressAclEntry (c.cfg i) result k (d.node i)).2 := by
  obtain ⟨hacl, hegress, hres, hnext, _⟩ := addIngressAclEntry_spec result (c.acl i) hready
  refine ⟨hacl, fun r hr => ?_, .inl ⟨hegress, hres⟩⟩
  rw [hres] at hr
  rw [hnext]
  exact hdrawn r hr

theorem NodeMove.endFlow (env : CreateEnv)
    (hready : FlowReady k p (d.node i)) (hadm : Admitted c d i.other p) :
    NodeMove c d i (endFlow env k p.encryptionKey (d.node i)).2 := by
  obtain ⟨x, hx, hspi, hver, hlt, hfresh⟩ := hready
  obtain ⟨hacl, hnext, hrest⟩ := endFlow_spec env p.encryptionKey hx
  have hdrawn' : ∀ r ∈ (d.node i).resources ++
      [⟨x.cryptoId, if x.pspProtoVer = 0 then 128 else 256, p.encryptionKey⟩],
      r.id.toNat < (d.node i).nextCryptoId.toNat := by
    intro r hr
    rcases mem_append.mp hr with hr | hr
    · exact hdrawn r hr
    · rw [mem_singleton.mp hr]
      exact hlt
  refine ⟨hacl ▸ List.Subset.refl _, fun r hr => ?_, ?_⟩
  · rw [hnext]
    rcases hrest with ⟨_, hres | hres⟩ | ⟨e, _, _, _, _, hres⟩
    · exact hdrawn r (hres ▸ hr)
    all_goals exact hdrawn' r (hres ▸ hr)
  · rcases hrest with ⟨hegress, hres | hres⟩ | ⟨e, hegress, hid, hespi, hever, hres⟩
    · exact .inl ⟨hegress, hres⟩
    · exact .inr ⟨_, hres, hfresh, .inl hegress⟩
    · refine .inr ⟨_, hres, hfresh, .inr ⟨e, hegress, hid, ?_⟩⟩
      obtain ⟨howned, hadmits⟩ := hadm
      have hlen := keyLengthBits_of_supported howned.supported
      refine ⟨?_, ?_, ?_, ?_⟩
      · rw [hespi, hspi, hever, hver]
        exact howned.made
      · rw [hever, hver]
        show 8 * p.encryptionKey.length = _
        rw [howned.length]
        exact hlen.1
      · rw [hever, hver]
        exact hlen.2
      · rw [hespi, hspi]
        rw [Side.other_other] at hadmits
        exact hadmits

end

section

omit [DecidableEq K]

theorem after_node_self (d : Duo K) (o : Outcome K) (calls : List (Call K)) :
    (d.after o calls).node o.side = o.gateway := update_self ..

theorem after_node_ne (d : Duo K) (o : Outcome K) (calls : List (Call K)) (h : i ≠ o.side) :
    (d.after o calls).node i = d.node i := update_of_ne h ..

theorem after_grows (hacl : (d.node o.side).acl ⊆ o.gateway.acl)
    (calls : List (Call K)) : Grows d (d.after o calls) := by
  constructor
  · exact (forall_update_iff d.generated fun i made => d.generated i ⊆ made).mpr
      ⟨subset_append_left _ _, fun _ _ => List.Subset.refl _⟩
  · exact (forall_update_iff d.node fun i s => (d.node i).acl ⊆ s.acl).mpr
      ⟨hacl, fun _ _ => List.Subset.refl _⟩

theorem owned_after {ver : UInt32} {gen : GenEnv} {cfg : PspConfig}
    (hgen : generateTunnelParams cfg gen ver = .ok p) (hver : isPspVerSupported ver = true)
    (hmade : o.made = [p.made]) (calls : List (Call K)) : Owned (d.after o calls) o.side p := by
  obtain ⟨hv, hlen⟩ := generateTunnelParams_ok hgen
  refine ⟨?_, hv ▸ hver, ?_⟩
  · show p.made ∈ update d.generated o.side _ o.side
    rw [update_self, hmade]
    exact mem_append_right _ (mem_singleton_self _)
  · rw [hv]
    exact hlen

end

structure MoveOk (c : DuoConfig) (inet : Inet K) (d : Duo K) (i : Side) (o : Outcome K) : Prop where
  node : NodeMove c d o.side o.gateway
  phase : ∀ calls, PhaseOk c inet (d.after o calls) i o.phase

theorem MoveOk.ended (hnode : NodeMove c d o.side o.gateway) (hended : o.phase = .ended) :
    MoveOk c inet d i o := by
  refine ⟨hnode, fun calls => ?_⟩
  rw [hended]
  trivial

theorem selectPspVersion_supported {versions : List UInt32} {ver : UInt32}
    (h : selectPspVersion versions = some ver) : isPspVerSupported ver = true := find?_some h

theorem startCall_ok (hdrawn : ∀ j, IdsDrawn (d.node j)) (rev : Bool) (gen : GenEnv) :
    let o := startCall c inet i rev gen d.node
    MoveOk c inet d i o ∧ o.side = i ∧ SessionsKept (d.node i) o.gateway ∧
      (Call.mk i o.phase).holds = none := by
  have hnode : NodeMove c d i { d.node i with nextRequestId := (d.node i).nextRequestId + 1 } :=
    NodeMove.kept (hdrawn i) ⟨rfl, rfl, rfl, Nat.le_refl _⟩
  unfold startCall
  dsimp only
  split
  · split
    · exact ⟨MoveOk.ended hnode rfl, rfl, ⟨rfl, rfl, rfl⟩, rfl⟩
    · cases hgen : generateTunnelParams (c.cfg i) gen (c.cfg i).defaultPspProtoVer with
      | error e => exact ⟨MoveOk.ended hnode rfl, rfl, ⟨rfl, rfl, rfl⟩, rfl⟩
      | ok reverse =>
        refine ⟨⟨hnode, fun calls => ⟨rfl, rfl, ?_⟩⟩, rfl, ⟨rfl, rfl, rfl⟩, rfl⟩
        exact owned_after hgen (c.cfg i).supported rfl calls
  · refine ⟨⟨hnode, fun calls => ⟨rfl, fun reverse hr => ?_⟩⟩, rfl, ⟨rfl, rfl, rfl⟩, rfl⟩
    cases hr

/-- A move and sessions: only a move that assigns to one gets hold of it, and the gateway changes only if
    the request holds a session there or the move assigns to one. -/
structure MoveScope (node : Side → Gateway K) (i : Side) (phase : Phase K) (m : Move) (o : Outcome K) :
    Prop where
  holds : ∀ j, (Call.mk i o.phase).holds = some j → (Call.mk i phase).assigns m = some j
  touches : o.gateway = node o.side ∨ (Call.mk i phase).holds = some o.side ∨
    (Call.mk i phase).assigns m = some o.side

section

omit [DecidableEq K]

variable {node : Side → Gateway K}

theorem MoveScope.free (hphase : (Call.mk i o.phase).holds = none)
    (hnode : o.gateway = node o.side ∨ (Call.mk i phase).holds = some o.side) :
    MoveScope node i phase m o := by
  refine ⟨fun j hj => ?_, hnode.imp_right .inl⟩
  rw [hphase] at hj
  cases hj

theorem MoveScope.assign
    (hphase : (Call.mk i o.phase).holds = none ∨ (Call.mk i o.phase).holds = some o.side)
    (hassigns : (Call.mk i phase).assigns m = some o.side) : MoveScope node i phase m o := by
  refine ⟨fun j hj => ?_, .inr (.inr hassigns)⟩
  rcases hphase with hnone | hside
  · rw [hnone] at hj
    cases hj
  · rw [hassigns, ← hside, hj]

end

def MoveSafe (c : DuoConfig) (inet : Inet K) (d : Duo K) (i : Side) (phase : Phase K) (m : Move)
    (o : Outcome K) : Prop :=
  MoveOk c inet d i o ∧ MoveScope d.node i phase m o

theorem MoveSafe.same (hdrawn : IdsDrawn (d.node j)) {next : Phase K}
    (hholds : (Call.mk i next).holds = none) (h : ∀ d', Grows d d' → PhaseOk c inet d' i next) :
    MoveSafe c inet d i phase m ⟨j, d.node j, [], next⟩ := by
  have hnode : NodeMove c d j (d.node j) := NodeMove.same hdrawn
  exact ⟨⟨hnode, fun calls => h _ (after_grows hnode.acl calls)⟩, .free hholds (.inl rfl)⟩

theorem MoveSafe.release {s' : Gateway K} {b : Prop} [Decidable b] {next : Phase K}
    (hnode : NodeMove c d j s') (hheld : (Call.mk i phase).holds = some j)
    (hholds : (Call.mk i next).holds = none)
    (h : ¬ b → ∀ calls, PhaseOk c inet (d.after ⟨j, s', [], next⟩ calls) i next) :
    MoveSafe c inet d i phase m ⟨j, s', [], if b then .ended else next⟩ := by
  split
  · exact ⟨MoveOk.ended hnode rfl, .free rfl (.inr hheld)⟩
  · rename_i hb
    exact ⟨⟨hnode, h hb⟩, .free hholds (.inr hheld)⟩

section Assign

variable {next : Phase K} (hdrawn : IdsDrawn (d.node j))
  (hassigns : (Call.mk i phase).assigns m = some j) (hholds : (Call.mk i next).holds = some j)

include hdrawn hassigns hholds

theorem assign_ok (h : ∀ d', Grows d d' → AclReady k spi srcVip (d'.node j) → PhaseOk c inet d' i next) :
    MoveSafe c inet d i phase m ⟨j, assignIngress k spi srcVip (d.node j), [], next⟩ := by
  have hnode : NodeMove c d j (assignIngress k spi srcVip (d.node j)) :=
    NodeMove.kept hdrawn (assignIngress_kept k spi srcVip _)
  refine ⟨⟨hnode, fun calls => h _ (after_grows hnode.acl calls) ?_⟩, .assign (.inr hholds) hassigns⟩
  rw [after_node_self]
  exact assignIngress_aclReady ..

theorem begin_ok {vip : UInt32}
    (h : ∀ d', Grows d d' → FlowReady (inet.ntop vip) p (d'.node j) → PhaseOk c inet d' i next)
    (ho : (match beginFlow (c.cfg j) inet vip p (d.node j) with
      | (.error _, s) => some ⟨j, s, [], .ended⟩
      | (.ok _, s) => some ⟨j, s, [], next⟩) = some o) :
    MoveSafe c inet d i phase m o := by
  obtain ⟨hkept, hready⟩ := beginFlow_spec (c.cfg j) inet vip p (d.node j)
  rcases hbegin : beginFlow (c.cfg j) inet vip p (d.node j) with ⟨r, s⟩
  rw [hbegin] at ho hkept hready
  have hnode : NodeMove c d j s := NodeMove.kept hdrawn hkept
  cases r with
  | error e =>
    cases ho
    exact ⟨MoveOk.ended hnode rfl, .assign (.inl rfl) hassigns⟩
  | ok u =>
    cases ho
    refine ⟨⟨hnode, fun calls => h _ (after_grows hnode.acl calls) ?_⟩, .assign (.inr hholds) hassigns⟩
    rw [after_node_self]
    exact hready hdrawn rfl

end Assign

theorem insert_ok (hdrawn : IdsDrawn (d.node j)) (result : DocaError) {next : Phase K}
    (hready : AclReady k spi srcVip (d.node j)) (hheld : (Call.mk i phase).holds = some j)
    (hholds : (Call.mk i next).holds = none)
    (h : ∀ d', Grows d d' → ⟨spi, srcVip⟩ ∈ (d'.node j).acl → PhaseOk c inet d' i next) :
    MoveSafe c inet d i phase m ⟨j, (addIngressAclEntry (c.cfg j) result k (d.node j)).2, [],
      if (addIngressAclEntry (c.cfg j) result k (d.node j)).1 ≠ .success then .ended else next⟩ := by
  have hnode : NodeMove c d j (addIngressAclEntry (c.cfg j) result k (d.node j)).2 :=
    NodeMove.insert hdrawn result hready
  refine .release hnode hheld hholds fun hr calls => h _ (after_grows hnode.acl calls) ?_
  rw [after_node_self]
  exact (addIngressAclEntry_spec result (c.acl j) hready).2.2.2.2 (Decidable.not_not.mp hr)

theorem callMove_ok (hdrawn : ∀ j, IdsDrawn (d.node j))
    (hphase : PhaseOk c inet d i phase) (h : callMove c inet i d.node phase m = some o) :
    MoveSafe c inet d i phase m o := by
  unfold callMove at h
  split at h
  -- the requesting gateway: assignments, ACL, request
  · cases h
    obtain ⟨hsrc, hrev, howned⟩ := hphase
    exact assign_ok (hdrawn i) rfl rfl fun d' hg hready => ⟨⟨hsrc, hrev, howned.mono hg⟩, hready⟩
  · rename_i result
    dsimp only at h
    split at h
    · cases h
    cases h
    obtain ⟨⟨hsrc, hrev, howned⟩, hready⟩ := hphase
    refine insert_ok (hdrawn i) result hready rfl rfl fun d' hg hacl => ⟨hsrc, fun reverse' hr => ?_⟩
    rw [hrev] at hr
    cases hr
    exact ⟨howned.mono hg, hacl⟩
  -- its peer: parameters, assignments, ACL
  · split at h
    · cases h
      exact .same (hdrawn _) rfl fun _ _ => trivial
    rename_i hver
    split at h
    · cases h
      exact .same (hdrawn _) rfl fun _ _ => trivial
    rename_i hgen
    cases h
    have hnode : NodeMove c d i.other (d.node i.other) := NodeMove.same (hdrawn _)
    refine ⟨⟨hnode, fun calls => ⟨RequestOk.mono hphase (after_grows hnode.acl calls), ?_⟩⟩,
      .free rfl (.inl rfl)⟩
    exact owned_after hgen (selectPspVersion_supported hver) rfl calls
  · rename_i request params
    dsimp only at h
    obtain ⟨hreq, howned⟩ := hphase
    have hsrc : inet.pton request.virtSrcIp = some (c.vip i) := (inet.pton_eq_some _ _).mpr hreq.1
    rw [hsrc] at h
    cases h
    rw [hreq.1]
    exact assign_ok (hdrawn i.other) rfl rfl fun d' hg hready =>
      ⟨⟨hreq.mono hg, howned.mono hg⟩, hready⟩
  · rename_i result
    dsimp only at h
    obtain ⟨⟨hreq, howned⟩, hready⟩ := hphase
    split at h
    · cases h
    cases h
    rw [hreq.1]
    refine insert_ok (hdrawn i.other) result hready rfl rfl fun d' hg hacl =>
      ⟨hreq.mono hg, howned.mono hg, ?_⟩
    rw [Side.other_other]
    exact hacl
  -- the return flow
  · rename_i request params
    obtain ⟨hreq, hadm⟩ := hphase
    split at h
    · cases h
      exact .same (hdrawn _) rfl fun d' hg => hadm.mono hg
    rename_i reverse hrev
    have hsrc : inet.pton request.virtSrcIp = some (c.vip i) := (inet.pton_eq_some _ _).mpr hreq.1
    rw [hsrc] at h
    refine begin_ok (hdrawn i.other) rfl rfl (fun d' hg hready => ?_) h
    exact ⟨⟨hadm.mono hg, (hreq.2 reverse hrev).mono hg⟩, hready⟩
  · rename_i reverse env
    dsimp only at h
    obtain ⟨⟨hadm, hrev⟩, hready⟩ := hphase
    split at h
    · cases h
    cases h
    have hnode : NodeMove c d i.other
        (endFlow env (inet.ntop (c.vip i)) reverse.encryptionKey (d.node i.other)).2 := by
      refine NodeMove.endFlow (hdrawn i.other) env hready ?_
      rw [Side.other_other]
      exact hrev
    exact .release hnode rfl rfl fun _ calls => hadm.mono (after_grows hnode.acl calls)
  -- the flow of the requesting gateway
  · rename_i params
    have hbegin : ∀ d', Grows d d' → FlowReady (inet.ntop (c.vip i.other)) params (d'.node i) →
        PhaseOk c inet d' i (.finishing params) :=
      fun d' hg hready => ⟨Admitted.mono hphase hg, hready⟩
    exact begin_ok (hdrawn i) rfl rfl hbegin h
  · rename_i env
    dsimp only at h
    obtain ⟨hadm, hready⟩ := hphase
    split at h
    · cases h
    · cases h
      exact ⟨MoveOk.ended (NodeMove.endFlow (hdrawn i) env hready hadm) rfl, .free rfl (.inr rfl)⟩
  · cases h
    exact .same (hdrawn _) rfl fun _ _ => trivial
  · cases h
    exact .same (hdrawn _) rfl fun _ _ => trivial
  · cases h

/-! ## Runs -/

section

omit [DecidableEq K]

theorem EntryOk.mono {e : EncryptEntry} {r : PspResource} (h : EntryOk c d i e r) (hg : Grows d d') :
    EntryOk c d' i e r :=
  ⟨hg.generated _ h.made, h.length, h.keyBits, hg.acl _ h.acl⟩

theorem agreed_iff : Agreed c d ↔ ∀ i, ∀ e ∈ (d.node i).egress,
    (∃ r ∈ (d.node i).resources, r.id = e.cryptoId) ∧
      ∀ r ∈ (d.node i).resources, r.id = e.cryptoId → EntryOk c d i e r := by
  constructor
  all_goals
    intro h i e he
    refine ⟨(h i e he).1, fun r hr hid => ?_⟩
    obtain ⟨hmade, hlen, hbits, hacl⟩ := (h i e he).2 r hr hid
    exact ⟨hmade, hlen, hbits, hacl⟩

theorem Agreed.after (h : Agreed c d) (hnode : NodeMove c d o.side o.gateway)
    (calls : List (Call K)) : Agreed c (d.after o calls) := by
  have hg : Grows d (d.after o calls) := after_grows hnode.acl calls
  rw [agreed_iff] at h ⊢
  intro i e he
  by_cases hi : i = o.side
  · subst hi
    rw [after_node_self] at he ⊢
    -- an old entry keeps its resource, as the new one has another id
    rcases hnode.entries with ⟨hegress, hres⟩ | ⟨q, hres, hfresh, hentries⟩
    · rw [hegress] at he
      rw [hres]
      exact ⟨(h _ e he).1, fun r hr hid => ((h _ e he).2 r hr hid).mono hg⟩
    · have hold : e ∈ (d.node o.side).egress → (∃ r ∈ o.gateway.resources, r.id = e.cryptoId) ∧
          ∀ r ∈ o.gateway.resources, r.id = e.cryptoId → EntryOk c (d.after o calls) o.side e r := by
        intro he
        obtain ⟨⟨r₀, hr₀, hid₀⟩, hall⟩ := h _ e he
        rw [hres]
        refine ⟨⟨r₀, mem_append_left _ hr₀, hid₀⟩, fun r hr hid => ?_⟩
        rcases mem_append.mp hr with hr | hr
        · exact (hall r hr hid).mono hg
        · have hq : r = q := mem_singleton.mp hr
          exact absurd (hid₀.trans (hid.symm.trans (congrArg PspResource.id hq))) (hfresh r₀ hr₀)
      rcases hentries with hegress | ⟨e', hegress, hid', hok⟩
      · exact hold (hegress ▸ he)
      · rw [hegress] at he
        rcases mem_append.mp he with he | he
        · exact hold he
        · have he' : e = e' := mem_singleton.mp he
          subst he'
          rw [hres]
          refine ⟨⟨q, mem_append_right _ (mem_singleton_self _), hid'.symm⟩, ?_⟩
          intro r hr hid
          rcases mem_append.mp hr with hr | hr
          · exact absurd (hid.trans hid') (hfresh r hr)
          · rw [mem_singleton.mp hr]
            exact hok.mono hg
  · rw [after_node_ne d o calls hi] at he ⊢
    exact ⟨(h i e he).1, fun r hr hid => ((h i e he).2 r hr hid).mono hg⟩

end

/-- What holds in every run whose steps are `exclusive`. -/
structure DuoInv (c : DuoConfig) (inet : Inet K) (d : Duo K) : Prop where
  drawn : ∀ j, IdsDrawn (d.node j)
  phases : ∀ call ∈ d.calls, PhaseOk c inet d call.caller call.phase
  single : ∀ (n m : Nat) (x y : Call K) (j : Side), d.calls[n]? = some x → d.calls[m]? = some y →
    x.holds = some j → y.holds = some j → n = m
  agreed : Agreed c d

theorem DuoInv.init : DuoInv c inet Duo.init := by
  refine ⟨fun j r hr => ?_, fun call hcall => ?_, fun n m x y j hx => ?_, fun i e he => ?_⟩
  · cases hr
  · cases hcall
  · cases hx
  · cases he

omit [DecidableEq K] in
theorem drawn_after (h : ∀ j, IdsDrawn (d.node j)) (ho : IdsDrawn o.gateway)
    (calls : List (Call K)) : ∀ j, IdsDrawn ((d.after o calls).node j) :=
  (forall_update_iff d.node fun _ s => IdsDrawn s).mpr ⟨ho, fun j _ => h j⟩

omit [DecidableEq K] in
theorem sessionsKept_after (calls : List (Call K)) (j : Side)
    (ho : j = o.side → SessionsKept (d.node j) o.gateway) :
    SessionsKept (d.node j) ((d.after o calls).node j) := by
  by_cases hj : j = o.side
  · have hkept := ho hj
    subst hj
    rw [after_node_self]
    exact hkept
  · rw [after_node_ne d o calls hj]
    exact ⟨rfl, rfl, rfl⟩

theorem DuoInv.start (h : DuoInv c inet d) (i : Side) (rev : Bool) (gen : GenEnv) :
    DuoInv c inet (d.after (startCall c inet i rev gen d.node)
      (d.calls ++ [⟨i, (startCall c inet i rev gen d.node).phase⟩])) := by
  obtain ⟨hok, hside, hkept, hnone⟩ : MoveOk c inet d i (startCall c inet i rev gen d.node) ∧ _ :=
    startCall_ok h.drawn rev gen
  generalize startCall c inet i rev gen d.node = o at hok hside hkept hnone ⊢
  have hg : Grows d (d.after o (d.calls ++ [⟨i, o.phase⟩])) := after_grows hok.node.acl _
  refine ⟨drawn_after h.drawn hok.node.drawn _, fun call hcall => ?_, ?_, h.agreed.after hok.node _⟩
  · rcases mem_append.mp hcall with hcall | hcall
    · refine (h.phases call hcall).mono hg fun j _ => sessionsKept_after _ j fun hj => ?_
      rw [hj, hside]
      exact hkept
    · rw [mem_singleton.mp hcall]
      exact hok.phase _
  · -- the new request holds nothing
    have old : ∀ (n : Nat) (x : Call K) (j : Side), (d.calls ++ [⟨i, o.phase⟩])[n]? = some x →
        x.holds = some j → d.calls[n]? = some x := by
      intro n x j hx hj
      by_cases hn : n < d.calls.length
      · rw [getElem?_append_left hn] at hx
        exact hx
      · rw [getElem?_append_right (Nat.le_of_not_lt hn)] at hx
        have hx' := mem_singleton.mp (mem_of_getElem? hx)
        rw [hx', hnone] at hj
        cases hj
    intro n m x y j hx hy hxj hyj
    exact h.single n m x y j (old n x j hx hxj) (old m y j hy hyj) hxj hyj

theorem DuoInv.move (h : DuoInv c inet d) {n : Nat} {m : Move} {call : Call K} {o : Outcome K}
    (hcall : d.calls[n]? = some call)
    (hexcl : ∀ i, call.assigns m = some i → ∀ x ∈ d.calls, x.holds ≠ some i)
    (ho : callMove c inet call.caller d.node call.phase m = some o) :
    DuoInv c inet (d.after o (d.calls.set n ⟨call.caller, o.phase⟩)) := by
  have hmem : call ∈ d.calls := mem_of_getElem? hcall
  obtain ⟨hok, hscope⟩ := callMove_ok h.drawn (h.phases call hmem) ho
  have hg : Grows d (d.after o (d.calls.set n ⟨call.caller, o.phase⟩)) := after_grows hok.node.acl _
  have hlt : n < d.calls.length := (List.getElem?_eq_some_iff.mp hcall).1
  -- a request at another place that holds a session there is not disturbed
  have others : ∀ (l : Nat) (x : Call K), l ≠ n → d.calls[l]? = some x → x.holds = some o.side →
      SessionsKept (d.node o.side) o.gateway := by
    intro l x hl hx hxj
    rcases hscope.touches with hsame | hheld | hassigns
    · rw [hsame]
      exact ⟨rfl, rfl, rfl⟩
    · exact absurd (h.single l n x call _ hx hcall hxj hheld) hl
    · exact absurd hxj (hexcl _ hassigns x (mem_of_getElem? hx))
  have get : ∀ l x, (d.calls.set n ⟨call.caller, o.phase⟩)[l]? = some x →
      (l = n ∧ x = ⟨call.caller, o.phase⟩) ∨ (l ≠ n ∧ d.calls[l]? = some x) := by
    intro l x hx
    by_cases hl : l = n
    · subst hl
      rw [getElem?_set_self hlt] at hx
      exact .inl ⟨rfl, (Option.some.inj hx).symm⟩
    · rw [getElem?_set_ne (Ne.symm hl)] at hx
      exact .inr ⟨hl, hx⟩
  refine ⟨drawn_after h.drawn hok.node.drawn _, fun x hx => ?_, ?_, h.agreed.after hok.node _⟩
  · obtain ⟨l, hl⟩ := getElem?_of_mem hx
    rcases get l x hl with ⟨_, rfl⟩ | ⟨hne, hx⟩
    · exact hok.phase _
    · refine (h.phases x (mem_of_getElem? hx)).mono hg fun j hj => ?_
      refine sessionsKept_after _ j fun hside => ?_
      subst hside
      exact others l x hne hx hj
  · -- the request that has moved holds a session only if no other did
    have excl : ∀ l y j, l ≠ n → d.calls[l]? = some y → y.holds = some j →
        (Call.mk call.caller o.phase).holds = some j → False :=
      fun l y j _ hy hyj hj => hexcl j (hscope.holds j hj) y (mem_of_getElem? hy) hyj
    intro l l' x y j hx hy hxj hyj
    rcases get l x hx with ⟨hl, hx⟩ | ⟨hl, hx⟩
    · rcases get l' y hy with ⟨hl', hy⟩ | ⟨hl', hy⟩
      · exact hl.trans hl'.symm
      · exact (excl l' y j hl' hy hyj (hx ▸ hxj)).elim
    · rcases get l' y hy with ⟨hl', hy⟩ | ⟨hl', hy⟩
      · exact (excl l x j hl hx hxj (hy ▸ hyj)).elim
      · exact h.single l l' x y j hx hy hxj hyj

theorem duoInv_step {e : DuoEvent} (h : DuoInv c inet d) (he : exclusive d e = true)
    (hstep : duoStep c inet d e = some d') : DuoInv c inet d' := by
  cases e with
  | start i rev gen =>
    cases hstep
    exact h.start i rev gen
  | move n m =>
    unfold duoStep at hstep
    dsimp only at hstep
    split at hstep
    · cases hstep
    rename_i hcall
    split at hstep
    · cases hstep
    rename_i ho
    cases hstep
    refine h.move hcall (fun i hi x hx => ?_) ho
    unfold exclusive at he
    dsimp only at he
    rw [hcall] at he
    dsimp only at he
    rw [hi] at he
    exact of_decide_eq_true (all_eq_true.mp he x hx)

theorem duoInv_reach (h : Reach (duoStep c inet) (fun d e => exclusive d e = true) Duo.init d) :
    DuoInv c inet d :=
  Reach.invariant DuoInv.init (fun _ _ _ hd he hstep => duoInv_step hd he hstep) h

/-- **Entries of the gateways agree** in every run in which no assignment to a session comes between
    another one and its insertion: whatever a gateway sends, its peer can decrypt and admits. -/
theorem entries_agreed (h : Reach (duoStep c inet) (fun d e => exclusive d e = true) Duo.init d) :
    Agreed c d := (duoInv_reach h).agreed

end Invariant

/-! ## Crossing requests -/

def freshGen (spi : UInt32) : GenEnv := ⟨true, .success, .success, spi, fun _ => spi.toUInt8⟩

def duoPeers : DuoConfig where
  cfg _ := onePeer
  vip
    | .a => 10
    | .b => 20
  acl _ := rfl

def serveMoves (n : Nat) (spi : UInt32) : List DuoEvent :=
  [.move n (.serve (freshGen spi)), .move n .serveAssign, .move n (.serveInsert .success),
    .move n .serveBegin, .move n (.serveEnd ⟨.success, .success⟩)]

/-- Two requests under way at the same time, each served in one piece, give entries on both sides. -/
theorem entries_agreed_crossing : ∃ d : Duo (Option UInt32), Agreed duoPeers d ∧
    (d.node .a).egress.length = 2 ∧ (d.node .b).egress.length = 2 := by
  have hreach : Reach (duoStep duoPeers plainInet) (fun d e => exclusive d e = true) Duo.init _ :=
    .of_run (l := [.start .a true (freshGen 1), .start .b true (freshGen 9),
      .move 0 .assign, .move 0 (.insert .success), .move 1 .assign, .move 1 (.insert .success)] ++
      serveMoves 0 10 ++ serveMoves 1 2 ++
      [.move 0 .finishBegin, .move 0 (.finishEnd ⟨.success, .success⟩),
        .move 1 .finishBegin, .move 1 (.finishEnd ⟨.success, .success⟩)]) .init rfl
  exact ⟨_, entries_agreed hreach, by decide, by decide⟩

theorem not_agreed {d : Duo (Option UInt32)} (hegress : (d.node .b).egress.map EncryptEntry.spi = [1])
    (hacl : ⟨1, 20⟩ ∉ (d.node .a).acl) : ¬ Agreed duoPeers d := by
  intro hagreed
  obtain ⟨e, he, hspi⟩ : ∃ e ∈ (d.node .b).egress, e.spi = 1 :=
    mem_map.mp (hegress ▸ mem_singleton_self _)
  obtain ⟨⟨r, hr, hid⟩, hall⟩ := hagreed .b e he
  exact hacl (hspi ▸ (hall r hr hid).2.2.2)

/-- **Crossing requests leave an entry that the peer drops**: a thread opens the ACL for the SPI that
    another one has assigned to the session in between. -/
theorem entries_disagree : ∃ d : Duo (Option UInt32), run (duoStep duoPeers plainInet) Duo.init
    ([.start .a true (freshGen 1), .move 0 .assign,
      .start .b true (freshGen 9), .move 1 .assign, .move 1 (.insert .success),
      .move 1 (.serve (freshGen 2)), .move 1 .serveAssign, .move 1 (.serveInsert .success),
      .move 0 (.insert .success)] ++ serveMoves 0 10) = some d ∧ ¬ Agreed duoPeers d :=
  ⟨_, rfl, not_agreed (by decide) (by decide)⟩

end Doca.Psp
