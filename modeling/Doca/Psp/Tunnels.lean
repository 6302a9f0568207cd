import Doca.Psp.Gateway
import Mathlib.Data.List.Infix

/-!
# PSP gateway: what a call does, and which packets are re-injected

A run is any sequence of miss packets, of tunnel requests made at start-up and of tunnel requests
from peers, each with any answers of DOCA Flow, of the network and of the peer.

* `pspStep`, `pspRun` — one call of the service, and a sequence of them.
* `Same`, `Opened`, `Failed`, `Created` — what a call can do to sessions, entries and ids;
  `pspStep_flow` — every call opens the ACL or does not, and then creates a flow, fails to, or stops.

Principal result: `reinjected_installed_iff`.
-/

namespace Doca.Psp

open Doca.Lib List

variable {K : Type} [DecidableEq K]

/-! ## Runs -/

inductive PspEvent (K : Type) where
  | miss (packet : Packet) (env : MissEnv)
  | connect (host : PspHost) (localVfAddr : UInt32) (env : RequestEnv)
  | serve (request : TunnelRequest K) (env : ServeEnv)

variable (cfg : PspConfig) (inet : Inet K)

def pspStep (s : Gateway K) : PspEvent K → Gateway K
  | .miss packet env => (handleMissPacket cfg inet env packet s).gateway
  | .connect host localVfAddr env => (requestTunnelToHost cfg inet env host localVfAddr false s).2
  | .serve request env => (requestTunnelParams cfg inet env request s).2.2

def pspRun (es : List (PspEvent K)) : Gateway K :=
  es.foldl (pspStep cfg inet) Gateway.fresh

def PspEvent.key : PspEvent K → K
  | .miss packet _ => inet.ntop packet.dst
  | .connect host _ _ => inet.ntop host.vip
  | .serve request _ => request.virtSrcIp

def OpensAcl (s : Gateway K) : PspEvent K → Prop
  | .miss packet env =>
    cfg.disableIngressAcl = false ∧ cfg.createTunnelsAtStartup = false ∧ packet.ipv4 = true ∧
      s.session? (inet.ntop packet.dst) = none ∧ (lookupRemoteHost cfg packet.dst).isSome ∧
      packet.src ≠ 0 ∧ (generateTunnelParams cfg env.gen cfg.defaultPspProtoVer).isOk = true
  | .connect _ _ _ => False
  | .serve request env =>
    cfg.disableIngressAcl = false ∧ ∃ ver, selectPspVersion request.pspVersionsAccepted = some ver ∧
      (generateTunnelParams cfg env.gen ver).isOk = true

/-- `request_tunnel_to_host` gets to the remote call. -/
def Sends (gen : GenEnv) (acl : DocaError) (localVirtIp : UInt32) (rev : Bool) : Prop :=
  rev = true → localVirtIp ≠ 0 ∧ (generateTunnelParams cfg gen cfg.defaultPspProtoVer).isOk = true ∧
    (cfg.disableIngressAcl = true ∨ acl = .success)

instance (gen : GenEnv) (acl : DocaError) (localVirtIp : UInt32) (rev : Bool) :
    Decidable (Sends cfg gen acl localVirtIp rev) := inferInstanceAs (Decidable (_ → _))

/-- `RequestTunnelParams` gets to the return flow. -/
def Serves (request : TunnelRequest K) (gen : GenEnv) (acl : DocaError) : Prop :=
  ((selectPspVersion request.pspVersionsAccepted).map
      fun ver => (generateTunnelParams cfg gen ver).isOk) = some true ∧
    (cfg.disableIngressAcl = true ∨ acl = .success)

instance (request : TunnelRequest K) (gen : GenEnv) (acl : DocaError) :
    Decidable (Serves cfg request gen acl) := inferInstanceAs (Decidable (_ ∧ _))

/-- The address and the parameters with which a call gets to `create_tunnel_flow`, and the answers
    there. -/
def flowCall (s : Gateway K) : PspEvent K → Option (UInt32 × TunnelParams × CreateEnv)
  | .miss packet env =>
    if cfg.createTunnelsAtStartup = false ∧ packet.ipv4 = true ∧
        s.session? (inet.ntop packet.dst) = none ∧ (lookupRemoteHost cfg packet.dst).isSome ∧
        Sends cfg env.gen env.acl packet.src true then
      env.reply.map fun params => (packet.dst, params, env.create)
    else none
  | .connect host _ env => env.reply.map fun params => (host.vip, params, env.create)
  | .serve request env =>
    match inet.pton request.virtSrcIp with
    | none => none
    | some vip =>
      if Serves cfg request env.gen env.acl then
        request.reverseParams.map fun reverse => (vip, reverse, env.create)
      else none

/-- The call draws a crypto id: `create_tunnel_flow` gets past the checks of version, key and supply of
    ids. -/
def Draws (s : Gateway K) (e : PspEvent K) : Prop :=
  (pspStep cfg inet s e).nextCryptoId ≠ s.nextCryptoId

def Installed (v : UInt32) (s : Gateway K) : Prop := ∃ e ∈ s.egress, e.dstIp = v

/-! ## What a call does -/

section Shape

variable {s s' s₁ : Gateway K} {k : K} {v : UInt32}

structure Same (s s' : Gateway K) : Prop where
  sessions : s'.sessions = s.sessions
  egress : s'.egress = s.egress
  ids : s'.nextCryptoId = s.nextCryptoId

structure Opened (k : K) (s s' : Gateway K) : Prop where
  sessions : ∃ x, s'.sessions = put Prod.fst (k, x) s.sessions ∧
    x.encapEncryptEntry = (s.session k).encapEncryptEntry ∧
    x.spiEgress = (s.session k).spiEgress ∧ x.cryptoId = (s.session k).cryptoId
  egress : s'.egress = s.egress
  ids : s'.nextCryptoId = s.nextCryptoId

structure Failed (k : K) (s s' : Gateway K) : Prop where
  sessions : s'.sessions = others Prod.fst k s.sessions
  egress : s'.egress = s.egress
  ids : s'.nextCryptoId = s.nextCryptoId + 1
  room : s.nextCryptoId ≤ cfg.maxTunnels

structure Created (k : K) (v : UInt32) (s s' : Gateway K) : Prop where
  entry : ∃ x e, s'.sessions = put Prod.fst (k, x) s.sessions ∧ s'.egress = s.egress ++ [e] ∧
    e.dstIp = v ∧ e.cryptoId = s.nextCryptoId ∧ x.encapEncryptEntry = some e.handle ∧
    x.spiEgress = e.spi ∧ x.cryptoId = e.cryptoId
  ids : s'.nextCryptoId = s.nextCryptoId + 1
  room : s.nextCryptoId ≤ cfg.maxTunnels

omit [DecidableEq K] in
theorem Same.refl (s : Gateway K) : Same s s := ⟨rfl, rfl, rfl⟩

theorem Gateway.session?_eq (h : s'.sessions = s.sessions) (k : K) : s'.session? k = s.session? k := by
  rw [Gateway.session?, h, Gateway.session?]

theorem Gateway.session_eq (h : s'.sessions = s.sessions) (k : K) : s'.session k = s.session k := by
  rw [Gateway.session, Gateway.session?_eq h, Gateway.session]

theorem Gateway.session?_put {x : PspSession} (h : s'.sessions = put Prod.fst (k, x) s.sessions)
    (k' : K) : s'.session? k' = if k = k' then some x else s.session? k' := by
  unfold Gateway.session?
  rw [h]
  split
  · rename_i hk
    subst hk
    have hput : lookup Prod.fst (Prod.fst (k, x)) (put Prod.fst (k, x) s.sessions) = some (k, x) :=
      lookup_put
    rw [hput]
    rfl
  · rename_i hk
    rw [lookup_put_ne hk]

theorem Gateway.session?_others (h : s'.sessions = others Prod.fst k s.sessions) (k' : K) :
    s'.session? k' = if k = k' then none else s.session? k' := by
  unfold Gateway.session?
  rw [h]
  split
  · rename_i hk
    subst hk
    rw [lookup_others]
    rfl
  · rename_i hk
    rw [lookup_others_ne hk]

@[simp] theorem Gateway.session_setSession (k : K) (x : PspSession) (s : Gateway K) :
    (s.setSession k x).session k = x := by
  rw [Gateway.session, Gateway.session?_put rfl, if_pos rfl]
  rfl

@[simp] theorem Gateway.setSession_setSession (k : K) (x y : PspSession) (s : Gateway K) :
    (s.setSession k x).setSession k y = s.setSession k y := by
  have hput : put Prod.fst (k, y) (put Prod.fst (k, x) s.sessions) = put Prod.fst (k, y) s.sessions :=
    put_put rfl
  simp only [Gateway.setSession, hput]

theorem Gateway.eraseSession_setSession (k : K) (x : PspSession) (s : Gateway K) :
    ((s.setSession k x).eraseSession k).sessions = others Prod.fst k s.sessions := by
  show others Prod.fst k (put Prod.fst (k, x) s.sessions) = _
  simp [put, others]

theorem addIngressAclEntry_opened (result : DocaError) (k : K) (spi srcVip : UInt32)
    (s : Gateway K) :
    Opened k s (addIngressAclEntry cfg result k (assignIngress k spi srcVip s)).2 := by
  have hassign : Opened k s (assignIngress k spi srcVip s) :=
    ⟨⟨_, rfl, rfl, rfl, rfl⟩, rfl, rfl⟩
  unfold addIngressAclEntry
  split
  · exact hassign
  split
  · exact hassign
  · dsimp only
    rw [assignIngress, Gateway.session_setSession]
    exact ⟨⟨_, put_put rfl, rfl, rfl, rfl⟩, rfl, rfl⟩

theorem addIngressAclEntry_result {cfg : PspConfig} (result : DocaError) (k : K) (s : Gateway K)
    (hacl : cfg.disableIngressAcl = false) : (addIngressAclEntry cfg result k s).1 = result := by
  unfold addIngressAclEntry
  rw [hacl, if_neg Bool.false_ne_true]
  split
  · rfl
  · rename_i hr
    exact (not_not.mp hr).symm

omit [DecidableEq K] in
theorem nextCryptoId_cases (s : Gateway K) :
    (¬ s.nextCryptoId ≤ cfg.maxTunnels ∧ nextCryptoId cfg s = (UINT32_MAX, s)) ∨
      (s.nextCryptoId ≤ cfg.maxTunnels ∧ s.nextCryptoId ≠ UINT32_MAX ∧
        nextCryptoId cfg s = (s.nextCryptoId, { s with nextCryptoId := s.nextCryptoId + 1 })) := by
  have hmax := cfg.max_lt
  unfold nextCryptoId
  split
  · rename_i hlt
    exact .inl ⟨UInt32.not_le.mpr hlt, rfl⟩
  rename_i hle
  have hle : s.nextCryptoId ≤ cfg.maxTunnels := UInt32.not_lt.mp hle
  refine .inr ⟨hle, ?_, rfl⟩
  intro heq
  rw [heq, UInt32.le_iff_toNat_le] at hle
  have hval : UINT32_MAX.toNat = 2 ^ 32 - 1 := rfl
  omega

theorem addEncryptEntry_cases {env : CreateEnv} {k : K} {x : PspSession} {key : List UInt8}
    {s s' : Gateway K} {r : DocaError} (h : addEncryptEntry env k key (s.setSession k x) = (r, s')) :
    (¬ (env.resourceCfg = .success ∧ env.addEntry = .success) ∧ r ≠ .success ∧
      (∃ y, s'.sessions = put Prod.fst (k, y) s.sessions) ∧ s'.egress = s.egress ∧
      s'.nextCryptoId = s.nextCryptoId) ∨
    ((env.resourceCfg = .success ∧ env.addEntry = .success) ∧ r = .success ∧ ∃ e : EncryptEntry,
      s'.sessions = put Prod.fst (k, { x with encapEncryptEntry := some e.handle }) s.sessions ∧
        s'.egress = s.egress ++ [e] ∧ s'.nextCryptoId = s.nextCryptoId ∧
        e.dstIp = x.dstVip ∧ e.cryptoId = x.cryptoId ∧ e.spi = x.spiEgress) := by
  unfold addEncryptEntry at h
  rw [Gateway.session_setSession] at h
  dsimp only at h
  split at h
  · rename_i hcfg
    cases h
    exact .inl ⟨fun hok => hcfg hok.1, hcfg, ⟨_, rfl⟩, rfl, rfl⟩
  rename_i hcfg
  split at h
  · rename_i hadd
    cases h
    exact .inl ⟨fun hok => hadd hok.2, hadd, ⟨_, rfl⟩, rfl, rfl⟩
  · rename_i hadd
    cases h
    exact .inr ⟨⟨not_not.mp hcfg, not_not.mp hadd⟩, rfl, ⟨(s.setSession k x).handles, x.dstVip, x.cryptoId, x.spiEgress,
      x.pspProtoVer, x.dstMac, x.dstPip, x.vc⟩, put_put rfl, rfl, rfl, rfl, rfl, rfl⟩

/-- The parameters get past the checks of `create_tunnel_flow`, and there is an id left. -/
def Accepts (params : TunnelParams) (s : Gateway K) : Prop :=
  isPspVerSupported params.pspVersion = true ∧
    params.encryptionKey.length = keyLengthBits params.pspVersion / 8 ∧ s.nextCryptoId ≤ cfg.maxTunnels

/-- The addresses can be parsed, and DOCA Flow takes the resource and the entry. -/
def Completes (params : TunnelParams) (env : CreateEnv) : Prop :=
  params.macAddr ≠ none ∧ params.ipAddr ≠ none ∧ env.resourceCfg = .success ∧ env.addEntry = .success

theorem createTunnelFlow_cases (env : CreateEnv) (vip : UInt32)
    (params : TunnelParams) (s : Gateway K) :
    let o := createTunnelFlow cfg inet env vip params s
    (¬ Accepts cfg params s ∧ o.1 ≠ .success ∧ Same s o.2) ∨ (Accepts cfg params s ∧
      ((¬ Completes params env ∧ o.1 ≠ .success ∧ Failed cfg (inet.ntop vip) s o.2) ∨
        (Completes params env ∧ o.1 = .success ∧ Created cfg (inet.ntop vip) vip s o.2))) := by
  unfold createTunnelFlow beginFlow
  dsimp only
  by_cases hver : isPspVerSupported params.pspVersion = false
  · rw [if_pos hver]
    exact .inl ⟨fun h => (nomatch hver.symm.trans h.1), nofun, Same.refl s⟩
  rw [if_neg hver]
  by_cases hkey : params.encryptionKey.length ≠ keyLengthBits params.pspVersion / 8
  · rw [if_pos hkey]
    exact .inl ⟨fun h => hkey h.2.1, nofun, Same.refl s⟩
  rw [if_neg hkey]
  rcases nextCryptoId_cases cfg s with ⟨hfull, hnone⟩ | ⟨hroom, hid, hdraw⟩
  · rw [hnone]
    dsimp only
    rw [if_pos rfl]
    exact .inl ⟨fun h => hfull h.2.2, nofun, Same.refl s⟩
  · refine .inr ⟨⟨by simpa using hver, not_not.mp hkey, hroom⟩, ?_⟩
    rw [hdraw]
    dsimp only
    rw [if_neg hid]
    cases hmac : params.macAddr with
    | none =>
      refine .inl ⟨fun h => h.1 hmac, nofun, ?_, rfl, rfl, hroom⟩
      exact Gateway.eraseSession_setSession ..
    | some mac =>
      dsimp only [assignEgress]
      simp only [Gateway.session_setSession, Gateway.setSession_setSession]
      cases hip : params.ipAddr with
      | none =>
        refine .inl ⟨fun h => h.2.1 hip, nofun, ?_, rfl, rfl, hroom⟩
        exact Gateway.eraseSession_setSession ..
      | some pip =>
        dsimp only [endFlow]
        generalize hadd : addEncryptEntry env (inet.ntop vip) params.encryptionKey _ = added
        obtain ⟨r, s'⟩ := added
        rcases addEncryptEntry_cases (s := { s with nextCryptoId := s.nextCryptoId + 1 }) hadd with
          ⟨hflow, hr, ⟨y, hsessions⟩, hegress, hids⟩ |
          ⟨hflow, hr, e, hsessions, hegress, hids, hdst, hcid, hspi⟩
        · rw [if_pos hr]
          refine .inl ⟨fun h => hflow h.2.2, hr, ?_, hegress, hids, hroom⟩
          show others Prod.fst _ (Gateway.sessions _) = _
          rw [hsessions]
          simp [put, others]
        · rw [if_neg (not_not_intro hr)]
          refine .inr ⟨⟨by simp [hmac], by simp [hip], hflow⟩, rfl,
            ⟨_, e, hsessions, hegress, hdst, hcid, rfl, hspi.symm, hcid.symm⟩, hids, hroom⟩

theorem generateTunnelParams_error {cfg : PspConfig} {gen : GenEnv} {ver : UInt32} {e : DocaError}
    (h : generateTunnelParams cfg gen ver = .error e) : e ≠ .success := by
  unfold generateTunnelParams at h
  split at h
  · cases h
    nofun
  split at h
  · cases h
    nofun
  · split at h <;> cases h
    nofun

def SuppliesReverse (gen : GenEnv) (localVirtIp : UInt32) (rev : Bool) : Prop :=
  cfg.disableIngressAcl = false ∧ rev = true ∧ localVirtIp ≠ 0 ∧
    (generateTunnelParams cfg gen cfg.defaultPspProtoVer).isOk = true

theorem prepareRequest_shape (gen : GenEnv) (acl : DocaError)
    (host : PspHost) (localVirtIp : UInt32) (rev : Bool) (s : Gateway K) :
    let o := prepareRequest cfg inet gen acl host localVirtIp rev s
    (∀ e, o.1 = .error e → e ≠ .success) ∧
      ((SuppliesReverse cfg gen localVirtIp rev ∧ Opened (inet.ntop host.vip) s o.2) ∨
        (¬ SuppliesReverse cfg gen localVirtIp rev ∧ Same s o.2)) := by
  unfold prepareRequest SuppliesReverse
  dsimp only
  split
  · rename_i hrev
    split
    · rename_i hlocal
      refine ⟨fun e he => ?_, .inr ⟨fun h => h.2.2.1 hlocal, rfl, rfl, rfl⟩⟩
      cases he
      nofun
    rename_i hlocal
    cases hgen : generateTunnelParams cfg gen cfg.defaultPspProtoVer with
    | error e =>
      refine ⟨fun e' he => ?_, .inr ⟨fun h => (nomatch h.2.2.2), rfl, rfl, rfl⟩⟩
      cases he
      exact generateTunnelParams_error hgen
    | ok params =>
      dsimp only
      cases hacl : cfg.disableIngressAcl with
      | true =>
        rw [if_pos rfl]
        exact ⟨fun e he => (nomatch he), .inr ⟨fun h => (nomatch h.1), rfl, rfl, rfl⟩⟩
      | false =>
        rw [if_neg Bool.false_ne_true]
        have hopened := addIngressAclEntry_opened cfg acl (inet.ntop host.vip) params.spi host.vip
          { s with nextRequestId := s.nextRequestId + 1 }
        split
        · rename_i hr
          refine ⟨fun e he => ?_, .inl ⟨⟨rfl, hrev, hlocal, rfl⟩, ?_⟩⟩
          · cases he
            exact hr
          · exact ⟨hopened.sessions, hopened.egress, hopened.ids⟩
        · refine ⟨fun e he => (nomatch he), .inl ⟨⟨rfl, hrev, hlocal, rfl⟩, ?_⟩⟩
          exact ⟨hopened.sessions, hopened.egress, hopened.ids⟩
  · rename_i hrev
    exact ⟨fun e he => (nomatch he), .inr ⟨fun h => hrev h.2.1, rfl, rfl, rfl⟩⟩

theorem requestTunnelToHost_installed {cfg : PspConfig} {inet : Inet K} {env : RequestEnv}
    {host : PspHost} {localVirtIp : UInt32} {rev : Bool}
    (h : (requestTunnelToHost cfg inet env host localVirtIp rev s).1 = .success) :
    Installed host.vip (requestTunnelToHost cfg inet env host localVirtIp rev s).2 := by
  unfold requestTunnelToHost at h ⊢
  have herror := (prepareRequest_shape cfg inet env.gen env.acl host localVirtIp rev s).1
  rcases hprep : prepareRequest cfg inet env.gen env.acl host localVirtIp rev s with ⟨r, s₁⟩
  rw [hprep] at herror h
  cases r with
  | error e => exact absurd h (herror e rfl)
  | ok request =>
    dsimp only at h ⊢
    cases hreply : env.reply with
    | none =>
      rw [hreply] at h
      cases h
    | some params =>
      rw [hreply] at h
      rcases createTunnelFlow_cases cfg inet env.create host.vip params s₁ with
        ⟨-, hr, -⟩ | ⟨-, ⟨-, hr, -⟩ | ⟨-, -, hcreated⟩⟩
      · exact absurd h hr
      · exact absurd h hr
      · obtain ⟨x, entry, -, hegress, hdst, -⟩ := hcreated.entry
        exact ⟨entry, hegress ▸ mem_append_right _ (mem_singleton_self entry), hdst⟩

theorem prepareRequest_ok_iff (gen : GenEnv) (acl : DocaError) (host : PspHost) (localVirtIp : UInt32)
    (rev : Bool) (s : Gateway K) :
    (∃ request, (prepareRequest cfg inet gen acl host localVirtIp rev s).1 = .ok request) ↔
      Sends cfg gen acl localVirtIp rev := by
  unfold prepareRequest Sends
  cases rev with
  | false => simp
  | true =>
    by_cases hlocal : localVirtIp = 0
    · simp [hlocal]
    cases generateTunnelParams cfg gen cfg.defaultPspProtoVer with
    | error _ => simp [hlocal, Except.isOk, Except.toBool]
    | ok params =>
      cases hacl : cfg.disableIngressAcl with
      | true => simp [hlocal, Except.isOk, Except.toBool]
      | false =>
        by_cases hok : acl = .success <;>
          simp [hlocal, addIngressAclEntry_result _ _ _ hacl, hok, Except.isOk, Except.toBool]

/-- What a call does behind the ACL: `create_tunnel_flow`, or nothing if it does not get there. -/
def CallsFlow (call : Option (UInt32 × TunnelParams × CreateEnv)) (s₁ s' : Gateway K) : Prop :=
  match call with
  | none => s' = s₁
  | some (v, params, env) => s' = (createTunnelFlow cfg inet env v params s₁).2

theorem requestTunnelToHost_flow (env : RequestEnv) (host : PspHost) (localVirtIp : UInt32) (rev : Bool)
    (s : Gateway K) :
    CallsFlow cfg inet (if Sends cfg env.gen env.acl localVirtIp rev then
        env.reply.map fun params => (host.vip, params, env.create) else none)
      (prepareRequest cfg inet env.gen env.acl host localVirtIp rev s).2
      (requestTunnelToHost cfg inet env host localVirtIp rev s).2 := by
  have hsent := prepareRequest_ok_iff cfg inet env.gen env.acl host localVirtIp rev s
  unfold requestTunnelToHost
  rcases hprep : prepareRequest cfg inet env.gen env.acl host localVirtIp rev s with ⟨r, s₁⟩
  rw [hprep] at hsent
  cases r with
  | error e =>
    rw [if_neg fun h => by simpa using hsent.mpr h]
    rfl
  | ok request =>
    rw [if_pos (hsent.mp ⟨request, rfl⟩)]
    cases env.reply <;> rfl

theorem openForPeer_ok_iff {inet : Inet K} {vip : UInt32} (hk : inet.pton k = some vip)
    (acl : DocaError) (spi : UInt32) (s : Gateway K) :
    (openForPeer cfg inet acl k spi s).1 = .ok ↔ cfg.disableIngressAcl = true ∨ acl = .success := by
  unfold openForPeer
  cases hacl : cfg.disableIngressAcl with
  | true => simp
  | false => by_cases hok : acl = .success <;> simp [hk, addIngressAclEntry_result _ _ _ hacl, hok]

theorem openForPeer_shape (acl : DocaError) (k : K) (spi : UInt32)
    (s : Gateway K) :
    (cfg.disableIngressAcl = false ∧ Opened k s (openForPeer cfg inet acl k spi s).2) ∨
      (cfg.disableIngressAcl = true ∧ openForPeer cfg inet acl k spi s = (.ok, s)) := by
  unfold openForPeer
  cases hacl : cfg.disableIngressAcl with
  | true => exact .inr ⟨rfl, rfl⟩
  | false =>
    refine .inl ⟨rfl, ?_⟩
    dsimp only
    rw [if_neg Bool.false_ne_true]
    cases inet.pton k with
    | none => exact ⟨⟨_, rfl, rfl, rfl, rfl⟩, rfl, rfl⟩
    | some srcVip =>
      have hopened := addIngressAclEntry_opened cfg acl k spi srcVip s
      dsimp only
      split <;> exact hopened

/-- The first part of a call opens the ACL for its session, or leaves everything as it is. -/
def OpenPart (e : PspEvent K) (s s₁ : Gateway K) : Prop :=
  (OpensAcl cfg inet s e ∧ Opened (e.key inet) s s₁) ∨ (¬ OpensAcl cfg inet s e ∧ Same s s₁)

omit [DecidableEq K] in
theorem resubmit_gateway (env : MissEnv) (requested : Bool) (s : Gateway K) :
    (resubmit env requested s).gateway = s := by
  unfold resubmit
  split <;> rfl

section Miss

variable {cfg : PspConfig} {inet : Inet K} {packet : Packet} {env : MissEnv}

theorem handleMissPacket_startup (hstart : cfg.createTunnelsAtStartup = true) :
    handleMissPacket cfg inet env packet s = ⟨.success, false, false, s⟩ := by
  rw [handleMissPacket, if_pos hstart]

section

variable (hstart : cfg.createTunnelsAtStartup = false)

include hstart

theorem handleMissPacket_present {x : PspSession}
    (hipv4 : packet.ipv4 = true) (hx : s.session? (inet.ntop packet.dst) = some x) :
    handleMissPacket cfg inet env packet s = resubmit env false s := by
  rw [handleMissPacket, if_neg (by rw [hstart]; nofun), if_neg (by rw [hipv4]; nofun), hx]

theorem handleMissPacket_unknown
    (hipv4 : packet.ipv4 = true) (hnone : s.session? (inet.ntop packet.dst) = none)
    (hhost : lookupRemoteHost cfg packet.dst = none) :
    handleMissPacket cfg inet env packet s = ⟨.notFound, false, false, s⟩ := by
  rw [handleMissPacket, if_neg (by rw [hstart]; nofun), if_neg (by rw [hipv4]; nofun), hnone]
  dsimp only
  rw [hhost]

theorem handleMissPacket_requests {host : PspHost} (hipv4 : packet.ipv4 = true)
    (hnone : s.session? (inet.ntop packet.dst) = none)
    (hhost : lookupRemoteHost cfg packet.dst = some host) :
    handleMissPacket cfg inet env packet s =
      let o := requestTunnelToHost cfg inet env.toRequestEnv host packet.src true s
      if o.1 ≠ .success then ⟨o.1, true, false, o.2⟩ else resubmit env true o.2 := by
  rw [handleMissPacket, if_neg (by rw [hstart]; nofun), if_neg (by rw [hipv4]; nofun), hnone]
  dsimp only
  rw [hhost]

end

end Miss

theorem lookupRemoteHost_vip {cfg : PspConfig} {host : PspHost}
    (h : lookupRemoteHost cfg v = some host) : host.vip = v := by
  simpa using find?_some h

theorem miss_shape (s : Gateway K) (packet : Packet) (env : MissEnv) :
    ∃ s₁, OpenPart cfg inet (.miss packet env) s s₁ ∧
      CallsFlow cfg inet (flowCall cfg inet s (.miss packet env)) s₁
        (handleMissPacket cfg inet env packet s).gateway := by
  have quiet : ¬ OpensAcl cfg inet s (.miss packet env) →
      flowCall cfg inet s (.miss packet env) = none →
      ∃ s₁, OpenPart cfg inet (.miss packet env) s s₁ ∧
        CallsFlow cfg inet (flowCall cfg inet s (.miss packet env)) s₁ s := by
    intro hno hcall
    rw [hcall]
    exact ⟨s, .inr ⟨hno, Same.refl s⟩, rfl⟩
  cases hstart : cfg.createTunnelsAtStartup with
  | true =>
    rw [handleMissPacket_startup hstart]
    exact quiet (by simp [OpensAcl, hstart]) (by simp [flowCall, hstart])
  | false =>
    cases hipv4 : packet.ipv4 with
    | false =>
      rw [handleMissPacket, if_neg (by rw [hstart]; nofun), if_pos hipv4]
      exact quiet (by simp [OpensAcl, hipv4]) (by simp [flowCall, hipv4])
    | true =>
      cases hx : s.session? (inet.ntop packet.dst) with
      | some x =>
        rw [handleMissPacket_present hstart hipv4 hx, resubmit_gateway]
        exact quiet (by simp [OpensAcl, hx]) (by simp [flowCall, hx])
      | none =>
        cases hhost : lookupRemoteHost cfg packet.dst with
        | none =>
          rw [handleMissPacket_unknown hstart hipv4 hx hhost]
          exact quiet (by simp [OpensAcl, hhost]) (by simp [flowCall, hhost])
        | some host =>
          have hvip : host.vip = packet.dst := lookupRemoteHost_vip hhost
          have hflow := requestTunnelToHost_flow cfg inet env.toRequestEnv host packet.src true s
          rw [hvip] at hflow
          refine ⟨(prepareRequest cfg inet env.gen env.acl host packet.src true s).2, ?_, ?_⟩
          · obtain ⟨-, ⟨h, ho⟩ | ⟨h, hs⟩⟩ :=
              prepareRequest_shape cfg inet env.gen env.acl host packet.src true s
            · rw [hvip] at ho
              exact .inl ⟨⟨h.1, hstart, hipv4, hx, by rw [hhost]; rfl, h.2.2⟩, ho⟩
            · exact .inr ⟨fun ho => h ⟨ho.1, rfl, ho.2.2.2.2.2⟩, hs⟩
          · have hgateway : (handleMissPacket cfg inet env packet s).gateway =
                (requestTunnelToHost cfg inet env.toRequestEnv host packet.src true s).2 := by
              rw [handleMissPacket_requests hstart hipv4 hx hhost]
              dsimp only
              split
              · rfl
              · exact resubmit_gateway ..
            simp only [hgateway, flowCall, hstart, hipv4, hx, hhost, Option.isSome_some, true_and]
            exact hflow

theorem serve_shape (s : Gateway K) (request : TunnelRequest K) (env : ServeEnv) :
    ∃ s₁, OpenPart cfg inet (.serve request env) s s₁ ∧
      CallsFlow cfg inet (flowCall cfg inet s (.serve request env)) s₁
        (requestTunnelParams cfg inet env request s).2.2 := by
  have quiet : ¬ Serves cfg request env.gen env.acl →
      flowCall cfg inet s (.serve request env) = none := by
    intro hno
    dsimp only [flowCall]
    split
    · rfl
    · exact if_neg hno
  unfold requestTunnelParams
  cases hver : selectPspVersion request.pspVersionsAccepted with
  | none =>
    rw [quiet (by simp [Serves, hver])]
    exact ⟨s, .inr ⟨by simp [OpensAcl, hver], Same.refl s⟩, rfl⟩
  | some ver =>
    dsimp only
    cases hgen : generateTunnelParams cfg env.gen ver with
    | error e =>
      rw [quiet (by simp [Serves, hver, hgen, Except.isOk, Except.toBool])]
      refine ⟨s, .inr ⟨?_, Same.refl s⟩, rfl⟩
      simp [OpensAcl, hver, hgen, Except.isOk, Except.toBool]
    | ok params =>
      dsimp only
      have hserves : Serves cfg request env.gen env.acl ↔
          cfg.disableIngressAcl = true ∨ env.acl = .success := by
        simp [Serves, hver, hgen, Except.isOk, Except.toBool]
      refine ⟨(openForPeer cfg inet env.acl request.virtSrcIp params.spi s).2, ?_, ?_⟩
      · rcases openForPeer_shape cfg inet env.acl request.virtSrcIp params.spi s with
          ⟨hacl, h⟩ | ⟨hacl, h⟩
        · exact .inl ⟨⟨hacl, ver, hver, by rw [hgen]; rfl⟩, h⟩
        · rw [h]
          exact .inr ⟨by simp [OpensAcl, hacl], Same.refl s⟩
      cases hpton : inet.pton request.virtSrcIp with
      | none =>
        simp only [flowCall, hpton, CallsFlow]
        rcases openForPeer cfg inet env.acl request.virtSrcIp params.spi s with ⟨_ | _, s₁⟩ <;>
          cases request.reverseParams <;> rfl
      | some vip =>
        have hok := openForPeer_ok_iff cfg hpton env.acl params.spi s
        rcases hopen : openForPeer cfg inet env.acl request.virtSrcIp params.spi s with ⟨status, s₁⟩
        rw [hopen] at hok
        simp only [flowCall, hpton]
        by_cases hstatus : status = .ok
        · subst hstatus
          rw [if_pos (hserves.mpr (hok.mp rfl))]
          cases request.reverseParams with
          | none => rfl
          | some reverse =>
            simp only [CallsFlow, Option.map_some]
            split <;> rfl
        · rw [if_neg fun h => hstatus (hok.mpr (hserves.mp h))]
          cases status with
          | ok => exact absurd rfl hstatus
          | invalidArgument | resourceExhausted | internal | unknown => rfl

/-- **What a call of the service can do.** -/
theorem pspStep_shape (s : Gateway K) (e : PspEvent K) :
    ∃ s₁, OpenPart cfg inet e s s₁ ∧
      CallsFlow cfg inet (flowCall cfg inet s e) s₁ (pspStep cfg inet s e) := by
  cases e with
  | connect host localVfAddr env =>
    have hflow := requestTunnelToHost_flow cfg inet env host localVfAddr false s
    have hsends : Sends cfg env.gen env.acl localVfAddr false := fun h => absurd h Bool.false_ne_true
    rw [if_pos hsends] at hflow
    refine ⟨_, ?_, hflow⟩
    obtain ⟨-, ⟨h, -⟩ | ⟨-, h⟩⟩ := prepareRequest_shape cfg inet env.gen env.acl host localVfAddr false s
    · exact absurd h.2.1 Bool.false_ne_true
    · exact .inr ⟨fun h => h, h⟩
  | serve request env => exact serve_shape cfg inet s request env
  | miss packet env => exact miss_shape cfg inet s packet env

theorem flowCall_key {cfg : PspConfig} {inet : Inet K} {e : PspEvent K} {params : TunnelParams}
    {env : CreateEnv} (h : flowCall cfg inet s e = some (v, params, env)) : e.key inet = inet.ntop v := by
  cases e with
  | miss packet env =>
    dsimp only [flowCall] at h
    split at h
    · obtain ⟨p, -, hp⟩ := Option.map_eq_some_iff.mp h
      cases hp
      rfl
    · cases h
  | connect host localVfAddr env =>
    obtain ⟨p, -, hp⟩ := Option.map_eq_some_iff.mp h
    cases hp
    rfl
  | serve request env =>
    dsimp only [flowCall] at h
    split at h
    · cases h
    rename_i vip hvip
    split at h
    · obtain ⟨p, -, hp⟩ := Option.map_eq_some_iff.mp h
      cases hp
      exact (inet.pton_eq_some _ _).mp hvip
    · cases h

omit [DecidableEq K] in
theorem Inet.ntop_injective {v w : UInt32} (h : inet.ntop v = inet.ntop w) : v = w := by
  have hv : inet.pton (inet.ntop v) = some v := (inet.pton_eq_some _ _).mpr rfl
  have hw : inet.pton (inet.ntop v) = some w := (inet.pton_eq_some _ _).mpr h
  exact Option.some.inj (hv.symm.trans hw)

variable {cfg : PspConfig} {inet : Inet K} {e : PspEvent K}

section

variable (h : OpenPart cfg inet e s s₁)

include h

theorem OpenPart.egress : s₁.egress = s.egress := by
  rcases h with ⟨_, h⟩ | ⟨_, h⟩ <;> exact h.egress

theorem OpenPart.ids : s₁.nextCryptoId = s.nextCryptoId := by
  rcases h with ⟨_, h⟩ | ⟨_, h⟩ <;> exact h.ids

theorem OpenPart.session?_ne (hk : e.key inet ≠ k) : s₁.session? k = s.session? k := by
  rcases h with ⟨_, h⟩ | ⟨_, h⟩
  · obtain ⟨x, hx, _⟩ := h.sessions
    rw [Gateway.session?_put hx, if_neg hk]
  · exact Gateway.session?_eq h.sessions k

theorem OpenPart.session_flow (k : K) :
    (s₁.session k).encapEncryptEntry = (s.session k).encapEncryptEntry ∧
      (s₁.session k).spiEgress = (s.session k).spiEgress ∧
      (s₁.session k).cryptoId = (s.session k).cryptoId := by
  by_cases hk : e.key inet = k
  · rcases h with ⟨_, h⟩ | ⟨_, h⟩
    · obtain ⟨x, hx, henc, hspi, hid⟩ := h.sessions
      have hsession : s₁.session k = x := by
        rw [Gateway.session, Gateway.session?_put hx, if_pos hk]
        rfl
      rw [hsession, ← hk]
      exact ⟨henc, hspi, hid⟩
    · rw [Gateway.session_eq h.sessions]
      exact ⟨rfl, rfl, rfl⟩
  · rw [Gateway.session, h.session?_ne hk, Gateway.session]
    exact ⟨rfl, rfl, rfl⟩

end

theorem add_one_ne_self (n : UInt32) : n + 1 ≠ n := by
  intro h
  have hnat := congrArg UInt32.toNat h
  have hlt := n.toNat_lt
  rw [UInt32.toNat_add, UInt32.toNat_one] at hnat
  omega

theorem pspStep_flow (cfg : PspConfig) (inet : Inet K) (s : Gateway K) (e : PspEvent K) :
    ∃ s₁, OpenPart cfg inet e s s₁ ∧
      (((∀ v params env, flowCall cfg inet s e = some (v, params, env) → ¬ Accepts cfg params s) ∧
          Same s₁ (pspStep cfg inet s e)) ∨
        ∃ v params env, flowCall cfg inet s e = some (v, params, env) ∧ Accepts cfg params s ∧
          ((¬ Completes params env ∧ Failed cfg (e.key inet) s₁ (pspStep cfg inet s e)) ∨
            (Completes params env ∧ Created cfg (e.key inet) v s₁ (pspStep cfg inet s e)))) := by
  obtain ⟨s₁, hopen, hflow⟩ := pspStep_shape cfg inet s e
  refine ⟨s₁, hopen, ?_⟩
  cases hcall : flowCall cfg inet s e with
  | none =>
    rw [hcall] at hflow
    have hflow : pspStep cfg inet s e = s₁ := hflow
    exact .inl ⟨nofun, hflow ▸ Same.refl _⟩
  | some call =>
    obtain ⟨v, params, env⟩ := call
    rw [hcall] at hflow
    have hflow : pspStep cfg inet s e = (createTunnelFlow cfg inet env v params s₁).2 := hflow
    have haccepts : Accepts cfg params s₁ ↔ Accepts cfg params s := by rw [Accepts, hopen.ids, Accepts]
    rw [hflow, flowCall_key hcall]
    rcases createTunnelFlow_cases cfg inet env v params s₁ with
      ⟨hno, -, h⟩ | ⟨hyes, ⟨hno, -, h⟩ | ⟨hcomp, -, h⟩⟩
    · refine .inl ⟨fun v' params' env' heq => ?_, h⟩
      cases heq
      exact haccepts.not.mp hno
    · exact .inr ⟨v, params, env, rfl, haccepts.mp hyes, .inl ⟨hno, h⟩⟩
    · exact .inr ⟨v, params, env, rfl, haccepts.mp hyes, .inr ⟨hcomp, h⟩⟩

/-- **When a call draws an id**: it gets to `create_tunnel_flow` with parameters that are accepted. -/
theorem draws_iff : Draws cfg inet s e ↔
    ∃ v params env, flowCall cfg inet s e = some (v, params, env) ∧ Accepts cfg params s := by
  obtain ⟨s₁, hopen, ⟨hno, h⟩ | ⟨v, params, env, hcall, hyes, hpart⟩⟩ := pspStep_flow cfg inet s e
  · refine iff_of_false (not_not_intro (h.ids.trans hopen.ids)) ?_
    rintro ⟨v, params, env, hcall, hyes⟩
    exact hno v params env hcall hyes
  · refine iff_of_true ?_ ⟨v, params, env, hcall, hyes⟩
    have hids : (pspStep cfg inet s e).nextCryptoId = s.nextCryptoId + 1 := by
      rcases hpart with ⟨-, h⟩ | ⟨-, h⟩ <;> rw [h.ids, hopen.ids]
    rw [Draws, hids]
    exact add_one_ne_self _

/-- **A call that draws an id creates the flow it is about or fails to; any other call leaves entries
    and ids alone.** -/
theorem pspStep_cases (cfg : PspConfig) (inet : Inet K) (s : Gateway K) (e : PspEvent K) :
    ∃ s₁, OpenPart cfg inet e s s₁ ∧ ((¬ Draws cfg inet s e ∧ Same s₁ (pspStep cfg inet s e)) ∨
        (Draws cfg inet s e ∧ ∃ v, e.key inet = inet.ntop v ∧
          (Failed cfg (e.key inet) s₁ (pspStep cfg inet s e) ∨
            Created cfg (e.key inet) v s₁ (pspStep cfg inet s e)))) := by
  obtain ⟨s₁, hopen, ⟨hno, h⟩ | ⟨v, params, env, hcall, hyes, hpart⟩⟩ := pspStep_flow cfg inet s e
  · exact ⟨s₁, hopen, .inl ⟨not_not_intro (h.ids.trans hopen.ids), h⟩⟩
  · refine ⟨s₁, hopen, .inr ⟨draws_iff.mpr ⟨v, params, env, hcall, hyes⟩, v, flowCall_key hcall, ?_⟩⟩
    exact hpart.imp And.right And.right

omit [DecidableEq K] in
theorem installed_congr (h : s'.egress = s.egress) : Installed v s' ↔ Installed v s := by
  rw [Installed, h, Installed]

end Shape

theorem pspRun_append (pre : List (PspEvent K)) (e : PspEvent K) :
    pspRun cfg inet (pre ++ [e]) = pspStep cfg inet (pspRun cfg inet pre) e := by
  simp [pspRun]

theorem forall_steps_concat {E : Type} {P : List E → E → Prop} {es : List E} {last : E} :
    (∀ pre e, pre ++ [e] <+: es ++ [last] → P pre e) ↔
      (∀ pre e, pre ++ [e] <+: es → P pre e) ∧ P es last := by
  constructor
  · intro h
    exact ⟨fun pre e hpre => h pre e (hpre.trans (prefix_append es [last])), h es last prefix_rfl⟩
  · rintro ⟨hbefore, hlast⟩ pre e hpre
    rcases List.prefix_concat_iff.mp hpre with heq | hpre
    · obtain ⟨rfl, hcons⟩ := append_inj' heq rfl
      cases hcons
      exact hlast
    · exact hbefore pre e hpre

theorem forall_steps_nil {E : Type} {P : List E → E → Prop} : ∀ pre e, pre ++ [e] <+: [] → P pre e := by
  intro pre e hpre
  exact absurd (List.prefix_nil.mp hpre) (append_ne_nil_of_right_ne_nil _ (cons_ne_nil _ _))

/-! ## A gateway with one peer -/

def plainInet : Inet (Option UInt32) := ⟨some, id, fun _ _ => Iff.rfl⟩

def onePeer : PspConfig := ⟨[⟨20, 200⟩], 1, 8, false, false, [], [], by decide, by decide, by decide⟩

def workingGen (spi : UInt32) : GenEnv := ⟨true, .success, .success, spi, fun _ => 7⟩

def missPeer (reply : Option TunnelParams) : PspEvent (Option UInt32) :=
  .miss ⟨true, 10, 20⟩ ⟨⟨workingGen 5, .success, reply, ⟨.success, .success⟩⟩, true⟩

def servePeer (reverse : Option TunnelParams) : PspEvent (Option UInt32) :=
  .serve ⟨1, [1], some 20, some 10, reverse⟩ ⟨workingGen 6, .success, ⟨.success, .success⟩⟩

/-! ## Re-injected packets -/

section Reinject

variable {s s' s₁ : Gateway K} {cfg : PspConfig} {inet : Inet K} {e : PspEvent K}

/-- Every re-injected IPv4 packet has its tunnel, and for every other one a tunnel is requested or an
    error reported. -/
def MissOk (cfg : PspConfig) (inet : Inet K) (s : Gateway K) : Prop :=
  ∀ (env : MissEnv) (packet : Packet), packet.ipv4 = true →
    ((handleMissPacket cfg inet env packet s).reinjected = true →
      Installed packet.dst (handleMissPacket cfg inet env packet s).gateway) ∧
    ((handleMissPacket cfg inet env packet s).reinjected = false →
      (handleMissPacket cfg inet env packet s).requested = true ∨
        (handleMissPacket cfg inet env packet s).status ≠ .success)

/-- A call that opens the ACL of an address finds its entry installed, or draws an id for it. -/
def OpensBacked (cfg : PspConfig) (inet : Inet K) (s : Gateway K) (e : PspEvent K) : Prop :=
  OpensAcl cfg inet s e → ∀ v, e.key inet = inet.ntop v → Installed v s ∨ Draws cfg inet s e

def Backed (inet : Inet K) (s : Gateway K) : Prop :=
  ∀ v, s.session? (inet.ntop v) ≠ none → Installed v s

theorem Backed.step (h : Backed inet s) (hbacked : OpensBacked cfg inet s e) :
    Backed inet (pspStep cfg inet s e) := by
  intro w hw
  obtain ⟨s₁, hopen, ⟨hno, hsame⟩ | ⟨_, v, hkey, hfail | hcreate⟩⟩ := pspStep_cases cfg inet s e
  · rw [installed_congr (hsame.egress.trans hopen.egress)]
    rw [Gateway.session?_eq hsame.sessions] at hw
    by_cases hk : e.key inet = inet.ntop w
    · rcases hopen with ⟨hacl, _⟩ | ⟨_, hsame₁⟩
      · exact (hbacked hacl w hk).resolve_right hno
      · rw [Gateway.session?_eq hsame₁.sessions] at hw
        exact h w hw
    · rw [hopen.session?_ne hk] at hw
      exact h w hw
  · rw [installed_congr (hfail.egress.trans hopen.egress)]
    rw [Gateway.session?_others hfail.sessions] at hw
    split at hw
    · exact absurd rfl hw
    · rename_i hk
      rw [hopen.session?_ne hk] at hw
      exact h w hw
  · obtain ⟨x, entry, hsessions, hegress, hdst, _⟩ := hcreate.entry
    by_cases hk : e.key inet = inet.ntop w
    · have hvw : v = w := inet.ntop_injective (hkey.symm.trans hk)
      refine ⟨entry, ?_, hdst.trans hvw⟩
      rw [hegress]
      exact mem_append_right _ (mem_singleton_self entry)
    · rw [Gateway.session?_put hsessions, if_neg hk, hopen.session?_ne hk] at hw
      obtain ⟨old, hold, hvip⟩ := h w hw
      refine ⟨old, ?_, hvip⟩
      rw [hegress, hopen.egress]
      exact mem_append_left _ hold

theorem OpensBacked.of_backed (h : Backed inet (pspStep cfg inet s e)) : OpensBacked cfg inet s e := by
  intro hacl v hkey
  obtain ⟨s₁, hopen, ⟨_, hsame⟩ | ⟨hdraws, _⟩⟩ := pspStep_cases cfg inet s e
  · left
    rw [← installed_congr (hsame.egress.trans hopen.egress)]
    apply h
    rw [Gateway.session?_eq hsame.sessions]
    rcases hopen with ⟨_, hopened⟩ | ⟨hno, _⟩
    · obtain ⟨x, hx, _⟩ := hopened.sessions
      rw [Gateway.session?_put hx, if_pos hkey]
      exact Option.some_ne_none x
    · exact absurd hacl hno
  · exact .inr hdraws

def failingEnv : MissEnv :=
  ⟨⟨⟨false, .driver, .driver, 0, fun _ => 0⟩, .driver, none, ⟨.driver, .driver⟩⟩, true⟩

theorem missOk_of_backed (hstart : cfg.createTunnelsAtStartup = false) (h : Backed inet s) :
    MissOk cfg inet s := by
  intro env packet hipv4
  cases hx : s.session? (inet.ntop packet.dst) with
  | some x =>
    rw [handleMissPacket_present hstart hipv4 hx]
    unfold resubmit
    split
    · exact ⟨fun _ => h _ (by rw [hx]; exact Option.some_ne_none x), fun hno => absurd hno.symm Bool.false_ne_true⟩
    · exact ⟨fun hyes => absurd hyes Bool.false_ne_true, fun _ => .inr nofun⟩
  | none =>
    cases hhost : lookupRemoteHost cfg packet.dst with
    | none =>
      rw [handleMissPacket_unknown hstart hipv4 hx hhost]
      exact ⟨fun hyes => absurd hyes Bool.false_ne_true, fun _ => .inr nofun⟩
    | some host =>
      have hvip : host.vip = packet.dst := lookupRemoteHost_vip hhost
      rw [handleMissPacket_requests hstart hipv4 hx hhost]
      dsimp only
      split
      · exact ⟨fun hyes => absurd hyes Bool.false_ne_true, fun _ => .inl rfl⟩
      rename_i hsuccess
      have hsuccess := Decidable.not_not.mp hsuccess
      have hinstalled : Installed packet.dst
          (requestTunnelToHost cfg inet env.toRequestEnv host packet.src true s).2 := by
        rw [← hvip]
        exact requestTunnelToHost_installed hsuccess
      unfold resubmit
      split
      · exact ⟨fun _ => hinstalled, fun hno => absurd hno.symm Bool.false_ne_true⟩
      · exact ⟨fun hyes => absurd hyes Bool.false_ne_true, fun _ => .inl rfl⟩

theorem missOk_iff : MissOk cfg inet s ↔ cfg.createTunnelsAtStartup = false ∧ Backed inet s := by
  refine ⟨fun h => ?_, fun h => missOk_of_backed h.1 h.2⟩
  cases hstart : cfg.createTunnelsAtStartup with
  | true =>
    have hidle := (h failingEnv ⟨true, 0, 0⟩ rfl).2
    rw [handleMissPacket_startup hstart] at hidle
    rcases hidle rfl with hno | hno
    · cases hno
    · exact absurd rfl hno
  | false =>
    refine ⟨rfl, fun v hv => ?_⟩
    obtain ⟨x, hx⟩ := Option.ne_none_iff_exists'.mp hv
    have hsent := (h failingEnv ⟨true, 0, v⟩ rfl).1
    rw [handleMissPacket_present hstart rfl hx] at hsent
    exact hsent rfl

/-- **Every packet that is re-injected after any part of a run has its tunnel exactly if every call of
    the run that opens the ACL of an address without entry goes on to draw an id for it.** -/
theorem reinjected_installed_iff (cfg : PspConfig) (inet : Inet K) (es : List (PspEvent K)) :
    (∀ pre, pre <+: es → MissOk cfg inet (pspRun cfg inet pre)) ↔ cfg.createTunnelsAtStartup = false ∧
        ∀ pre e, pre ++ [e] <+: es → OpensBacked cfg inet (pspRun cfg inet pre) e := by
  constructor
  · intro h
    refine ⟨(missOk_iff.mp (h [] nil_prefix)).1, fun pre e hpre => ?_⟩
    have hafter := (missOk_iff.mp (h _ hpre)).2
    rw [pspRun_append] at hafter
    exact OpensBacked.of_backed hafter
  · rintro ⟨hstart, hsteps⟩ pre
    have hbacked : pre <+: es → Backed inet (pspRun cfg inet pre) := by
      induction pre using reverseRecOn with
      | nil =>
        intro _ v hv
        exact absurd rfl hv
      | append_singleton pre e ih =>
        intro hpre
        rw [pspRun_append]
        exact (ih ((prefix_append pre [e]).trans hpre)).step (hsteps pre e hpre)
    exact fun hpre => missOk_of_backed hstart (hbacked hpre)

/-- After a failed remote call, and after a request of the peer without reverse parameters, packets for
    the peer are re-injected although there is no entry for it. -/
theorem reinjected_without_tunnel : ¬ MissOk onePeer plainInet (pspRun onePeer plainInet [missPeer none]) ∧
      ¬ MissOk onePeer plainInet (pspRun onePeer plainInet [servePeer none]) := by
  constructor
  all_goals
    intro h
    obtain ⟨entry, hentry, _⟩ := (h failingEnv ⟨true, 10, 20⟩ rfl).1 rfl
    cases hentry

end Reinject

end Doca.Psp
