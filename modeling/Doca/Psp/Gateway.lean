import Doca.Common.Error
import Doca.Lib.Bytes
import Doca.Lib.Table

/-!
# PSP gateway: sessions, flows and tunnel requests

Model of `PSP_GatewayImpl` (`psp_gw_svc_impl.cpp`) and of the two functions of `PSP_GatewayFlows`
that it uses, `add_ingress_acl_entry` and `add_encrypt_entry`.

* `Gateway` — the map `sessions`, the counters, and what was asked of DOCA Flow: the entries of the
  ingress ACL and of the egress pipe, and the shared resources.  Entries are never removed.
* `createTunnelFlow`, `requestTunnelToHost`, `requestTunnelParams`, `handleMissPacket` — the
  functions of the service, each as one step on the gateway.

Packet counters, log messages and the parts of the encapsulation header that do not come from a
session are left out.
-/

namespace Doca.Psp

open Doca.Lib

/-! ## Data -/

/-- `inet_ntop` and `inet_pton` for IPv4.  Only the text that `inet_ntop` writes is accepted. -/
structure Inet (K : Type) where
  ntop : UInt32 → K
  pton : K → Option UInt32
  pton_eq_some : ∀ k v, pton k = some v ↔ k = ntop v

structure PspHost where
  vip : UInt32
  svcIp : UInt32

def isPspVerSupported (ver : UInt32) : Bool := ver = 0 ∨ ver = 1

def keyLengthBits (ver : UInt32) : Nat := if ver = 0 ∨ ver = 2 then 128 else 256

/-- The configuration; the last fields are what the handlers of the parameters check. -/
structure PspConfig where
  hosts : List PspHost
  defaultPspProtoVer : UInt32
  maxTunnels : UInt32
  disableIngressAcl : Bool
  createTunnelsAtStartup : Bool
  srcMac : List UInt8
  srcPip : List UInt8
  supported : isPspVerSupported defaultPspProtoVer = true
  one_le_max : 1 ≤ maxTunnels.toNat
  max_lt : maxTunnels.toNat < 2 ^ 31

/-- `TunnelParameters`; the two addresses are what parsing their text gives. -/
structure TunnelParams where
  macAddr : Option (List UInt8)
  ipAddr : Option (List UInt8)
  pspVersion : UInt32
  spi : UInt32
  encryptionKey : List UInt8
  virtCookie : UInt64
  deriving DecidableEq

structure TunnelRequest (K : Type) where
  requestId : UInt64
  pspVersionsAccepted : List UInt32
  virtSrcIp : K
  virtDstIp : K
  reverseParams : Option TunnelParams
  deriving DecidableEq

structure PspSession where
  dstMac : List UInt8 := []
  dstPip : List UInt8 := []
  dstVip : UInt32 := 0
  srcVip : UInt32 := 0
  spiEgress : UInt32 := 0
  spiIngress : UInt32 := 0
  cryptoId : UInt32 := 0
  pspProtoVer : UInt32 := 0
  vc : UInt64 := 0
  encapEncryptEntry : Option Nat := none
  aclEntry : Option Nat := none
  deriving DecidableEq

structure AclEntry where
  spi : UInt32
  srcIp : UInt32
  deriving DecidableEq

/-- An entry of `egress_acl_pipe`: the address it matches, its resource and its encapsulation. -/
structure EncryptEntry where
  handle : Nat
  dstIp : UInt32
  cryptoId : UInt32
  spi : UInt32
  ver : UInt32
  dstMac : List UInt8
  dstPip : List UInt8
  vc : UInt64
  deriving DecidableEq

structure PspResource where
  id : UInt32
  keyBits : Nat
  key : List UInt8
  deriving DecidableEq

structure Gateway (K : Type) where
  sessions : List (K × PspSession)
  acl : List AclEntry
  egress : List EncryptEntry
  resources : List PspResource
  nextCryptoId : UInt32
  nextRequestId : UInt64
  handles : Nat

def Gateway.fresh {K : Type} : Gateway K := ⟨[], [], [], [], 1, 0, 0⟩

variable {K : Type} [DecidableEq K]

namespace Gateway

def session? (s : Gateway K) (k : K) : Option PspSession := (lookup Prod.fst k s.sessions).map Prod.snd

/-- `sessions[k]`, which makes up a record of zeros. -/
def session (s : Gateway K) (k : K) : PspSession := (s.session? k).getD {}

def setSession (k : K) (x : PspSession) (s : Gateway K) : Gateway K :=
  { s with sessions := put Prod.fst (k, x) s.sessions }

def eraseSession (k : K) (s : Gateway K) : Gateway K :=
  { s with sessions := others Prod.fst k s.sessions }

end Gateway

/-! ## Flows -/

def assignIngress (k : K) (spi srcVip : UInt32) (s : Gateway K) : Gateway K :=
  s.setSession k { s.session k with spiIngress := spi, srcVip := srcVip }

variable (cfg : PspConfig)

/-- `add_ingress_acl_entry` for `sessions[k]`; `result` is what the insertion returns. -/
def addIngressAclEntry (result : DocaError) (k : K) (s : Gateway K) :
    DocaError × Gateway K :=
  if cfg.disableIngressAcl then (.badState, s)
  else if result ≠ .success then (result, s)
  else
    let x := s.session k
    let added : Gateway K :=
      { s with acl := s.acl ++ [⟨x.spiIngress, x.srcVip⟩], handles := s.handles + 1 }
    (.success, added.setSession k { x with aclEntry := some s.handles })

structure CreateEnv where
  resourceCfg : DocaError
  addEntry : DocaError

def addEncryptEntry (env : CreateEnv) (k : K) (key : List UInt8) (s : Gateway K) : DocaError × Gateway K :=
  let x := s.session k
  if env.resourceCfg ≠ .success then (env.resourceCfg, s)
  else
    let s := { s with
      resources := s.resources ++ [⟨x.cryptoId, if x.pspProtoVer = 0 then 128 else 256, key⟩] }
    if env.addEntry ≠ .success then (env.addEntry, s)
    else
      let entry : EncryptEntry :=
        ⟨s.handles, x.dstVip, x.cryptoId, x.spiEgress, x.pspProtoVer, x.dstMac, x.dstPip, x.vc⟩
      let added : Gateway K := { s with egress := s.egress ++ [entry], handles := s.handles + 1 }
      (.success, added.setSession k { x with encapEncryptEntry := some s.handles })

/-! ## The service -/

def UINT32_MAX : UInt32 := 0xFFFFFFFF

def nextCryptoId (s : Gateway K) : UInt32 × Gateway K :=
  if s.nextCryptoId > cfg.maxTunnels then (UINT32_MAX, s)
  else (s.nextCryptoId, { s with nextCryptoId := s.nextCryptoId + 1 })

def assignEgress (k : K) (vip : UInt32) (params : TunnelParams) (cryptoId : UInt32) (s : Gateway K) :
    Gateway K :=
  s.setSession k { s.session k with
    dstVip := vip
    spiEgress := params.spi
    cryptoId := cryptoId
    pspProtoVer := params.pspVersion
    vc := params.virtCookie }

variable (inet : Inet K)

/-- `create_tunnel_flow` up to `add_encrypt_entry`. -/
def beginFlow (vip : UInt32) (params : TunnelParams) (s : Gateway K) :
    Except DocaError Unit × Gateway K :=
  let k := inet.ntop vip
  if isPspVerSupported params.pspVersion = false then (.error .unsupportedVersion, s)
  else if params.encryptionKey.length ≠ keyLengthBits params.pspVersion / 8 then (.error .ioFailed, s)
  else
    let (cryptoId, s) := nextCryptoId cfg s
    if cryptoId = UINT32_MAX then (.error .noMemory, s)
    else
      let s := assignEgress k vip params cryptoId s
      match params.macAddr with
      | none => (.error .invalidValue, s.eraseSession k)
      | some mac =>
        let s := s.setSession k { s.session k with dstMac := mac }
        match params.ipAddr with
        | none => (.error .invalidValue, s.eraseSession k)
        | some pip => (.ok (), s.setSession k { s.session k with dstPip := pip })

/-- `create_tunnel_flow` from `add_encrypt_entry` on. -/
def endFlow (env : CreateEnv) (k : K) (key : List UInt8) (s : Gateway K) : DocaError × Gateway K :=
  let (result, s) := addEncryptEntry env k key s
  if result ≠ .success then (result, s.eraseSession k) else (.success, s)

def createTunnelFlow (env : CreateEnv) (vip : UInt32)
    (params : TunnelParams) (s : Gateway K) : DocaError × Gateway K :=
  match beginFlow cfg inet vip params s with
  | (.error e, s) => (e, s)
  | (.ok _, s) => endFlow env (inet.ntop vip) params.encryptionKey s

structure GenEnv where
  alloc : Bool
  generate : DocaError
  get : DocaError
  spi : UInt32
  key : Nat → UInt8

def generateTunnelParams (env : GenEnv) (ver : UInt32) : Except DocaError TunnelParams :=
  if env.alloc = false then .error .noMemory
  else if env.generate ≠ .success then .error .ioFailed
  else if env.get ≠ .success then .error .ioFailed
  else .ok {
    macAddr := some cfg.srcMac
    ipAddr := some cfg.srcPip
    pspVersion := ver
    spi := env.spi
    encryptionKey := load env.key 0 (keyLengthBits ver / 8)
    virtCookie := 0x778899aabbccddee }

/-- The answers during a call of `request_tunnel_to_host`; there is no `reply` if the remote call fails. -/
structure RequestEnv where
  gen : GenEnv
  acl : DocaError
  reply : Option TunnelParams
  create : CreateEnv

/-- `request_tunnel_to_host` up to the remote call. -/
def prepareRequest (gen : GenEnv) (acl : DocaError) (host : PspHost)
    (localVirtIp : UInt32) (supplyReverseParams : Bool) (s : Gateway K) :
    Except DocaError (TunnelRequest K) × Gateway K :=
  let s := { s with nextRequestId := s.nextRequestId + 1 }
  let request : TunnelRequest K :=
    ⟨s.nextRequestId, [cfg.defaultPspProtoVer], inet.ntop localVirtIp, inet.ntop host.vip, none⟩
  if supplyReverseParams then
    if localVirtIp = 0 then (.error .invalidValue, s)
    else
      match generateTunnelParams cfg gen cfg.defaultPspProtoVer with
      | .error e => (.error e, s)
      | .ok params =>
        let request := { request with reverseParams := some params }
        if cfg.disableIngressAcl then (.ok request, s)
        else
          let k := inet.ntop host.vip
          let (result, s) := addIngressAclEntry cfg acl k (assignIngress k params.spi host.vip s)
          if result ≠ .success then (.error result, s) else (.ok request, s)
  else (.ok request, s)

def requestTunnelToHost (env : RequestEnv) (host : PspHost)
    (localVirtIp : UInt32) (supplyReverseParams : Bool) (s : Gateway K) : DocaError × Gateway K :=
  match prepareRequest cfg inet env.gen env.acl host localVirtIp supplyReverseParams s with
  | (.error e, s) => (e, s)
  | (.ok _, s) =>
    match env.reply with
    | none => (.ioFailed, s)
    | some params => createTunnelFlow cfg inet env.create host.vip params s

def selectPspVersion (versions : List UInt32) : Option UInt32 := versions.find? isPspVerSupported

inductive GrpcStatus where
  | ok
  | invalidArgument
  | resourceExhausted
  | internal
  | unknown
  deriving DecidableEq

structure ServeEnv where
  gen : GenEnv
  acl : DocaError
  create : CreateEnv

/-- `RequestTunnelParams` up to the return flow: opens the ACL for the peer. -/
def openForPeer (acl : DocaError) (virtSrcIp : K) (spi : UInt32)
    (s : Gateway K) : GrpcStatus × Gateway K :=
  if cfg.disableIngressAcl then (.ok, s)
  else
    match inet.pton virtSrcIp with
    | none =>
      (.invalidArgument, s.setSession virtSrcIp { s.session virtSrcIp with spiIngress := spi })
    | some srcVip =>
      let (result, s) := addIngressAclEntry cfg acl virtSrcIp (assignIngress virtSrcIp spi srcVip s)
      if result ≠ .success then (.internal, s) else (.ok, s)

/-- `RequestTunnelParams`: the status, the parameters of the response, and the gateway. -/
def requestTunnelParams (env : ServeEnv) (request : TunnelRequest K)
    (s : Gateway K) : GrpcStatus × Option TunnelParams × Gateway K :=
  match selectPspVersion request.pspVersionsAccepted with
  | none => (.invalidArgument, none, s)
  | some ver =>
    match generateTunnelParams cfg env.gen ver with
    | .error _ => (.resourceExhausted, none, s)
    | .ok params =>
      match openForPeer cfg inet env.acl request.virtSrcIp params.spi s with
      | (.ok, s) =>
        match request.reverseParams with
        | none => (.ok, some params, s)
        | some reverse =>
          match inet.pton request.virtSrcIp with
          | none => (.invalidArgument, some params, s)
          | some vip =>
            let (result, s) := createTunnelFlow cfg inet env.create vip reverse s
            if result ≠ .success then (.unknown, some params, s) else (.ok, some params, s)
      | (status, s) => (status, some params, s)

structure Packet where
  ipv4 : Bool
  src : UInt32
  dst : UInt32

/-- The answers during a call of `handle_miss_packet`; `reinject` is the result of `reinject_packet`. -/
structure MissEnv extends RequestEnv where
  reinject : Bool

structure MissResult (K : Type) where
  status : DocaError
  requested : Bool
  reinjected : Bool
  gateway : Gateway K

def lookupRemoteHost (dstVip : UInt32) : Option PspHost :=
  cfg.hosts.find? fun host => host.vip = dstVip

def resubmit (env : MissEnv) (requested : Bool) (s : Gateway K) : MissResult K :=
  if env.reinject then ⟨.success, requested, true, s⟩ else ⟨.full, requested, false, s⟩

def handleMissPacket (env : MissEnv) (packet : Packet)
    (s : Gateway K) : MissResult K :=
  if cfg.createTunnelsAtStartup then ⟨.success, false, false, s⟩
  else if packet.ipv4 = false then ⟨.success, false, false, s⟩
  else
    match s.session? (inet.ntop packet.dst) with
    | some _ => resubmit env false s
    | none =>
      match lookupRemoteHost cfg packet.dst with
      | none => ⟨.notFound, false, false, s⟩
      | some host =>
        let (result, s) := requestTunnelToHost cfg inet env.toRequestEnv host packet.src true s
        if result ≠ .success then ⟨result, true, false, s⟩ else resubmit env true s

end Doca.Psp
