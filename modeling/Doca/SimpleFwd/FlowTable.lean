import Doca.Common.Error
import Doca.Lib.Interleaving
import Mathlib.Data.Nat.Log

/-!
# The flow table of the simple forwarding VNF

`simple_fwd_ft.c` and `simple_fwd_handle_packet` of `simple_fwd.c`: flows are kept in buckets that are
chosen by the RSS hash of the packet, found by 24 bytes of their key, added with the first packet of a
flow and taken out by the aging sweep, by the hardware, or when the hardware refuses the flow.

* `keyFill`, `keyEqual` — the key of a packet.
* `Ft`, `ftFind`, `ftAddNew`, `ftDestroyEntry`, `agingFtEntry`, `handlePacket` — the table and its functions.
  An entry carries the number of its addition in place of its address, and the table the log of what was
  added and removed.
* `step` — the calls, one at a time.

Principal results: `keyEqual_iff`; `keysSeparate_iff`; `agingLoop_victim`, `handleNewFlow_failed`.
-/

namespace Doca.SimpleFwd

open Doca.Lib List Function

/-! ## Keys -/

inductive TunType where
  | none
  | vxlan
  | gtpu
  | gre
  | esp
  | mplsOUdp
  | geneve
  | psp
  deriving DecidableEq

def TunType.toUInt8 : TunType → UInt8
  | .none => 0
  | .vxlan => 1
  | .gtpu => 2
  | .gre => 3
  | .esp => 4
  | .mplsOUdp => 5
  | .geneve => 6
  | .psp => 7

def IPV4 : UInt8 := 4
def PROTO_TCP : UInt8 := 6
def PROTO_UDP : UInt8 := 17
def PROTO_GRE : UInt8 := 47

structure PktFormat where
  l3Type : UInt8
  l4Type : UInt8
  srcAddr : UInt32
  dstAddr : UInt32
  l4SrcPort : UInt16
  l4DstPort : UInt16
  deriving DecidableEq

def pinfoSrcPort (fmt : PktFormat) : UInt16 :=
  if fmt.l4Type = PROTO_TCP ∨ fmt.l4Type = PROTO_UDP then fmt.l4SrcPort else 0

def pinfoDstPort (fmt : PktFormat) : UInt16 :=
  if fmt.l4Type = PROTO_TCP ∨ fmt.l4Type = PROTO_UDP then fmt.l4DstPort else 0

structure PktInfo where
  origPortId : UInt16
  pipeQueue : UInt16
  rssHash : UInt32
  outer : PktFormat
  tunType : TunType
  vni : UInt32
  inner : PktFormat
  deriving DecidableEq

structure Key where
  ipv4_1 : UInt32
  ipv4_2 : UInt32
  port_1 : UInt16
  port_2 : UInt16
  vni : UInt32
  protocol : UInt8
  tunType : UInt8
  portId : UInt16
  pad : UInt32
  rssHash : UInt32
  deriving DecidableEq

def keyFill (pinfo : PktInfo) : Option Key :=
  let inner := pinfo.tunType ≠ .none
  if pinfo.outer.l3Type ≠ IPV4 then none
  else
    let fmt := if inner then pinfo.inner else pinfo.outer
    some {
      ipv4_1 := fmt.srcAddr
      ipv4_2 := fmt.dstAddr
      port_1 := pinfoSrcPort fmt
      port_2 := pinfoDstPort fmt
      vni := if inner then pinfo.vni else 0
      protocol := fmt.l4Type
      tunType := if inner then pinfo.tunType.toUInt8 else 0
      portId := pinfo.origPortId
      pad := 0
      rssHash := pinfo.rssHash }

variable {k : Key}

theorem keyFill_rssHash {pinfo : PktInfo} (h : keyFill pinfo = some k) : k.rssHash = pinfo.rssHash := by
  unfold keyFill at h
  dsimp only at h
  split at h <;> cases h
  rfl

def Key.word0 (k : Key) : UInt64 := .ofNat (k.ipv4_1.toNat + 2 ^ 32 * k.ipv4_2.toNat)

def Key.word1 (k : Key) : UInt64 :=
  .ofNat (k.port_1.toNat + 2 ^ 16 * k.port_2.toNat + 2 ^ 32 * k.vni.toNat)

def Key.word2 (k : Key) : UInt64 :=
  .ofNat (k.protocol.toNat + 2 ^ 8 * k.tunType.toNat + 2 ^ 16 * k.portId.toNat + 2 ^ 32 * k.pad.toNat)

def keyEqual (key1 key2 : Key) : Bool :=
  let res := key1.word0 ^^^ key2.word0
  let res := res ||| (key1.word1 ^^^ key2.word1)
  let res := res ||| (key1.word2 ^^^ key2.word2)
  res == 0

/-- What is compared of a key: all but the hash. -/
def Key.compared (k : Key) : Key := { k with rssHash := 0 }

theorem word_inj {a b : Nat} (ha : a < 2 ^ 64) (hb : b < 2 ^ 64)
    (h : UInt64.ofNat a = UInt64.ofNat b) : a = b := by
  have hnat := congrArg UInt64.toNat h
  simp only [UInt64.toNat_ofNat'] at hnat
  rwa [Nat.mod_eq_of_lt ha, Nat.mod_eq_of_lt hb] at hnat

variable {l : Key}

theorem word0_inj (h : k.word0 = l.word0) : k.ipv4_1 = l.ipv4_1 ∧ k.ipv4_2 = l.ipv4_2 := by
  have := k.ipv4_1.toNat_lt
  have := k.ipv4_2.toNat_lt
  have := l.ipv4_1.toNat_lt
  have := l.ipv4_2.toNat_lt
  have heq := word_inj (by omega) (by omega) h
  exact ⟨UInt32.toNat_inj.mp (by omega), UInt32.toNat_inj.mp (by omega)⟩

theorem word1_inj (h : k.word1 = l.word1) : k.port_1 = l.port_1 ∧ k.port_2 = l.port_2 ∧ k.vni = l.vni := by
  have := k.port_1.toNat_lt
  have := k.port_2.toNat_lt
  have := k.vni.toNat_lt
  have := l.port_1.toNat_lt
  have := l.port_2.toNat_lt
  have := l.vni.toNat_lt
  have heq := word_inj (by omega) (by omega) h
  exact ⟨UInt16.toNat_inj.mp (by omega), UInt16.toNat_inj.mp (by omega), UInt32.toNat_inj.mp (by omega)⟩

theorem word2_inj (h : k.word2 = l.word2) :
    k.protocol = l.protocol ∧ k.tunType = l.tunType ∧ k.portId = l.portId ∧ k.pad = l.pad := by
  have := k.protocol.toNat_lt
  have := k.tunType.toNat_lt
  have := k.portId.toNat_lt
  have := k.pad.toNat_lt
  have := l.protocol.toNat_lt
  have := l.tunType.toNat_lt
  have := l.portId.toNat_lt
  have := l.pad.toNat_lt
  have heq := word_inj (by omega) (by omega) h
  exact ⟨UInt8.toNat_inj.mp (by omega), UInt8.toNat_inj.mp (by omega),
    UInt16.toNat_inj.mp (by omega), UInt32.toNat_inj.mp (by omega)⟩

/-- **The three words compare everything but the hash.** -/
theorem keyEqual_iff {key1 key2 : Key} : keyEqual key1 key2 = true ↔ key1.compared = key2.compared := by
  unfold keyEqual
  simp only [beq_iff_eq, UInt64.or_eq_zero_iff, UInt64.xor_eq_zero_iff]
  constructor
  · rintro ⟨⟨h0, h1⟩, h2⟩
    obtain ⟨ha, hb⟩ := word0_inj h0
    obtain ⟨hc, hd, he⟩ := word1_inj h1
    obtain ⟨hf, hg, hh, hi⟩ := word2_inj h2
    simp only [Key.compared, ha, hb, hc, hd, he, hf, hg, hh, hi]
  · intro h
    simp only [Key.compared, Key.mk.injEq] at h
    obtain ⟨ha, hb, hc, hd, he, hf, hg, hh, hi, -⟩ := h
    simp only [Key.word0, Key.word1, Key.word2, ha, hb, hc, hd, he, hf, hg, hh, hi, and_self]

/-! ## Tunnels -/

inductive TunHdr where
  | vxlan (vni : UInt32)
  | gre (key : UInt32) (proto : UInt16)
  | gtpu (msgType flags : UInt8) (teid : UInt32)
  deriving DecidableEq

def TunHdr.type : TunHdr → TunType
  | .vxlan _ => .vxlan
  | .gre _ _ => .gre
  | .gtpu _ _ _ => .gtpu

/-- The first four bytes of the union in `struct simple_fwd_pkt_tun_format`, of which all were zero. -/
def TunHdr.vni : TunHdr → UInt32
  | .vxlan vni => vni
  | .gre key _ => key
  | .gtpu msgType flags _ => .ofNat (msgType.toNat + 2 ^ 8 * flags.toNat)

def TunHdr.tunId : TunHdr → UInt32
  | .vxlan vni => vni
  | .gre key _ => key
  | .gtpu _ _ teid => teid

structure PktInfo.Carries (pinfo : PktInfo) (hdr : TunHdr) : Prop where
  l3Type : pinfo.outer.l3Type = IPV4
  tunType : pinfo.tunType = hdr.type
  vni : pinfo.vni = hdr.vni

def PktFormat.tuple (fmt : PktFormat) : UInt8 × UInt32 × UInt32 × UInt16 × UInt16 :=
  (fmt.l4Type, fmt.srcAddr, fmt.dstAddr, pinfoSrcPort fmt, pinfoDstPort fmt)

/-- The keys of two packets are equal exactly if they are of one inner flow in one tunnel. -/
def KeysSeparate (p q : PktInfo) (a b : TunHdr) : Prop :=
  ∀ k, keyFill p = some k → ∀ l, keyFill q = some l →
    (keyEqual k l = true ↔ p.inner.tuple = q.inner.tuple ∧ a.tunId = b.tunId)

section

variable {p q : PktInfo} {a b : TunHdr}

theorem PktInfo.Carries.keyFill (h : p.Carries a) :
    keyFill p = some ⟨p.inner.srcAddr, p.inner.dstAddr, pinfoSrcPort p.inner, pinfoDstPort p.inner, a.vni,
      p.inner.l4Type, a.type.toUInt8, p.origPortId, 0, p.rssHash⟩ := by
  have htun : p.tunType ≠ .none := by
    rw [h.tunType]
    cases a <;> nofun
  simp only [SimpleFwd.keyFill, h.l3Type, h.tunType, h.vni] at htun ⊢
  simp [htun]

theorem gtpu_vni_inj {m m' f f' : UInt8} {t t' : UInt32} :
    (TunHdr.gtpu m f t).vni = (TunHdr.gtpu m' f' t').vni ↔ m = m' ∧ f = f' := by
  have := m.toNat_lt
  have := m'.toNat_lt
  have := f.toNat_lt
  have := f'.toNat_lt
  simp only [TunHdr.vni, ← UInt32.toNat_inj, UInt32.toNat_ofNat', ← UInt8.toNat_inj]
  omega

/-- **When keys separate tunnels**: the key of a GTP-U packet has its message type and flags where that
of another one has its identifier. -/
theorem keysSeparate_iff (hp : p.Carries a) (hq : q.Carries b) (hport : p.origPortId = q.origPortId)
    (htype : p.tunType = q.tunType) : KeysSeparate p q a b ↔
      ∀ m f t m' f' t', a = .gtpu m f t → b = .gtpu m' f' t' → p.inner.tuple = q.inner.tuple →
        (m = m' ∧ f = f' ↔ t = t') := by
  rw [hp.tunType, hq.tunType] at htype
  have hkeys : KeysSeparate p q a b ↔
      (p.inner.tuple = q.inner.tuple → (a.vni = b.vni ↔ a.tunId = b.tunId)) := by
    unfold KeysSeparate
    rw [hp.keyFill, hq.keyFill]
    simp only [Option.some.injEq, forall_eq', keyEqual_iff, Key.compared, Key.mk.injEq, PktFormat.tuple,
      Prod.mk.injEq, htype, hport]
    tauto
  rw [hkeys]
  cases a <;> cases b <;> cases htype
  case gtpu.gtpu =>
    rw [gtpu_vni_inj]
    constructor
    · rintro h m f t m' f' t' ⟨⟩ ⟨⟩
      exact h
    · exact fun h => h _ _ _ _ _ _ rfl rfl
  all_goals exact iff_of_true (fun _ => Iff.rfl) nofun

end

def tunPkt (hdr : TunHdr) : PktInfo :=
  ⟨0, 0, 7, ⟨IPV4, PROTO_UDP, 1, 2, 3, 4⟩, hdr.type, hdr.vni, ⟨IPV4, PROTO_UDP, 5, 6, 7, 8⟩⟩

theorem tunPkt_carries (hdr : TunHdr) : (tunPkt hdr).Carries hdr := ⟨rfl, rfl, rfl⟩

theorem keysSeparate_vxlan :
    KeysSeparate (tunPkt (.vxlan 1)) (tunPkt (.vxlan 2)) (.vxlan 1) (.vxlan 2) := by
  refine (keysSeparate_iff (tunPkt_carries (.vxlan 1)) (tunPkt_carries (.vxlan 2)) rfl rfl).2 ?_
  rintro m f t m' f' t' ⟨⟩

/-- The tunnels 1 and 2 for GTP-U: the packets have one key. -/
theorem tunnels_conflated :
    let hdr : UInt32 → TunHdr := .gtpu 255 0x30
    (∀ t, (tunPkt (hdr t)).Carries (hdr t)) ∧
      ¬ KeysSeparate (tunPkt (hdr 1)) (tunPkt (hdr 2)) (hdr 1) (hdr 2) := by
  refine ⟨fun t => tunPkt_carries _, fun h => ?_⟩
  exact absurd ((h _ rfl _ rfl).1 (by decide)).2 (by decide)

/-! ## The table -/

/-- `struct simple_fwd_ft_entry` with its `struct simple_fwd_pipe_entry`. An entry has the number of its
addition in place of its address. -/
structure Entry where
  id : Nat
  key : Key
  expiration : UInt64
  ageSec : UInt32
  lastCounter : UInt64
  bucketsIndex : UInt16
  fid : UInt32
  isHw : Bool
  totalPkts : UInt64
  pipeQueue : UInt16
  hwEntry : Option Nat
  deriving DecidableEq

/-- What happened to the table: an entry was added for a packet, or removed. -/
inductive Act where
  | added (id : Nat) (pinfo : PktInfo)
  | removed (id : Nat)
  deriving DecidableEq

def Act.isAdded : Act → Bool
  | .added .. => true
  | .removed _ => false

def additions (log : List Act) : Nat := log.countP Act.isAdded

/-- `struct simple_fwd_ft`, with the log of additions and removals, newest first, and the hardware
entries that the aging callback asked to remove. -/
structure Ft where
  size : UInt32
  mask : UInt32
  buckets : Nat → List Entry
  add : UInt64
  rm : UInt64
  fidCtr : UInt32
  log : List Act
  hwRemoved : List (UInt16 × Option Nat)

def SIMPLE_FWD_MAX_FLOWS : Int := 8096

def align32pow2 (n : UInt32) : UInt32 := .ofNat (2 ^ Nat.clog 2 n.toNat)

def alignFlows (nbFlows : UInt32) : UInt32 :=
  (if nbFlows &&& (nbFlows - 1) ≠ 0 then align32pow2 nbFlows else nbFlows) * 2

def ftCreate (nbFlows : Int) : Option Ft :=
  if nbFlows ≤ 0 then none
  else
    let nbFlowsAligned := alignFlows (.ofNat nbFlows.toNat)
    some ⟨nbFlowsAligned, nbFlowsAligned - 1, fun _ => [], 0, 0, 0, [], []⟩

variable (ft : Ft)

def Ft.idx (rssHash : UInt32) : Nat := (rssHash &&& ft.mask).toNat

variable (e : Entry)

def Ft.write : Ft :=
  { ft with buckets := fun i => (ft.buckets i).map fun x => if x.id = e.id then e else x }

/-- `simple_fwd_ft_update_expiration`, at the time `now` of a clock with `hz` ticks a second. -/
def updateExpiration (hz now : UInt64) (e : Entry) : Entry :=
  if e.ageSec ≠ 0 then { e with expiration := now + hz * e.ageSec.toUInt64 } else e

def agedFlowCb (hwRemoved : List (UInt16 × Option Nat)) : List (UInt16 × Option Nat) :=
  if e.isHw then (e.pipeQueue, e.hwEntry) :: hwRemoved else hwRemoved

/-- `_ft_destroy_entry`; `LIST_REMOVE` unlinks the entry from the list it is in. -/
def ftDestroyEntry : Ft :=
  { ft with
    buckets := fun i => (ft.buckets i).filter fun x => x.id ≠ e.id
    rm := ft.rm + 1
    log := .removed e.id :: ft.log
    hwRemoved := agedFlowCb e ft.hwRemoved }

def Ft.node (key : Key) : Option Entry :=
  (ft.buckets (ft.idx key.rssHash)).find? fun node => keyEqual node.key key

variable (hz : UInt64)

def ftFind (ft : Ft) (pinfo : PktInfo) (now : UInt64) : Except DocaError Entry × Ft :=
  match keyFill pinfo with
  | none => (.error .unexpected, ft)
  | some key =>
    match ft.node key with
    | none => (.error .notFound, ft)
    | some node =>
      let node := updateExpiration hz now node
      (.ok node, ft.write node)

/-- The answers while a packet is handled: the clock at the lookup, whether `calloc` has memory, the
entry and the age of `simple_fwd_pipe_add_entry`, and the clock after it. -/
structure PacketEnv where
  now : UInt64
  calloc : Bool
  hwEntry : Option (Nat × UInt32)
  later : UInt64
  deriving DecidableEq

def newEntry (ft : Ft) (pinfo : PktInfo) (key : Key) (now : UInt64) : Entry :=
  { updateExpiration hz now ⟨additions ft.log, key, 0, 0, 0, 0, 0, false, 0, 0, none⟩ with
    fid := ft.fidCtr
    key := key
    bucketsIndex := UInt16.ofNat (ft.idx pinfo.rssHash) }

def ftAddNew (ft : Ft) (pinfo : PktInfo) (env : PacketEnv) : Except DocaError Entry × Ft :=
  match keyFill pinfo with
  | none => (.error .unexpected, ft)
  | some key =>
    if env.calloc then
      let newE := newEntry hz ft pinfo key env.now
      let idx := ft.idx pinfo.rssHash
      (.ok newE, { ft with
          fidCtr := ft.fidCtr + 1
          buckets := update ft.buckets idx (newE :: ft.buckets idx)
          add := ft.add + 1
          log := .added newE.id pinfo :: ft.log })
    else (.error .noMemory, ft)

def handleNewFlow (ft : Ft) (pinfo : PktInfo) (env : PacketEnv) : Int × Option Entry × Ft :=
  match ftAddNew hz ft pinfo env with
  | (.error _, ft) => (-1, none, ft)
  | (.ok e, ft) =>
    let e := { e with pipeQueue := pinfo.pipeQueue, hwEntry := env.hwEntry.map Prod.fst }
    let ft := ft.write e
    match env.hwEntry with
    | none => (-1, none, ftDestroyEntry ft e)
    | some (_, ageSec) =>
      let e := { updateExpiration hz env.later { e with ageSec := ageSec } with isHw := true }
      (0, some e, ft.write e)

def needNewFt (pinfo : PktInfo) : Bool :=
  pinfo.outer.l3Type = IPV4 ∧
    (pinfo.outer.l4Type = PROTO_TCP ∨ pinfo.outer.l4Type = PROTO_UDP ∨ pinfo.outer.l4Type = PROTO_GRE)

def Ft.countPkt : Ft := ft.write { e with totalPkts := e.totalPkts + 1 }

def handlePacket (ft : Ft) (pinfo : PktInfo) (env : PacketEnv) : Int × Ft :=
  if needNewFt pinfo then
    match ftFind hz ft pinfo env.now with
    | (.ok e, ft) => (0, ft.countPkt e)
    | (.error _, ft) =>
      match handleNewFlow hz ft pinfo env with
      | (_, some e, ft) => (0, ft.countPkt e)
      | (_, none, ft) => (-1, ft)
  else (-1, ft)

structure Reading where
  totalPkts : UInt64
  ok : Bool
  deriving DecidableEq

def updateCounter (query : Reading) (e : Entry) : Bool × Entry :=
  if query.ok then
    (query.totalPkts - e.lastCounter ≠ 0, { e with lastCounter := query.totalPkts })
  else (false, e)

def Entry.Expired (t : UInt64) : Prop := e.ageSec ≠ 0 ∧ e.expiration < t

instance (e : Entry) (t : UInt64) : Decidable (e.Expired t) := by
  unfold Entry.Expired
  infer_instance

/-- The loop of `simple_fwd_ft_aging_ft_entry`: the list with the counters read on the way, and the
entry to remove. -/
def agingLoop (t : UInt64) (query : Nat → Reading) : List Entry → List Entry × Option Entry
  | [] => ([], none)
  | node :: rest =>
    if node.Expired t then
      let (update, node) := updateCounter (query node.id) node
      if update then
        let (rest, victim) := agingLoop t query rest
        (node :: rest, victim)
      else (node :: rest, some node)
    else
      let (rest, victim) := agingLoop t query rest
      (node :: rest, victim)

/-- `simple_fwd_ft_aging_ft_entry`: whether to sweep the bucket again, and the table. -/
def agingFtEntry (i : Nat) (t : UInt64) (query : Nat → Reading) : Bool × Ft :=
  let (bucket, victim) := agingLoop t query (ft.buckets i)
  let ft := { ft with buckets := update ft.buckets i bucket }
  match victim with
  | some node => (true, ftDestroyEntry ft node)
  | none => (false, ft)

inductive Ev where
  | packet (pinfo : PktInfo) (env : PacketEnv)
  | find (pinfo : PktInfo) (now : UInt64)
  | sweep (i : Nat) (t : UInt64) (query : Nat → Reading)
  | destroy (e : Entry)

def Ft.Live : Prop := ∃ i < ft.size.toNat, e ∈ ft.buckets i

instance (ft : Ft) (e : Entry) : Decidable (ft.Live e) := by
  unfold Ft.Live
  infer_instance

def step (ft : Ft) : Ev → Option Ft
  | .packet pinfo env => some (handlePacket hz ft pinfo env).2
  | .find pinfo now => some (ftFind hz ft pinfo now).2
  | .sweep i t query => if i < ft.size.toNat then some (agingFtEntry ft i t query).2 else none
  | .destroy e => if ft.Live e then some (ftDestroyEntry ft e) else none

/-! ## What the functions do -/

section Functions

variable {hz : UInt64} {ft : Ft} {pinfo : PktInfo} {env : PacketEnv}

theorem node_eq_none {key : Key} (h : ft.node key = none) :
    ∀ e ∈ ft.buckets (ft.idx key.rssHash), e.key.compared ≠ key.compared := by
  intro e he heq
  exact find?_eq_none.mp h e he (keyEqual_iff.mpr heq)

variable {e : Entry}

theorem node_eq_some {key : Key} (h : ft.node key = some e) :
    e ∈ ft.buckets (ft.idx key.rssHash) ∧ e.key.compared = key.compared := by
  unfold Ft.node at h
  have hp := find?_some h
  exact ⟨mem_of_find?_eq_some h, keyEqual_iff.mp hp⟩

theorem ftFind_cases (hz : UInt64) (ft : Ft) (pinfo : PktInfo) (now : UInt64) :
    (∃ err, ftFind hz ft pinfo now = (.error err, ft) ∧ ∀ k, keyFill pinfo = some k → ft.node k = none) ∨
    (∃ k node, keyFill pinfo = some k ∧ ft.node k = some node ∧ ftFind hz ft pinfo now =
        (.ok (updateExpiration hz now node), ft.write (updateExpiration hz now node))) := by
  unfold ftFind
  cases hk : keyFill pinfo with
  | none => exact .inl ⟨_, rfl, nofun⟩
  | some k =>
    cases hn : ft.node k with
    | none =>
      refine .inl ⟨.notFound, ?_, ?_⟩
      · simp only [hn]
      · rintro _ ⟨⟩
        exact hn
    | some node => exact .inr ⟨k, node, rfl, hn, by simp only [hn]⟩

@[simp] theorem updateExpiration_id (hz now : UInt64) (e : Entry) :
    (updateExpiration hz now e).id = e.id := by
  unfold updateExpiration
  split <;> rfl

variable {i : Nat}

theorem write_of_ne (h : ∀ x ∈ ft.buckets i, x.id ≠ e.id) : (ft.write e).buckets i = ft.buckets i := by
  have hsame : ∀ x ∈ ft.buckets i, (if x.id = e.id then e else x) = id x :=
    fun x hx => if_neg (h x hx)
  show (ft.buckets i).map _ = _
  rw [map_congr_left hsame, map_id]

theorem mem_write {x : Entry} (hx : x ∈ ft.buckets i) (hid : x.id = e.id) : e ∈ (ft.write e).buckets i :=
  List.mem_map.mpr ⟨x, hx, if_pos hid⟩

theorem destroy_of_ne (h : ∀ x ∈ ft.buckets i, x.id ≠ e.id) :
    (ftDestroyEntry ft e).buckets i = ft.buckets i := by
  refine List.filter_eq_self.mpr fun x hx => ?_
  simpa using h x hx

def Ft.link (ft : Ft) (pinfo : PktInfo) (newE : Entry) : Ft :=
  { ft with
    fidCtr := ft.fidCtr + 1
    buckets := update ft.buckets (ft.idx pinfo.rssHash) (newE :: ft.buckets (ft.idx pinfo.rssHash))
    add := ft.add + 1
    log := .added newE.id pinfo :: ft.log }

theorem mem_link {newE : Entry} : newE ∈ (ft.link pinfo newE).buckets (ft.idx pinfo.rssHash) := by
  show newE ∈ update ft.buckets _ _ _
  rw [update_self]
  exact mem_cons_self

/-- The three ways `simple_fwd_handle_new_flow` ends: nothing was added; the hardware refuses the flow,
and the entry is destroyed; or it stays with its age. -/
theorem handleNewFlow_cases (hz : UInt64) (ft : Ft) (pinfo : PktInfo) (env : PacketEnv) :
    handleNewFlow hz ft pinfo env = (-1, none, ft) ∨
    ∃ k e, keyFill pinfo = some k ∧ e = { newEntry hz ft pinfo k env.now with
        pipeQueue := pinfo.pipeQueue, hwEntry := env.hwEntry.map Prod.fst } ∧
      ((env.hwEntry = none ∧ handleNewFlow hz ft pinfo env =
          (-1, none, ftDestroyEntry ((ft.link pinfo (newEntry hz ft pinfo k env.now)).write e) e)) ∨
        ∃ handle ageSec e', env.hwEntry = some (handle, ageSec) ∧
          e' = { updateExpiration hz env.later { e with ageSec := ageSec } with isHw := true } ∧
          handleNewFlow hz ft pinfo env =
            (0, some e', ((ft.link pinfo (newEntry hz ft pinfo k env.now)).write e).write e')) := by
  unfold handleNewFlow ftAddNew
  cases hk : keyFill pinfo with
  | none => exact .inl rfl
  | some k =>
    dsimp only
    cases hc : env.calloc with
    | false => exact .inl rfl
    | true =>
      refine .inr ⟨k, _, rfl, rfl, ?_⟩
      cases hw : env.hwEntry with
      | none => exact .inl ⟨rfl, rfl⟩
      | some p => exact .inr ⟨p.1, p.2, _, rfl, rfl, rfl⟩

/-- **A flow that the hardware refuses leaves no trace in the buckets.** -/
theorem handleNewFlow_failed (hids : ∀ i, ∀ x ∈ ft.buckets i, x.id < additions ft.log)
    (h : (handleNewFlow hz ft pinfo env).2.1 = none) (i : Nat) :
    (handleNewFlow hz ft pinfo env).2.2.buckets i = ft.buckets i := by
  rcases handleNewFlow_cases hz ft pinfo env with heq | ⟨k, e, -, he, ⟨-, heq⟩ | ⟨_, _, _, -, -, heq⟩⟩
  · rw [heq]
  · rw [heq]
    have hid : e.id = additions ft.log := by rw [he]; rfl
    have hne : ∀ x ∈ ft.buckets i, x.id ≠ e.id := fun x hx => by
      have := hids i x hx
      omega
    by_cases hi : i = ft.idx pinfo.rssHash
    · -- the new entry is the first of its bucket, and `LIST_REMOVE` takes it out again
      subst hi
      have hlink : (ft.link pinfo (newEntry hz ft pinfo k env.now)).buckets (ft.idx pinfo.rssHash) =
          newEntry hz ft pinfo k env.now :: ft.buckets (ft.idx pinfo.rssHash) :=
        update_self ..
      have hold := write_of_ne hne
      unfold Ft.write at hold ⊢
      dsimp only at hold
      unfold ftDestroyEntry
      dsimp only
      rw [hlink, map_cons, hold, if_pos (hid ▸ rfl), filter_cons_of_neg (by simp),
        List.filter_eq_self.mpr fun x hx => by simpa using hne x hx]
    · have hlink : (ft.link pinfo (newEntry hz ft pinfo k env.now)).buckets i = ft.buckets i :=
        update_of_ne hi ..
      rw [destroy_of_ne, write_of_ne, hlink]
      · rwa [hlink]
      · rwa [write_of_ne (by rwa [hlink]), hlink]
  · rw [heq] at h
    cases h

/-! ### The sweep -/

theorem totalPkts_of_false {r : Reading} (hok : r.ok = true) (h : (updateCounter r e).1 = false) :
    r.totalPkts = e.lastCounter := by
  unfold updateCounter at h
  rw [if_pos hok] at h
  have hsub : r.totalPkts - e.lastCounter = 0 := by simpa using h
  grind

theorem updateCounter_eq_of_false {r : Reading} (h : (updateCounter r e).1 = false) :
    (updateCounter r e).2 = e := by
  cases hok : r.ok with
  | true => simp [updateCounter, hok, totalPkts_of_false hok h]
  | false => simp [updateCounter, hok]

def Idle (t : UInt64) (query : Nat → Reading) (e : Entry) : Prop :=
  e.Expired t ∧ (updateCounter (query e.id) e).1 = false

instance (t : UInt64) (query : Nat → Reading) (e : Entry) : Decidable (Idle t query e) := by
  unfold Idle
  infer_instance

theorem agingLoop_victim (t : UInt64) (query : Nat → Reading) (l : List Entry) :
    (agingLoop t query l).2 = l.find? fun e => Idle t query e := by
  induction l with
  | nil => rfl
  | cons node rest ih =>
    unfold agingLoop
    by_cases hexp : node.Expired t
    · rw [if_pos hexp]
      cases hup : (updateCounter (query node.id) node).1 with
      | true =>
        have hidle : ¬ Idle t query node := fun h => absurd (hup.symm.trans h.2) (by decide)
        rw [find?_cons_of_neg (by simpa using hidle)]
        simpa [hup] using ih
      | false =>
        rw [find?_cons_of_pos (by simpa using ⟨hexp, hup⟩)]
        simp [hup, updateCounter_eq_of_false hup]
    · rw [if_neg hexp, find?_cons_of_neg (by simpa using fun h : Idle t query node => hexp h.1)]
      exact ih

def Swept (t : UInt64) (query : Nat → Reading) (e e' : Entry) : Prop :=
  e' = e ∨ (e.Expired t ∧ (query e.id).ok = true ∧ e' = { e with lastCounter := (query e.id).totalPkts })

theorem updateCounter_swept {t : UInt64} {query : Nat → Reading} (h : e.Expired t) :
    Swept t query e (updateCounter (query e.id) e).2 := by
  unfold updateCounter
  split
  · rename_i hok
    exact .inr ⟨h, hok, rfl⟩
  · exact .inl rfl

theorem agingLoop_swept (t : UInt64) (query : Nat → Reading) (l : List Entry) :
    List.Forall₂ (Swept t query) l (agingLoop t query l).1 := by
  induction l with
  | nil => exact .nil
  | cons node rest ih =>
    unfold agingLoop
    by_cases hexp : node.Expired t
    · rw [if_pos hexp]
      dsimp only
      split
      · exact .cons (updateCounter_swept hexp) ih
      · exact .cons (updateCounter_swept hexp) (List.forall₂_same.mpr fun _ _ => .inl rfl)
    · rw [if_neg hexp]
      exact .cons (.inl rfl) ih

end Functions

end Doca.SimpleFwd
